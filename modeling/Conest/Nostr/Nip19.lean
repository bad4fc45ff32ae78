import Conest.Lib.Utf8
import Conest.Nostr.Bech32
import Conest.Nostr.Event

/-!
# Names of Nostr keys

`npub`, `nsec` and `nprofile`, the last of which holds fields, each with its type and its length in
a byte. What `nprofile` writes is read back by `decodeProfile` (`decodeProfile_nprofile`): the key
in lower case, and in their order the relays of the two schemes that fit in a field.
-/

namespace Conest
namespace Nostr
namespace Nip19

open Lib Lib.DartString Bech32 List Option

/-- `Uri`, of the language. -/
structure Uris where
  Uri : Type
  toString : Uri → DartString
  tryParse : DartString → Option Uri
  scheme : Uri → DartString

variable (cases : CaseMapping) (uris : Uris)

/-- What `decodeProfile` returns. -/
structure Profile where
  publicKey : DartString
  relays : List uris.Uri

/-- Whether `^[0-9a-fA-F]{64}$` matches. -/
def isKey (text : DartString) : Bool :=
  decide (text.length = 64) && text.all fun u => (hexNibble u).isSome

def npub (publicKeyHex : DartString) : Option DartString :=
  (hexDecode publicKeyHex).bind fun key => encode (ofString "npub") (key.map UInt8.toNat)

def nsec (secretKey : Bytes) : Option DartString :=
  encode (ofString "nsec") (secretKey.map UInt8.toNat)

/-- The field of a relay: none when its text does not fit. -/
def relayField (relay : uris.Uri) : List ℕ :=
  let bytes := utf8Encode (uris.toString relay)
  if bytes.length < 256 then 1 :: bytes.length :: bytes.map UInt8.toNat else []

/-- None where it throws: no hexadecimal key, or one whose length is no byte. -/
def nprofile (publicKeyHex : DartString) (relays : List uris.Uri) : Option DartString :=
  (hexDecode publicKeyHex).bind fun key =>
    encode (ofString "nprofile")
      (0 :: key.length :: (key.map UInt8.toNat ++ relays.flatMap (relayField uris)))

/-- The loop over the fields, with the key and the relays read so far. -/
def readFields (key : Option DartString) (relays : List uris.Uri) :
    Bytes → Option (Option DartString × List uris.Uri)
  | type :: length :: data =>
    if length.toNat > data.length then none
    else
      let value := data.take length.toNat
      let rest := data.drop length.toNat
      if type = 0 then
        if length ≠ 32 then none else readFields (some (hexEncode value)) relays rest
      else if type = 1 then
        match uris.tryParse (utf8DecodeMalformed value) with
        | none => readFields key relays rest
        | some uri =>
          if uris.scheme uri = ofString "wss" ∨ uris.scheme uri = ofString "ws" then
            readFields key (relays ++ [uri]) rest
          else readFields key relays rest
      else readFields key relays rest
  | _ => some (key, relays)
termination_by data => data.length

def decodeProfile (input : DartString) : Option (Profile uris) :=
  let trimmed := trim input
  let text :=
    if ofString "nostr:" <+: cases.toLowerCase trimmed then trimmed.drop 6 else trimmed
  if isKey text then some ⟨cases.toLowerCase text, []⟩
  else
    match decode cases text with
    | none => none
    | some (pre, data) =>
      if pre = ofString "npub" then
        if data.length ≠ 32 then none else some ⟨hexEncode data, []⟩
      else if pre ≠ ofString "nprofile" then none
      else
        match readFields uris none [] data with
        | some (some key, relays) => some ⟨key, relays⟩
        | _ => none

def decodeSecret (input : DartString) : Option Bytes :=
  let text := trim input
  if isKey text then hexDecode text
  else
    match decode cases text with
    | some (pre, data) => if pre ≠ ofString "nsec" ∨ data.length ≠ 32 then none else some data
    | none => none

/-! ### Hexadecimal keys -/

theorem hexDigit_of_hexNibble {u : Fin 65536} {n : ℕ} (h : hexNibble u = some n) :
    n < 16 ∧ u.val < 128 ∧ hexDigit n = asciiLower u := by
  unfold hexNibble isDigit at h
  split at h
  · next hdigit =>
    obtain rfl : u.val - 48 = n := some.inj h
    have hrange : 48 ≤ u.val ∧ u.val ≤ 57 := by simpa using hdigit
    refine ⟨by omega, by omega, Fin.ext ?_⟩
    rw [asciiLower, if_neg (by omega), hexDigit, if_pos (by omega), Fin.val_ofNat]
    omega
  split at h
  · next hlower =>
    obtain rfl : u.val - 87 = n := some.inj h
    refine ⟨by omega, by omega, Fin.ext ?_⟩
    rw [asciiLower, if_neg (by omega), hexDigit, if_neg (by omega), Fin.val_ofNat]
    omega
  split at h
  · next hupper =>
    obtain rfl : u.val - 55 = n := some.inj h
    refine ⟨by omega, by omega, Fin.ext ?_⟩
    rw [asciiLower, if_pos (by omega), hexDigit, if_neg (by omega), Fin.val_ofNat,
      Fin.val_ofNat]
    omega
  · cases h

theorem hexEncode_of_hexDecode {text : DartString} {bytes : Bytes}
    (h : hexDecode text = some bytes) :
    hexEncode bytes = text.map asciiLower ∧ ∀ u ∈ text, u.val < 128 := by
  induction text using hexDecode.induct generalizing bytes with
  | case1 =>
    obtain rfl : [] = bytes := some.inj h
    exact ⟨rfl, fun u hu => absurd hu not_mem_nil⟩
  | case2 u => cases h
  | case3 high low rest a b more hmore hb ha ih =>
    rw [hexDecode, ha, hb, hmore] at h
    obtain rfl : UInt8.ofNat (16 * a + b) :: more = bytes := some.inj h
    obtain ⟨ha, hsmall, hhigh⟩ := hexDigit_of_hexNibble ha
    obtain ⟨hb, hsmall', hlow⟩ := hexDigit_of_hexNibble hb
    obtain ⟨htext, hall⟩ := ih hmore
    have hbyte : (UInt8.ofNat (16 * a + b)).toNat = 16 * a + b :=
      UInt8.toNat_ofNat_of_lt' (show 16 * a + b < 256 by omega)
    refine ⟨?_, forall_mem_cons.mpr ⟨hsmall, forall_mem_cons.mpr ⟨hsmall', hall⟩⟩⟩
    calc hexEncode (UInt8.ofNat (16 * a + b) :: more)
        = [hexDigit ((16 * a + b) / 16), hexDigit ((16 * a + b) % 16)] ++ hexEncode more := by
          unfold hexEncode hex
          rw [map_cons, flatMap_cons, hbyte]
      _ = (high :: low :: rest).map asciiLower := by
          rw [show (16 * a + b) / 16 = a by omega, show (16 * a + b) % 16 = b by omega, hhigh,
            hlow, htext]
          rfl
  | case4 high low rest hnone ih =>
    -- a digit is none, or what is behind it is not read
    rw [hexDecode] at h
    split at h
    next a b more ha hb hmore => exact absurd hmore fun hmore => hnone a b more ha hb hmore
    · cases h

theorem exists_of_hexDigits {text : DartString} {n : ℕ} (hlength : text.length = 2 * n)
    (h : ∀ u ∈ text, (hexNibble u).isSome = true) :
    ∃ bytes, hexDecode text = some bytes ∧ bytes.length = n := by
  induction n generalizing text with
  | zero =>
    rw [length_eq_zero_iff.mp hlength]
    exact ⟨[], rfl, rfl⟩
  | succ n ih =>
  obtain ⟨high, low, rest, rfl⟩ : ∃ high low rest, text = high :: low :: rest := by
    match text, hlength with
    | high :: low :: rest, _ => exact ⟨high, low, rest, rfl⟩
    | [_], hlength => simp at hlength; omega
  obtain ⟨hhigh, hrest⟩ := forall_mem_cons.mp h
  obtain ⟨hlow, hrest⟩ := forall_mem_cons.mp hrest
  obtain ⟨bytes, hbytes, hcount⟩ := ih (by simpa [Nat.mul_add] using hlength) hrest
  obtain ⟨a, ha⟩ := isSome_iff_exists.mp hhigh
  obtain ⟨b, hb⟩ := isSome_iff_exists.mp hlow
  refine ⟨UInt8.ofNat (16 * a + b) :: bytes, ?_, by rw [length_cons, hcount]⟩
  rw [hexDecode, ha, hb, hbytes]

theorem hexDecode_of_isKey {cases : CaseMapping} (law : cases.Lawful) {text : DartString}
    (h : isKey text = true) :
    ∃ key, hexDecode text = some key ∧ key.length = 32 ∧
      hexEncode key = cases.toLowerCase text := by
  rw [isKey, Bool.and_eq_true, decide_eq_true_iff, List.all_eq_true] at h
  obtain ⟨key, hkey, hlength⟩ := @exists_of_hexDigits text 32 h.1 h.2
  obtain ⟨htext, hascii⟩ := hexEncode_of_hexDecode hkey
  exact ⟨key, hkey, hlength, by rw [htext, law.of_ascii hascii]⟩

/-! ### Profiles -/

/-- What the code relies on of `Uri`: parsing inverts printing, and what is printed is ASCII. -/
structure Uris.Lawful (uris : Uris) : Prop where
  tryParse_toString : ∀ uri, uris.tryParse (uris.toString uri) = some uri
  ascii : ∀ uri, ∀ u ∈ uris.toString uri, u.val < 128

variable {cases uris}

/-- The relays that a profile keeps. -/
def keeps (uris : Uris) (relay : uris.Uri) : Bool :=
  decide ((utf8Encode (uris.toString relay)).length < 256) &&
    decide (uris.scheme relay = ofString "wss" ∨ uris.scheme relay = ofString "ws")

/-- A field, as bytes. -/
def fieldBytes (type : UInt8) (value : Bytes) : Bytes := type :: UInt8.ofNat value.length :: value

/-- The bytes of a relay's field. -/
def relayBytes (uris : Uris) (relay : uris.Uri) : Bytes :=
  let bytes := utf8Encode (uris.toString relay)
  if bytes.length < 256 then fieldBytes 1 bytes else []

theorem toNat_fieldBytes (type : UInt8) {value : Bytes} (h : value.length < 256) :
    (fieldBytes type value).map UInt8.toNat =
      type.toNat :: value.length :: value.map UInt8.toNat := by
  rw [fieldBytes, map_cons, map_cons, UInt8.toNat_ofNat_of_lt' h]

theorem toNat_relayBytes (relay : uris.Uri) :
    (relayBytes uris relay).map UInt8.toNat = relayField uris relay := by
  unfold relayBytes relayField
  dsimp only
  split
  next hfits => exact toNat_fieldBytes 1 hfits
  · rfl

theorem toNat_relays (relays : List uris.Uri) :
    (relays.flatMap (relayBytes uris)).map UInt8.toNat = relays.flatMap (relayField uris) := by
  rw [map_flatMap]
  exact congrArg (relays.flatMap ·) (funext toNat_relayBytes)

theorem readFields_field {key : Option DartString} {relays : List uris.Uri} {type : UInt8}
    {value : Bytes} (h : value.length < 256) (rest : Bytes) :
    readFields uris key relays (fieldBytes type value ++ rest) =
      if type = 0 then
        if UInt8.ofNat value.length ≠ 32 then none
        else readFields uris (some (hexEncode value)) relays rest
      else if type = 1 then
        match uris.tryParse (utf8DecodeMalformed value) with
        | none => readFields uris key relays rest
        | some uri =>
          if uris.scheme uri = ofString "wss" ∨ uris.scheme uri = ofString "ws" then
            readFields uris key (relays ++ [uri]) rest
          else readFields uris key relays rest
      else readFields uris key relays rest := by
  have hcount : (UInt8.ofNat value.length).toNat = value.length := UInt8.toNat_ofNat_of_lt' h
  have hlong : ¬ (UInt8.ofNat value.length).toNat > (value ++ rest).length := by
    rw [length_append]
    omega
  rw [fieldBytes, cons_append, cons_append, readFields, if_neg hlong, hcount]
  rw [take_left, drop_left]

theorem utf8_toString (law : uris.Lawful) (relay : uris.Uri) :
    utf8DecodeMalformed (utf8Encode (uris.toString relay)) = uris.toString relay := by
  rw [utf8DecodeMalformed_utf8Encode (wellFormed_of_small fun u hu =>
    (law.ascii relay u hu).trans (by decide))]
  refine dropMark_eq_self.mpr fun hmark => ?_
  have hsmall := law.ascii relay _ (mem_of_mem_head? (mem_def.mpr hmark))
  exact absurd hsmall (by decide)

theorem readFields_relays (law : uris.Lawful) (key : Option DartString)
    (seen relays : List uris.Uri) :
    readFields uris key seen (relays.flatMap (relayBytes uris)) =
      some (key, seen ++ relays.filter (keeps uris)) := by
  induction relays generalizing seen with
  | nil =>
    rw [filter_nil, append_nil, readFields]
    exact fun type length data h => by cases h
  | cons relay relays ih =>
  rw [flatMap_cons]
  by_cases hfits : (utf8Encode (uris.toString relay)).length < 256
  · have hbytes : relayBytes uris relay = fieldBytes 1 (utf8Encode (uris.toString relay)) :=
      if_pos hfits
    rw [hbytes, readFields_field hfits, if_neg (by decide), if_pos rfl, utf8_toString law,
      law.tryParse_toString]
    dsimp only
    by_cases hscheme : uris.scheme relay = ofString "wss" ∨ uris.scheme relay = ofString "ws"
    · have hkeeps : keeps uris relay = true := by
        rw [keeps, decide_eq_true hfits, decide_eq_true hscheme, Bool.and_self]
      rw [if_pos hscheme, ih, filter_cons_of_pos hkeeps, append_assoc]
      rfl
    · have hkeeps : ¬ keeps uris relay = true := by
        rw [keeps, decide_eq_false hscheme, Bool.and_false]
        exact Bool.false_ne_true
      rw [if_neg hscheme, ih, filter_cons_of_neg hkeeps]
  · have hbytes : relayBytes uris relay = [] := if_neg hfits
    have hkeeps : ¬ keeps uris relay = true := by
      rw [keeps, decide_eq_false hfits]
      exact Bool.false_ne_true
    rw [hbytes, nil_append, ih, filter_cons_of_neg hkeeps]

theorem plain_of_name (law : cases.Lawful) {name : DartString} (hfirst : name[0]? = some 110)
    (hsecond : name[1]? ≠ some 111) (hlower : ∀ u ∈ name, IsLower u)
    (hspace : ∀ u ∈ name, isWhitespace u = false) :
    trim name = name ∧ ¬ ofString "nostr:" <+: cases.toLowerCase name ∧ isKey name = false := by
  refine ⟨trim_of_ends (fun u hu => hspace u (mem_of_mem_head? hu))
    (fun u hu => hspace u (mem_of_mem_getLast? hu)), fun hscheme => ?_, ?_⟩
  · rw [law.of_lower hlower] at hscheme
    obtain ⟨rest, rfl⟩ := hscheme
    exact hsecond rfl
  · have hmem : (110 : Fin 65536) ∈ name := mem_of_getElem? hfirst
    have hall : ¬ (name.all fun u => (hexNibble u).isSome) = true := fun h =>
      absurd (all_eq_true.mp h 110 hmem) (by decide)
    rw [isKey, Bool.eq_false_iff.mpr hall, Bool.and_false]

theorem not_space_charset : ∀ u ∈ charset, isWhitespace u = false := by
  intro u hu
  have hall : (charset.all fun u => !isWhitespace u) = true := by decide +kernel
  exact Bool.not_eq_true' _ ▸ all_eq_true.mp hall u hu

theorem chars_of_name {pre : DartString} {bytes : Bytes} {name : DartString}
    (hname : encode pre (bytes.map UInt8.toNat) = some name)
    (hpre : ∀ u ∈ pre, IsLower u ∧ isWhitespace u = false) :
    (∃ rest, name = pre ++ 49 :: rest) ∧ ∀ u ∈ name, IsLower u ∧ isWhitespace u = false := by
  obtain ⟨data, hdata, -, -, hencode⟩ := encode_eq pre bytes
  obtain rfl : pre ++ 49 :: chars (data ++ checksum pre data) = name :=
    some.inj (hencode.symm.trans hname)
  have hall : ∀ v ∈ data ++ checksum pre data, v < 32 := fun v hv =>
    (mem_append.mp hv).elim (hdata v) (checksum_lt pre data v)
  refine ⟨⟨_, rfl⟩, fun u hu => ?_⟩
  rcases mem_append.mp hu with hu | hu
  · exact hpre u hu
  · rcases mem_cons.mp hu with rfl | hu
    · decide
    · exact ⟨(isLower_chars hall u hu).1, not_space_charset u (mem_charset_of_chars hall hu)⟩

theorem lower_nprofile : ∀ u ∈ ofString "nprofile", IsLower u ∧ isWhitespace u = false := by
  have hall : ((ofString "nprofile").all fun u => decide (IsLower u ∧ isWhitespace u = false)) =
      true := by decide +kernel
  exact fun u hu => of_decide_eq_true (all_eq_true.mp hall u hu)

theorem nprofile_eq {key : DartString} {bytes : Bytes} (hread : hexDecode key = some bytes)
    (hlength : bytes.length < 256) (relays : List uris.Uri) :
    nprofile uris key relays =
      encode (ofString "nprofile")
        ((fieldBytes 0 bytes ++ relays.flatMap (relayBytes uris)).map UInt8.toNat) := by
  rw [nprofile, hread, map_append, toNat_relays, toNat_fieldBytes 0 hlength]
  rfl

theorem decodeProfile_of_name (law : cases.Lawful) {bytes : Bytes} {name : DartString}
    (hname : encode (ofString "nprofile") (bytes.map UInt8.toNat) = some name) :
    decodeProfile cases uris name =
      match decode cases name with
      | none => none
      | some (pre, data) =>
        if pre = ofString "npub" then
          if data.length ≠ 32 then none else some ⟨hexEncode data, []⟩
        else if pre ≠ ofString "nprofile" then none
        else
          match readFields uris none [] data with
          | some (some key, relays) => some ⟨key, relays⟩
          | _ => none := by
  have hsecond (rest : DartString) : (ofString "nprofile" ++ 49 :: rest)[1]? ≠ some 111 := by
    change some (112 : Fin 65536) ≠ some 111
    decide
  obtain ⟨⟨rest, hrest⟩, hall⟩ := chars_of_name hname lower_nprofile
  obtain ⟨htrim, hscheme, hno⟩ := plain_of_name law (by rw [hrest]; rfl)
    (by rw [hrest]; exact hsecond rest) (fun u hu => (hall u hu).1) (fun u hu => (hall u hu).2)
  unfold decodeProfile
  dsimp only
  rw [htrim, if_neg hscheme, if_neg (by rw [hno]; exact Bool.false_ne_true)]

/-- **A profile is read back**: the key in lower case, and the relays that it keeps. -/
theorem decodeProfile_nprofile (caseLaw : cases.Lawful) (law : uris.Lawful) {key : DartString}
    (hkey : isKey key = true) (relays : List uris.Uri) :
    ∃ name, nprofile uris key relays = some name ∧
      (name.length ≤ 5000 → decodeProfile cases uris name =
        some ⟨cases.toLowerCase key, relays.filter (keeps uris)⟩) := by
  obtain ⟨bytes, hread, hlength, hwritten⟩ := hexDecode_of_isKey caseLaw hkey
  obtain ⟨name, hname, hdecode⟩ := @decode_encode cases caseLaw (ofString "nprofile") (by decide)
    (caseLaw.of_lower fun u hu => (lower_nprofile u hu).1)
    (fieldBytes 0 bytes ++ relays.flatMap (relayBytes uris))
  refine ⟨name, (nprofile_eq hread (by omega) relays).trans hname, fun hshort => ?_⟩
  have hfields : readFields uris none [] (fieldBytes 0 bytes ++ relays.flatMap (relayBytes uris)) =
      some (some (cases.toLowerCase key), relays.filter (keeps uris)) := by
    rw [readFields_field (by omega), if_pos rfl, hlength, if_neg (by decide),
      readFields_relays law, hwritten, nil_append]
  rw [decodeProfile_of_name caseLaw hname, hdecode hshort]
  dsimp only
  rw [if_neg (by decide), if_neg (by decide), hfields]

theorem decodeProfile_of_long (law : cases.Lawful) {bytes : Bytes} {name : DartString}
    (hname : encode (ofString "nprofile") (bytes.map UInt8.toNat) = some name)
    (hlong : 5000 < name.length) : decodeProfile cases uris name = none := by
  have hdecode : decode cases name = none := by
    unfold decode
    rw [if_pos (.inl hlong)]
  rw [decodeProfile_of_name law hname, hdecode]

/-! ### What holds of names -/

/-- **Names are read back, and errors in them are found**: a prefix and bytes, where the name is not
too long; another character behind the separator; what is accepted is the name of what it is read
as; a profile of a key and relays. -/
theorem names_are_read (caseLaw : cases.Lawful) (law : uris.Lawful) :
    (∀ pre : DartString, pre ≠ [] → cases.toLowerCase pre = pre → ∀ bytes : Bytes,
      ∃ name, encode pre (bytes.map UInt8.toNat) = some name ∧
        (name.length ≤ 5000 → decode cases name = some (pre, bytes))) ∧
    (∀ (pre : DartString) (bytes : Bytes) (name : DartString), cases.toLowerCase pre = pre →
      encode pre (bytes.map UInt8.toNat) = some name →
      ∀ (i : ℕ) (u : Fin 65536), pre.length < i → i < name.length → u ∈ charset →
        name[i]? ≠ some u → decode cases (name.set i u) = none) ∧
    (∀ (input pre : DartString) (bytes : Bytes), decode cases input = some (pre, bytes) →
      encode pre (bytes.map UInt8.toNat) = some (cases.toLowerCase input)) ∧
    (∀ (key : DartString) (relays : List uris.Uri), isKey key = true →
      ∃ name, nprofile uris key relays = some name ∧
        (name.length ≤ 5000 → decodeProfile cases uris name =
          some ⟨cases.toLowerCase key, relays.filter (keeps uris)⟩)) := by
  refine ⟨fun pre hpre hlower bytes => decode_encode caseLaw hpre hlower bytes, ?_, ?_, ?_⟩
  · intro pre bytes name hlower hname i u hi hlt hu hne
    exact decode_set caseLaw hlower hname hi hlt hu hne
  · exact fun input pre bytes h => encode_of_decode h
  · exact fun key relays hkey => decodeProfile_nprofile caseLaw law hkey relays

section Runs

/-- The mapping of ASCII. -/
def asciiCases : CaseMapping where
  toLowerCase s := s.map asciiLower
  toUpperCase s := s.map fun u =>
    if 97 ≤ u.val ∧ u.val ≤ 122 then Fin.ofNat 65536 (u.val - 32) else u

theorem asciiCases_lawful : asciiCases.Lawful where
  nil := rfl
  ascii s t u _ := by
    change (s ++ u :: t).map asciiLower = s.map asciiLower ++ asciiLower u :: t.map asciiLower
    rw [map_append, map_cons]

/-- Addresses that are their text, in ASCII. -/
def asciiUris : Uris where
  Uri := { text : DartString // (text.all fun u => decide (u.val < 128)) = true }
  toString uri := uri.val
  tryParse text :=
    if h : (text.all fun u => decide (u.val < 128)) = true then some ⟨text, h⟩ else none
  scheme uri := uri.val.takeWhile fun u => u != 58

theorem asciiUris_lawful : asciiUris.Lawful where
  tryParse_toString uri := dif_pos uri.property
  ascii uri u hu := of_decide_eq_true (all_eq_true.mp uri.property u hu)

def relay : asciiUris.Uri := ⟨ofString "wss://relay.example", by decide +kernel⟩

/-- The key of these profiles. -/
def key : DartString := List.replicate 64 97

theorem names_in_ascii :
    (∃ name, encode (ofString "nsec") [1, 2] = some name ∧
      (name.length ≤ 5000 → decode asciiCases name = some (ofString "nsec", [1, 2]))) ∧
    (∃ name, nprofile asciiUris key [relay] = some name ∧
      (name.length ≤ 5000 →
        decodeProfile asciiCases asciiUris name = some ⟨key, [relay]⟩)) := by
  obtain ⟨hname, -, -, hprofile⟩ := names_are_read asciiCases_lawful asciiUris_lawful
  have hlower : asciiCases.toLowerCase key = key := by decide +kernel
  have hkeeps : [relay].filter (keeps asciiUris) = [relay] := by
    rw [filter_cons_of_pos (by decide +kernel), filter_nil]
  refine ⟨hname _ (by decide) (by decide +kernel) [1, 2], ?_⟩
  have hread := hprofile key [relay] (by decide +kernel)
  rwa [hkeeps] at hread

/-- The empty prefix is in lower case and is not read back; neither is a profile of so many relays
that its name is too long. -/
theorem names_not_read :
    (∃ name, asciiCases.toLowerCase [] = [] ∧ encode [] [] = some name ∧ name.length ≤ 5000 ∧
      decode asciiCases name = none) ∧
    (∃ name, nprofile asciiUris key (List.replicate 150 relay) = some name ∧
      decodeProfile asciiCases asciiUris name = none) := by
  constructor
  · have hrun : (encode [] []).map (fun name => (name.length, decode asciiCases name)) =
        some (7, none) := by decide +kernel
    obtain ⟨name, hname, hread⟩ := map_eq_some_iff.mp hrun
    obtain ⟨hlength, hdecode⟩ := Prod.mk.inj hread
    exact ⟨name, rfl, hname, by omega, hdecode⟩
  obtain ⟨bytes, hread, hlength⟩ : ∃ bytes, hexDecode key = some bytes ∧ bytes.length = 32 := by
    have hrun : (hexDecode key).map length = some 32 := by decide +kernel
    obtain ⟨bytes, hbytes, hlength⟩ := map_eq_some_iff.mp hrun
    exact ⟨bytes, hbytes, hlength⟩
  obtain ⟨data, hdata, -, hconvert, hencode⟩ := encode_eq (ofString "nprofile")
    (fieldBytes 0 bytes ++ (replicate 150 relay).flatMap (relayBytes asciiUris))
  refine ⟨_, (nprofile_eq hread (by omega) _).trans hencode,
    decodeProfile_of_long asciiCases_lawful hencode ?_⟩
  -- the characters hold the bits of all fields
  have hbits := length_convert hconvert (toNat_lt _)
  have hrelay : (relayBytes asciiUris relay).length = 21 := by decide +kernel
  have hfields : ((replicate 150 relay).flatMap (relayBytes asciiUris)).length = 3150 := by
    rw [length_flatMap, map_replicate, sum_replicate, hrelay]
    rfl
  simp only [length_map, length_append, fieldBytes, length_cons, hlength,
    hfields] at hbits
  simp only [length_append, length_cons, chars, length_map]
  omega

end Runs

end Nip19
end Nostr
end Conest
