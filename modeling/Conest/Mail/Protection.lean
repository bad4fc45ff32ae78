import Conest.Mail.DeltaMail
import Conest.Mail.KeptKey

/-!
# Outer header fields

An encrypted mail travels in a mail whose header fields anyone on the way may write. Of these the
merged fields have those of a routing name that the content does not carry, and no others
(`raw_protectedHeaders`). What is read of the content looks fields up by their name
(`readContent_alike`). So two mails around one message that agree on who they are from are read
alike when they agree on the routing fields that are missing inside, whatever else they carry
(`read_eq_of_missing`).
-/

open Lib DartString List Option

namespace Conest
namespace Mail

namespace MimeHeaders

theorem raw_append (a b : List (DartString × DartString)) (name : DartString) :
    raw ⟨a ++ b⟩ name = raw ⟨a⟩ name ++ raw ⟨b⟩ name := by
  rw [raw, filter_append, map_append]
  rfl

theorem raw_filter (fields : List (DartString × DartString)) (name : DartString)
    (keep : DartString → Prop) [DecidablePred keep] :
    raw ⟨fields.filter fun field => keep (nameOf field)⟩ name =
      if keep (toLowerCase name) then raw ⟨fields⟩ name else [] := by
  unfold raw
  rw [List.filter_filter]
  split
  case isTrue hkeep =>
    congr 1
    refine List.filter_congr fun field _ => ?_
    by_cases hname : nameOf field = toLowerCase name
    · simp [hname, hkeep]
    · simp [hname]
  case isFalse hnot =>
    rw [List.filter_eq_nil_iff.mpr, List.map_nil]
    intro field _ hboth
    simp only [Bool.and_eq_true, decide_eq_true_eq] at hboth
    exact hnot (hboth.1 ▸ hboth.2)

theorem isSome_get? (headers : MimeHeaders) (decodeMimeWords : DartString → DartString)
    (name : DartString) :
    (headers.get? decodeMimeWords name).isSome = decide (headers.Carries name) := by
  rw [get?_eq]
  by_cases hcarries : headers.Carries name
  · have hne : headers.raw name ≠ [] := fun hnil => raw_eq_nil.mp hnil hcarries
    rw [decide_eq_true hcarries]
    cases hraw : headers.raw name with
    | nil => exact absurd hraw hne
    | cons value values => rfl
  · rw [raw_eq_nil.mpr hcarries, decide_eq_false hcarries]
    rfl

end MimeHeaders

namespace DeltaMail

/-- **What the merged fields give for a name**: the outer fields of a routing name that the content
does not carry, and what the content has unless it is about how the content is written. -/
theorem raw_protectedHeaders (outer content : MimeHeaders) (name : DartString) :
    (protectedHeaders outer content).raw name =
      (if ¬ content.Carries name ∧ toLowerCase name ∈ routingNames then outer.raw name else []) ++
        (if toLowerCase name ∉ contentNames then content.raw name else []) := by
  rw [protectedHeaders, MimeHeaders.raw_append]
  congr 1
  · exact MimeHeaders.raw_filter outer.fields name fun name =>
      name ∉ content.fields.map MimeHeaders.nameOf ∧ name ∈ routingNames
  · exact MimeHeaders.raw_filter content.fields name fun name => name ∉ contentNames

theorem toLowerCase_of_mem {name : DartString} (h : name ∈ routingNames) :
    toLowerCase name = name := by
  revert name
  decide

/-- What a mail is to someone who looks its fields up by name. -/
def view (mail : DeltaIncoming) : DeltaIncoming × (DartString → List DartString) :=
  ({ mail with headers := ⟨[]⟩ }, mail.headers.raw)

/-- Two results that differ at most in the order of header fields of different names. -/
def Alike (a b : Option DeltaIncoming) : Prop := a.map view = b.map view

theorem Alike.refl (a : Option DeltaIncoming) : Alike a a := rfl

theorem Alike.bind {α : Type} (a : Option α) {f g : α → Option DeltaIncoming}
    (h : ∀ value, Alike (f value) (g value)) : Alike (a.bind f) (a.bind g) := by
  cases a with
  | none => rfl
  | some value => exact h value

theorem Alike.ite {p q : Prop} [Decidable p] [Decidable q] (hiff : p ↔ q)
    {a b c d : Option DeltaIncoming} (hac : Alike a c) (hbd : Alike b d) :
    Alike (if p then a else b) (if q then c else d) := by
  split
  next hp =>
    rw [if_pos (hiff.mp hp)]
    exact hac
  next hp =>
    rw [if_neg (mt hiff.mpr hp)]
    exact hbd

variable {t : Tools}

/-- **Only lookups by name** decide what is read of a content, but for the fields themselves. -/
theorem readContent_alike {length length' : ℕ} (hlength : length ≤ maxBytes)
    (hlength' : length' ≤ maxBytes) {headers headers' : MimeHeaders}
    (h : MimeHeaders.SameLookups headers headers') (outerFrom : DartString) (postMessage : Bool)
    (content : MimeEntity) (decrypted : Option PgpDecrypted) (password : Option DartString) :
    Alike (readContent t length outerFrom postMessage headers content decrypted password)
      (readContent t length' outerFrom postMessage headers' content decrypted password) := by
  have hget := h.get? t.decodeMimeWords
  have hto : addressees t headers = addressees t headers' := by rw [addressees, addressees, h]
  have hshow : presentation t headers = presentation t headers' := by
    rw [presentation, presentation, hget, hget, hget]
  have hview : headers.raw = headers'.raw := funext h
  unfold readContent
  rw [hto, hshow, h]
  simp only [hget]
  -- both read the same up to the end, where the fields themselves are put in
  refine Alike.ite Iff.rfl (Alike.refl _) (Alike.bind _ fun sender => ?_)
  refine Alike.ite Iff.rfl (Alike.refl _) (Alike.bind _ fun receiptsFor => ?_)
  refine Alike.bind _ fun walked => Alike.ite ?_ (Alike.refl _) (Alike.bind _ fun messageId => ?_)
  · have hnot : ¬ maxBytes < length := not_lt.mpr hlength
    have hnot' : ¬ maxBytes < length' := not_lt.mpr hlength'
    simp[hnot, hnot', false_and]
  refine Alike.bind _ fun date => ?_
  unfold Alike
  rw [Option.map_map, Option.map_map]
  congr 1
  funext text
  simp[Function.comp_apply, view, hview]

/-! ### Two mails around one message -/

/-- Two outer mails around the same parts, of the same type and from the same address, that agree on
whether they are a post message. -/
structure SameOutside (t : Tools) (outer outer' : MimeEntity) : Prop where
  mimeType : outer.mimeType = outer'.mimeType
  parts : outer.parts = outer'.parts
  sender : parseMailAddress (outer.headers.get? t.decodeMimeWords (ofString "from")) =
    parseMailAddress (outer'.headers.get? t.decodeMimeWords (ofString "from"))
  postMessage : outer.headers.Carries (ofString "chat-is-post-message") ↔
    outer'.headers.Carries (ofString "chat-is-post-message")

theorem read_encrypted {mail : Bytes} {outer : MimeEntity}
    (hmail : t.parseEntity DeltaLimits.fileMailBytes mail = some outer)
    (hsize : mail.length ≤ maxBytes)
    (hencrypted : outer.mimeType = ofString "multipart/encrypted") :
    read t mail =
      (parseMailAddress (outer.headers.get? t.decodeMimeWords (ofString "from"))).bind
        fun outerFrom => (openParts t outer.parts).bind fun opened =>
          readContent t mail.length outerFrom
            (decide (outer.headers.Carries (ofString "chat-is-post-message")))
            (protectedHeaders outer.headers opened.content.headers) opened.content
            (some opened.decrypted) opened.password := by
  have hlimit : maxBytes ≤ DeltaLimits.fileMailBytes := by decide
  unfold read
  rw [if_neg (not_lt.mpr (hsize.trans hlimit)), hmail, bind_some]
  simp[if_pos hencrypted, MimeHeaders.isSome_get?]

variable {mail mail' : Bytes} {outer outer' : MimeEntity}

theorem readContent_length {length length' : ℕ} (hlength : length ≤ maxBytes)
    (hlength' : length' ≤ maxBytes) (outerFrom : DartString) (postMessage : Bool)
    (headers : MimeHeaders) (content : MimeEntity) (decrypted : Option PgpDecrypted)
    (password : Option DartString) :
    readContent t length outerFrom postMessage headers content decrypted password =
      readContent t length' outerFrom postMessage headers content decrypted password := by
  have hnot : ¬ maxBytes < length := not_lt.mpr hlength
  have hnot' : ¬ maxBytes < length' := not_lt.mpr hlength'
  unfold readContent
  simp only [hnot, hnot', false_and, or_false]

theorem read_eq_of_missing (hmail : t.parseEntity DeltaLimits.fileMailBytes mail = some outer)
    (hmail' : t.parseEntity DeltaLimits.fileMailBytes mail' = some outer')
    (hsize : mail.length ≤ maxBytes) (hsize' : mail'.length ≤ maxBytes)
    (hencrypted : outer.mimeType = ofString "multipart/encrypted")
    (hsame : SameOutside t outer outer')
    (h : ∀ opened, openParts t outer.parts = some opened →
      (outer.headers.fields.filter fun field => IsMissing opened.content.headers field) =
        outer'.headers.fields.filter fun field => IsMissing opened.content.headers field) :
    read t mail = read t mail' := by
  rw [read_encrypted hmail hsize hencrypted,
    read_encrypted hmail' hsize' (hsame.mimeType ▸ hencrypted), hsame.sender, hsame.parts]
  simp only [hsame.postMessage]
  congr 1
  funext outerFrom
  refine bind_congr fun opened hopened => ?_
  have hfields := h opened (hsame.parts ▸ hopened)
  rw [protectedHeaders, hfields]
  exact readContent_length hsize hsize' _ _ _ _ _ _

theorem sameLookups_protectedHeaders {a b content : MimeHeaders}
    (h : ∀ name ∈ routingNames, ¬ content.Carries name → a.raw name = b.raw name) :
    MimeHeaders.SameLookups (protectedHeaders a content) (protectedHeaders b content) := by
  intro name
  rw [raw_protectedHeaders, raw_protectedHeaders]
  congr 1
  by_cases hmissing : ¬ content.Carries name ∧ toLowerCase name ∈ routingNames
  · rw [if_pos hmissing, if_pos hmissing]
    obtain ⟨hnot, hrouting⟩ := hmissing
    -- lookups are without case
    have hlower := toLowerCase_of_mem hrouting
    have hcarries : ¬ content.Carries (toLowerCase name) := by
      unfold MimeHeaders.Carries
      rw [hlower]
      exact hnot
    have hraw := h _ hrouting hcarries
    unfold MimeHeaders.raw at hraw ⊢
    rw [hlower] at hraw
    exact hraw
  · rw [if_neg hmissing, if_neg hmissing]

theorem read_alike_of_missing (hmail : t.parseEntity DeltaLimits.fileMailBytes mail = some outer)
    (hmail' : t.parseEntity DeltaLimits.fileMailBytes mail' = some outer')
    (hsize : mail.length ≤ maxBytes) (hsize' : mail'.length ≤ maxBytes)
    (hencrypted : outer.mimeType = ofString "multipart/encrypted")
    (hsame : SameOutside t outer outer')
    (h : ∀ opened, openParts t outer.parts = some opened → ∀ name ∈ routingNames,
      ¬ opened.content.headers.Carries name → outer.headers.raw name = outer'.headers.raw name) :
    Alike (read t mail) (read t mail') := by
  rw [read_encrypted hmail hsize hencrypted,
    read_encrypted hmail' hsize' (hsame.mimeType ▸ hencrypted), hsame.sender, ← hsame.parts]
  simp only [hsame.postMessage]
  refine Alike.bind _ fun outerFrom => ?_
  cases hopened : openParts t outer.parts with
  | none => exact Alike.refl _
  | some opened =>
    exact readContent_alike hsize hsize' (sameLookups_protectedHeaders (h opened hopened)) _ _ _ _ _

/-- **Outer header fields cannot change an encrypted mail.** Two mails around the same parts, from
the same address and with the same word on whether they are a post message, are read the same when
the content carries all five routing names. When it lacks some, they are read the same when their
fields of the missing names are, and alike when each missing name has the same values in both. -/
theorem outer_headers_do_not_matter (t : Tools) {mail mail' : Bytes} {outer outer' : MimeEntity}
    (hmail : t.parseEntity DeltaLimits.fileMailBytes mail = some outer)
    (hmail' : t.parseEntity DeltaLimits.fileMailBytes mail' = some outer')
    (hsize : mail.length ≤ maxBytes) (hsize' : mail'.length ≤ maxBytes)
    (hencrypted : outer.mimeType = ofString "multipart/encrypted")
    (hsame : SameOutside t outer outer') :
    ((∀ opened, openParts t outer.parts = some opened → ∀ name ∈ routingNames,
        opened.content.headers.Carries name) → read t mail = read t mail') ∧
      ((∀ opened, openParts t outer.parts = some opened →
        (outer.headers.fields.filter fun field => IsMissing opened.content.headers field) =
          outer'.headers.fields.filter fun field => IsMissing opened.content.headers field) →
        read t mail = read t mail') ∧
      ((∀ opened, openParts t outer.parts = some opened → ∀ name ∈ routingNames,
        ¬ opened.content.headers.Carries name → outer.headers.raw name = outer'.headers.raw name) →
        Alike (read t mail) (read t mail')) := by
  refine ⟨fun hall => ?_, fun h => ?_, fun h => ?_⟩
  · refine read_eq_of_missing hmail hmail' hsize hsize' hencrypted hsame fun opened hopened => ?_
    -- nothing is missing, so nothing comes from outside
    have hnone : ∀ fields : List (DartString × DartString),
        (fields.filter fun field => IsMissing opened.content.headers field) = [] := by
      refine fun fields => filter_eq_nil_iff.mpr fun field _ hfield => ?_
      obtain ⟨hnot, hrouting⟩ := of_decide_eq_true hfield
      have hcarries := hall opened hopened _ hrouting
      rw [MimeHeaders.Carries, toLowerCase_of_mem hrouting] at hcarries
      exact hnot hcarries
    rw [hnone, hnone]
  · exact read_eq_of_missing hmail hmail' hsize hsize' hencrypted hsame h
  · exact read_alike_of_missing hmail hmail' hsize hsize' hencrypted hsame h

/-! ### Two mails around one message -/

namespace Sample

def message : Bytes :=
  [193, 78, 3, 16, 210, 32, 216, 44, 38, 138, 192, 18, 1, 7, 64, 121, 166, 49, 238, 222, 27, 249,
   201, 143, 18, 3, 44, 222, 173, 208, 231, 160, 121, 57, 143, 199, 134, 184, 140, 200, 70, 236,
   137, 175, 133, 165, 26, 32, 86, 118, 219, 167, 166, 101, 77, 55, 97, 115, 65, 69, 130, 230,
   127, 127, 174, 254, 149, 5, 125, 168, 89, 43, 155, 155, 222, 9, 99, 246, 97, 157, 210, 192, 64,
   1, 150, 252, 207, 223, 227, 68, 21, 118, 54, 29, 106, 222, 108, 155, 181, 217, 29, 192, 232, 8,
   99, 141, 106, 143, 58, 92, 106, 49, 67, 159, 86, 50, 181, 107, 101, 107, 165, 53, 85, 85, 174,
   3, 253, 238, 137, 55, 161, 191, 202, 121, 58, 12, 188, 102, 166, 104, 151, 187, 252, 88, 114,
   47, 150, 41, 255, 24, 128, 251, 214, 34, 1, 0, 117, 94, 60, 206, 153, 9, 221, 109, 139, 149,
   79, 130, 218, 180, 70, 193, 77, 29, 150, 172, 45, 149, 26, 243, 81, 1, 144, 22, 25, 120, 240,
   80, 235, 4, 225, 157, 3, 82, 90, 231, 245, 72, 120, 208, 254, 77, 4, 249, 155, 53, 7, 168, 109,
   220, 122, 84, 175, 92, 137, 251, 214, 48, 158, 185, 251, 39, 176, 224, 158, 71, 80, 252, 2, 55,
   38, 212, 180, 109, 125, 209, 160, 106, 22, 78, 166, 105, 46, 107, 191, 249, 136, 27, 228, 8,
   50, 54, 60, 111, 142, 139, 35, 183, 56, 175, 250, 187, 206, 142, 112, 112, 133, 103, 179, 87,
   129, 59, 137, 182, 135, 127, 250, 204, 41, 133, 171, 116, 211, 115, 109, 60, 250, 43, 4, 119,
   96, 17, 108, 191, 129, 84, 62, 228, 141, 254, 247, 121, 248, 141, 181, 143, 96, 108, 200, 205,
   129, 38, 184, 225, 206, 54, 169, 121, 91, 17, 168, 108, 39, 94, 228, 181, 208, 121, 113, 239,
   109, 19, 175, 226, 96, 205, 197, 67, 236]

def fieldsOf (fields : List (String × String)) : MimeHeaders :=
  ⟨fields.map fun field => (ofString field.1, ofString field.2)⟩

def render (headers : MimeHeaders) (body : DartString) : Bytes :=
  (onLines (headers.fields.map fun field => field.1 ++ 58 :: 32 :: field.2) ++ crlf ++ body).map
    fun u => UInt8.ofNat u.val

def content : MimeEntity where
  headers := fieldsOf [("Content-Type", "text/plain; charset=\"utf-8\""), ("From", "<a@x.test>"),
    ("To", "<b@x.test>"), ("Date", "Tue, 14 Nov 2023 22:14:10 +0000"),
    ("Message-ID", "<m1@x.test>"), ("Chat-Version", "1.0"),
    ("Autocrypt", "addr=a@x.test; keydata=AAAA")]
  mimeType := ofString "text/plain"
  parameters := [(ofString "charset", ofString "utf-8")]
  body := [72, 105, 13, 10]
  parts := []

def armor : DartString := onLines ([
  "-----BEGIN PGP MESSAGE-----",
  "",
  "wU4DENIg2CwmisASAQdAeaYx7t4b+cmPEgMs3q3Q56B5OY/HhriMyEbsia+FpRog",
  "Vnbbp6ZlTTdhc0FFguZ/f67+lQV9qFkrm5veCWP2YZ3SwEABlvzP3+NEFXY2HWre",
  "bJu12R3A6AhjjWqPOlxqMUOfVjK1a2VrpTVVVa4D/e6JN6G/ynk6DLxmpmiXu/xY",
  "ci+WKf8YgPvWIgEAdV48zpkJ3W2LlU+C2rRGwU0dlqwtlRrzUQGQFhl48FDrBOGd",
  "A1Ja5/VIeND+TQT5mzUHqG3celSvXIn71jCeufsnsOCeR1D8Ajcm1LRtfdGgahZO",
  "pmkua7/5iBvkCDI2PG+OiyO3OK/6u86OcHCFZ7NXgTuJtod/+swphat003NtPPor",
  "BHdgEWy/gVQ+5I3+93n4jbWPYGzIzYEmuOHONql5WxGobCde5LXQeXHvbROv4mDN",
  "xUPs",
  "=+pmR",
  "-----END PGP MESSAGE-----"].map ofString)

def parts : List MimeEntity := [
  { headers := fieldsOf [("Content-Type", "application/pgp-encrypted")]
    mimeType := ofString "application/pgp-encrypted"
    parameters := []
    body := (ofString "Version: 1").map fun u => UInt8.ofNat u.val
    parts := [] },
  { headers := fieldsOf [("Content-Type", "application/octet-stream")]
    mimeType := ofString "application/octet-stream"
    parameters := []
    body := (armor.dropLast.dropLast).map fun u => UInt8.ofNat u.val
    parts := [] }]

def body : DartString :=
  onLines (["--b", "Content-Type: application/pgp-encrypted", "", "Version: 1", "--b",
    "Content-Type: application/octet-stream", ""].map ofString) ++ armor ++
    onLines [ofString "--b--"]

def outerMail (more : List (String × String)) : MimeEntity where
  headers := fieldsOf ([("From", "<a@x.test>"), ("To", "<b@x.test>"), ("Message-ID", "<o@x.test>"),
    ("Content-Type",
      "multipart/encrypted; protocol=\"application/pgp-encrypted\"; boundary=\"b\"")] ++ more)
  mimeType := ofString "multipart/encrypted"
  parameters := [(ofString "protocol", ofString "application/pgp-encrypted"),
    (ofString "boundary", ofString "b")]
  body := []
  parts := parts

def mailBytes (more : List (String × String)) : Bytes := render (outerMail more).headers body

def added : List (String × String) := [("Secure-Join", "vc-request"), ("Chat-Version", "2.0")]

def parse (data : Bytes) : Option MimeEntity :=
  if data = mailBytes [] then some (outerMail [])
  else if data = mailBytes added then some (outerMail added)
  else if data = render content.headers (ofString "Hi" ++ crlf) then some content
  else none

def tools : Tools where
  primitives := OpenPgp.Sample.primitives
  decodeMimeWords := id
  parseMimeParameters value := (value, [])
  parseEntity _ data := parse data
  decrypt bytes :=
    if bytes = message then
      some { data := render content.headers (ofString "Hi" ++ crlf), signatures := [], now := 0 }
    else none
  decryptWithPasswords _ _ := some none
  parseKey _ checks := (none, checks)
  knownKeys := none
  passwords := []
  parseRfc5322Date _ := some (some 1700000050000)
  deltaDuration _ := 0
  deltaReaction := id
  deltaMimeType _ := ofString "application/octet-stream"
  sanitizeAttachmentFileName := id

theorem mail_ne : mailBytes added ≠ mailBytes [] := by decide +kernel

theorem sizes : (mailBytes []).length ≤ maxBytes ∧ (mailBytes added).length ≤ maxBytes := by
  decide +kernel

theorem tools_parseEntity (limit : ℕ) (data : Bytes) : tools.parseEntity limit data = parse data :=
  rfl

theorem parse_mail : parse (mailBytes []) = some (outerMail []) := by
  unfold parse
  rw [if_pos rfl]

theorem parse_added : parse (mailBytes added) = some (outerMail added) := by
  unfold parse
  rw [if_neg mail_ne, if_pos rfl]

theorem sameOutside : SameOutside tools (outerMail []) (outerMail added) where
  mimeType := rfl
  parts := rfl
  sender := by decide
  postMessage := by decide

set_option maxRecDepth 20000 in
theorem opened_headers :
    (openParts tools parts).map (fun opened => opened.content.headers) = some content.headers := by
  decide +kernel

theorem carries : ∀ name ∈ routingNames, content.headers.Carries name := by decide

/-- **The mail is read the same** with a Secure-Join header and another Chat-Version around it. -/
theorem read_added : mailBytes added ≠ mailBytes [] ∧
    read tools (mailBytes []) = read tools (mailBytes added) := by
  have hread := (@outer_headers_do_not_matter tools (mailBytes []) (mailBytes added) (outerMail [])
    (outerMail added) ((tools_parseEntity _ _).trans parse_mail)
    ((tools_parseEntity _ _).trans parse_added) sizes.1 sizes.2 rfl sameOutside).1
  refine ⟨mail_ne, hread fun opened hopened => ?_⟩
  have hheaders := opened_headers
  rw [show openParts tools parts = some opened from hopened, map_some] at hheaders
  rw [some.inj hheaders]
  exact carries

end Sample

end DeltaMail
end Mail
end Conest
