import Conest.Lib.Base64
import Conest.Lib.BigEndian
import Conest.Lib.Text

/-!
# ASCII armor

`encode` writes a message as base64 in lines of 64 characters with a checksum behind them, `decode`
reads it line by line. A line starts at a multiple of four characters, so it never starts with
padding (`bodyLine_of_mem`); that is what tells the lines of the body from the checksum. The reader is
followed through the lines (`readLines_body`), after which it holds the whole of the base64 text.
-/

open Lib List Option
open Lib.DartString

namespace Conest
namespace Mail
namespace OpenPgpArmor

variable {line : DartString} {u : Fin 65536}

def beginLine : DartString := ofString "-----BEGIN PGP MESSAGE-----"
def endLine : DartString := ofString "-----END PGP MESSAGE-----"
def maxLines : ℕ := 1000000
def maxDecodedBytes : ℤ := 32 * 1024 * 1024

/-! ### The checksum -/

/-- One turn of the inner loop; bit 24 is cleared as soon as it is set. -/
def crcBit (crc : ℕ) : ℕ :=
  let crc := crc <<< 1
  if crc &&& 0x1000000 ≠ 0 then crc ^^^ 0x1864cfb else crc

def crcByte (crc : ℕ) (byte : UInt8) : ℕ := crcBit^[8] (crc ^^^ (byte.toNat <<< 16))

/-- `_crc24`. -/
def crc24 (data : Bytes) : ℕ := data.foldl crcByte 0xb704ce &&& 0xffffff

theorem crc24_lt (data : Bytes) : crc24 data < 256 ^ 3 :=
  Nat.lt_of_le_of_lt Nat.and_le_right (by decide)

/-! ### Writing -/

/-- The text in pieces of 64 characters. -/
def bodyLines (body : DartString) : List DartString :=
  if _h : body = [] then [] else body.take 64 :: bodyLines (body.drop 64)
termination_by body.length
decreasing_by
  have := List.length_pos_iff.mpr _h
  rw [List.length_drop]
  omega

/-- The line of the checksum. -/
def checksumLine (data : Bytes) : DartString := 61 :: base64Encode (bigEndian 3 (crc24 data))

def encode (data : Bytes) : DartString :=
  beginLine ++ crlf ++ crlf ++ onLines (bodyLines (base64Encode data)) ++ checksumLine data ++ crlf ++
    endLine ++ crlf

/-! ### Reading -/

/-- What the loop of `decode` keeps between two lines. -/
structure ArmorReader where
  begun : Bool
  inBody : Bool
  ended : Bool
  headers : ℕ
  checksum : Option DartString
  buffer : DartString
deriving DecidableEq, Repr

def ArmorReader.start : ArmorReader := ⟨false, false, false, 0, none, []⟩

/-- One line: `none` where `decode` throws. -/
def readLine (r : ArmorReader) (line : DartString) : Option ArmorReader :=
  if !r.begun then some (if line = beginLine then { r with begun := true } else r)
  else if !r.inBody then
    if line = [] then some { r with inBody := true }
    else if 64 < r.headers + 1 then none
    else some { r with headers := r.headers + 1 }
  else if line = endLine then some { r with ended := true }
  else if line = [] then some r
  else if line.head? = some 61 then
    if r.checksum.isSome ∨ line.length ≠ 5 then none
    else some { r with checksum := some (line.drop 1) }
  else if r.checksum.isSome then none
  else some { r with buffer := r.buffer ++ line }

/-- The loop of `decode`, which may read `left` more lines and stops behind the end line. -/
def readLines : ℕ → ArmorReader → List DartString → Option ArmorReader
  | _, r, [] => some r
  | 0, _, _ :: _ => none
  | left + 1, r, raw :: rest =>
    if 1024 < raw.length then none
    else
      match readLine r (trim raw) with
      | none => none
      | some r => if r.ended then some r else readLines left r rest

/-- `base64Decode`, as bytes. The chunked decoder of `decode` accepts the chunks of what this accepts. -/
def base64Bytes? (text : DartString) : Option Bytes :=
  (base64Decode text).map fun bytes => bytes.map UInt8.ofNat

/-- The end of `decode`: the checksum is tested if there was one. -/
def checked (r : ArmorReader) (data : Bytes) : Option Bytes :=
  match r.checksum with
  | none => some data
  | some checksum =>
    (base64Bytes? checksum).bind fun crc =>
      if crc.length ≠ 3 ∨ ofBigEndian crc ≠ crc24 data then none else some data

/-- `decode`: `none` where it throws. -/
def decode (armored : DartString) (decodedLimit : ℤ) : Option Bytes :=
  if 48 * 1024 * 1024 < armored.length ∨ decodedLimit < 0 ∨ maxDecodedBytes < decodedLimit then none
  else
    (readLines maxLines ArmorReader.start (rawLines armored)).bind fun r =>
      if !r.begun || !r.inBody || !r.ended then none
      else
        (base64Bytes? r.buffer).bind fun data =>
          if decodedLimit < data.length then none else checked r data

/-! ### The lines that are written -/

theorem base64Bytes?_base64Encode (bytes : Bytes) : base64Bytes? (base64Encode bytes) = some bytes := by
  rw [base64Bytes?, base64Decode_base64Encode, Option.map_some, List.map_map]
  have hid : UInt8.ofNat ∘ UInt8.toNat = id := by
    ext byte
    rw [Function.comp_apply, UInt8.ofNat_toNat]
    rfl
  rw [hid, List.map_id]

theorem bodyLines_nil : bodyLines [] = [] := by rw [bodyLines, dif_pos rfl]

theorem bodyLines_of_ne {body : DartString} (h : body ≠ []) :
    bodyLines body = body.take 64 :: bodyLines (body.drop 64) := by
  rw [bodyLines, dif_neg h]

theorem flatten_bodyLines (body : DartString) : (bodyLines body).flatten = body := by
  induction body using bodyLines.induct with
  | case1 => rw [bodyLines_nil, flatten_nil]
  | case2 body hne ih => rw [bodyLines_of_ne hne, flatten_cons, ih, take_append_drop]

theorem length_bodyLines_le (body : DartString) : 64 * (bodyLines body).length ≤ body.length + 63 := by
  induction body using bodyLines.induct with
  | case1 => rw [bodyLines_nil, length_nil]; exact Nat.zero_le _
  | case2 body hne ih =>
    have hpos := length_pos_iff.mpr hne
    rw [length_drop] at ih
    rw [bodyLines_of_ne hne, length_cons]
    omega

/-- A character of a base64 text. -/
def IsBase64 (u : Fin 65536) : Prop :=
  (65 ≤ u.val ∧ u.val ≤ 90) ∨ (97 ≤ u.val ∧ u.val ≤ 122) ∨ (47 ≤ u.val ∧ u.val ≤ 57) ∨ u.val = 43 ∨
    u.val = 61

theorem base64Char_spec {n : ℕ} (h : n < 64) : IsBase64 (base64Char n) ∧ base64Char n ≠ 61 := by
  unfold IsBase64
  revert n
  decide

theorem isBase64_of_mem {bytes : Bytes} (h : u ∈ base64Encode bytes) : IsBase64 u := by
  rcases mem_append.mp h with h | h
  · obtain ⟨digit, hdigit, rfl⟩ := mem_map.mp h
    refine (base64Char_spec (base64Digits_lt (fun b hb => ?_) digit hdigit)).1
    obtain ⟨byte, -, rfl⟩ := mem_map.mp hb
    exact byte.toNat_lt
  · rw [(mem_replicate.mp h).2]
    exact .inr (.inr (.inr (.inr rfl)))

theorem IsBase64.not_whitespace (h : IsBase64 u) : isWhitespace u = false := by
  have hval : ∀ n, n < 123 → n ≠ 32 → (n < 9 ∨ 13 < n) → ∀ hn : n < 65536,
      isWhitespace ⟨n, hn⟩ = false := by
    decide
  unfold IsBase64 at h
  exact hval u.val (by omega) (by omega) (by omega) u.isLt

/-- What a line of the body is. -/
structure BodyLine (line : DartString) : Prop where
  base64 : ∀ u ∈ line, IsBase64 u
  ne_nil : line ≠ []
  head : line.head? ≠ some 61
  length : line.length ≤ 64

theorem bodyLine_of_mem {digits padding : DartString} (hdigits : ∀ u ∈ digits, IsBase64 u ∧ u ≠ 61)
    (hpadding : ∀ u ∈ padding, u = 61) (hlength : padding.length ≤ 2)
    (hfour : (digits ++ padding).length % 4 = 0) :
    ∀ line ∈ bodyLines (digits ++ padding), BodyLine line := by
  induction hn : (digits ++ padding).length using Nat.strong_induction_on generalizing digits padding with
  | _ n ih =>
  by_cases hnil : digits ++ padding = []
  · rw [hnil, bodyLines_nil]
    exact forall_mem_nil _
  have hpos := length_pos_iff.mpr hnil
  rw [bodyLines_of_ne hnil]
  refine forall_mem_cons.mpr ⟨?_, ?_⟩
  · have hmem : ∀ u ∈ digits ++ padding, IsBase64 u := by
      intro u hu
      rcases mem_append.mp hu with hu | hu
      · exact (hdigits u hu).1
      · rw [hpadding u hu]
        exact .inr (.inr (.inr (.inr rfl)))
    refine ⟨fun u hu => hmem u (mem_of_mem_take hu), ?_, ?_, length_take_le _ _⟩
    · apply length_pos_iff.mp
      rw [length_take]
      omega
    -- four characters at least are left, and only two of them can be padding
    cases digits with
    | nil =>
      rw [nil_append] at hpos hfour
      omega
    | cons u digits =>
      exact fun h => (hdigits u mem_cons_self).2 (some.inj h)
  · rw [drop_append]
    refine ih _ ?_ (fun u hu => hdigits u (mem_of_mem_drop hu))
      (fun u hu => hpadding u (mem_of_mem_drop hu)) ?_ ?_ rfl
    · rw [← drop_append, length_drop]
      omega
    · rw [length_drop]
      omega
    · rw [← drop_append, length_drop]
      omega

theorem bodyLine_base64Encode (bytes : Bytes) :
    ∀ line ∈ bodyLines (base64Encode bytes), BodyLine line := by
  have hlength := length_base64Encode bytes
  rw [base64Encode] at hlength ⊢
  apply bodyLine_of_mem
  · intro u hu
    obtain ⟨digit, hdigit, rfl⟩ := mem_map.mp hu
    refine base64Char_spec (base64Digits_lt (fun b hb => ?_) digit hdigit)
    obtain ⟨byte, -, rfl⟩ := mem_map.mp hb
    exact byte.toNat_lt
  · exact fun u hu => (mem_replicate.mp hu).2
  · rw [length_replicate, base64Padding]
    omega
  · rw [hlength, Nat.mul_mod_right]

/-! ### What the reader makes of them -/

section

variable (h : BodyLine line)

include h

theorem BodyLine.not_mem (hu : ¬ IsBase64 u) : u ∉ line :=
  fun hmem => hu (h.base64 u hmem)

theorem BodyLine.trim : trim (line ++ [13]) = line :=
  trim_append_cr fun u hu => (h.base64 u hu).not_whitespace

theorem BodyLine.ne_endLine : line ≠ endLine := by
  have hdash : (45 : Fin 65536) ∈ endLine := by decide
  intro heq
  rw [← heq] at hdash
  exact h.not_mem (by unfold IsBase64; decide) hdash

end

/-- The reader in the body, before the checksum. -/
def ArmorReader.reading (buffer : DartString) : ArmorReader := ⟨true, true, false, 0, none, buffer⟩

theorem readLine_body (h : BodyLine line) (buffer : DartString) :
    readLine (.reading buffer) line = some (.reading (buffer ++ line)) := by
  simp [readLine, ArmorReader.reading, h.ne_endLine, h.ne_nil, h.head]

theorem readLines_body {lines : List DartString} (h : ∀ line ∈ lines, BodyLine line)
    (left : ℕ) (buffer : DartString) (raws : List DartString) :
    readLines (left + lines.length) (.reading buffer) (lines.map (· ++ [13]) ++ raws) =
      readLines left (.reading (buffer ++ lines.flatten)) raws := by
  induction lines generalizing buffer with
  | nil => rw [flatten_nil, append_nil]; rfl
  | cons line lines ih =>
  have hline := h line mem_cons_self
  have hshort : ¬ 1024 < (line ++ [13]).length := by
    have := hline.length
    rw [length_append, length_singleton]
    omega
  rw [map_cons, cons_append, length_cons, ← Nat.add_assoc, readLines,
    if_neg hshort, hline.trim, readLine_body hline]
  show readLines (left + lines.length) (.reading (buffer ++ line)) _ = _
  rw [ih (fun l hl => h l (mem_cons_of_mem line hl)), flatten_cons, append_assoc]

theorem length_checksumLine (data : Bytes) : (checksumLine data).length = 5 := by
  rw [checksumLine, length_cons, length_base64Encode, bigEndian_length]

theorem isBase64_of_mem_checksumLine {data : Bytes} (h : u ∈ checksumLine data) : IsBase64 u := by
  rcases mem_cons.mp h with rfl | h
  · exact .inr (.inr (.inr (.inr rfl)))
  · exact isBase64_of_mem h

theorem trim_checksumLine (data : Bytes) : trim (checksumLine data ++ [13]) = checksumLine data :=
  trim_append_cr fun _ hu => (isBase64_of_mem_checksumLine hu).not_whitespace

theorem checksumLine_ne_endLine (data : Bytes) : checksumLine data ≠ endLine := by
  intro h
  have hhead : (checksumLine data).head? = some 61 := rfl
  rw [h] at hhead
  exact absurd hhead (by decide)

/-- The lines before the end line. -/
def armorLines (data : Bytes) : List DartString :=
  beginLine :: [] :: (bodyLines (base64Encode data) ++ [checksumLine data])

/-- The reader when it has stopped at the end line. -/
def readerOf (data : Bytes) : ArmorReader :=
  ⟨true, true, true, 0, some (base64Encode (bigEndian 3 (crc24 data))), base64Encode data⟩

/-- **The reader over the lines that are written**: it ends with the base64 text and the checksum. -/
theorem readLines_armorLines (data : Bytes) {left : ℕ}
    (hleft : (bodyLines (base64Encode data)).length + 4 ≤ left) {raw : DartString}
    (htrim : trim raw = endLine) (hlength : raw.length ≤ 1024) :
    readLines left ArmorReader.start ((armorLines data).map (· ++ [13]) ++ [raw]) =
      some (readerOf data) := by
  obtain ⟨more, rfl⟩ : ∃ more, left = more + 2 + (bodyLines (base64Encode data)).length + 1 + 1 :=
    ⟨left - ((bodyLines (base64Encode data)).length + 4), by omega⟩
  have hbody := readLines_body (bodyLine_base64Encode data) (more + 2) []
    [checksumLine data ++ [13], raw]
  rw [flatten_bodyLines, nil_append] at hbody
  have hsplit : (armorLines data).map (· ++ [13]) ++ [raw] =
      (beginLine ++ [13]) :: [13] ::
        ((bodyLines (base64Encode data)).map (· ++ [13]) ++ [checksumLine data ++ [13], raw]) := by
    simp [armorLines]
  have hbegin : trim (beginLine ++ [13]) = beginLine := by decide
  have hempty : trim [13] = ([] : DartString) := by decide
  have hcheck : ¬ 1024 < (checksumLine data ++ [13]).length := by
    rw [length_append, length_checksumLine]
    decide
  -- the begin line and the empty line, then the body, then the checksum and the end line
  rw [hsplit]
  show readLines _ ⟨true, false, false, 0, none, []⟩ _ = _
  rw [readLines]
  show readLines _ (.reading []) _ = _
  rw [hbody, readLines, if_neg hcheck, trim_checksumLine]
  have hline : readLine (.reading (base64Encode data)) (checksumLine data) =
      some { readerOf data with ended := false } := by
    have hne := checksumLine_ne_endLine data
    have hlength := length_checksumLine data
    rw [checksumLine] at hne hlength
    simp [readLine, ArmorReader.reading, readerOf, checksumLine, hne] at hlength ⊢
    exact hlength
  rw [hline]
  show readLines (more + 1) { readerOf data with ended := false } [raw] = _
  rw [readLines, if_neg (Nat.not_lt.mpr hlength), htrim]
  rfl

theorem encode_eq (data : Bytes) : encode data = onLines (armorLines data) ++ (endLine ++ crlf) := by
  unfold encode armorLines
  simp

theorem length_onLines (lines : List DartString) :
    (onLines lines).length = lines.flatten.length + 2 * lines.length := by
  induction lines with
  | nil => rfl
  | cons line lines ih =>
    rw [onLines_cons, length_append, length_append, flatten_cons,
      length_append, length_cons]
    show line.length + (2 + _) = _
    omega

theorem length_armorLines (data : Bytes) :
    (onLines (armorLines data)).length =
      (base64Encode data).length + 2 * (bodyLines (base64Encode data)).length + 38 := by
  have hbegin : beginLine.length = 27 := by decide
  simp only [armorLines, length_onLines, flatten_cons, flatten_append, length_append,
    length_cons, flatten_bodyLines, flatten_nil, length_nil, length_checksumLine,
    hbegin]
  omega

section

variable {data : Bytes}

theorem not_lf_of_mem_armorLines : ∀ line ∈ armorLines data, 10 ∉ line := by
  have hlf : ¬ IsBase64 10 := by unfold IsBase64; decide
  intro line hline
  rcases mem_cons.mp hline with rfl | hline
  · decide
  rcases mem_cons.mp hline with rfl | hline
  · exact not_mem_nil
  rcases mem_append.mp hline with hline | hline
  · exact (bodyLine_base64Encode data line hline).not_mem hlf
  · rw [mem_singleton.mp hline]
    exact fun h => hlf (isBase64_of_mem_checksumLine h)

theorem noPair_of_mem_armorLines : ∀ line ∈ armorLines data, NoPair 45 69 line := by
  have hdash : ¬ IsBase64 45 := by unfold IsBase64; decide
  intro line hline
  rcases mem_cons.mp hline with rfl | hline
  · decide
  rcases mem_cons.mp hline with rfl | hline
  · exact List.IsChain.nil
  rcases mem_append.mp hline with hline | hline
  · exact noPair_of_left ((bodyLine_base64Encode data line hline).not_mem hdash)
  · rw [mem_singleton.mp hline]
    exact noPair_of_left fun h => hdash (isBase64_of_mem_checksumLine h)

theorem latin1_of_mem_armorLines : ∀ line ∈ armorLines data, ∀ u ∈ line, u.val < 256 := by
  have hbase64 : ∀ u : Fin 65536, IsBase64 u → u.val < 256 := by
    intro u hu
    unfold IsBase64 at hu
    omega
  have hbegin : beginLine.all (fun u => decide (u.val < 256)) = true := by decide
  intro line hline u hu
  rcases mem_cons.mp hline with rfl | hline
  · exact of_decide_eq_true (all_eq_true.mp hbegin u hu)
  rcases mem_cons.mp hline with rfl | hline
  · cases hu
  rcases mem_append.mp hline with hline | hline
  · exact hbase64 u ((bodyLine_base64Encode data line hline).base64 u hu)
  · rw [mem_singleton.mp hline] at hu
    exact hbase64 u (isBase64_of_mem_checksumLine hu)

end

section

variable {data : Bytes} {decodedLimit : ℤ} (hdata : data.length ≤ decodedLimit)
  (hlimit : decodedLimit ≤ maxDecodedBytes)

include hdata hlimit

/-- **The armor of data within the limit is decoded**, with the last line end or without it. -/
theorem decode_armorLines {tail : DartString} (htail : tail = [] ∨ tail = crlf) :
    decode (onLines (armorLines data) ++ (endLine ++ tail)) decodedLimit = some data := by
  unfold maxDecodedBytes at hlimit
  have hbody := length_bodyLines_le (base64Encode data)
  have hencoded := length_base64Encode data
  obtain ⟨raw, hraw, htrim, hshort, htaillength⟩ : ∃ raw, rawLines (endLine ++ tail) = [raw] ∧
      trim raw = endLine ∧ raw.length ≤ 1024 ∧ (endLine ++ tail).length ≤ 27 := by
    rcases htail with rfl | rfl
    · exact ⟨endLine, by decide, by decide, by decide, by decide⟩
    · exact ⟨endLine ++ [13], by decide, by decide, by decide, by decide⟩
  have hlines : readLines maxLines ArmorReader.start
      (rawLines (onLines (armorLines data) ++ (endLine ++ tail))) = some (readerOf data) := by
    rw [rawLines_onLines not_lf_of_mem_armorLines, hraw]
    refine readLines_armorLines data ?_ htrim hshort
    show _ ≤ 1000000
    omega
  have hcrc : ofBigEndian (bigEndian 3 (crc24 data)) = crc24 data := by
    rw [ofBigEndian_bigEndian, Nat.mod_eq_of_lt (crc24_lt data)]
  have hchecked : checked (readerOf data) data = some data := by
    show (base64Bytes? (base64Encode (bigEndian 3 (crc24 data)))).bind _ = _
    rw [base64Bytes?_base64Encode, bind_some, if_neg]
    rw [hcrc, not_or]
    exact ⟨fun h => h rfl, fun h => h rfl⟩
  unfold decode
  rw [if_neg, hlines]
  · show (base64Bytes? (base64Encode data)).bind _ = _
    rw [base64Bytes?_base64Encode, bind_some, if_neg (not_lt.mpr hdata), hchecked]
  · rw [length_append, length_armorLines]
    unfold maxDecodedBytes
    omega

theorem decode_encode : decode (encode data) decodedLimit = some data := by
  rw [encode_eq]
  exact decode_armorLines hdata hlimit (.inr rfl)

end

end OpenPgpArmor
end Mail
end Conest
