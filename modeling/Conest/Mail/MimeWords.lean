import Conest.Lib.Base64
import Conest.Mail.Escapes
import Conest.Mail.Mime

/-!
# Encoded words

`encodeMimeWord` writes text that is not plain as one word, `=?utf-8?b?...?=`, and `decodeMimeWords`
reads the words in a value. A word is read deterministically: neither the charset nor the payload
holds a question mark, so each ends at the next one. A text that is written is read back, unless it
begins with a byte order mark, which the decoder of UTF-8 drops (`decodeMimeWords_encodeMimeWord`).
-/

open Lib DartString List

namespace Conest
namespace Mail

/-! ### Reading -/

/-- `[A-Za-z0-9+/]`. -/
def isBase64Unit (u : Fin 65536) : Bool :=
  decide (65 ≤ u.val ∧ u.val ≤ 90) || decide (97 ≤ u.val ∧ u.val ≤ 122) ||
    decide (48 ≤ u.val ∧ u.val ≤ 57) || u == 43 || u == 47

/-- `_decodeBase64`: what is no digit is skipped, and what is no base64 is no bytes. -/
def decodeBase64 (text : DartString) : Bytes :=
  let clean := text.filter isBase64Unit
  let remainder := clean.length % 4
  let usable := clean.length - remainder
  let padded := clean.take usable ++
    if 2 ≤ remainder then clean.drop usable ++ List.replicate (4 - remainder) 61 else []
  ((base64Decode padded).map fun bytes => bytes.map UInt8.ofNat).getD []

/-- `[^?\\s]`. -/
def isWordUnit (u : Fin 65536) : Bool := u != 63 && !isRegExpSpace u

/-- What the groups of an encoded word hold. -/
structure EncodedWord where
  charset : DartString
  encoding : Fin 65536
  payload : DartString
  deriving DecidableEq

/-- A match of `=\\?([^?\\s]+)\\?([bBqQ])\\?([^?\\s]*)\\?=` behind its `=`, with what follows it. -/
def encodedWord? : DartString → Option (EncodedWord × DartString)
  | 63 :: text =>
    let charset := text.takeWhile isWordUnit
    match text.drop charset.length with
    | 63 :: encoding :: 63 :: text =>
      if charset ≠ [] ∧ encoding ∈ ofString "bBqQ" then
        let payload := text.takeWhile isWordUnit
        match text.drop payload.length with
        | 63 :: 61 :: rest => some (⟨charset, encoding, payload⟩, rest)
        | _ => none
      else none
    | _ => none
  | _ => none

/-- What a word stands for. -/
def EncodedWord.text (word : EncodedWord) : DartString :=
  let charset := (splitAt 42 (toLowerCase word.charset)).head?.getD []
  let bytes :=
    if word.encoding ∈ ofString "bB" then decodeBase64 word.payload
    else decodeQuotedPrintable (word.payload.map fun u => if u = 95 then 32 else u)
  if charset = ofString "utf-8" ∨ charset = ofString "us-ascii" then utf8DecodeMalformed bytes
  else ofLatin1 bytes

/-- White space between two words, behind the `?` in front of it: a match of `(\\?=)\\s+(=\\?)` and
what it is replaced by. -/
def betweenWords : DartString → Option (DartString × ℕ)
  | 61 :: text =>
    let space := text.takeWhile isRegExpSpace
    match space, text.drop space.length with
    | _ :: _, 61 :: 63 :: _ => some (ofString "?==?", space.length + 3)
    | _, _ => none
  | _ => none

/-- A word, behind its `=`, and how long it is. -/
def wordAt (text : DartString) : Option (DartString × ℕ) :=
  (encodedWord? text).map fun found => (found.1.text, text.length - found.2.length)

def decodeMimeWords (value : DartString) : DartString :=
  if value.tails.any fun
      | 61 :: text => (encodedWord? text).isSome
      | _ => false
  then scan 61 wordAt id 0 (scan 63 betweenWords id 0 value)
  else value

/-! ### Writing -/

/-- The characters that are written as they are. -/
def isPlainUnit (u : Fin 65536) : Bool :=
  decide (0x20 ≤ u.val ∧ u.val < 0x7f) && u != 0x3d && u != 0x3f

def encodeMimeWord (text : DartString) : DartString :=
  if text.all isPlainUnit ∧ 34 ∉ text then text
  else ofString "=?utf-8?b?" ++ base64Encode (utf8Encode text) ++ ofString "?="

/-! ### There and back -/

theorem isBase64Unit_base64Char {n : ℕ} (h : n < 64) : isBase64Unit (base64Char n) = true := by
  revert n
  decide

theorem filter_base64Encode (bytes : Bytes) :
    (base64Encode bytes).filter isBase64Unit =
      (base64Digits (bytes.map UInt8.toNat)).map base64Char := by
  have hbytes : ∀ b ∈ bytes.map UInt8.toNat, b < 256 := by
    intro b hb
    obtain ⟨byte, -, rfl⟩ := mem_map.mp hb
    exact byte.toNat_lt
  have hdigits : ∀ u ∈ (base64Digits (bytes.map UInt8.toNat)).map base64Char,
      isBase64Unit u = true := by
    intro u hu
    obtain ⟨n, hn, rfl⟩ := mem_map.mp hu
    exact isBase64Unit_base64Char (base64Digits_lt hbytes n hn)
  have hpadding : ∀ u ∈ replicate (base64Padding bytes.length) (61 : Fin 65536),
      ¬ isBase64Unit u = true := by
    intro u hu
    rw [eq_of_mem_replicate hu]
    decide
  rw [base64Encode, filter_append, filter_eq_self.mpr hdigits,
    filter_eq_nil_iff.mpr hpadding, append_nil]

theorem decodeBase64_base64Encode (bytes : Bytes) : decodeBase64 (base64Encode bytes) = bytes := by
  have hlast := base64Digits_last (bytes.map UInt8.toNat)
  have hlen : ((base64Digits (bytes.map UInt8.toNat)).map base64Char).length =
      (base64Digits (bytes.map UInt8.toNat)).length := length_map _
  rw [length_map] at hlast
  have hback : ∀ byte : UInt8, UInt8.ofNat byte.toNat = byte := fun _ => UInt8.ofNat_toNat
  have hpadded : ∀ padded, padded = base64Encode bytes →
      ((base64Decode padded).map fun values => values.map UInt8.ofNat).getD [] = bytes := by
    rintro padded rfl
    rw [base64Decode_base64Encode, Option.map_some, map_map]
    exact (map_congr_left fun byte _ => hback byte).trans (map_id _)
  unfold decodeBase64
  rw [filter_base64Encode]
  apply hpadded
  unfold base64Encode base64Padding
  rw [hlen]
  obtain ⟨h₁, h₂⟩ | ⟨h₁, h₂, -⟩ | ⟨h₁, h₂, -⟩ := hlast
  · rw [h₁, h₂, Nat.sub_zero, ← hlen, take_length]
    rfl
  · rw [h₁, h₂, if_pos (by decide), ← append_assoc, take_append_drop]
  · rw [h₁, h₂, if_pos (by decide), ← append_assoc, take_append_drop]

theorem isWordUnit_base64Char {n : ℕ} (h : n < 64) : isWordUnit (base64Char n) = true := by
  revert n
  decide

theorem isWordUnit_of_mem_base64Encode {bytes : Bytes} {u : Fin 65536}
    (h : u ∈ base64Encode bytes) : isWordUnit u = true := by
  rw [base64Encode, mem_append] at h
  obtain h | h := h
  · obtain ⟨n, hn, rfl⟩ := mem_map.mp h
    refine isWordUnit_base64Char (base64Digits_lt ?_ n hn)
    intro b hb
    obtain ⟨byte, -, rfl⟩ := mem_map.mp hb
    exact byte.toNat_lt
  · rw [eq_of_mem_replicate h]
    decide

theorem takeWhile_word {word : DartString} (h : ∀ u ∈ word, isWordUnit u = true)
    (rest : DartString) : (word ++ 63 :: rest).takeWhile isWordUnit = word := by
  rw [takeWhile_append_of_pos h, takeWhile_cons_of_neg (by decide), append_nil]

theorem encodedWord?_append {payload : DartString} (h : ∀ u ∈ payload, isWordUnit u = true) :
    encodedWord? (ofString "?utf-8?b?" ++ (payload ++ [63, 61])) =
      some (⟨ofString "utf-8", 98, payload⟩, []) := by
  have hcharset : (ofString "utf-8?b?" ++ (payload ++ [63, 61])).takeWhile isWordUnit =
      ofString "utf-8" :=
    @takeWhile_word (ofString "utf-8") (all_eq_true.mp (by decide)) _
  have hrest : (ofString "utf-8?b?" ++ (payload ++ [63, 61])).drop (ofString "utf-8").length =
      63 :: 98 :: 63 :: (payload ++ [63, 61]) := rfl
  have hpayload : (payload ++ [63, 61]).takeWhile isWordUnit = payload := takeWhile_word h _
  have hend : (payload ++ [63, 61]).drop payload.length = [63, 61] := drop_left
  change encodedWord? (63 :: (ofString "utf-8?b?" ++ (payload ++ [63, 61]))) = _
  unfold encodedWord?
  simp only [hcharset, hrest, hpayload, hend]
  rfl

theorem text_word (payload : DartString) :
    EncodedWord.text ⟨ofString "utf-8", 98, payload⟩ =
      utf8DecodeMalformed (decodeBase64 payload) := by
  have hcharset : (splitAt 42 (toLowerCase (ofString "utf-8"))).head?.getD [] =
      ofString "utf-8" := by decide
  have hencoding : (98 : Fin 65536) ∈ ofString "bB" := by decide
  unfold EncodedWord.text
  simp only [hcharset]
  rw [if_pos (.inl trivial), if_pos hencoding]

theorem betweenWords_eq_none {text : DartString} (h : ∀ u ∈ text, isRegExpSpace u = false) :
    betweenWords text = none := by
  match text, h with
  | [], _ => rfl
  | u :: text, h =>
    have hspace : text.takeWhile isRegExpSpace = [] := by
      cases text with
      | nil => rfl
      | cons v text =>
        exact takeWhile_cons_of_neg (by rw [h v (by simp)]; exact Bool.false_ne_true)
    unfold betweenWords
    split
    · next heq =>
      obtain ⟨-, rfl⟩ := cons.inj heq
      simp[hspace]
    · rfl

theorem decodeMimeWords_of_not_mem {text : DartString} (h : 61 ∉ text) :
    decodeMimeWords text = text := by
  rw [decodeMimeWords, if_neg]
  rw [any_eq_true]
  rintro ⟨rest, hrest, hword⟩
  obtain ⟨front, rfl⟩ := (mem_tails _ _).mp hrest
  split at hword
  · exact h (by simp)
  · exact Bool.false_ne_true hword

theorem decodeMimeWords_word {payload : DartString} (h : ∀ u ∈ payload, isWordUnit u = true) :
    decodeMimeWords (ofString "=?utf-8?b?" ++ payload ++ ofString "?=") =
      EncodedWord.text ⟨ofString "utf-8", 98, payload⟩ := by
  have hvalue : ofString "=?utf-8?b?" ++ payload ++ ofString "?=" =
      61 :: (ofString "?utf-8?b?" ++ (payload ++ [63, 61])) := by
    rfl
  have hword := encodedWord?_append h
  have hmarks : (ofString "?utf-8?b?" ++ [63, 61]).all (fun u => !isRegExpSpace u) = true := by
    decide
  have hspaceless : ∀ u ∈ ofString "?utf-8?b?" ++ [63, 61], isRegExpSpace u = false := fun u hu =>
    Bool.not_eq_true' _ ▸ all_eq_true.mp hmarks u hu
  have hspace : ∀ u ∈ 61 :: (ofString "?utf-8?b?" ++ (payload ++ [63, 61])),
      isRegExpSpace u = false := by
    intro u hu
    rw [mem_cons, mem_append, mem_append] at hu
    obtain rfl | hu | hu | hu := hu
    · decide
    · exact hspaceless u (mem_append_left _ hu)
    · have := h u hu
      rw [isWordUnit, Bool.and_eq_true, Bool.not_eq_true'] at this
      exact this.2
    · exact hspaceless u (mem_append_right _ hu)
  rw [hvalue]
  generalize ofString "?utf-8?b?" ++ (payload ++ [63, 61]) = text at *
  have hjoin : scan 63 betweenWords id 0 (61 :: text) = 61 :: text := by
    rw [scan_of_none, map_id]
    intro front rest heq
    refine betweenWords_eq_none fun u hu => hspace u ?_
    rw [heq]
    exact mem_append_right _ (mem_cons_of_mem _ hu)
  have hat : wordAt text =
      some (EncodedWord.text ⟨ofString "utf-8", 98, payload⟩, text.length) := by
    rw [wordAt, hword]
    rfl
  rw [decodeMimeWords, if_pos, hjoin, scan_escape hat, drop_length, scan_nil, append_nil]
  rw [any_eq_true]
  refine ⟨61 :: text, (mem_tails _ _).mpr (suffix_refl _), ?_⟩
  show (encodedWord? text).isSome = true
  rw [hword]
  rfl

theorem decodeMimeWords_encodeMimeWord {text : DartString} (h : WellFormed text) :
    decodeMimeWords (encodeMimeWord text) =
      if text.all isPlainUnit ∧ 34 ∉ text then text else dropMark text := by
  unfold encodeMimeWord
  split_ifs with hplain
  · apply decodeMimeWords_of_not_mem
    intro hmem
    exact absurd (all_eq_true.mp hplain.1 61 hmem) (by decide)
  · rw [decodeMimeWords_word fun u hu => isWordUnit_of_mem_base64Encode hu]
    rw [text_word, decodeBase64_base64Encode, utf8DecodeMalformed_utf8Encode h]

end Mail
end Conest
