import Mathlib

/-!
# JSON texts

How a JSON writer without blanks prints strings, lists and objects (`quote`, `listText`,
`objectText`), and how many bytes that takes.
-/

namespace Lib

open List
namespace JsonText

/-! ### Writing -/

/-- A lower-case hexadecimal digit. -/
def hexDigit (n : ℕ) : Char := Char.ofNat (if n < 10 then 48 + n else 87 + n)

def backslash : Char := Char.ofNat 92

/-- What a character is written as inside a string. -/
def escapeChar (c : Char) : List Char :=
  if c.toNat = 34 then [backslash, c]
  else if c.toNat = 92 then [backslash, c]
  else if c.toNat = 8 then [backslash, 'b']
  else if c.toNat = 12 then [backslash, 'f']
  else if c.toNat = 10 then [backslash, 'n']
  else if c.toNat = 13 then [backslash, 'r']
  else if c.toNat = 9 then [backslash, 't']
  else if c.toNat < 32 then
    [backslash, 'u', '0', '0', hexDigit (c.toNat / 16), hexDigit (c.toNat % 16)]
  else [c]

/-- The inside of a string. -/
def escaped (s : String) : String := String.ofList (s.toList.flatMap escapeChar)

def quote (s : String) : String := "\"" ++ escaped s ++ "\""

/-- Texts with commas between them. -/
def commaText : List String → String
  | [] => ""
  | [item] => item
  | item :: next :: items => item ++ "," ++ commaText (next :: items)

def listText (items : List String) : String := "[" ++ commaText items ++ "]"

/-- A member of an object: its key, and the text of its value. -/
def memberText (m : String × String) : String := quote m.1 ++ ":" ++ m.2

def objectText (members : List (String × String)) : String :=
  "\x7b" ++ commaText (members.map memberText) ++ "\x7d"

/-! ### How long that is -/

@[simp] theorem escaped_append (s t : String) : escaped (s ++ t) = escaped s ++ escaped t := by
  unfold escaped
  rw [String.toList_append, flatMap_append, String.ofList_append]

@[simp] theorem utf8ByteSize_quote (s : String) :
    (quote s).utf8ByteSize = (escaped s).utf8ByteSize + 2 := by
  unfold quote
  rw [String.utf8ByteSize_append, String.utf8ByteSize_append]
  have hmark : "\"".utf8ByteSize = 1 := rfl
  omega

theorem utf8ByteSize_commaText (items : List String) :
    (commaText items).utf8ByteSize =
      (items.map String.utf8ByteSize).sum + (items.length - 1) := by
  induction items using commaText.induct with
  | case1 => rfl
  | case2 item => simp [commaText]
  | case3 item next items ih =>
    have hcomma : ",".utf8ByteSize = 1 := rfl
    rw [commaText, String.utf8ByteSize_append, String.utf8ByteSize_append, ih]
    simp only [map_cons, sum_cons, length_cons]
    omega

theorem escaped_commaText (items : List String) :
    escaped (commaText items) = commaText (items.map escaped) := by
  induction items using commaText.induct with
  | case1 => rfl
  | case2 item => rfl
  | case3 item next items ih =>
    have hcomma : escaped "," = "," := by decide
    rw [commaText, escaped_append, escaped_append, ih]
    rfl

/-- The bytes that a text takes as it is, or inside a string of another text. -/
def lengthIn (inString : Bool) (s : String) : ℕ :=
  (if inString then escaped s else s).utf8ByteSize

section

variable (inString : Bool)

include inString

theorem lengthIn_append (s t : String) :
    lengthIn inString (s ++ t) = lengthIn inString s + lengthIn inString t := by
  cases inString with
  | false => exact String.utf8ByteSize_append
  | true =>
    show (escaped (s ++ t)).utf8ByteSize = _
    rw [escaped_append, String.utf8ByteSize_append]
    rfl

theorem lengthIn_commaText (items : List String) : lengthIn inString (commaText items) =
    (items.map (lengthIn inString)).sum + (items.length - 1) := by
  cases inString with
  | false => exact utf8ByteSize_commaText items
  | true =>
    show (escaped (commaText items)).utf8ByteSize = _
    rw [escaped_commaText, utf8ByteSize_commaText, map_map, length_map]
    rfl

theorem lengthIn_listText (items : List String) : lengthIn inString (listText items) =
      (items.map (lengthIn inString)).sum + (items.length - 1) + 2 := by
  have hopen : lengthIn inString "[" = 1 := by cases inString <;> decide
  have hclose : lengthIn inString "]" = 1 := by cases inString <;> decide
  unfold listText
  rw [lengthIn_append, lengthIn_append, lengthIn_commaText]
  omega

theorem lengthIn_objectText (members : List (String × String)) :
    lengthIn inString (objectText members) =
      (members.map fun m => lengthIn inString (memberText m)).sum + (members.length - 1) + 2 := by
  have hopen : lengthIn inString "\x7b" = 1 := by cases inString <;> decide
  have hclose : lengthIn inString "\x7d" = 1 := by cases inString <;> decide
  unfold objectText
  rw [lengthIn_append, lengthIn_append, lengthIn_commaText, map_map,
    length_map]
  simp only [Function.comp_def]
  omega

theorem lengthIn_objectText_append {ms : List (String × String)} (hms : ms ≠ [])
    (ms' : List (String × String)) : lengthIn inString (objectText (ms ++ ms')) =
      lengthIn inString (objectText ms) +
        (ms'.map fun m => lengthIn inString (memberText m) + 1).sum := by
  have hpos := length_pos_iff.mpr hms
  have hsum : (ms'.map fun m => lengthIn inString (memberText m) + 1).sum =
      (ms'.map fun m => lengthIn inString (memberText m)).sum + ms'.length := by
    induction ms' with
    | nil => rfl
    | cons m ms' ih =>
      simp only [map_cons, sum_cons, length_cons, ih]
      omega
  rw [lengthIn_objectText, lengthIn_objectText, map_append, sum_append,
    length_append]
  omega

theorem lengthIn_objectText_perm {ms ms' : List (String × String)} (h : ms.Perm ms') :
    lengthIn inString (objectText ms) = lengthIn inString (objectText ms') := by
  rw [lengthIn_objectText, lengthIn_objectText, h.length_eq, (h.map _).sum_eq]

end

end JsonText
end Lib
