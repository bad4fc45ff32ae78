import Mathlib

/-!
# Values of the Dart language

A Dart string is a sequence of UTF-16 code units, which need not pair up: `DartString` is that
sequence, and its order, the lexicographic one on code units, is `String.compareTo`. `Json` is what
`jsonDecode` returns when there are no fractions; an object is the list of its entries.
-/

namespace Lib

open List

abbrev Bytes := List UInt8

/-- A Dart string: its UTF-16 code units. -/
abbrev DartString := List (Fin 65536)

namespace DartString

-- What membership in a list of strings, sorting and a literal code unit ask for, found under one
-- name wherever they are used.
instance instNeZeroUnits : NeZero 65536 := ⟨by decide⟩

instance instLawfulBEqUnit : LawfulBEq (Fin 65536) := inferInstance

instance instLawfulBEq : LawfulBEq DartString := inferInstance

instance instIsTransLE : IsTrans DartString (· ≤ ·) := inferInstance

instance instAntisymmLE : Std.Antisymm (α := DartString) (· ≤ ·) := inferInstance

instance instTotalLE : Std.Total (α := DartString) (· ≤ ·) := inferInstance

/-- The code units of one character. -/
def unitsOf (c : Char) : List (Fin 65536) :=
  if c.toNat < 0x10000 then [Fin.ofNat 65536 c.toNat]
  else
    [Fin.ofNat 65536 (0xD800 + (c.toNat - 0x10000) / 0x400),
      Fin.ofNat 65536 (0xDC00 + (c.toNat - 0x10000) % 0x400)]

/-- A Dart string literal. -/
def ofString (s : String) : DartString := s.toList.flatMap unitsOf

/-- The code units that `String.trim` removes: those of Unicode's `White_Space` and the byte order
mark. -/
def isWhitespace (u : Fin 65536) : Bool :=
  let n := u.val
  decide (9 ≤ n ∧ n ≤ 13) || decide (0x2000 ≤ n ∧ n ≤ 0x200A) ||
    [0x20, 0x85, 0xA0, 0x1680, 0x2028, 0x2029, 0x202F, 0x205F, 0x3000, 0xFEFF].contains n

/-- `String.trim`. -/
def trim (s : DartString) : DartString :=
  ((s.dropWhile isWhitespace).reverse.dropWhile isWhitespace).reverse

/-- Whether the string is 64 lower-case hexadecimal digits. -/
def isDigest (s : DartString) : Bool :=
  s.length == 64 &&
    s.all fun u => decide (48 ≤ u.val ∧ u.val ≤ 57) || decide (97 ≤ u.val ∧ u.val ≤ 102)

/-- The value of a base64 digit; the two alphabets of `dart:convert` may be mixed. -/
def base64Digit (u : Fin 65536) : Option ℕ :=
  let n := u.val
  if 65 ≤ n ∧ n ≤ 90 then some (n - 65)
  else if 97 ≤ n ∧ n ≤ 122 then some (n - 71)
  else if 48 ≤ n ∧ n ≤ 57 then some (n + 4)
  else if n = 43 ∨ n = 45 then some 62
  else if n = 47 ∨ n = 95 then some 63
  else none

/-- Whether the string is `count` padding marks, each a `=` or its percent encoding. -/
def isPadding : ℕ → DartString → Bool
  | 0, s => s.isEmpty
  | count + 1, u :: s =>
    if u.val = 61 then isPadding count s
    else
      match s with
      | v :: w :: rest =>
        u.val == 37 && v.val == 51 && (w.val == 68 || w.val == 100) && isPadding count rest
      | _ => false
  | _ + 1, [] => false

/-- The bytes that a run of base64 digits holds. -/
def base64Bytes : List ℕ → List ℕ
  | a :: b :: c :: d :: rest =>
    (a * 4 + b / 16) :: (b % 16 * 16 + c / 4) :: (c % 4 * 64 + d) :: base64Bytes rest
  | [a, b, c] => [a * 4 + b / 16, b % 16 * 16 + c / 4]
  | [a, b] => [a * 4 + b / 16]
  | _ => []

/-- `base64Decode`, `none` where it throws. The last group is padded to four, and the bits that it
does not use are zero. -/
def base64Decode (s : DartString) : Option (List ℕ) :=
  let digits := (s.takeWhile fun u => (base64Digit u).isSome).filterMap base64Digit
  let tail := s.drop digits.length
  let padded :=
    match digits.length % 4 with
    | 0 => tail.isEmpty
    | 2 => isPadding 2 tail && digits.getLastD 0 % 16 == 0
    | 3 => isPadding 1 tail && digits.getLastD 0 % 4 == 0
    | _ => false
  if padded then some (base64Bytes digits) else none

/-- A hexadecimal digit. -/
def hexDigit (n : ℕ) : Fin 65536 := Fin.ofNat 65536 (if n < 10 then 48 + n else 87 + n)

/-- Each byte as two hexadecimal digits. -/
def hex (bytes : List ℕ) : DartString :=
  bytes.flatMap fun b => [hexDigit (b / 16), hexDigit (b % 16)]

end DartString

/-- A JSON value without fractions. -/
inductive Json where
  | null
  | bool (b : Bool)
  | int (n : Int)
  | str (s : DartString)
  | list (elements : List Json)
  | obj (entries : List (DartString × Json))

namespace Json

mutual

/-- Equality of JSON values is decided along both of them. -/
def decEq (a b : Json) : Decidable (a = b) :=
  match a, b with
  | null, null => isTrue rfl
  | bool x, bool y => decidable_of_iff (x = y) (by simp)
  | int x, int y => decidable_of_iff (x = y) (by simp)
  | str x, str y => decidable_of_iff (x = y) (by simp)
  | list xs, list ys =>
    match decEqList xs ys with
    | isTrue h => isTrue (by rw [h])
    | isFalse h => isFalse (by simpa using h)
  | obj xs, obj ys =>
    match decEqEntries xs ys with
    | isTrue h => isTrue (by rw [h])
    | isFalse h => isFalse (by simpa using h)
  | null, bool _ | null, int _ | null, str _ | null, list _ | null, obj _
  | bool _, null | bool _, int _ | bool _, str _ | bool _, list _ | bool _, obj _
  | int _, null | int _, bool _ | int _, str _ | int _, list _ | int _, obj _
  | str _, null | str _, bool _ | str _, int _ | str _, list _ | str _, obj _
  | list _, null | list _, bool _ | list _, int _ | list _, str _ | list _, obj _
  | obj _, null | obj _, bool _ | obj _, int _ | obj _, str _ | obj _, list _ => isFalse (by simp)

def decEqList (xs ys : List Json) : Decidable (xs = ys) :=
  match xs, ys with
  | [], [] => isTrue rfl
  | x :: xs, y :: ys =>
    match decEq x y, decEqList xs ys with
    | isTrue h, isTrue h' => isTrue (by rw [h, h'])
    | isFalse h, _ => isFalse (by simp [h])
    | _, isFalse h => isFalse (by simp [h])
  | [], _ :: _ | _ :: _, [] => isFalse (by simp)

def decEqEntries (xs ys : List (DartString × Json)) : Decidable (xs = ys) :=
  match xs, ys with
  | [], [] => isTrue rfl
  | (k, x) :: xs, (l, y) :: ys =>
    match (inferInstance : Decidable (k = l)), decEq x y, decEqEntries xs ys with
    | isTrue hk, isTrue h, isTrue h' => isTrue (by rw [hk, h, h'])
    | isFalse h, _, _ => isFalse (by simp [h])
    | _, isFalse h, _ => isFalse (by simp [h])
    | _, _, isFalse h => isFalse (by simp [h])
  | [], _ :: _ | _ :: _, [] => isFalse (by simp)

end

instance : DecidableEq Json := decEq

/-- `map[key]` of a decoded object: `null` where there is no such key. -/
def valueAt (entries : List (DartString × Json)) (key : String) : Json :=
  ((entries.find? fun entry => entry.1 == DartString.ofString key).map Prod.snd).getD .null

theorem valueAt_of_mem {entries : List (DartString × Json)} {key : String} {value : Json}
    (hnodup : (entries.map Prod.fst).Nodup) (hmem : (DartString.ofString key, value) ∈ entries) :
    valueAt entries key = value := by
  have hfind : (entries.find? fun entry => entry.1 == DartString.ofString key) =
      some (DartString.ofString key, value) := by
    obtain ⟨before, after, rfl⟩ := append_of_mem hmem
    rw [find?_eq_some_iff_append]
    refine ⟨beq_self_eq_true _, before, after, rfl, fun entry hentry => ?_⟩
    rw [map_append, nodup_append] at hnodup
    rw [Bool.not_eq_true', beq_eq_false_iff_ne]
    exact hnodup.2.2 entry.1 (mem_map_of_mem hentry) _ mem_cons_self
  unfold valueAt
  rw [hfind]
  rfl

theorem valueAt_getElem {json : List (DartString × Json)} (hnodup : (json.map Prod.fst).Nodup)
    (i : ℕ) {name : String} {value : Json}
    (h : json[i]? = some (DartString.ofString name, value)) : valueAt json name = value :=
  valueAt_of_mem hnodup (mem_of_getElem? h)

/-- The string of a string value. -/
def asString? : Json → Option DartString
  | str s => some s
  | _ => none

theorem mapM_map_pure {m : Type → Type} [Monad m] [LawfulMonad m] {α β γ : Type} {write : α → β}
    {read : β → m γ} {value : α → γ} {l : List α}
    (h : ∀ a ∈ l, read (write a) = pure (value a)) :
    (l.map write).mapM read = pure (l.map value) := by
  induction l with
  | nil => rfl
  | cons a l ih =>
    rw [map_cons, mapM_cons, h a mem_cons_self,
      ih fun b hb => h b (mem_cons_of_mem _ hb), pure_bind, pure_bind]
    rfl

theorem mapM_map_some {α β γ : Type} {write : α → β} {read : β → Option γ} {value : α → γ}
    {l : List α} (h : ∀ a ∈ l, read (write a) = some (value a)) :
    (l.map write).mapM read = some (l.map value) :=
  mapM_map_pure h

end Json

end Lib
