import Conest.Lib.Decimal
import Conest.Lib.Utf8

/-!
# JSON texts of Dart values

`jsonText` is `jsonEncode` on code units. Quotes, backslashes and control characters are escaped,
and so is a surrogate that pairs with nothing; hence the text is well formed whatever the strings in
it are (`wellFormed_jsonText`). A value is told from every other by its text, whatever comes after
it but a digit (`jsonText_append_inj`). The escapes carry this: `readUnit` takes back what was
written for one unit.
-/

namespace Lib

open DartString List Option

namespace DartString

/-! ### Strings -/

/-- A unit between its neighbours, as it stands in a JSON string. -/
def escapeUnit (before : Option (Fin 65536)) (u : Fin 65536) (next : Option (Fin 65536)) :
    DartString :=
  if 92 < u.val then
    -- a surrogate whose other half is missing
    if isHighSurrogate u && !next.any isLowSurrogate ||
        isLowSurrogate u && !before.any isHighSurrogate then
      [92, 117, 100, hexDigit (u.val / 256 % 16), hexDigit (u.val / 16 % 16), hexDigit (u.val % 16)]
    else [u]
  else if u.val < 32 then
    if u = 8 then [92, 98]
    else if u = 9 then [92, 116]
    else if u = 10 then [92, 110]
    else if u = 12 then [92, 102]
    else if u = 13 then [92, 114]
    else [92, 117, 48, 48, hexDigit (u.val / 16), hexDigit (u.val % 16)]
  else if u = 34 ∨ u = 92 then [92, u]
  else [u]

def escapeFrom (before : Option (Fin 65536)) : DartString → DartString
  | [] => []
  | u :: s => escapeUnit before u s.head? ++ escapeFrom (some u) s

@[simp] theorem escapeFrom_nil (before : Option (Fin 65536)) : escapeFrom before [] = [] := rfl

theorem escapeFrom_cons (before : Option (Fin 65536)) (u : Fin 65536) (s : DartString) :
    escapeFrom before (u :: s) = escapeUnit before u s.head? ++ escapeFrom (some u) s := rfl

/-- A string in quotes. -/
def quoted (s : DartString) : DartString := 34 :: (escapeFrom none s ++ [34])

theorem quoted_append (s r : DartString) :
    quoted s ++ r = 34 :: (escapeFrom none s ++ 34 :: r) := by
  rw [quoted, cons_append, append_assoc, singleton_append]

/-! ### Taking an escape back -/

/-- The value of a hexadecimal digit. -/
def hexValue (u : Fin 65536) : ℕ := if u.val < 58 then u.val - 48 else u.val - 87

/-- What the letter after a backslash stands for. -/
def escapedUnit (u : Fin 65536) : Fin 65536 :=
  if u = 98 then 8 else if u = 116 then 9 else if u = 110 then 10 else if u = 102 then 12
  else if u = 114 then 13 else u

/-- The first unit of what is in quotes, and what follows it. -/
def readUnit : DartString → Option (Fin 65536 × DartString)
  | [] => none
  | u :: rest =>
    if u ≠ 92 then some (u, rest)
    else match rest with
      | [] => none
      | e :: rest =>
        if e ≠ 117 then some (escapedUnit e, rest)
        else match rest with
          | a :: b :: c :: d :: rest =>
            some (Fin.ofNat 65536 (hexValue a * 4096 + hexValue b * 256 + hexValue c * 16 +
              hexValue d), rest)
          | _ => none

theorem hexDigit_val {n : ℕ} (h : n < 16) :
    (hexDigit n).val = if n < 10 then 48 + n else 87 + n := by
  exact Nat.mod_eq_of_lt (by split <;> omega)

theorem hexValue_hexDigit {n : ℕ} (h : n < 16) : hexValue (hexDigit n) = n := by
  unfold hexValue
  rw [hexDigit_val h]
  split <;> split <;> omega

theorem readUnit_plain {u : Fin 65536} (h : u ≠ 92) (rest : DartString) :
    readUnit (u :: rest) = some (u, rest) := if_pos h

theorem readUnit_letter {e : Fin 65536} (h : e ≠ 117) (rest : DartString) :
    readUnit (92 :: e :: rest) = some (escapedUnit e, rest) := if_pos h

theorem readUnit_hex (a b c d : Fin 65536) (rest : DartString) {u : Fin 65536}
    (h : hexValue a * 4096 + hexValue b * 256 + hexValue c * 16 + hexValue d = u.val) :
    readUnit (92 :: 117 :: a :: b :: c :: d :: rest) = some (u, rest) := by
  have hu : Fin.ofNat 65536 u.val = u := Fin.ext (Nat.mod_eq_of_lt u.isLt)
  change some (Fin.ofNat 65536 _, rest) = _
  rw [h, hu]

theorem surrogate_bounds {u : Fin 65536} (h : (isHighSurrogate u || isLowSurrogate u) = true) :
    0xD800 ≤ u.val ∧ u.val < 0xE000 := by
  rw [Bool.or_eq_true] at h
  rcases h with h | h
  · have := of_decide_eq_true h
    omega
  · have := of_decide_eq_true h
    omega

section

variable (before : Option (Fin 65536)) (u : Fin 65536) (next : Option (Fin 65536))

include before u next

theorem readUnit_escapeUnit (rest : DartString) :
    readUnit (escapeUnit before u next ++ rest) = some (u, rest) := by
  unfold escapeUnit
  split
  case isTrue hlarge =>
    have hplain : u ≠ 92 := fun h => by rw [h] at hlarge; exact absurd hlarge (by decide)
    split
    case isTrue hlone =>
      have hsurrogate : (isHighSurrogate u || isLowSurrogate u) = true := by
        rw [Bool.or_eq_true, Bool.and_eq_true, Bool.and_eq_true] at hlone
        rw [Bool.or_eq_true]
        exact hlone.imp And.left And.left
      obtain ⟨hlo, hhi⟩ := surrogate_bounds hsurrogate
      have hd : hexValue 100 = 13 := by decide
      apply readUnit_hex
      rw [hexValue_hexDigit (by omega), hexValue_hexDigit (by omega),
        hexValue_hexDigit (by omega)]
      omega
    case isFalse => exact readUnit_plain hplain rest
  case isFalse hsmall =>
    split
    case isTrue hcontrol =>
      iterate 5
        split
        case isTrue h => exact h ▸ readUnit_letter (by decide) rest
      have h0 : hexValue 48 = 0 := by decide
      apply readUnit_hex
      rw [hexValue_hexDigit (by omega), hexValue_hexDigit (by omega)]
      omega
    case isFalse =>
      split
      case isTrue h =>
        have hself : escapedUnit u = u := by rcases h with rfl | rfl <;> decide
        have hletter : u ≠ 117 := by rcases h with rfl | rfl <;> decide
        rw [cons_append, singleton_append, readUnit_letter hletter, hself]
      case isFalse h => exact readUnit_plain (fun hu => h (.inr hu)) rest

theorem escapeUnit_head : ∃ v t, escapeUnit before u next = v :: t ∧ v ≠ 34 := by
  unfold escapeUnit
  split
  case isTrue hlarge =>
    split
    · exact ⟨92, _, rfl, by decide⟩
    · exact ⟨u, [], rfl, fun h => by rw [h] at hlarge; exact absurd hlarge (by decide)⟩
  split
  case isTrue =>
    -- an escape begins with a backslash, each of the six kinds
    repeat' split
    all_goals exact ⟨92, _, rfl, by decide⟩
  case isFalse =>
    split
    case isTrue => exact ⟨92, _, rfl, by decide⟩
    case isFalse h => exact ⟨u, [], rfl, fun hu => h (.inl hu)⟩

end

theorem escapeFrom_append_inj {s t : DartString} {before before' : Option (Fin 65536)}
    {r r' : DartString} (h : escapeFrom before s ++ 34 :: r = escapeFrom before' t ++ 34 :: r') :
    s = t ∧ r = r' := by
  induction s generalizing t before before' with
  | nil =>
    cases t with
    | nil => exact ⟨rfl, (cons.inj h).2⟩
    | cons v t =>
      obtain ⟨w, tail, hv, hw⟩ := escapeUnit_head before' v t.head?
      rw [escapeFrom_cons, hv] at h
      exact absurd (cons.inj h).1.symm hw
  | cons u s ih =>
  cases t with
  | nil =>
    obtain ⟨w, tail, hu, hw⟩ := escapeUnit_head before u s.head?
    rw [escapeFrom_cons, hu] at h
    exact absurd (cons.inj h).1 hw
  | cons v t =>
  have hread := congrArg readUnit h
  rw [escapeFrom_cons, escapeFrom_cons, append_assoc, append_assoc,
    readUnit_escapeUnit, readUnit_escapeUnit, some.injEq, Prod.mk.injEq] at hread
  obtain ⟨hst, hrr⟩ := ih hread.2
  exact ⟨by rw [hread.1, hst], hrr⟩

theorem quoted_append_inj {s t r r' : DartString} (h : quoted s ++ r = quoted t ++ r') :
    s = t ∧ r = r' := by
  rw [quoted_append, quoted_append] at h
  exact escapeFrom_append_inj (cons.inj h).2

/-! ### Well-formed texts -/

theorem hexDigit_small {n : ℕ} (h : n < 16) : (hexDigit n).val < 0xD800 := by
  rw [hexDigit_val h]
  split <;> omega

theorem wellFormed_escape {u : Fin 65536} (before next : Option (Fin 65536))
    (h : u.val ≤ 92) : WellFormed (escapeUnit before u next) := by
  apply wellFormed_of_small
  intro v hv
  unfold escapeUnit at hv
  rw [if_neg (by omega)] at hv
  split at hv
  case isTrue hcontrol =>
    have hhigh : (hexDigit (u.val / 16)).val < 0xD800 := hexDigit_small (by omega)
    have hlow : (hexDigit (u.val % 16)).val < 0xD800 := hexDigit_small (by omega)
    repeat' split at hv
    all_goals simp at hv
    case isFalse =>
      rcases hv with rfl | rfl | rfl | rfl | rfl | rfl <;> first | exact hhigh | exact hlow | decide
    all_goals rcases hv with rfl | rfl <;> decide
  split at hv
  case isTrue =>
    rcases mem_pair.mp hv with rfl | rfl
    · decide
    · omega
  case isFalse =>
    rw [mem_singleton.mp hv]
    omega

section

variable {u : Fin 65536} {before next : Option (Fin 65536)}

theorem escapeUnit_lone (h : (isHighSurrogate u && !next.any isLowSurrogate ||
      isLowSurrogate u && !before.any isHighSurrogate) = true) :
    escapeUnit before u next = [92, 117, 100, hexDigit (u.val / 256 % 16),
      hexDigit (u.val / 16 % 16), hexDigit (u.val % 16)] := by
  have hlarge : 92 < u.val := by
    have hsurrogate : (isHighSurrogate u || isLowSurrogate u) = true := by
      rw [Bool.or_eq_true, Bool.and_eq_true, Bool.and_eq_true] at h
      rw [Bool.or_eq_true]
      exact h.imp And.left And.left
    have := (surrogate_bounds hsurrogate).1
    omega
  unfold escapeUnit
  rw [if_pos hlarge, if_pos h]

theorem escapeUnit_plain (hlarge : 92 < u.val)
    (h : (isHighSurrogate u && !next.any isLowSurrogate ||
      isLowSurrogate u && !before.any isHighSurrogate) = false) :
    escapeUnit before u next = [u] := by
  unfold escapeUnit
  rw [if_pos hlarge, h]
  rfl

end

theorem wellFormed_lone (u : Fin 65536) : WellFormed [92, 117, 100, hexDigit (u.val / 256 % 16),
    hexDigit (u.val / 16 % 16), hexDigit (u.val % 16)] := by
  apply wellFormed_of_small
  intro v hv
  simp only [mem_cons, not_mem_nil, or_false] at hv
  rcases hv with rfl | rfl | rfl | rfl | rfl | rfl
  · decide
  · decide
  · decide
  all_goals exact hexDigit_small (Nat.mod_lt _ (by omega))

theorem isLow_of_isHigh {u : Fin 65536} (h : isHighSurrogate u = true) :
    isLowSurrogate u = false := by
  have := of_decide_eq_true h
  exact decide_eq_false (by omega)

/-- **What is escaped is well formed**: a surrogate stands as it is only beside its other half. -/
theorem wellFormed_escapeFrom {before : Option (Fin 65536)} {s : DartString}
    (h : before.any isHighSurrogate = true → s.head?.any isLowSurrogate = false) :
    WellFormed (escapeFrom before s) := by
  match s, h with
  | [], _ => exact wellFormed_nil
  | u :: s, h =>
    rw [escapeFrom_cons]
    -- after a unit that is no high surrogate, anything may come
    have hfree : isHighSurrogate u = false → WellFormed (escapeFrom (some u) s) := fun hu =>
      wellFormed_escapeFrom fun htrue => by
        rw [any_some, hu] at htrue
        exact absurd htrue Bool.false_ne_true
    by_cases hsmall : u.val ≤ 92
    · exact (wellFormed_escape before s.head? hsmall).append (hfree (decide_eq_false (by omega)))
    rw [Nat.not_le] at hsmall
    by_cases hhigh : isHighSurrogate u = true
    · have hlow := isLow_of_isHigh hhigh
      match s with
      | [] =>
        rw [escapeUnit_lone (by rw [hhigh]; rfl), escapeFrom_nil]
        exact wellFormed_lone u
      | v :: rest =>
        by_cases hv : isLowSurrogate v = true
        · -- the two halves of a character
          have hvhigh : isHighSurrogate v = false := by
            have := of_decide_eq_true hv
            exact decide_eq_false (by omega)
          have hvlarge : 92 < v.val := by
            have := of_decide_eq_true hv
            omega
          rw [escapeUnit_plain hsmall (by simp [hlow, hv]), escapeFrom_cons,
            escapeUnit_plain hvlarge (by simp [hvhigh, hhigh])]
          refine (wellFormed_pair hhigh hv).append (wellFormed_escapeFrom fun htrue => ?_)
          rw [any_some, hvhigh] at htrue
          exact absurd htrue Bool.false_ne_true
        · rw [Bool.not_eq_true] at hv
          rw [escapeUnit_lone (by simp [hhigh, hv])]
          exact (wellFormed_lone u).append (wellFormed_escapeFrom fun _ => hv)
    · rw [Bool.not_eq_true] at hhigh
      by_cases hlow : isLowSurrogate u = true
      · have hbefore : before.any isHighSurrogate = false := by
          by_contra htrue
          rw [Bool.not_eq_false] at htrue
          have := h htrue
          rw [head?_cons, any_some, hlow] at this
          exact absurd this.symm Bool.false_ne_true
        rw [escapeUnit_lone (by simp [hlow, hbefore])]
        exact (wellFormed_lone u).append (hfree hhigh)
      · rw [Bool.not_eq_true] at hlow
        rw [escapeUnit_plain hsmall (by simp [hhigh, hlow])]
        exact (wellFormed_singleton (by rw [hhigh, hlow]; rfl)).append (hfree hhigh)

theorem wellFormed_quoted (s : DartString) : WellFormed (quoted s) := by
  have hquote : WellFormed [34] := by decide
  refine hquote.append (WellFormed.append (wellFormed_escapeFrom fun h => ?_) hquote)
  exact absurd h Bool.false_ne_true
end DartString

/-! ### Values -/

namespace Json

/-- The comma in front of every item but the first. -/
def separator (first : Bool) : DartString := if first then [] else [44]

mutual

/-- `jsonEncode`. -/
def jsonText : Json → DartString
  | null => ofString "null"
  | bool true => ofString "true"
  | bool false => ofString "false"
  | int n => intText n
  | str s => quoted s
  | list elements => 91 :: elementsText true elements
  | obj entries => 123 :: entriesText true entries

/-- The elements of a list and the bracket that closes it. -/
def elementsText (first : Bool) : List Json → DartString
  | [] => [93]
  | value :: values => separator first ++ (jsonText value ++ elementsText false values)

/-- The entries of an object and the brace that closes it. -/
def entriesText (first : Bool) : List (DartString × Json) → DartString
  | [] => [125]
  | (key, value) :: entries =>
    separator first ++ (quoted key ++ 58 :: (jsonText value ++ entriesText false entries))

end

/-- The kinds of values, numbered. -/
def kind : Json → ℕ
  | null => 0
  | bool _ => 1
  | int _ => 2
  | str _ => 3
  | list _ => 4
  | obj _ => 5

/-- The kind of the value that a unit begins; a closing bracket begins none. -/
def kindOf (u : Fin 65536) : ℕ :=
  if u = 110 then 0 else if u = 116 ∨ u = 102 then 1 else if u = 34 then 3 else if u = 91 then 4
  else if u = 123 then 5 else if u = 93 then 6 else 2

theorem kindOf_number {u : Fin 65536} (h : isDigit u = true ∨ u = 45) : kindOf u = 2 := by
  have hval : u.val ≤ 57 ∧ u.val ≠ 34 := by
    rcases h with h | rfl
    · have := of_decide_eq_true h
      omega
    · decide
  have hne : ∀ v : Fin 65536, 57 < v.val ∨ v.val = 34 → u ≠ v := by
    rintro v hv rfl
    omega
  unfold kindOf
  rw [if_neg (hne 110 (by decide)), if_neg, if_neg (hne 34 (by decide)),
    if_neg (hne 91 (by decide)), if_neg (hne 123 (by decide)), if_neg (hne 93 (by decide))]
  rintro (h | h)
  · exact hne 116 (by decide) h
  · exact hne 102 (by decide) h

theorem jsonText_head (a : Json) : ∃ u t, jsonText a = u :: t ∧ kindOf u = kind a := by
  cases a with
  | null => exact ⟨110, _, rfl, by decide⟩
  | bool b =>
    cases b with
    | true => exact ⟨116, _, rfl, by decide⟩
    | false => exact ⟨102, _, rfl, by decide⟩
  | int n =>
    obtain ⟨u, t, htext, hu⟩ := intText_head n
    exact ⟨u, t, htext, kindOf_number hu⟩
  | str s => exact ⟨34, _, rfl, rfl⟩
  | list elements => exact ⟨91, _, rfl, rfl⟩
  | obj entries => exact ⟨123, _, rfl, rfl⟩

theorem kind_eq_of_append {a b : Json} {r s : DartString} (h : jsonText a ++ r = jsonText b ++ s) :
    kind a = kind b := by
  obtain ⟨u, t, ha, hu⟩ := jsonText_head a
  obtain ⟨v, t', hb, hv⟩ := jsonText_head b
  rw [ha, hb] at h
  rw [← hu, ← hv, (cons.inj h).1]

theorem kind_lt (a : Json) : kind a < 6 := by
  cases a <;> simp [kind]

theorem separator_ne_close (first : Bool) (a : Json) (r s : DartString) :
    separator first ++ (jsonText a ++ r) ≠ 93 :: s := by
  cases first with
  | false => exact fun h => absurd (cons.inj h).1 (by decide)
  | true =>
  obtain ⟨u, t, ha, hu⟩ := jsonText_head a
  intro h
  have hhead : u :: (t ++ r) = 93 :: s := by
    rw [ha] at h
    exact h
  have hsix : kindOf 93 = 6 := by decide
  rw [(cons.inj hhead).1] at hu
  exact absurd (kind_lt a) (by omega)

theorem separator_ne_brace (first : Bool) (key r s : DartString) :
    separator first ++ (quoted key ++ r) ≠ 125 :: s := by
  cases first with
  | false => exact fun h => absurd (cons.inj h).1 (by decide)
  | true => exact fun h => absurd (cons.inj h).1 (by decide)

theorem noDigit_elementsText (values : List Json) (r : DartString) :
    NoDigit (elementsText false values ++ r) := by
  cases values with
  | nil => exact fun u hu => by cases hu; decide
  | cons value values => exact fun u hu => by cases hu; decide

theorem noDigit_entriesText (entries : List (DartString × Json)) (r : DartString) :
    NoDigit (entriesText false entries ++ r) := by
  cases entries with
  | nil => exact fun u hu => by cases hu; decide
  | cons entry entries => exact fun u hu => by cases hu; decide

theorem elementsText_cons (first : Bool) (value : Json) (values : List Json) (r : DartString) :
    elementsText first (value :: values) ++ r =
      separator first ++ (jsonText value ++ (elementsText false values ++ r)) := by
  rw [elementsText, append_assoc, append_assoc]

theorem entriesText_cons (first : Bool) (key : DartString) (value : Json)
    (entries : List (DartString × Json)) (r : DartString) :
    entriesText first ((key, value) :: entries) ++ r =
      separator first ++
        (quoted key ++ 58 :: (jsonText value ++ (entriesText false entries ++ r))) := by
  rw [entriesText, append_assoc, append_assoc, cons_append, append_assoc]

mutual

/-- **A value is told from every other by its text**, whatever follows but a digit. -/
theorem jsonText_append_inj (a b : Json) {r s : DartString} (hr : NoDigit r) (hs : NoDigit s)
    (h : jsonText a ++ r = jsonText b ++ s) : a = b ∧ r = s := by
  have hkind := kind_eq_of_append h
  match a, b, hkind, h with
  | null, null, _, h => exact ⟨rfl, append_cancel_left h⟩
  | bool x, bool y, _, h =>
    match x, y, h with
    | true, true, h => exact ⟨rfl, append_cancel_left h⟩
    | false, false, h => exact ⟨rfl, append_cancel_left h⟩
    | true, false, h => exact absurd (cons.inj h).1 (by decide)
    | false, true, h => exact absurd (cons.inj h).1 (by decide)
  | int m, int n, _, h =>
    obtain ⟨rfl, hrs⟩ := intText_append_inj hr hs h
    exact ⟨rfl, hrs⟩
  | str x, str y, _, h =>
    obtain ⟨rfl, hrs⟩ := quoted_append_inj h
    exact ⟨rfl, hrs⟩
  | list xs, list ys, _, h =>
    obtain ⟨rfl, hrs⟩ := elementsText_append_inj true xs ys (cons.inj h).2
    exact ⟨rfl, hrs⟩
  | obj xs, obj ys, _, h =>
    obtain ⟨rfl, hrs⟩ := entriesText_append_inj true xs ys (cons.inj h).2
    exact ⟨rfl, hrs⟩

theorem elementsText_append_inj (first : Bool) (xs ys : List Json) {r s : DartString}
    (h : elementsText first xs ++ r = elementsText first ys ++ s) : xs = ys ∧ r = s := by
  match xs, ys, h with
  | [], [], h => exact ⟨rfl, (cons.inj h).2⟩
  | [], y :: ys, h =>
    rw [elementsText_cons] at h
    exact absurd h.symm (separator_ne_close first y _ _)
  | x :: xs, [], h =>
    rw [elementsText_cons] at h
    exact absurd h (separator_ne_close first x _ _)
  | x :: xs, y :: ys, h =>
    rw [elementsText_cons, elementsText_cons] at h
    obtain ⟨rfl, hrest⟩ := jsonText_append_inj x y (noDigit_elementsText xs r)
      (noDigit_elementsText ys s) (append_cancel_left h)
    obtain ⟨rfl, hrs⟩ := elementsText_append_inj false xs ys hrest
    exact ⟨rfl, hrs⟩

theorem entriesText_append_inj (first : Bool) (xs ys : List (DartString × Json)) {r s : DartString}
    (h : entriesText first xs ++ r = entriesText first ys ++ s) : xs = ys ∧ r = s := by
  match xs, ys, h with
  | [], [], h => exact ⟨rfl, (cons.inj h).2⟩
  | [], (l, y) :: ys, h =>
    rw [entriesText_cons] at h
    exact absurd h.symm (separator_ne_brace first l _ _)
  | (k, x) :: xs, [], h =>
    rw [entriesText_cons] at h
    exact absurd h (separator_ne_brace first k _ _)
  | (k, x) :: xs, (l, y) :: ys, h =>
    rw [entriesText_cons, entriesText_cons] at h
    obtain ⟨rfl, hvalue⟩ := quoted_append_inj (append_cancel_left h)
    obtain ⟨rfl, hrest⟩ := jsonText_append_inj x y (noDigit_entriesText xs r)
      (noDigit_entriesText ys s) (cons.inj hvalue).2
    obtain ⟨rfl, hrs⟩ := entriesText_append_inj false xs ys hrest
    exact ⟨rfl, hrs⟩

end

theorem jsonText_injective {a b : Json} (h : jsonText a = jsonText b) : a = b :=
  have hnil : NoDigit [] := fun _ hu => nomatch hu
  (jsonText_append_inj a b hnil hnil (congrArg (· ++ []) h)).1

/-! ### The text is well formed -/

theorem wellFormed_intText (n : ℤ) : WellFormed (intText n) := by
  have hnat : ∀ m, WellFormed (natText m) := fun m => wellFormed_of_small fun u hu => by
    have := of_decide_eq_true (isDigit_natText hu)
    omega
  cases n with
  | ofNat n => exact hnat n
  | negSucc n => exact WellFormed.cons_small (by decide) (hnat (n + 1))

theorem wellFormed_separator (first : Bool) : WellFormed (separator first) := by
  cases first <;> decide

mutual

/-- **The text of a value is well formed**, whatever the strings in it are. -/
theorem wellFormed_jsonText (a : Json) : WellFormed (jsonText a) := by
  match a with
  | null => exact wellFormed_ofChars _
  | bool true => exact wellFormed_ofChars _
  | bool false => exact wellFormed_ofChars _
  | int n => exact wellFormed_intText n
  | str s => exact wellFormed_quoted s
  | list elements => exact WellFormed.cons_small (by decide) (wellFormed_elementsText true elements)
  | obj entries => exact WellFormed.cons_small (by decide) (wellFormed_entriesText true entries)

theorem wellFormed_elementsText (first : Bool) (values : List Json) :
    WellFormed (elementsText first values) := by
  match values with
  | [] => exact WellFormed.cons_small (by decide) wellFormed_nil
  | value :: values =>
    exact (wellFormed_separator first).append
      ((wellFormed_jsonText value).append (wellFormed_elementsText false values))

theorem wellFormed_entriesText (first : Bool) (entries : List (DartString × Json)) :
    WellFormed (entriesText first entries) := by
  match entries with
  | [] => exact WellFormed.cons_small (by decide) wellFormed_nil
  | (key, value) :: entries =>
    exact (wellFormed_separator first).append
      ((wellFormed_quoted key).append (WellFormed.cons_small (by decide)
        ((wellFormed_jsonText value).append (wellFormed_entriesText false entries))))

end

end Json
end Lib
