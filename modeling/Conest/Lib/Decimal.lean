import Conest.Lib.Dart

/-!
# Numbers in Dart strings

`intText` is `int.toString`, and `padded` puts zeros in front of a number that is short. What is
written is read back by `decimalValue`, whatever zeros stand in front (`decimalValue_padded`), and a
number with something after it that is no digit is told from every other (`intText_append_inj`).
-/

namespace Lib

open List
namespace DartString

variable {s r : DartString}

def isDigit (u : Fin 65536) : Bool := decide (48 ≤ u.val ∧ u.val ≤ 57)

/-- The unit of a decimal digit. -/
def digitUnit (d : ℕ) : Fin 65536 := Fin.ofNat 65536 (48 + d)

/-- A natural number in decimal. -/
def natText (n : ℕ) : DartString :=
  if n = 0 then [digitUnit 0] else ((Nat.digits 10 n).map digitUnit).reverse

/-- `int.toString`. -/
def intText : ℤ → DartString
  | .ofNat n => natText n
  | .negSucc n => 45 :: natText (n + 1)

/-- A number with zeros in front, up to a width. -/
def padded (width n : ℕ) : DartString :=
  List.replicate (width - (natText n).length) (digitUnit 0) ++ natText n

/-- The number that digits stand for. -/
def decimalValue (s : DartString) : ℕ := s.foldl (fun n u => 10 * n + (u.val - 48)) 0

/-! ### Digits -/

theorem digitUnit_val {d : ℕ} (h : d < 10) : (digitUnit d).val = 48 + d :=
  Nat.mod_eq_of_lt (by omega)

theorem isDigit_digitUnit {d : ℕ} (h : d < 10) : isDigit (digitUnit d) = true := by
  unfold isDigit
  rw [digitUnit_val h, decide_eq_true_eq]
  omega

theorem isDigit_natText {n : ℕ} {u : Fin 65536} (h : u ∈ natText n) : isDigit u = true := by
  unfold natText at h
  split at h
  · rw [mem_singleton.mp h]
    exact isDigit_digitUnit (by omega)
  · obtain ⟨d, hd, rfl⟩ := mem_map.mp (mem_reverse.mp h)
    exact isDigit_digitUnit (Nat.digits_lt_base (by omega) hd)

theorem natText_ne_nil (n : ℕ) : natText n ≠ [] := by
  unfold natText
  split
  case isTrue => exact cons_ne_nil _ _
  case isFalse h =>
    rw [Ne, reverse_eq_nil_iff, map_eq_nil_iff]
    exact Nat.digits_ne_nil_iff_ne_zero.mpr h

theorem isDigit_padded {width n : ℕ} {u : Fin 65536} (h : u ∈ padded width n) :
    isDigit u = true := by
  rcases mem_append.mp h with hzero | hnat
  · rw [eq_of_mem_replicate hzero]
    exact isDigit_digitUnit (by omega)
  · exact isDigit_natText hnat

theorem length_natText_le {width n : ℕ} (hwidth : 0 < width) (h : n < 10 ^ width) :
    (natText n).length ≤ width := by
  unfold natText
  split
  case isTrue => exact hwidth
  case isFalse =>
    rw [length_reverse, length_map]
    exact (Nat.digits_length_le_iff (by omega) n).mpr h

theorem length_padded {width n : ℕ} (hwidth : 0 < width) (h : n < 10 ^ width) :
    (padded width n).length = width := by
  have := length_natText_le hwidth h
  rw [padded, length_append, length_replicate]
  omega

/-! ### Reading back -/

theorem decimalValue_append (s t : DartString) :
    decimalValue (s ++ t) = t.foldl (fun n u => 10 * n + (u.val - 48)) (decimalValue s) :=
  foldl_append

theorem decimalValue_snoc (s : DartString) (u : Fin 65536) :
    decimalValue (s ++ [u]) = 10 * decimalValue s + (u.val - 48) := decimalValue_append s [u]

theorem decimalValue_natText (n : ℕ) : decimalValue (natText n) = n := by
  have hdigits : ∀ ds : List ℕ, (∀ d ∈ ds, d < 10) →
      decimalValue (ds.map digitUnit).reverse = Nat.ofDigits 10 ds := by
    intro ds hds
    -- the first of the digits is the last of the text
    induction ds with
    | nil => rfl
    | cons d ds ih =>
    have hd : (digitUnit d).val - 48 = d := by
      rw [digitUnit_val (hds d mem_cons_self)]
      omega
    rw [map_cons, reverse_cons, decimalValue_snoc, hd, ih fun e he => hds e (mem_cons_of_mem _ he)]
    exact Nat.add_comm _ _
  unfold natText
  split
  case isTrue h =>
    rw [h]
    rfl
  case isFalse =>
    rw [hdigits _ fun d hd => Nat.digits_lt_base (by omega) hd]
    exact Nat.ofDigits_digits 10 n

theorem decimalValue_zeros (count : ℕ) :
    decimalValue (replicate count (digitUnit 0)) = 0 := by
  induction count with
  | zero => rfl
  | succ count ih =>
    rw [replicate_succ', decimalValue_snoc, ih]
    rfl

theorem decimalValue_padded (width n : ℕ) : decimalValue (padded width n) = n := by
  unfold padded
  rw [decimalValue_append, decimalValue_zeros]
  exact decimalValue_natText n

theorem decimalValue_append_eq (s t : DartString) :
    decimalValue (s ++ t) = decimalValue s * 10 ^ t.length + decimalValue t := by
  induction t using reverseRecOn with
  | nil => simp [decimalValue]
  | append_singleton t u ih =>
    rw [← append_assoc, decimalValue_snoc, decimalValue_snoc, ih, length_append,
      length_singleton]
    ring

/-! ### What follows a number -/

/-- The text does not go on with a digit. -/
def NoDigit (s : DartString) : Prop := ∀ u ∈ s.head?, isDigit u = false

theorem takeWhile_append_noDigit (hs : ∀ u ∈ s, isDigit u = true) (hr : NoDigit r) :
    (s ++ r).takeWhile isDigit = s := by
  rw [takeWhile_append_of_pos hs]
  have hnil : r.takeWhile isDigit = [] := by
    cases r with
    | nil => rfl
    | cons u r => exact takeWhile_cons_of_neg (by rw [hr u rfl]; exact Bool.false_ne_true)
  rw [hnil, append_nil]

theorem natText_append_inj {m n : ℕ} (hr : NoDigit r) (hs : NoDigit s)
    (h : natText m ++ r = natText n ++ s) : m = n ∧ r = s := by
  have htext : natText m = natText n := by
    rw [← takeWhile_append_noDigit (fun _ => isDigit_natText) hr, h,
      takeWhile_append_noDigit (fun _ => isDigit_natText) hs]
  refine ⟨?_, ?_⟩
  · rw [← decimalValue_natText m, htext, decimalValue_natText]
  · rw [htext] at h
    exact append_cancel_left h

theorem intText_head (n : ℤ) : ∃ u t, intText n = u :: t ∧ (isDigit u = true ∨ u = 45) := by
  cases n with
  | ofNat n =>
    obtain ⟨u, t, htext⟩ := exists_cons_of_ne_nil (natText_ne_nil n)
    exact ⟨u, t, htext, .inl (isDigit_natText (htext ▸ mem_cons_self))⟩
  | negSucc n => exact ⟨45, _, rfl, .inr rfl⟩

/-- **An integer is told from every other** by what stands up to the first that is no digit. -/
theorem intText_append_inj {m n : ℤ} (hr : NoDigit r) (hs : NoDigit s)
    (h : intText m ++ r = intText n ++ s) : m = n ∧ r = s := by
  have hsign : ∀ (m n : ℕ) (r s : DartString), 45 :: natText m ++ r ≠ natText n ++ s := by
    intro m n r s heq
    obtain ⟨u, t, htext⟩ := exists_cons_of_ne_nil (natText_ne_nil n)
    have hu : isDigit u = true := isDigit_natText (htext ▸ mem_cons_self)
    rw [htext, cons_append, cons_append, cons.injEq] at heq
    rw [← heq.1] at hu
    exact absurd hu (by decide)
  cases m with
  | ofNat m =>
    cases n with
    | ofNat n =>
      obtain ⟨rfl, hrs⟩ := natText_append_inj hr hs h
      exact ⟨rfl, hrs⟩
    | negSucc n => exact absurd h.symm (hsign _ _ _ _)
  | negSucc m =>
  cases n with
  | ofNat n => exact absurd h (hsign _ _ _ _)
  | negSucc n =>
    obtain ⟨hmn, hrs⟩ := natText_append_inj hr hs (cons.inj h).2
    obtain rfl : m = n := by omega
    exact ⟨rfl, hrs⟩

end DartString
end Lib
