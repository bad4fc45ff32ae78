import Mathlib

/-!
# Maps that respect the exclusive or

A map of the numbers below `2 ^ n` that respects the exclusive or is known from the images of the
powers of two, its columns (`eq_combine`). Squaring the columns reaches its iterates fast (`jump`),
which decides how long an orbit is (`minimalPeriod_eq_of_primes`).
-/

namespace Lib

open Function List

/-! ### Columns -/

/-- The exclusive or of the columns at the bits of a number. -/
def combine : List ℕ → ℕ → ℕ
  | [], _ => 0
  | c :: cols, x => (if x % 2 = 1 then c else 0) ^^^ combine cols (x / 2)

theorem combine_xor (cols : List ℕ) (x y : ℕ) :
    combine cols (x ^^^ y) = combine cols x ^^^ combine cols y := by
  induction cols generalizing x y with
  | nil => exact (Nat.xor_self 0).symm
  | cons c cols ih =>
  have hbit : (if (x ^^^ y) % 2 = 1 then c else 0) =
      (if x % 2 = 1 then c else 0) ^^^ (if y % 2 = 1 then c else 0) := by
    simp only [Nat.xor_mod_two_eq_one]
    by_cases hx : x % 2 = 1 <;> by_cases hy : y % 2 = 1 <;> simp [hx, hy]
  rw [combine, combine, combine, Nat.xor_div_two, ih, hbit]
  ac_rfl

@[simp] theorem combine_zero (cols : List ℕ) : combine cols 0 = 0 := by
  induction cols with
  | nil => rfl
  | cons c cols ih => simpa [combine] using ih

theorem two_mul_xor (a b : ℕ) : 2 * (a ^^^ b) = 2 * a ^^^ 2 * b := by
  simpa [Nat.shiftLeft_eq, Nat.mul_comm] using
    Nat.shiftLeft_xor_distrib (i := 1)

theorem xor_low_bit (x : ℕ) : x % 2 ^^^ 2 * (x / 2) = x := by
  apply Nat.eq_of_testBit_eq
  intro i
  cases i with
  | zero => simp [Nat.testBit_zero]
  | succ i =>
    rw [Nat.testBit_xor, Nat.testBit_succ, Nat.testBit_succ, Nat.testBit_succ]
    simp

theorem eq_combine (n : ℕ) {f : ℕ → ℕ} (hf : ∀ x y, f (x ^^^ y) = f x ^^^ f y) {x : ℕ}
    (hx : x < 2 ^ n) : f x = combine ((range n).map fun i => f (2 ^ i)) x := by
  have hzero : f 0 = 0 := by simpa using hf 0 0
  induction n generalizing f x with
  | zero =>
    obtain rfl : x = 0 := by omega
    simpa using hzero
  | succ n ih =>
  have htail := ih (f := fun y => f (2 * y)) (fun a b => by rw [two_mul_xor, hf])
    (x := x / 2) (by omega) (by simpa using hzero)
  have hlow : f (x % 2) = if x % 2 = 1 then f (2 ^ 0) else 0 := by
    rcases Nat.mod_two_eq_zero_or_one x with h | h
    · rw [h, if_neg (by decide), hzero]
    · rw [h]
      rfl
  calc
    f x = f (x % 2) ^^^ f (2 * (x / 2)) := by rw [← hf, xor_low_bit]
    _ = combine ((range (n + 1)).map fun i => f (2 ^ i)) x := by
      rw [hlow, htail, range_succ_eq_map, map_cons, combine, map_map]
      simp[Function.comp_def, Nat.succ_eq_add_one, pow_succ']

theorem combine_map (cols after : List ℕ) (x : ℕ) :
    combine (cols.map (combine after)) x = combine after (combine cols x) := by
  induction cols generalizing x with
  | nil => simp [combine]
  | cons c cols ih =>
    rw [map_cons, combine, combine, combine_xor, ih]
    split <;> simp

/-! ### Iterates -/

/-- The iterate for a number of `n` bits, by squaring. -/
def jump : ℕ → List ℕ → ℕ → ℕ → ℕ
  | 0, _, _, x => x
  | n + 1, cols, e, x =>
    jump n (cols.map (combine cols)) (e / 2) (if e % 2 = 1 then combine cols x else x)

theorem jump_eq (n : ℕ) (cols : List ℕ) {e : ℕ} (he : e < 2 ^ n) (x : ℕ) :
    jump n cols e x = (combine cols)^[e] x := by
  induction n generalizing cols e x with
  | zero =>
    obtain rfl : e = 0 := by omega
    rfl
  | succ n ih =>
  have hsquare : combine (cols.map (combine cols)) = (combine cols)^[2] :=
    funext (combine_map cols cols)
  have hsplit : e = 2 * (e / 2) + e % 2 := (Nat.div_add_mod e 2).symm
  rw [jump, ih _ (by omega), hsquare, ← iterate_mul]
  rcases Nat.mod_two_eq_zero_or_one e with h | h
  · rw [if_neg (by omega)]
    nth_rewrite 2 [hsplit]
    rw [h, Nat.add_zero]
  · rw [if_pos h]
    nth_rewrite 2 [hsplit]
    rw [h, iterate_succ_apply]

/-! ### Orbits -/

theorem minimalPeriod_eq_of_primes {α : Type*} {f : α → α} {x : α} {n : ℕ} 
    (hperiod : IsPeriodicPt f n x)
    (hprimes : ∀ p, p.Prime → p ∣ n → ¬ IsPeriodicPt f (n / p) x) : minimalPeriod f x = n := by
  obtain ⟨k, hk⟩ := hperiod.minimalPeriod_dvd
  by_contra hne
  have hk1 : k ≠ 1 := by
    rintro rfl
    exact hne (by omega)
  obtain ⟨p, hp, m, rfl⟩ := Nat.exists_prime_and_dvd hk1
  refine hprimes p hp ⟨minimalPeriod f x * m, by rw [hk]; ring⟩ ?_
  have hquot : n / p = minimalPeriod f x * m :=
    Nat.div_eq_of_eq_mul_right hp.pos (by rw [hk]; ring)
  rw [hquot]
  exact (isPeriodicPt_minimalPeriod f x).mul_const m

theorem mem_orbit_of_card {α : Type*} [DecidableEq α] {f : α → α} {x : α} {s : Finset α}
    (hs : ∀ k, f^[k] x ∈ s) (hcard : s.card = minimalPeriod f x) {y : α}
    (hy : y ∈ s) : ∃ k, f^[k] x = y := by
  have himage : (Finset.range s.card).image (f^[·] x) = s := by
    apply Finset.eq_of_subset_of_card_le
    · intro z hz
      obtain ⟨k, -, rfl⟩ := Finset.mem_image.mp hz
      exact hs k
    · rw [Finset.card_image_of_injOn, Finset.card_range]
      rw [hcard]
      simpa using iterate_injOn_Iio_minimalPeriod
  rw [← himage] at hy
  obtain ⟨k, -, hk⟩ := Finset.mem_image.mp hy
  exact ⟨k, hk⟩

end Lib
