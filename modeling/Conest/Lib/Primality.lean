import Mathlib

/-!
# Powers modulo a number, and primes

`modPow` raises to a power by squaring (`modPow_eq`). A number is prime when some other has order
one less than it (`lucas_primality`), which is seen from the prime factors of that order: a
`Witness` names them, and a list of witnesses, each for factors that are known by then, makes its
numbers known as primes (`prime_of_certified`).
-/

namespace Lib

/-! ### Powers -/

/-- The loop of `modPow`: what is left of the power is `base ^ exponent`. -/
def modPowLoop (m : ℕ) : ℕ → ℕ → ℕ → ℕ → ℕ
  | 0, result, _, _ => result
  | fuel + 1, result, base, exponent =>
    if exponent = 0 then result
    else
      modPowLoop m fuel (if exponent % 2 = 1 then result * base % m else result) (base * base % m)
        (exponent / 2)

/-- `base ^ exponent % m`. -/
def modPow (base exponent m : ℕ) : ℕ := modPowLoop m (exponent.log2 + 1) (1 % m) (base % m) exponent

theorem modPowLoop_eq (m : ℕ) :
    ∀ (fuel result base exponent : ℕ), exponent < 2 ^ fuel → result % m = result →
      modPowLoop m fuel result base exponent = result * base ^ exponent % m := by
  intro fuel
  induction fuel with
  | zero =>
    intro result base exponent h hresult
    have hzero : exponent = 0 := by simpa using h
    rw [modPowLoop, hzero, pow_zero, mul_one, hresult]
  | succ fuel ih =>
  intro result base exponent h hresult
  rw [modPowLoop]
  split
  next hzero => rw [hzero, pow_zero, mul_one, hresult]
  have hhalf : exponent / 2 < 2 ^ fuel := by
    omega
  -- the square of the base to half of the exponent
  have hsquare (r : ℕ) : r * (base * base % m) ^ (exponent / 2) % m =
      r * base ^ (2 * (exponent / 2)) % m := by
    rw [Nat.mul_mod, ← Nat.pow_mod, ← Nat.mul_mod, pow_mul, sq]
  split
  · next hodd =>
    have hexponent : exponent = 2 * (exponent / 2) + 1 := by omega
    rw [ih _ _ _ hhalf (Nat.mod_mod _ _), hsquare, Nat.mod_mul_mod]
    conv_rhs => rw [hexponent, pow_succ, ← mul_assoc, mul_right_comm]
  next heven =>
  have hexponent : exponent = 2 * (exponent / 2) := by omega
  rw [ih _ _ _ hhalf hresult, hsquare, ← hexponent]

theorem modPow_eq (base exponent m : ℕ) : modPow base exponent m = base ^ exponent % m := by
  rw [modPow, modPowLoop_eq _ _ _ _ _ Nat.lt_log2_self (Nat.mod_mod _ _), Nat.mod_mul_mod,
    one_mul, ← Nat.pow_mod]

/-! ### Primes -/

/-- A number, another whose order is to be one less, and the prime factors of that order. -/
structure Witness where
  number : ℕ
  root : ℕ
  factors : List ℕ

/-- Whether the order is as it is to be, and all factors are known. -/
def Witness.holds (known : List ℕ) (w : Witness) : Bool :=
  decide (1 < w.number ∧ w.factors.prod = w.number - 1 ∧
    modPow w.root (w.number - 1) w.number = 1 ∧
    ∀ q ∈ w.factors, q ∈ known ∧ modPow w.root ((w.number - 1) / q) w.number ≠ 1)

/-- The numbers that are known after some witnesses. -/
def certified : List ℕ → List Witness → List ℕ
  | known, [] => known
  | known, w :: rest =>
    if w.holds known then certified (w.number :: known) rest else certified known rest

theorem modPow_eq_one_iff {m : ℕ} (hm : 1 < m) (base exponent : ℕ) :
    modPow base exponent m = 1 ↔ (base : ZMod m) ^ exponent = 1 := by
  have hone : 1 % m = 1 := Nat.mod_eq_of_lt hm
  rw [modPow_eq, ← Nat.cast_pow, ← @Nat.cast_one (ZMod m), ZMod.natCast_eq_natCast_iff', hone]

theorem Witness.prime {known : List ℕ} (hknown : ∀ q ∈ known, q.Prime) {w : Witness}
    (h : w.holds known = true) : w.number.Prime := by
  obtain ⟨hnumber, hproduct, hroot, hfactors⟩ := of_decide_eq_true h
  refine lucas_primality w.number w.root ((modPow_eq_one_iff hnumber _ _).mp hroot) ?_
  intro q hq hdvd
  -- a prime factor of the order is one of those that are named
  rw [← hproduct] at hdvd
  obtain ⟨r, hr, hqr⟩ := (Prime.dvd_prod_iff hq.prime).mp hdvd
  obtain ⟨hmem, hne⟩ := hfactors r hr
  have hsame : q = r := (Nat.prime_dvd_prime_iff_eq hq (hknown r hmem)).mp hqr
  rw [hsame]
  exact fun hone => hne ((modPow_eq_one_iff hnumber _ _).mpr hone)

theorem prime_of_certified {known : List ℕ} (hknown : ∀ q ∈ known, q.Prime)
    (witnesses : List Witness) : ∀ q ∈ certified known witnesses, q.Prime := by
  induction witnesses generalizing known with
  | nil => exact hknown
  | cons w rest ih =>
    rw [certified]
    split
    next h => exact ih (List.forall_mem_cons.mpr ⟨Witness.prime hknown h, hknown⟩)
    · exact ih hknown

end Lib
