import Conest.Lib.Jacobian
import Conest.Nostr.Secp256k1

/-!
# The arithmetic of secp256k1 is the curve's

`p` and `n` are prime, by witnesses for the factors of one less. Over the field of `p` elements the
coordinates of a point represent a point of the curve (`Represents`), and `double`, `add` and `mul`
do what the group does, whatever the operands (`represents_double`, `represents_add`,
`represents_mul`). Running `mul` on the generator shows that its order is `n`
(`addOrderOf_generator`).
-/

namespace Conest
namespace Nostr
namespace Secp256k1

open Lib Lib.Jacobian

/-! ### Primes -/

def smallPrimes : List ℕ :=
  [2, 3, 5, 7, 11, 17, 29, 31, 41, 53, 59, 97, 109, 149, 293, 461, 631, 797, 971, 1373, 1627, 1871,
    2011, 2621, 2657, 4051, 4423, 5323, 7723, 9349, 13441, 16699, 20113, 24809, 28181, 41201, 85831,
    96557, 120233, 305873]

theorem smallPrimes_prime : ∀ q ∈ smallPrimes, q.Prime := by
  intro q hq
  simp only [smallPrimes, List.mem_cons, List.not_mem_nil, or_false] at hq
  rcases hq with rfl | rfl | rfl | rfl | rfl | rfl | rfl | rfl | rfl | rfl | rfl | rfl | rfl | rfl |
    rfl | rfl | rfl | rfl | rfl | rfl | rfl | rfl | rfl | rfl | rfl | rfl | rfl | rfl | rfl | rfl |
    rfl | rfl | rfl | rfl | rfl | rfl | rfl | rfl | rfl | rfl <;> norm_num

/-- The factors of `p - 1`, and those of one less than the factors. -/
def fieldWitnesses : List Witness :=
  [⟨13331831, 13, [2, 5, 971, 1373]⟩,
    ⟨173378833005251801, 6, [2, 2, 2, 5, 5, 2621, 24809, 13331831]⟩,
    ⟨22149492674086928081353, 5, [2, 2, 2, 3, 5323, 173378833005251801]⟩,
    ⟨132896956044521568488119, 6, [2, 3, 22149492674086928081353]⟩,
    ⟨1206781, 10, [2, 2, 3, 5, 20113]⟩,
    ⟨7240687, 3, [2, 3, 1206781]⟩,
    ⟨107590001, 3, [2, 2, 2, 2, 5, 5, 5, 5, 7, 29, 53]⟩,
    ⟨255515944373312847190720520512484175977, 3,
      [2, 2, 2, 7, 7, 11, 1627, 2657, 4423, 41201, 96557, 7240687, 107590001]⟩,
    ⟨205115282021455665897114700593932402728804164701536103180137503955397371, 10,
      [2, 3, 5, 29, 29, 31, 7723, 132896956044521568488119,
        255515944373312847190720520512484175977]⟩,
    ⟨p, 3,
      [2, 3, 7, 13441, 205115282021455665897114700593932402728804164701536103180137503955397371]⟩]

/-- The factors of `n - 1`, and those of one less than the factors. -/
def orderWitnesses : List Witness :=
  [⟨4681609, 23, [2, 2, 2, 3, 97, 2011]⟩,
    ⟨107361793816595537, 3, [2, 2, 2, 2, 16699, 85831, 4681609]⟩,
    ⟨44706919, 6, [2, 3, 797, 9349]⟩,
    ⟨174723607534414371449, 3, [2, 2, 2, 17, 59, 4051, 120233, 44706919]⟩,
    ⟨545358713, 5, [2, 2, 2, 41, 59, 28181]⟩,
    ⟨1627771, 3, [2, 3, 5, 29, 1871]⟩,
    ⟨297159362677, 2, [2, 2, 3, 3, 11, 461, 1627771]⟩,
    ⟨29047611873442575647497758179, 2, [2, 293, 305873, 545358713, 297159362677]⟩,
    ⟨341948486974166000522343609283189, 2, [2, 2, 3, 3, 3, 109, 29047611873442575647497758179]⟩,
    ⟨n, 7, [2, 2, 2, 2, 2, 2, 3, 149, 631, 107361793816595537, 174723607534414371449,
      341948486974166000522343609283189]⟩]

theorem prime_p : p.Prime :=
  prime_of_certified smallPrimes_prime fieldWitnesses p (by decide +kernel)

theorem prime_n : n.Prime :=
  prime_of_certified smallPrimes_prime orderWitnesses n (by decide +kernel)

instance instFactPrimeP : Fact p.Prime := ⟨prime_p⟩

/-! ### Integers modulo `p` -/

theorem cast_emod (a : ℤ) : ((a % (p : ℤ) : ℤ) : ZMod p) = a := ZMod.intCast_mod a p

theorem p_pos : (0 : ℤ) < p := by exact_mod_cast prime_p.pos

theorem cast_inj {a b : ℤ} (ha : 0 ≤ a ∧ a < p) (hb : 0 ≤ b ∧ b < p) :
    (a : ZMod p) = b ↔ a = b := by
  rw [ZMod.intCast_eq_intCast_iff]
  unfold Int.ModEq
  rw [Int.emod_eq_of_lt ha.1 ha.2, Int.emod_eq_of_lt hb.1 hb.2]

theorem cast_eq_zero {a : ℤ} (ha : 0 ≤ a ∧ a < p) : (a : ZMod p) = 0 ↔ a = 0 := by
  have hzero := cast_inj ha ⟨le_refl 0, p_pos⟩
  rwa [Int.cast_zero] at hzero

theorem emod_reduced (a : ℤ) : 0 ≤ a % (p : ℤ) ∧ a % (p : ℤ) < p :=
  ⟨Int.emod_nonneg a p_pos.ne', Int.emod_lt_of_pos a p_pos⟩

theorem two_ne_zero' : (2 : ZMod p) ≠ 0 := by
  have h : ((2 : ℤ) : ZMod p) ≠ 0 := fun h =>
    absurd ((cast_eq_zero ⟨by decide, by decide⟩).mp h) (by decide)
  exact_mod_cast h

theorem three_ne_zero' : (3 : ZMod p) ≠ 0 := by
  have h : ((3 : ℤ) : ZMod p) ≠ 0 := fun h =>
    absurd ((cast_eq_zero ⟨by decide, by decide⟩).mp h) (by decide)
  exact_mod_cast h

theorem seven_ne_zero' : (7 : ZMod p) ≠ 0 := by
  have h : ((7 : ℤ) : ZMod p) ≠ 0 := fun h =>
    absurd ((cast_eq_zero ⟨by decide, by decide +kernel⟩).mp h) (by decide)
  exact_mod_cast h

/-! ### Points and coordinates -/

/-- The points of `y² = x³ + 7` over the field of `p` elements. -/
abbrev CurvePoint : Type := (curve (7 : ZMod p)).Point

/-- Every coordinate is a remainder modulo `p`. -/
structure Reduced (a : Point) : Prop where
  x : 0 ≤ a.x ∧ a.x < p
  y : 0 ≤ a.y ∧ a.y < p
  z : 0 ≤ a.z ∧ a.z < p

/-- The coordinates satisfy the equation of the curve, or are at infinity. -/
structure OnCurve (a : Point) : Prop where
  reduced : Reduced a
  equation : a.z = 0 ∨ a.y ^ 2 ≡ a.x ^ 3 + 7 * a.z ^ 6 [ZMOD p]

/-- **What a point of the program stands for.** -/
structure Represents (a : Point) (P : CurvePoint) : Prop where
  reduced : Reduced a
  stands : Stands (a.x : ZMod p) a.y a.z P

variable {a b : Point} {P Q : CurvePoint}

theorem onCurve_iff : OnCurve a ↔ ∃ P, Represents a P := by
  have hequation (hz : 0 ≤ a.z ∧ a.z < p) :
      (a.z = 0 ∨ a.y ^ 2 ≡ a.x ^ 3 + 7 * a.z ^ 6 [ZMOD p]) ↔
        ((a.z : ZMod p) = 0 ∨
          (a.y : ZMod p) ^ 2 = (a.x : ZMod p) ^ 3 + 7 * (a.z : ZMod p) ^ 6) := by
    rw [cast_eq_zero hz, ← ZMod.intCast_eq_intCast_iff]
    push_cast
    rfl
  constructor
  · rintro ⟨hreduced, heq⟩
    obtain ⟨P, hP⟩ := exists_stands two_ne_zero' three_ne_zero' seven_ne_zero'
      ((hequation hreduced.z).mp heq)
    exact ⟨P, hreduced, hP⟩
  · rintro ⟨P, hreduced, hP⟩
    exact ⟨hreduced, (hequation hreduced.z).mpr (equation_of_stands hP)⟩

theorem isInfinity_iff : a.isInfinity = true ↔ a.z = 0 := decide_eq_true_iff

theorem Represents.isInfinity_iff (h : Represents a P) : a.isInfinity = true ↔ P = 0 := by
  rw [Secp256k1.isInfinity_iff, ← cast_eq_zero h.reduced.z]
  exact stands_zero_iff h.stands

theorem represents_infinity : Represents Point.infinity 0 where
  reduced := ⟨by decide, by decide, by decide⟩
  stands := by
    change ((0 : ℤ) : ZMod p) = 0
    exact Int.cast_zero

theorem represents_double (h : Represents a P) : Represents (double a) (P + P) := by
  unfold double
  split
  · next hzero =>
    have hsum : P + P = 0 := by
      rcases hzero with hinfinity | hy
      · rw [h.isInfinity_iff.mp hinfinity, zero_add]
      · exact add_self_of_axis h.stands (by rw [hy, Int.cast_zero])
    rw [hsum]
    exact represents_infinity
  next hnot =>
  rw [not_or, isInfinity_iff] at hnot
  have hz : (a.z : ZMod p) ≠ 0 := fun hz => hnot.1 ((cast_eq_zero h.reduced.z).mp hz)
  have hy : (a.y : ZMod p) ≠ 0 := fun hy => hnot.2 ((cast_eq_zero h.reduced.y).mp hy)
  refine ⟨⟨emod_reduced _, emod_reduced _, emod_reduced _⟩, ?_⟩
  have hstands := stands_double two_ne_zero' h.stands hz hy
  convert hstands using 1
  · simp only [cast_emod, Int.cast_sub, Int.cast_mul, Int.cast_ofNat]
    ring
  · simp only [cast_emod, Int.cast_sub, Int.cast_mul, Int.cast_ofNat]
    ring
  · simp

theorem represents_add (hP : Represents a P) (hQ : Represents b Q) :
    Represents (add a b) (P + Q) := by
  unfold add
  split
  · next hinfinity =>
    rw [hP.isInfinity_iff.mp hinfinity]
    exact hQ
  next ha =>
  split
  · next hinfinity =>
    rw [hQ.isInfinity_iff.mp hinfinity, add_zero]
    exact hP
  next hb =>
  rw [isInfinity_iff] at ha hb
  have hz₁ : (a.z : ZMod p) ≠ 0 := fun hz => ha ((cast_eq_zero hP.reduced.z).mp hz)
  have hz₂ : (b.z : ZMod p) ≠ 0 := fun hz => hb ((cast_eq_zero hQ.reduced.z).mp hz)
  -- both points over one denominator
  have hu₁ : ((a.x * (b.z * b.z % p) % p : ℤ) : ZMod p) = a.x * (b.z : ZMod p) ^ 2 := by
    simp only [cast_emod, Int.cast_mul]
    ring
  have hu₂ : ((b.x * (a.z * a.z % p) % p : ℤ) : ZMod p) = b.x * (a.z : ZMod p) ^ 2 := by
    simp only [cast_emod, Int.cast_mul]
    ring
  have hs₁ : ((a.y * b.z * (b.z * b.z % p) % p : ℤ) : ZMod p) = a.y * (b.z : ZMod p) ^ 3 := by
    simp only [cast_emod, Int.cast_mul]
    ring
  have hs₂ : ((b.y * a.z * (a.z * a.z % p) % p : ℤ) : ZMod p) = b.y * (a.z : ZMod p) ^ 3 := by
    simp only [cast_emod, Int.cast_mul]
    ring
  dsimp only
  split
  · next hu =>
    have hU : (a.x : ZMod p) * (b.z : ZMod p) ^ 2 = b.x * (a.z : ZMod p) ^ 2 := by
      rw [← hu₁, ← hu₂, hu]
    obtain ⟨hsame, hopposite⟩ := same_or_opposite hP.stands hQ.stands hz₁ hz₂ hU
    rw [← hs₁, ← hs₂] at hsame hopposite
    split
    · next hs =>
      rw [← hsame (congrArg _ hs)]
      exact represents_double hP
    next hs =>
    rw [hopposite fun h => hs ((cast_inj (emod_reduced _) (emod_reduced _)).mp h)]
    exact represents_infinity
  next hu =>
  have hU := fun h => hu ((cast_inj (emod_reduced _) (emod_reduced _)).mp h)
  refine ⟨⟨emod_reduced _, emod_reduced _, emod_reduced _⟩, ?_⟩
  have hstands := stands_add hP.stands hQ.stands hz₁ hz₂ hu₁ hu₂ hs₁ hs₂ hU rfl
  convert hstands using 1
  · simp only [cast_emod, Int.cast_sub, Int.cast_mul, Int.cast_ofNat]
    ring
  · simp only [cast_emod, Int.cast_sub, Int.cast_mul, Int.cast_ofNat]
    ring
  · simp

theorem represents_mulLoop : ∀ (fuel : ℕ) {result addend : Point} {R A : CurvePoint} {k : ℕ},
    Represents result R → Represents addend A → k < 2 ^ fuel →
      Represents (mulLoop fuel result addend k) (R + k • A) := by
  intro fuel
  induction fuel with
  | zero =>
    intro result addend R A k hresult _ hk
    have hzero : k = 0 := by simpa using hk
    rw [hzero, zero_nsmul, add_zero]
    exact hresult
  | succ fuel ih =>
  intro result addend R A k hresult haddend hk
  rw [mulLoop]
  split
  · next hzero =>
    rw [hzero, zero_nsmul, add_zero]
    exact hresult
  have hhalf : k >>> 1 < 2 ^ fuel := by
    omega
  have hdouble := represents_double haddend
  -- half of the scalar times the double, and the lowest bit times the addend
  split
  · next hodd =>
    have hsum : R + k • A = R + A + (k >>> 1) • (A + A) := by
      have hk : k = 2 * (k >>> 1) + 1 := by
        omega
      conv_lhs => rw [hk]
      rw [add_nsmul, mul_nsmul, two_nsmul]
      abel
    rw [hsum]
    exact ih (represents_add hresult haddend) hdouble hhalf
  next heven =>
  have hsum : R + k • A = R + (k >>> 1) • (A + A) := by
    have hk : k = 2 * (k >>> 1) := by
      omega
    conv_lhs => rw [hk]
    rw [mul_nsmul, two_nsmul]
  rw [hsum]
  exact ih hresult hdouble hhalf

theorem represents_mul (h : Represents a P) (k : ℕ) : Represents (mul a k) (k • P) := by
  have hbits : k < 2 ^ (k.log2 + 1) := Nat.lt_log2_self
  have hloop := represents_mulLoop (k.log2 + 1) represents_infinity h hbits
  rwa [zero_add] at hloop

/-! ### The generator -/

theorem onCurve_g : OnCurve g where
  reduced := ⟨by decide, by decide +kernel, by decide +kernel⟩
  equation := .inr (by decide +kernel)

/-- The generator of the group. -/
noncomputable def generator : CurvePoint := (onCurve_iff.mp onCurve_g).choose

theorem represents_g : Represents g generator := (onCurve_iff.mp onCurve_g).choose_spec

theorem addOrderOf_generator : addOrderOf generator = n := by
  have : Fact n.Prime := ⟨prime_n⟩
  have hrun : (mul g n).isInfinity = true := by decide +kernel
  have hzero := (represents_mul represents_g n).isInfinity_iff.mp hrun
  refine addOrderOf_eq_prime hzero fun hzero => ?_
  exact absurd (represents_g.isInfinity_iff.mpr hzero) (by decide)

theorem nsmul_eq_zero_iff (k : ℕ) : k • generator = 0 ↔ n ∣ k := by
  rw [← addOrderOf_generator]
  exact addOrderOf_dvd_iff_nsmul_eq_zero.symm

/-! ### Points with `z = 1` -/

/-- The coordinates of a point other than infinity. -/
structure Normal (a : Point) (P : CurvePoint) : Prop where
  represents : Represents a P
  z : a.z = 1

theorem Normal.exists_eq (h : Normal a P) :
    ∃ hP, P = .some (a.x : ZMod p) (a.y : ZMod p) hP := by
  have hone : (a.z : ZMod p) = 1 := by rw [h.z, Int.cast_one]
  have hstands := h.represents.stands
  cases P with
  | zero =>
    have hzero : (a.z : ZMod p) = 0 := hstands
    rw [hone] at hzero
    exact absurd hzero one_ne_zero
  | some x y hP =>
    obtain ⟨-, hx, hy⟩ := hstands
    rw [hone, one_pow, mul_one] at hx hy
    subst hx hy
    exact ⟨hP, rfl⟩

theorem Normal.ne_zero (h : Normal a P) : P ≠ 0 := by
  obtain ⟨hP, rfl⟩ := h.exists_eq
  exact WeierstrassCurve.Affine.Point.some_ne_zero hP

theorem Normal.inj (h : Normal a P) (h' : Normal b P) : a = b := by
  obtain ⟨hP, rfl⟩ := h.exists_eq
  obtain ⟨hQ, heq⟩ := h'.exists_eq
  obtain ⟨hx, hy⟩ := WeierstrassCurve.Affine.Point.some.inj heq
  have hax := (cast_inj h.represents.reduced.x h'.represents.reduced.x).mp hx
  have hay := (cast_inj h.represents.reduced.y h'.represents.reduced.y).mp hy
  cases a
  cases b
  have hz := h.z.trans h'.z.symm
  simp only at hax hay hz
  rw [hax, hay, hz]

theorem Normal.x_eq_iff (h : Normal a P) (h' : Normal b Q) : a.x = b.x ↔ P = Q ∨ P = -Q := by
  obtain ⟨hP, rfl⟩ := h.exists_eq
  obtain ⟨hQ, rfl⟩ := h'.exists_eq
  rw [← cast_inj h.represents.reduced.x h'.represents.reduced.x]
  exact WeierstrassCurve.Affine.Point.X_eq_iff

theorem Normal.y_of_neg (h : Normal a P) (h' : Normal b (-P)) :
    a.y + b.y = p ∨ a.y = 0 ∧ b.y = 0 := by
  obtain ⟨hP, rfl⟩ := h.exists_eq
  obtain ⟨hQ, heq⟩ := h'.exists_eq
  obtain ⟨-, hy⟩ := WeierstrassCurve.Affine.Point.some.inj heq
  rw [negY_eq] at hy
  have hsum : ((a.y + b.y : ℤ) : ZMod p) = 0 := by
    rw [Int.cast_add, ← hy]
    ring
  rw [ZMod.intCast_zmod_eq_zero_iff_dvd] at hsum
  obtain ⟨c, hc⟩ := hsum
  obtain ⟨ha, ha'⟩ := h.represents.reduced.y
  obtain ⟨hb, hb'⟩ := h'.represents.reduced.y
  -- the sum is a multiple of `p` below `2 * p`
  have hc0 : 0 ≤ c := by
    by_contra hneg
    nlinarith [p_pos]
  have hc2 : c < 2 := by
    by_contra hlarge
    nlinarith [p_pos]
  interval_cases c
  · right
    omega
  · left
    omega

theorem p_odd : (p : ℤ) % 2 = 1 := by decide +kernel

theorem Normal.eq_of_even (h : Normal a P) (h' : Normal b Q) (hx : a.x = b.x) (ha : a.y % 2 = 0)
    (hb : b.y % 2 = 0) : P = Q := by
  rcases (h.x_eq_iff h').mp hx with heq | hneg
  · exact heq
  rw [hneg] at h
  have hodd := p_odd
  rcases h'.y_of_neg h with hsum | ⟨hb0, ha0⟩
  · omega
  -- both are on the axis, where a point is its own opposite
  rw [hneg]
  have hstands := h'.represents.stands
  have haxis := add_self_of_axis hstands (by rw [hb0, Int.cast_zero])
  exact (eq_neg_of_add_eq_zero_left haxis).symm

theorem exists_modInverse {z : ℤ} (hz : 0 ≤ z ∧ z < p) (hne : z ≠ 0) :
    ∃ inverse : ℤ, Point.modInverse z = some inverse ∧ (z : ZMod p) * inverse = 1 := by
  have hgcd : Int.gcd z p = 1 := by
    have hcoprime : ¬ p ∣ z.natAbs := fun hdvd => by
      have hle := Nat.le_of_dvd (Int.natAbs_pos.mpr hne) hdvd
      omega
    rw [Int.gcd_comm]
    exact (Nat.Prime.coprime_iff_not_dvd prime_p).mpr hcoprime
  refine ⟨_, if_pos hgcd, ?_⟩
  have hbezout := congrArg (Int.cast : ℤ → ZMod p) (Int.gcd_eq_gcd_ab z p)
  rw [hgcd, Int.cast_add] at hbezout
  rw [cast_emod]
  simpa using hbezout.symm

theorem exists_affine (h : Represents a P) (hP : P ≠ 0) :
    ∃ q, a.affine = some q ∧ Normal q P := by
  have hz : a.z ≠ 0 := fun hz => hP (h.isInfinity_iff.mp (isInfinity_iff.mpr hz))
  obtain ⟨inverse, hinverse, hone⟩ := exists_modInverse h.reduced.z hz
  have hunit : (0 : ℤ) ≤ 1 ∧ (1 : ℤ) < p := by decide +kernel
  refine ⟨_, by rw [Point.affine, hinverse, Option.map_some], ⟨⟨emod_reduced _, emod_reduced _,
    hunit⟩, ?_⟩, rfl⟩
  have hstands := h.stands
  cases P with
  | zero => exact absurd rfl hP
  | some x y hP =>
  obtain ⟨hz, hx, hy⟩ := hstands
  refine ⟨by rw [Int.cast_one]; exact one_ne_zero, ?_, ?_⟩
  · simp only [cast_emod, Int.cast_mul, Int.cast_one, hx]
    linear_combination x * (1 + (a.z : ZMod p) * inverse) * hone
  · simp only [cast_emod, Int.cast_mul, Int.cast_one, hy]
    linear_combination y * (1 + (a.z : ZMod p) * inverse + ((a.z : ZMod p) * inverse) ^ 2) * hone

end Secp256k1
end Nostr
end Conest
