import Mathlib

/-!
# Jacobian coordinates

A point of the curve `y² = x³ + b` in three coordinates (`Stands`): `x` is `X / Z²` and `y` is
`Y / Z³`, and `Z` is zero at infinity. The usual formulas for doubling (`stands_double`) and for
adding points of different `x` (`stands_add`) give coordinates of the sum in the group of the curve;
where `x` is the same the points are equal or opposite (`same_or_opposite`).
-/

namespace Lib
namespace Jacobian

open WeierstrassCurve.Affine

variable {F : Type*} [Field F] {b : F}

/-- The curve `y² = x³ + b`. -/
def curve (b : F) : WeierstrassCurve.Affine F where
  a₁ := 0
  a₂ := 0
  a₃ := 0
  a₄ := 0
  a₆ := b

/-- The coordinates stand for the point. -/
def Stands (X Y Z : F) : (curve b).Point → Prop
  | .zero => Z = 0
  | .some x y _ => Z ≠ 0 ∧ X = x * Z ^ 2 ∧ Y = y * Z ^ 3

theorem equation_iff (x y : F) : (curve b).Equation x y ↔ y ^ 2 = x ^ 3 + b := by
  rw [WeierstrassCurve.Affine.equation_iff]
  simp [curve]

theorem negY_eq (x y : F) : (curve b).negY x y = -y := by simp [curve, negY]

theorem addX_eq (x₁ x₂ slope : F) : (curve b).addX x₁ x₂ slope = slope ^ 2 - x₁ - x₂ := by
  simp [curve, addX]

theorem addY_eq (x₁ x₂ y₁ slope : F) :
    (curve b).addY x₁ x₂ y₁ slope = slope * (x₁ - (slope ^ 2 - x₁ - x₂)) - y₁ := by
  rw [addY, negY_eq, negAddY, addX_eq]
  ring

theorem nonsingular (h2 : (2 : F) ≠ 0) (h3 : (3 : F) ≠ 0) (hb : b ≠ 0) {x y : F}
    (h : y ^ 2 = x ^ 3 + b) : (curve b).Nonsingular x y := by
  rw [nonsingular_iff]
  refine ⟨(equation_iff x y).mpr h, ?_⟩
  by_cases hy : y = 0
  · left
    -- on the axis `x` is not zero, as its cube is `-b`
    have hx : x ≠ 0 := by
      rintro rfl
      rw [hy] at h
      exact hb (by simpa using h.symm)
    simpa [curve] using ⟨h3, hx⟩
  · right
    have hsum : y ≠ -y := fun heq => by
      have hdouble : 2 * y = 0 := by linear_combination heq
      exact (mul_ne_zero h2 hy) hdouble
    simpa [curve] using hsum

theorem exists_stands (h2 : (2 : F) ≠ 0) (h3 : (3 : F) ≠ 0) (hb : b ≠ 0) {X Y Z : F}
    (h : Z = 0 ∨ Y ^ 2 = X ^ 3 + b * Z ^ 6) : ∃ P : (curve b).Point, Stands X Y Z P := by
  by_cases hZ : Z = 0
  · exact ⟨0, hZ⟩
  have heq : (Y / Z ^ 3) ^ 2 = (X / Z ^ 2) ^ 3 + b := by
    field_simp
    rw [h.resolve_left hZ, mul_comm b]
  refine ⟨.some _ _ (nonsingular h2 h3 hb heq), hZ, ?_, ?_⟩ <;> field_simp

theorem equation_of_stands {X Y Z : F} {P : (curve b).Point} (h : Stands X Y Z P) :
    Z = 0 ∨ Y ^ 2 = X ^ 3 + b * Z ^ 6 := by
  cases P with
  | zero => exact .inl h
  | some x y hP =>
  obtain ⟨-, hX, hY⟩ := h
  have heq := (equation_iff x y).mp hP.1
  right
  rw [hX, hY]
  linear_combination Z ^ 6 * heq

section Group

variable [DecidableEq F]

omit [DecidableEq F] in
theorem stands_zero_iff {X Y Z : F} {P : (curve b).Point} (h : Stands X Y Z P) :
    Z = 0 ↔ P = 0 := by
  cases P with
  | zero => exact ⟨fun _ => rfl, fun _ => h⟩
  | some x y hP => exact ⟨fun hZ => absurd hZ h.1, fun hP => absurd hP (Point.some_ne_zero _)⟩

theorem add_self_of_axis {X Y Z : F} {P : (curve b).Point} (h : Stands X Y Z P) (hY : Y = 0) :
    P + P = 0 := by
  cases P with
  | zero => exact zero_add 0
  | some x y hP =>
  obtain ⟨hZ, -, hy⟩ := h
  have hzero : y = 0 := by
    rw [hY] at hy
    exact (mul_eq_zero.mp hy.symm).resolve_right (pow_ne_zero 3 hZ)
  exact Point.add_self_of_Y_eq (by rw [negY_eq, hzero, neg_zero])

theorem stands_double (h2 : (2 : F) ≠ 0) {X Y Z : F} {P : (curve b).Point} (h : Stands X Y Z P)
    (hZ : Z ≠ 0) (hY : Y ≠ 0) :
    Stands ((3 * X ^ 2) ^ 2 - 2 * (4 * X * Y ^ 2))
      (3 * X ^ 2 * (4 * X * Y ^ 2 - ((3 * X ^ 2) ^ 2 - 2 * (4 * X * Y ^ 2))) - 8 * Y ^ 4)
      (2 * Y * Z) (P + P) := by
  cases P with
  | zero => exact absurd h hZ
  | some x y hP =>
  obtain ⟨-, hX, hy⟩ := h
  have hy0 : y ≠ 0 := by
    rintro rfl
    exact hY (by rw [hy, zero_mul])
  have hne : y ≠ (curve b).negY x y := by
    rw [negY_eq]
    intro heq
    exact mul_ne_zero h2 hy0 (by linear_combination heq)
  have hslope : (curve b).slope x x y y = 3 * x ^ 2 / (2 * y) := by
    rw [slope_of_Y_ne rfl hne]
    simp [curve]
    ring
  rw [Point.add_self_of_Y_ne hne]
  refine ⟨mul_ne_zero (mul_ne_zero h2 hY) hZ, ?_, ?_⟩
  · rw [hslope, hX, hy]
    rw [addX_eq]
    field_simp
    ring
  · rw [hslope, hX, hy]
    rw [addY_eq]
    field_simp
    ring

theorem same_or_opposite {X₁ Y₁ Z₁ X₂ Y₂ Z₂ : F} {P Q : (curve b).Point} (hP : Stands X₁ Y₁ Z₁ P)
    (hQ : Stands X₂ Y₂ Z₂ Q) (hZ₁ : Z₁ ≠ 0) (hZ₂ : Z₂ ≠ 0)
    (hU : X₁ * Z₂ ^ 2 = X₂ * Z₁ ^ 2) :
    (Y₁ * Z₂ ^ 3 = Y₂ * Z₁ ^ 3 → P = Q) ∧ (Y₁ * Z₂ ^ 3 ≠ Y₂ * Z₁ ^ 3 → P + Q = 0) := by
  cases P with
  | zero => exact absurd hP hZ₁
  | some x₁ y₁ h₁ =>
  cases Q with
  | zero => exact absurd hQ hZ₂
  | some x₂ y₂ h₂ =>
  obtain ⟨-, hX₁, hY₁⟩ := hP
  obtain ⟨-, hX₂, hY₂⟩ := hQ
  have hx : x₁ = x₂ := by
    rw [hX₁, hX₂] at hU
    have hne : Z₁ ^ 2 * Z₂ ^ 2 ≠ 0 := mul_ne_zero (pow_ne_zero 2 hZ₁) (pow_ne_zero 2 hZ₂)
    exact mul_right_cancel₀ hne (by linear_combination hU)
  have hne : Z₁ ^ 3 * Z₂ ^ 3 ≠ 0 := mul_ne_zero (pow_ne_zero 3 hZ₁) (pow_ne_zero 3 hZ₂)
  subst hx
  constructor
  · intro hS
    have hy : y₁ = y₂ := by
      rw [hY₁, hY₂] at hS
      exact mul_right_cancel₀ hne (by linear_combination hS)
    subst hy
    rfl
  intro hS
  have hy : y₁ ≠ y₂ := by
    rintro rfl
    exact hS (by rw [hY₁, hY₂]; ring)
  -- the squares of both are the same
  have hsquare : (y₁ - y₂) * (y₁ + y₂) = 0 := by
    linear_combination (equation_iff x₁ y₁).mp h₁.1 - (equation_iff x₁ y₂).mp h₂.1
  have hsum : y₁ + y₂ = 0 := (mul_eq_zero.mp hsquare).resolve_left (sub_ne_zero.mpr hy)
  exact Point.add_of_Y_eq rfl (by rw [negY_eq]; linear_combination hsum)

theorem stands_add {X₁ Y₁ Z₁ X₂ Y₂ Z₂ : F} {P Q : (curve b).Point} (hP : Stands X₁ Y₁ Z₁ P)
    (hQ : Stands X₂ Y₂ Z₂ Q) (hZ₁ : Z₁ ≠ 0) (hZ₂ : Z₂ ≠ 0) {U₁ U₂ S₁ S₂ : F}
    (hU₁ : U₁ = X₁ * Z₂ ^ 2) (hU₂ : U₂ = X₂ * Z₁ ^ 2) (hS₁ : S₁ = Y₁ * Z₂ ^ 3)
    (hS₂ : S₂ = Y₂ * Z₁ ^ 3) (hne : U₁ ≠ U₂) {X : F}
    (hX : X = (S₂ - S₁) ^ 2 - (U₂ - U₁) ^ 3 - 2 * (U₁ * (U₂ - U₁) ^ 2)) :
    Stands X ((S₂ - S₁) * (U₁ * (U₂ - U₁) ^ 2 - X) - S₁ * (U₂ - U₁) ^ 3) ((U₂ - U₁) * Z₁ * Z₂)
      (P + Q) := by
  cases P with
  | zero => exact absurd hP hZ₁
  | some x₁ y₁ h₁ =>
  cases Q with
  | zero => exact absurd hQ hZ₂
  | some x₂ y₂ h₂ =>
  obtain ⟨-, hX₁, hY₁⟩ := hP
  obtain ⟨-, hX₂, hY₂⟩ := hQ
  have hx : x₁ ≠ x₂ := by
    rintro rfl
    exact hne (by rw [hU₁, hU₂, hX₁, hX₂]; ring)
  rw [Point.add_of_X_ne hx]
  refine ⟨mul_ne_zero (mul_ne_zero (sub_ne_zero.mpr hne.symm) hZ₁) hZ₂, ?_, ?_⟩
  · rw [slope_of_X_ne hx, hX, hU₁, hU₂, hS₁, hS₂, hX₁, hX₂, hY₁, hY₂]
    rw [addX_eq]
    field_simp
    ring
  · rw [slope_of_X_ne hx, hX, hU₁, hU₂, hS₁, hS₂, hX₁, hX₂, hY₁, hY₂]
    rw [addY_eq]
    field_simp
    ring

end Group

end Jacobian
end Lib
