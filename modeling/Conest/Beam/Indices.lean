import Conest.Beam.Decoder
import Conest.Lib.XorLinear

/-!
# The blocks of a frame can be drawn

`_indicesFor` draws until it has met enough different indices, so it ends only if the generator
meets them. It meets every state but zero: its step respects the exclusive or, and the orbit of `1`
is as long as there are such states (`minimalPeriod_columns`), which is decided from the columns
of the step. A draw that has not ended after `2 ^ 32` steps has then met every index there is
(`drawIndices_none`), and that is enough (`indices_drawn`).
-/

namespace Conest
namespace Beam

open Lib Function List

/-! ### The generator -/

/-- A shift kept to 32 bits, and the shift back. -/
def stepLeft (k x : ℕ) : ℕ := x ^^^ (x <<< k) % 2 ^ 32

def stepRight (k x : ℕ) : ℕ := x ^^^ x >>> k

/-- `nextUint32` on numbers below `2 ^ 32`. -/
def xorShift (x : ℕ) : ℕ := stepLeft 5 (stepRight 17 (stepLeft 13 x))

theorem toNat_nextUint32 (s : UInt32) : (nextUint32 s).toNat = xorShift s.toNat := rfl

theorem xor_middle (a b c d : ℕ) : (a ^^^ b) ^^^ (c ^^^ d) = (a ^^^ c) ^^^ (b ^^^ d) := by
  ac_rfl

theorem stepLeft_xor (k x y : ℕ) : stepLeft k (x ^^^ y) = stepLeft k x ^^^ stepLeft k y := by
  rw [stepLeft, Nat.shiftLeft_xor_distrib, Nat.xor_mod_two_pow, xor_middle]
  rfl

theorem stepRight_xor (k x y : ℕ) : stepRight k (x ^^^ y) = stepRight k x ^^^ stepRight k y := by
  rw [stepRight, Nat.shiftRight_xor_distrib, xor_middle]
  rfl

theorem xorShift_xor (x y : ℕ) : xorShift (x ^^^ y) = xorShift x ^^^ xorShift y := by
  rw [xorShift, stepLeft_xor, stepRight_xor, stepLeft_xor]
  rfl

/-- The columns of `nextUint32`. -/
def columns : List ℕ := (List.range 32).map fun i => xorShift (2 ^ i)

theorem toNat_iterate (k : ℕ) (s : UInt32) :
    (nextUint32^[k] s).toNat = (combine columns)^[k] s.toNat := by
  induction k generalizing s with
  | zero => rfl
  | succ k ih =>
    have hstep : (nextUint32 s).toNat = combine columns s.toNat := by
      rw [toNat_nextUint32, eq_combine 32 xorShift_xor s.toNat_lt]
      rfl
    rw [iterate_succ_apply, iterate_succ_apply, ih, hstep]

/-! ### Its period -/

/-- The number of states but zero. -/
def period : ℕ := 2 ^ 32 - 1

theorem jumps :
    jump 32 columns period 1 = 1 ∧ jump 32 columns (period / 3) 1 ≠ 1 ∧
      jump 32 columns (period / 5) 1 ≠ 1 ∧ jump 32 columns (period / 17) 1 ≠ 1 ∧
      jump 32 columns (period / 257) 1 ≠ 1 ∧ jump 32 columns (period / 65537) 1 ≠ 1 := by
  decide +kernel

theorem iterate_columns {e : ℕ} (he : e < 2 ^ 32) :
    (combine columns)^[e] 1 = jump 32 columns e 1 :=
  (jump_eq 32 columns he 1).symm

/-- **The period.** The step is back at `1` after `2 ^ 32 - 1` steps, and not after a part of them
that a prime leaves. -/
theorem minimalPeriod_columns : minimalPeriod (combine columns) 1 = period := by
  obtain ⟨hperiod, h3, h5, h17, h257, h65537⟩ := jumps
  have hnot : ∀ e, e < 2 ^ 32 → jump 32 columns e 1 ≠ 1 → ¬ IsPeriodicPt (combine columns) e 1 := by
    intro e he hjump hpt
    rw [← iterate_columns he] at hjump
    exact hjump hpt
  refine minimalPeriod_eq_of_primes ((iterate_columns (by decide)).trans hperiod) ?_
  intro p hp hdvd
  have hfactors : p ∣ 3 * 5 * 17 * 257 * 65537 := hdvd
  simp only [hp.dvd_mul, or_assoc] at hfactors
  have hself : ∀ {q : ℕ}, q.Prime → p ∣ q → p = q :=
    fun hq h => (Nat.prime_dvd_prime_iff_eq hp hq).mp h
  obtain h | h | h | h | h := hfactors
  · rw [hself (by norm_num) h]
    exact hnot _ (by decide) h3
  · rw [hself (by norm_num) h]
    exact hnot _ (by decide) h5
  · rw [hself (by norm_num) h]
    exact hnot _ (by decide) h17
  · rw [hself (by norm_num) h]
    exact hnot _ (by decide) h257
  · rw [hself (by norm_num) h]
    exact hnot _ (by decide) h65537

theorem isPeriodicPt_one : IsPeriodicPt (combine columns) period 1 := by
  rw [← minimalPeriod_columns]
  exact isPeriodicPt_minimalPeriod _ _

theorem orbit_mem (k : ℕ) : (combine columns)^[k] 1 ∈ Finset.Ico 1 (2 ^ 32) := by
  have hstate : (nextUint32^[k] 1).toNat = (combine columns)^[k] 1 := toNat_iterate k 1
  refine Finset.mem_Ico.mpr ⟨Nat.pos_of_ne_zero fun hzero => ?_, ?_⟩
  · -- from zero the orbit would not come back
    have hback : (combine columns)^[period * k] 1 = 1 := isPeriodicPt_one.mul_const k
    have hsplit : period * k = (period * k - k) + k :=
      (Nat.sub_add_cancel (Nat.le_mul_of_pos_left k (by decide))).symm
    rw [hsplit, iterate_add_apply, hzero, iterate_fixed (combine_zero columns)] at hback
    exact absurd hback (by decide)
  · rw [← hstate]
    exact UInt32.toNat_lt _

theorem state_met {s : UInt32} (hs : s ≠ 0) {v : ℕ} (hv : 1 ≤ v ∧ v < 2 ^ 32) :
    ∃ k < 2 ^ 32, (nextUint32^[k + 1] s).toNat = v := by
  have hcard : (Finset.Ico 1 (2 ^ 32)).card = minimalPeriod (combine columns) 1 := by
    rw [minimalPeriod_columns, Nat.card_Ico]
    rfl
  have hpos : 1 ≤ s.toNat := Nat.pos_of_ne_zero fun h => hs (UInt32.toNat_inj.mp h)
  obtain ⟨a, ha⟩ := mem_orbit_of_card orbit_mem hcard (Finset.mem_Ico.mpr ⟨hpos, s.toNat_lt⟩)
  obtain ⟨b, hb⟩ := mem_orbit_of_card orbit_mem hcard (Finset.mem_Ico.mpr hv)
  -- from `1` to the state takes `a` steps, so go on to the end of the period and then `b` steps
  have hsame : ((b + (period - 1) * a + (period - 1)) % period + 1 + a) % period = b % period := by
    unfold period
    omega
  refine ⟨(b + (period - 1) * a + (period - 1)) % period,
    (Nat.mod_lt _ (by decide)).trans (by decide), ?_⟩
  rw [toNat_iterate, ← ha, ← iterate_add_apply, ← isPeriodicPt_one.iterate_mod_apply, hsame,
    isPeriodicPt_one.iterate_mod_apply, hb]

/-! ### The draws -/

/-- What the draws so far are, whenever they end. -/
structure Drawn (degree count : ℕ) (result : List ℕ) : Prop where
  nodup : result.Nodup
  few : result.length ≤ degree
  below : ∀ index ∈ result, index < count

variable {degree count : ℕ}

theorem Drawn.draw {result : List ℕ} (h : Drawn degree count result) (hcount : 0 < count)
    (hmore : result.length < degree) (value : ℕ) :
    Drawn degree count (if value % count ∈ result then result else result ++ [value % count]) := by
  split
  · exact h
  next hmem =>
  refine ⟨?_, ?_, ?_⟩
  · refine nodup_append.mpr ⟨h.nodup, nodup_singleton _, fun a ha b hb hab => hmem ?_⟩
    rwa [← mem_singleton.mp hb, ← hab]
  · rw [length_append]
    exact hmore
  · intro index hindex
    rcases mem_append.mp hindex with hindex | hindex
    · exact h.below index hindex
    · rw [mem_singleton.mp hindex]
      exact Nat.mod_lt _ hcount

theorem drawIndices_some (hcount : 0 < count) {fuel : ℕ} {state : UInt32}
    {result indices : List ℕ} (hdrawn : Drawn degree count result)
    (h : drawIndices degree count fuel state result = some indices) :
    Drawn degree count indices ∧ indices.length = degree := by
  induction fuel generalizing state result with
  | zero =>
    unfold drawIndices at h
    split at h
    · next henough =>
      cases h
      exact ⟨hdrawn, le_antisymm hdrawn.few henough⟩
    · cases h
  | succ fuel ih =>
  unfold drawIndices at h
  split at h
  · next henough =>
    cases h
    exact ⟨hdrawn, le_antisymm hdrawn.few henough⟩
  next hmore => exact ih (hdrawn.draw hcount (not_le.mp hmore) _) h

theorem drawIndices_none {fuel : ℕ} {state : UInt32} {result : List ℕ}
    (h : drawIndices degree count fuel state result = none) :
    ∃ met : List ℕ, met.length < degree ∧ result ⊆ met ∧
      ∀ k < fuel, (nextUint32^[k + 1] state).toNat % count ∈ met := by
  induction fuel generalizing state result with
  | zero =>
    unfold drawIndices at h
    split at h
    · cases h
    next hmore =>
      exact ⟨result, not_le.mp hmore, List.Subset.refl _, fun k hk => absurd hk k.not_lt_zero⟩
  | succ fuel ih =>
  unfold drawIndices at h
  split at h
  · cases h
  obtain ⟨met, hfew, hsub, hmet⟩ := ih h
  have hindex : (nextUint32 state).toNat % count ∈ met ∧ result ⊆ met := by
    split at hsub
    next hmem => exact ⟨hsub hmem, hsub⟩
    · exact ⟨hsub (by simp), List.Subset.trans (subset_append_left _ _) hsub⟩
  refine ⟨met, hfew, hindex.2, ?_⟩
  intro k hk
  cases k with
  | zero => exact hindex.1
  | succ k =>
    exact hmet k (Nat.lt_of_succ_lt_succ hk)

theorem xorShiftState_ne_zero (seed : UInt32) : xorShiftState seed ≠ 0 := by
  unfold xorShiftState
  split
  · decide
  · assumption

/-- **The indices of a frame.** For every seed the draw ends with `degree` different indices below
`count`, and a frame that names these three is read with the same indices. -/
theorem indices_drawn (seed degree count : ℕ)
    (h : 1 ≤ degree ∧ degree ≤ count ∧ count ≤ 2 ^ 32 - 1) :
    ∃ indices, indicesFor seed degree count = .ok indices ∧ indices.Nodup ∧
      indices.length = degree ∧ (∀ index ∈ indices, index < count) ∧
      ∀ frame : BeamFrame, frame.systematic = false → frame.seed = seed → frame.degree = degree →
        frame.sourceBlockCount = count → BeamDecoder.indicesOf frame = .ok indices := by
  obtain ⟨hdegree, hle, hcount⟩ := h
  have hpos : 0 < count := hdegree.trans hle
  generalize hstate : xorShiftState (UInt32.ofNat seed ^^^ 0x9e3779b9) = state
  have hne : state ≠ 0 := hstate ▸ xorShiftState_ne_zero _
  have hends : drawIndices degree count (2 ^ 32) state [] ≠ none := by
    intro hnone
    obtain ⟨met, hfew, -, hmet⟩ := drawIndices_none hnone
    have hall : range count ⊆ met := by
      intro r hr
      have hlt := mem_range.mp hr
      -- the index comes from the state with its number, and `0` from `count`
      obtain ⟨k, hk, hvalue⟩ := state_met hne (v := if r = 0 then count else r) (by split <;> omega)
      have hmod : (if r = 0 then count else r) % count = r := by
        split
        next h0 => rw [Nat.mod_self, h0]
        · exact Nat.mod_eq_of_lt hlt
      have hin := hmet k hk
      rwa [hvalue, hmod] at hin
    have hlength := (nodup_range.subperm hall).length_le
    rw [length_range] at hlength
    omega
  obtain ⟨indices, hdraw⟩ := Option.ne_none_iff_exists'.mp hends
  have hok : indicesFor seed degree count = .ok indices := by
    unfold indicesFor
    rw [if_neg (by omega)]
    simp only [hstate, hdraw]
  obtain ⟨hdrawn, hlength⟩ := drawIndices_some hpos ⟨nodup_nil, Nat.zero_le _, by simp⟩ hdraw
  refine ⟨indices, hok, hdrawn.nodup, hlength, hdrawn.below, ?_⟩
  rintro frame hrepair rfl rfl rfl
  rw [BeamDecoder.indicesOf, hrepair, if_neg Bool.false_ne_true, hok]

theorem indices_drawn_two_of_three :
    ∃ indices, indicesFor 7 2 3 = .ok indices ∧ indices.Nodup ∧ indices.length = 2 ∧
      (∀ index ∈ indices, index < 3) ∧
      ∀ frame : BeamFrame, frame.systematic = false → frame.seed = 7 → frame.degree = 2 →
        frame.sourceBlockCount = 3 → BeamDecoder.indicesOf frame = .ok indices :=
  indices_drawn 7 2 3 (by decide)

end Beam
end Conest
