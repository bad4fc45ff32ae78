import Mathlib

/-!
# Stream ciphers

A stream cipher combines the text, a block at a time, with blocks of a pad that do not depend on the
text. So it undoes itself where combining twice does (`applyPad_applyPad`), and what it makes of the
front of a text is the front of what it makes of the whole (`take_applyPad`).
-/

namespace Lib

open List

variable {α : Type} (combine : α → α → α) (pad : ℕ → List α) (size : ℕ)

/-- Each block of the text, from block `index` on, combined with its block of the pad. -/
def applyPad (index : ℕ) (text : List α) : List α :=
  if _h : 0 < size ∧ text ≠ [] then
    List.zipWith combine (text.take size) (pad index) ++ applyPad (index + 1) (text.drop size)
  else []
termination_by text.length
decreasing_by
  rw [List.length_drop]
  have := List.length_pos_iff.mpr _h.2
  omega

theorem applyPad_nil (index : ℕ) : applyPad combine pad size index [] = [] := by
  rw [applyPad, dif_neg fun h => h.2 rfl]

variable {size}

theorem applyPad_of_ne (hsize : 0 < size) (index : ℕ) {text : List α} (htext : text ≠ []) :
    applyPad combine pad size index text =
      zipWith combine (text.take size) (pad index) ++
        applyPad combine pad size (index + 1) (text.drop size) := by
  rw [applyPad, dif_pos ⟨hsize, htext⟩]

variable {combine pad} (hpad : ∀ index, (pad index).length = size)

include hpad in
theorem length_zipWith_pad {block : List α} (hblock : block.length ≤ size) (index : ℕ) :
    (zipWith combine block (pad index)).length = block.length := by
  rw [length_zipWith, hpad, Nat.min_eq_left hblock]

include hpad in
theorem length_applyPad (hsize : 0 < size) (index : ℕ) (text : List α) :
    (applyPad combine pad size index text).length = text.length := by
  induction hn : text.length using Nat.strong_induction_on generalizing index text with
  | _ n ih =>
  by_cases htext : text = []
  · rw [htext, applyPad_nil, ← hn, htext]
  have hpos := length_pos_iff.mpr htext
  have hrest : (text.drop size).length < n := by
    rw [length_drop]
    omega
  rw [applyPad_of_ne combine pad hsize index htext, length_append, ih _ hrest _ _ rfl,
    length_zipWith_pad hpad (length_take_le _ _), ← length_append,
    take_append_drop, hn]

include hpad in
theorem getElem?_applyPad (hsize : 0 < size) (index : ℕ) (text : List α) (i : ℕ) :
    (applyPad combine pad size index text)[i]? =
      text[i]?.bind fun a => (pad (index + i / size))[i % size]?.map fun k => combine a k := by
  -- A block at a time: `i` lies in the first one, or behind it.
  induction hn : text.length using Nat.strong_induction_on generalizing index text i with
  | _ n ih =>
  by_cases htext : text = []
  · rw [htext, applyPad_nil]
    rfl
  have hblock : (zipWith combine (text.take size) (pad index)).length =
      (text.take size).length :=
    length_zipWith_pad hpad (length_take_le size text) index
  rw [length_take] at hblock
  rw [applyPad_of_ne combine pad hsize index htext]
  by_cases hi : i < size
  · rw [Nat.div_eq_of_lt hi, Nat.mod_eq_of_lt hi]
    by_cases hin : i < text.length
    · rw [getElem?_append_left (by omega), getElem?_zipWith, getElem?_take,
        if_pos hi]
      cases text[i]? <;> cases (pad index)[i]? <;> rfl
    have hrest : text.drop size = [] := drop_eq_nil_of_le (by omega)
    rw [hrest, applyPad_nil, append_nil, getElem?_eq_none (by omega),
      getElem?_eq_none (by omega)]
    rfl
  · by_cases hlong : size ≤ text.length
    · have hrest : (text.drop size).length < n := by
        rw [length_drop]
        omega
      have hdiv : index + 1 + (i - size) / size = index + i / size := by
        rw [Nat.add_assoc, Nat.add_comm 1, ← Nat.add_div_right _ hsize,
          Nat.sub_add_cancel (by omega)]
      have hmod : (i - size) % size = i % size := by
        rw [← Nat.add_mod_right, Nat.sub_add_cancel (by omega)]
      rw [getElem?_append_right (by omega), hblock, Nat.min_eq_left hlong,
        ih _ hrest _ _ _ rfl, getElem?_drop, hdiv, hmod, Nat.add_sub_cancel' (by omega)]
    · have hrest : text.drop size = [] := drop_eq_nil_of_le (by omega)
      rw [hrest, applyPad_nil, append_nil, getElem?_eq_none (by omega),
        getElem?_eq_none (by omega)]
      rfl

include hpad in
theorem take_applyPad (hsize : 0 < size) (n index : ℕ) (text : List α) :
    (applyPad combine pad size index text).take n =
      applyPad combine pad size index (text.take n) := by
  apply ext_getElem?
  intro i
  rw [getElem?_applyPad hpad hsize, getElem?_take, getElem?_take]
  split_ifs
  · exact getElem?_applyPad hpad hsize index text i
  · rfl

include hpad in
theorem applyPad_applyPad (hsize : 0 < size) (hcombine : ∀ a k, combine (combine a k) k = a)
    (index : ℕ) (text : List α) :
    applyPad combine pad size index (applyPad combine pad size index text) = text := by
  apply ext_getElem?
  intro i
  have hk : i % size < (pad (index + i / size)).length := by
    rw [hpad]
    exact Nat.mod_lt _ hsize
  rw [getElem?_applyPad hpad hsize, getElem?_applyPad hpad hsize, getElem?_eq_getElem hk]
  cases text[i]? with
  | none => rfl
  | some a => exact congrArg some (hcombine a _)

end Lib
