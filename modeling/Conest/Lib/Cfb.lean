import Mathlib

/-!
# Cipher feedback

Cipher feedback makes a stream cipher out of a function on blocks: every block of the input is
combined with the function's value on the register, which holds the block of ciphertext before it.
The function is used in the same direction both ways, so it need not be invertible. All that carries
the round trip (`cfb_cfb`) is that combining twice with the same keystream does nothing: then both
directions see the same ciphertext, and so the same registers.
-/

namespace Lib

open List

variable {α : Type} (combine : α → α → α) (keystream : List α → List α) (size : ℕ)

/-- Cipher feedback in blocks of `size`, started with `register`. A whole block of ciphertext becomes
the register; a shorter one is the last. -/
def cfb (encrypt : Bool) (register input : List α) : List α :=
  if _h : 0 < size ∧ input ≠ [] then
    let block := input.take size
    let output := List.zipWith combine block (keystream register)
    let cipher := if encrypt then output else block
    output ++ cfb encrypt (if block.length = size then cipher else register) (input.drop size)
  else []
termination_by input.length
decreasing_by
  rw [List.length_drop]
  have := List.length_pos_iff.mpr _h.2
  omega

theorem cfb_nil (encrypt : Bool) (register : List α) :
    cfb combine keystream size encrypt register [] = [] := by
  rw [cfb, dif_neg fun h => h.2 rfl]

variable {size}

theorem cfb_of_ne (hsize : 0 < size) (encrypt : Bool) (register : List α) {input : List α}
    (hinput : input ≠ []) :
    cfb combine keystream size encrypt register input =
      zipWith combine (input.take size) (keystream register) ++
        cfb combine keystream size encrypt
          (if (input.take size).length = size then
            (if encrypt then zipWith combine (input.take size) (keystream register)
              else input.take size)
            else register)
          (input.drop size) := by
  rw [cfb, dif_pos ⟨hsize, hinput⟩]

variable {combine keystream} (hstream : ∀ register, (keystream register).length = size)

include hstream in
theorem length_zipWith_keystream {block : List α} (hblock : block.length ≤ size)
    (register : List α) : (zipWith combine block (keystream register)).length = block.length := by
  rw [length_zipWith, hstream, Nat.min_eq_left hblock]

theorem zipWith_zipWith (hcombine : ∀ a k, combine (combine a k) k = a) {block stream : List α}
    (h : block.length ≤ stream.length) :
    zipWith combine (zipWith combine block stream) stream = block := by
  induction block generalizing stream with
  | nil => rfl
  | cons a block ih =>
  cases stream with
  | nil => simp at h
  | cons k stream =>
    show combine (combine a k) k :: _ = a :: block
    rw [hcombine, ih (Nat.le_of_succ_le_succ h)]

include hstream in
theorem length_cfb (hsize : 0 < size) (encrypt : Bool) (register input : List α) :
    (cfb combine keystream size encrypt register input).length = input.length := by
  induction hn : input.length using Nat.strong_induction_on generalizing register input with
  | _ n ih =>
  by_cases hinput : input = []
  · rw [hinput, cfb_nil, ← hn, hinput]
  have hpos := length_pos_iff.mpr hinput
  have hrest : (input.drop size).length < n := by
    rw [length_drop]
    omega
  rw [cfb_of_ne combine keystream hsize encrypt register hinput, length_append,
    ih _ hrest _ _ rfl, length_zipWith_keystream hstream (length_take_le _ _),
    ← length_append, take_append_drop, hn]

include hstream in
theorem cfb_cfb (hsize : 0 < size) (hcombine : ∀ a k, combine (combine a k) k = a)
    (register input : List α) :
    cfb combine keystream size false register (cfb combine keystream size true register input) =
      input := by
  induction hn : input.length using Nat.strong_induction_on generalizing register input with
  | _ n ih =>
  by_cases hinput : input = []
  · rw [hinput, cfb_nil, cfb_nil]
  have hpos := length_pos_iff.mpr hinput
  have hblock : (input.take size).length ≤ size := length_take_le _ _
  have hback : zipWith combine
      (zipWith combine (input.take size) (keystream register)) (keystream register) =
      input.take size :=
    zipWith_zipWith hcombine (by rw [hstream]; exact hblock)
  have hlength : (zipWith combine (input.take size) (keystream register)).length =
      (input.take size).length := length_zipWith_keystream hstream hblock register
  rw [cfb_of_ne combine keystream hsize true register hinput]
  generalize hout : zipWith combine (input.take size) (keystream register) = output at *
  have houtne : output ≠ [] := by
    apply length_pos_iff.mp
    rw [hlength, length_take]
    omega
  by_cases hfull : (input.take size).length = size
  · -- a whole block: the decrypting side takes exactly it, and both registers hold it
    have hrest : (input.drop size).length < n := by
      rw [length_drop]
      omega
    rw [if_pos hfull, if_pos rfl,
      cfb_of_ne combine keystream hsize false register (append_ne_nil_of_left_ne_nil houtne _),
      take_left' (hlength.trans hfull), drop_left' (hlength.trans hfull), hback,
      if_pos (hlength.trans hfull), if_neg Bool.false_ne_true, ih _ hrest _ _ rfl,
      take_append_drop]
  · -- a shorter block: nothing is left behind it
    have hdrop : input.drop size = [] := by
      rw [length_take] at hfull
      exact drop_eq_nil_of_le (by omega)
    have hshort : output.length ≤ size := hlength.trans_le hblock
    rw [hdrop, cfb_nil, append_nil,
      cfb_of_ne combine keystream hsize false register houtne, take_of_length_le hshort,
      drop_eq_nil_of_le hshort, cfb_nil, append_nil, hback]
    calc input.take size = input.take size ++ input.drop size := by rw [hdrop, append_nil]
      _ = input := take_append_drop _ _

end Lib
