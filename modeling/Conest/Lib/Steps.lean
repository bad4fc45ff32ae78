import Mathlib

/-!
# Step relations

What a development with a nondeterministic small-step semantics needs besides Mathlib's
`Relation.ReflTransGen`: a property that every step keeps holds of whatever is reached
(`invariant`), and a measure that every step decreases leaves no infinite sequence of steps
(`acc_of_decreasing`). Both are relative to a property of the states, so that an invariant proved
first can be used for the measure.
-/

namespace Lib
namespace Steps

variable {σ : Type*} {Step : σ → σ → Prop} {I : σ → Prop} {a b : σ}

/-- **Invariants.** What every step keeps holds of everything that is reached. -/
theorem invariant (hstep : ∀ a b, Step a b → I a → I b) (h : Relation.ReflTransGen Step a b)
    (ha : I a) : I b := by
  induction h with
  | refl => exact ha
  | tail _ hbc ih => exact hstep _ _ hbc ih

/-- **Termination.** A measure that every step from a state with `I` decreases, where steps keep
`I`: no sequence of steps from such a state is infinite. -/
theorem acc_of_decreasing {α : Type*} [Preorder α] [WellFoundedLT α] (m : σ → α)
    (hstep : ∀ a b, Step a b → I a → I b) (hlt : ∀ a b, Step a b → I a → m b < m a)
    (ha : I a) : Acc (fun b a => Step a b) a := by
  -- induction on the measure: every successor has a smaller one
  obtain ⟨x, hx⟩ : ∃ x, m a = x := ⟨_, rfl⟩
  induction x using WellFoundedLT.induction generalizing a with
  | ind x ih =>
    subst hx
    constructor
    intro b hab
    exact ih (m b) (hlt a b hab ha) (hstep a b hab ha) rfl

end Steps
end Lib
