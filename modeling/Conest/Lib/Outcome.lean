import Mathlib

/-!
# Outcomes of code that may raise or never return

`Outcome ε α` is the result of a call: a value, an error, or no return at all. It is a monad, so
a function with early returns is written as a `do` block. The two lemmas a proof needs peel such
a block apart: `bind_eq_ok` inverts a successful sequence, and `bind_ne_diverges` says that a
sequence returns when both of its parts do.
-/

namespace Lib

/-- What a call comes to: a value, an error, or nothing because it never returns. -/
inductive Outcome (ε α : Type) where
  | ok (a : α)
  | error (e : ε)
  | diverges
deriving DecidableEq, Repr

namespace Outcome

variable {ε α β : Type}

/-- Sequencing: an error or a divergence ends the block. -/
def bind (x : Outcome ε α) (f : α → Outcome ε β) : Outcome ε β :=
  match x with
  | ok a => f a
  | error e => error e
  | diverges => diverges

instance : Monad (Outcome ε) where
  pure := ok
  bind := bind

@[simp] theorem pure_eq_ok (a : α) : (pure a : Outcome ε α) = ok a := rfl

@[simp] theorem ok_bind (a : α) (f : α → Outcome ε β) : (ok a >>= f) = f a := rfl

@[simp] theorem error_bind (e : ε) (f : α → Outcome ε β) :
    ((error e : Outcome ε α) >>= f) = error e := rfl

@[simp] theorem diverges_bind (f : α → Outcome ε β) :
    ((diverges : Outcome ε α) >>= f) = diverges := rfl

theorem bind_eq_ok {x : Outcome ε α} {f : α → Outcome ε β} {b : β} :
    (x >>= f) = ok b ↔ ∃ a, x = ok a ∧ f a = ok b := by
  cases x with
  | ok a => simp
  | error e => simp
  | diverges => simp

theorem bind_ne_diverges {x : Outcome ε α} {f : α → Outcome ε β} (hx : x ≠ diverges)
    (hf : ∀ a, x = ok a → f a ≠ diverges) : (x >>= f) ≠ diverges := by
  cases x with
  | ok a => exact hf a rfl
  | error e => simp
  | diverges => exact absurd rfl hx

/-- A call that raises unless `c` holds. -/
def require (c : Prop) [Decidable c] (e : ε) : Outcome ε Unit :=
  if c then ok () else error e

theorem require_eq_ok {c : Prop} [Decidable c] {e : ε} {u : Unit} :
    require c e = ok u ↔ c := by
  unfold require
  split <;> simp [*]

@[simp] theorem require_ne_diverges {c : Prop} [Decidable c] {e : ε} :
    require c e ≠ diverges := by
  unfold require
  split <;> simp

end Outcome

/-! ### Blocks in `Except` -/

section

variable {ε α β : Type}

theorem except_ok_bind (a : α) (f : α → Except ε β) : ((.ok a : Except ε α) >>= f) = f a := rfl

end

end Lib
