import Mathlib

/-!
# Computations with a cache

A memoised function reads and fills a cache beside what it computes. `Memo` is the monad of such
computations, which may also throw; `putIfAbsent` is the usual pattern, an answer from the cache or
one that is computed and stored.

What a reader wants to know of them is that the cache makes no difference. `Yields valid m a` says
so: from every valid cache, `m` returns `a`, without a throw, and leaves a valid cache. The rules
follow the structure of the computation (`Yields.bind`, `Yields.anyM` and so on), and
`Yields.putIfAbsent` is the one place where the content of the cache counts.
-/

namespace Lib

open List

/-- A computation that throws or returns, with a cache of type `S`. -/
abbrev Memo (S α : Type) := ExceptT String (StateM S) α

namespace Memo

variable {S α β γ : Type}

/-- The answer of a computation and the cache after it. -/
def runFrom (m : Memo S α) (s : S) : Except String α × S := (ExceptT.run m).run s

/-- The cached answer if there is one, and else the one that is computed, which is stored. -/
def putIfAbsent (look : S → Option α) (store : α → S → S) (compute : Memo S α) : Memo S α := do
  match look (← get) with
  | some cached => return cached
  | none =>
    let answer ← compute
    modify (store answer)
    return answer

/-- **The cache makes no difference**: from every valid one, `m` ends with `r` and leaves a valid
one. -/
def Yields (valid : S → Prop) (m : Memo S α) (r : Except String α) : Prop :=
  ∀ s, valid s → ∃ s', m.runFrom s = (r, s') ∧ valid s'

variable {valid : S → Prop}

theorem runFrom_bind (m : Memo S α) (f : α → Memo S β) (s : S) :
    (m >>= f).runFrom s =
      match m.runFrom s with
      | (.ok a, s₁) => (f a).runFrom s₁
      | (.error e, s₁) => (.error e, s₁) := by
  unfold runFrom
  rw [ExceptT.run_bind, StateT.run_bind]
  rcases m.run.run s with ⟨_ | _, _⟩ <;> rfl

theorem runFrom_get (s : S) : (get : Memo S S).runFrom s = (.ok s, s) := rfl

theorem runFrom_pure (a : α) (s : S) : (Pure.pure a : Memo S α).runFrom s = (.ok a, s) := rfl

namespace Yields

theorem pure (a : α) : Yields valid (Pure.pure a) (.ok a) := fun s hs => ⟨s, rfl, hs⟩

theorem throw (e : String) : Yields valid (throw e : Memo S α) (.error e) :=
  fun s hs => ⟨s, rfl, hs⟩

theorem bind {m : Memo S α} {f : α → Memo S β} {a : α} {r : Except String β}
    (hm : Yields valid m (.ok a)) (hf : Yields valid (f a) r) : Yields valid (m >>= f) r := by
  intro s hs
  obtain ⟨s₁, hrun, hs₁⟩ := hm s hs
  obtain ⟨s₂, hrun₂, hs₂⟩ := hf s₁ hs₁
  refine ⟨s₂, ?_, hs₂⟩
  rw [runFrom_bind, hrun]
  exact hrun₂

theorem bind_error {m : Memo S α} {e : String} (hm : Yields valid m (.error e))
    (f : α → Memo S β) : Yields valid (m >>= f) (.error e) := by
  intro s hs
  obtain ⟨s₁, hrun, hs₁⟩ := hm s hs
  refine ⟨s₁, ?_, hs₁⟩
  rw [runFrom_bind, hrun]

/-- **A memoised function**: what is cached is the answer, and storing the answer keeps the cache
valid. -/
theorem putIfAbsent {look : S → Option α} {store : α → S → S} {compute : Memo S α} {a : α}
    (hlook : ∀ s cached, valid s → look s = some cached → cached = a)
    (hcompute : Yields valid compute (.ok a)) (hstore : ∀ s, valid s → valid (store a s)) :
    Yields valid (putIfAbsent look store compute) (.ok a) := by
  intro s hs
  unfold Memo.putIfAbsent
  rw [runFrom_bind, runFrom_get]
  dsimp only
  cases hcached : look s with
  | some cached =>
    obtain rfl := hlook s cached hs hcached
    exact ⟨s, runFrom_pure cached s, hs⟩
  | none =>
  obtain ⟨s₁, hrun, hs₁⟩ := hcompute s hs
  refine ⟨store a s₁, ?_, hstore s₁ hs₁⟩
  rw [runFrom_bind, hrun]
  dsimp only
  exact runFrom_pure a _

/-! ### Loops -/

section

variable {f : α → Memo S Bool} {g : α → Bool} {l : List α}
  (hf : ∀ x ∈ l, Yields valid (f x) (.ok (g x)))

include hf

theorem anyM : Yields valid (l.anyM f) (.ok (l.any g)) := by
  induction l with
  | nil => exact Yields.pure false
  | cons x l ih =>
  rw [any_cons]
  refine (hf x mem_cons_self).bind ?_
  cases g x with
  | true => exact Yields.pure true
  | false => exact ih fun y hy => hf y (mem_cons_of_mem x hy)

theorem allM : Yields valid (l.allM f) (.ok (l.all g)) := by
  induction l with
  | nil => exact Yields.pure true
  | cons x l ih =>
  rw [all_cons]
  refine (hf x mem_cons_self).bind ?_
  cases g x with
  | true => exact ih fun y hy => hf y (mem_cons_of_mem x hy)
  | false => exact Yields.pure false

end

theorem foldlM {f : β → α → Memo S β} {g : β → α → β} {l : List α}
    (hf : ∀ b, ∀ x ∈ l, Yields valid (f b x) (.ok (g b x))) (b : β) :
    Yields valid (l.foldlM f b) (.ok (l.foldl g b)) := by
  induction l generalizing b with
  | nil => exact Yields.pure b
  | cons x l ih =>
    exact (hf b x mem_cons_self).bind (ih (fun b y hy => hf b y (mem_cons_of_mem x hy)) _)

end Yields

end Memo

end Lib
