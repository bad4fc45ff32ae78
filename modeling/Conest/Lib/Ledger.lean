import Conest.Lib.Steps

/-!
# Ledgers of reservations

A ledger says which reservation is open for each key, which keys are done, and which tokens have been
given out. A reservation is opened with a token that was never given out before; it ends by being
completed, withdrawn or forgotten, and a key that is done has no open reservation.

What a user of it wants follows from the steps alone: an open key is not done (`Sound`), and a token
that is no longer open is never open again (`Closed`).
-/

namespace Lib

variable {K T : Type*}

structure Ledger (K T : Type*) where
  opened : K → Option T
  done : Set K
  issued : Set T

namespace Ledger

/-- The reservations of `opened'` are some of those of the ledger. -/
def Narrows (opened' : K → Option T) (l : Ledger K T) : Prop :=
  ∀ k t, opened' k = some t → l.opened k = some t

/-- One step of a ledger. -/
inductive Step [DecidableEq K] : Ledger K T → Ledger K T → Prop
  | withdraw {l : Ledger K T} (opened' : K → Option T) (h : Narrows opened' l) :
      Step l { l with opened := opened' }
  | grant {l : Ledger K T} (k : K) (t : T) (hfree : l.opened k = none) (hdone : k ∉ l.done)
      (hnew : t ∉ l.issued) :
      Step l { l with
        opened := Function.update l.opened k (some t), issued := insert t l.issued }
  | complete {l : Ledger K T} (k : K) (t : T) (hopen : l.opened k = some t) :
      Step l { l with opened := Function.update l.opened k none, done := insert k l.done }
  | restore {l : Ledger K T} (ks : Set K) (opened' : K → Option T) (h : Narrows opened' l)
      (hks : ∀ k ∈ ks, opened' k = none) :
      Step l { l with opened := opened', done := l.done ∪ ks }
  /-- Everything is forgotten but the tokens. -/
  | forget {l : Ledger K T} : Step l ⟨fun _ => none, ∅, l.issued⟩
  /-- Tokens are thrown away unused. -/
  | discard {l : Ledger K T} (issued' : Set T) (h : l.issued ⊆ issued') :
      Step l { l with issued := issued' }

variable [DecidableEq K] {l l' : Ledger K T}

abbrev Steps : Ledger K T → Ledger K T → Prop := Relation.ReflTransGen Step

theorem update_eq_some {f : K → Option T} {k k' : K} {x : Option T} {t : T}
    (h : Function.update f k x k' = some t) : k' = k ∧ x = some t ∨ k' ≠ k ∧ f k' = some t := by
  by_cases heq : k' = k
  · subst heq
    rw [Function.update_self] at h
    exact .inl ⟨rfl, h⟩
  · rw [Function.update_of_ne heq] at h
    exact .inr ⟨heq, h⟩

/-- An open key is not done, and its token was given out. -/
structure Sound (l : Ledger K T) : Prop where
  not_done : ∀ k t, l.opened k = some t → k ∉ l.done
  issued : ∀ k t, l.opened k = some t → t ∈ l.issued

theorem Sound.step (h : Sound l) (hstep : Step l l') : Sound l' := by
  cases hstep with
  | withdraw opened' hnarrow =>
    exact ⟨fun k t hk => h.not_done k t (hnarrow k t hk), fun k t hk => h.issued k t (hnarrow k t hk)⟩
  | grant k t hfree hdone hnew =>
    constructor
    · intro k' t' hk'
      rcases update_eq_some hk' with ⟨rfl, -⟩ | ⟨-, hold⟩
      · exact hdone
      · exact h.not_done k' t' hold
    · intro k' t' hk'
      rcases update_eq_some hk' with ⟨-, hsome⟩ | ⟨-, hold⟩
      · cases hsome
        exact Set.mem_insert t l.issued
      · exact Set.mem_insert_of_mem t (h.issued k' t' hold)
  | complete k t hopen =>
    constructor
    · intro k' t' hk' hmem
      rcases update_eq_some hk' with ⟨-, hnone⟩ | ⟨hne, hold⟩
      · cases hnone
      · exact h.not_done k' t' hold (Set.mem_of_mem_insert_of_ne hmem hne)
    · intro k' t' hk'
      rcases update_eq_some hk' with ⟨-, hnone⟩ | ⟨-, hold⟩
      · cases hnone
      · exact h.issued k' t' hold
  | restore ks opened' hnarrow hks =>
    constructor
    · rintro k t hk (hdone | hmem)
      · exact h.not_done k t (hnarrow k t hk) hdone
      · -- a restored key has no reservation left
        have hnone := hks k hmem
        rw [show opened' k = some t from hk] at hnone
        cases hnone
    · intro k t hk
      exact h.issued k t (hnarrow k t hk)
  | forget =>
    constructor
    · intro k t hk
      cases hk
    · intro k t hk
      cases hk
  | discard issued' hsub => exact ⟨h.not_done, fun k t hk => hsub (h.issued k t hk)⟩

theorem Sound.steps (h : Sound l) (hsteps : Steps l l') : Sound l' :=
  Lib.Steps.invariant (fun _ _ hstep ha => ha.step hstep) hsteps h

/-! ### Closed tokens -/

/-- A token that was given out and is open for no key. -/
def Closed (t : T) (l : Ledger K T) : Prop := t ∈ l.issued ∧ ∀ k, l.opened k ≠ some t

theorem Closed.step {t : T} (h : Closed t l) (hstep : Step l l') : Closed t l' := by
  cases hstep with
  | withdraw opened' hnarrow => exact ⟨h.1, fun k hk => h.2 k (hnarrow k t hk)⟩
  | grant k t' hfree hdone hnew =>
    refine ⟨Set.mem_insert_of_mem t' h.1, fun k' hk' => ?_⟩
    rcases update_eq_some hk' with ⟨-, hsome⟩ | ⟨-, hold⟩
    · cases hsome
      exact hnew h.1
    · exact h.2 k' hold
  | complete k t' hopen =>
    refine ⟨h.1, fun k' hk' => ?_⟩
    rcases update_eq_some hk' with ⟨-, hnone⟩ | ⟨-, hold⟩
    · cases hnone
    · exact h.2 k' hold
  | restore ks opened' hnarrow hks => exact ⟨h.1, fun k hk => h.2 k (hnarrow k t hk)⟩
  | forget =>
    refine ⟨h.1, fun k hk => ?_⟩
    cases hk
  | discard issued' hsub => exact ⟨hsub h.1, h.2⟩

theorem Closed.steps {t : T} (h : Closed t l) (hsteps : Steps l l') : Closed t l' :=
  Lib.Steps.invariant (fun _ _ hstep ha => ha.step hstep) hsteps h

end Ledger
end Lib
