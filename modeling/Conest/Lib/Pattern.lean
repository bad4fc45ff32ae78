import Mathlib

/-!
# Patterns with preferences

A pattern gives the ways in which the front of a text can be matched, the preferred one first, each
with what it captures and the rest of the text: what a backtracking regular expression tries, in the
order in which it tries it. `First` says which way comes first. Where every piece of a sequence
matches first what it is meant to match, so does the sequence (`First.bind`).
-/

namespace Lib

open List

/-- The ways to match the front of a text. -/
structure Pattern (σ α : Type) where
  run : List σ → List (α × List σ)

namespace Pattern

variable {σ α β : Type}

/-! ### The constructions of regular expressions -/

protected def pure (a : α) : Pattern σ α := ⟨fun s => [(a, s)]⟩

protected def bind (m : Pattern σ α) (f : α → Pattern σ β) : Pattern σ β :=
  ⟨fun s => (m.run s).flatMap fun found => (f found.1).run found.2⟩

instance : Monad (Pattern σ) where
  pure := Pattern.pure
  bind := Pattern.bind

/-- One symbol. -/
def one (p : σ → Bool) : Pattern σ σ :=
  ⟨fun s => match s with
    | [] => []
    | u :: s => if p u then [(u, s)] else []⟩

/-- One of two patterns, the left one if it can be. -/
def either (m n : Pattern σ α) : Pattern σ α := ⟨fun s => m.run s ++ n.run s⟩

/-- A pattern or nothing, the pattern if it can be. -/
def maybe (m : Pattern σ α) : Pattern σ (Option α) :=
  either (do return some (← m)) (pure none)

/-- A number of symbols. -/
def exactly (p : σ → Bool) : ℕ → Pattern σ (List σ)
  | 0 => pure []
  | n + 1 => do
    let u ← one p
    let us ← exactly p n
    return u :: us

/-- At most a number of symbols, as many as can be. -/
def upTo (p : σ → Bool) : ℕ → Pattern σ (List σ)
  | 0 => pure []
  | n + 1 =>
    either
      (do
        let u ← one p
        let us ← upTo p n
        return u :: us)
      (pure [])

/-- One symbol or more, as many as can be. -/
def many (p : σ → Bool) : Pattern σ (List σ) :=
  ⟨fun s => (do
    let u ← one p
    let us ← upTo p s.length
    return u :: us : Pattern σ (List σ)).run s⟩

/-- The end of the text. -/
def atEnd : Pattern σ Unit := ⟨fun s => if s.isEmpty then [((), s)] else []⟩

/-- What a pattern captures, if it matches the front of a text at all. -/
def capture (m : Pattern σ α) (s : List σ) : Option α := (m.run s).head?.map Prod.fst

/-! ### What is matched first -/

/-- The first way to match. -/
def First (m : Pattern σ α) (s : List σ) (a : α) (r : List σ) : Prop :=
  (m.run s).head? = some (a, r)

/-- There is no way to match. -/
def Fails (m : Pattern σ α) (s : List σ) : Prop := m.run s = []

variable {m n : Pattern σ α} {f : α → Pattern σ β} {p : σ → Bool} {s r t : List σ} {a : α} {b : β}

theorem First.capture (h : First m s a r) : m.capture s = some a := by
  rw [Pattern.capture, h, Option.map_some]

theorem first_pure (a : α) (s : List σ) : First (pure a) s a s := rfl

theorem First.bind (hm : First m s a r) (hf : First (f a) r b t) : First (m >>= f) s b t := by
  obtain ⟨more, hrun⟩ := head?_eq_some_iff.mp hm
  obtain ⟨more', hrun'⟩ := head?_eq_some_iff.mp hf
  change ((m.run s).flatMap fun found => (f found.1).run found.2).head? = _
  rw [hrun, flatMap_cons, hrun']
  rfl

theorem Fails.bind (hm : Fails m s) : Fails (m >>= f) s := by
  change ((m.run s).flatMap fun found => (f found.1).run found.2) = _
  rw [hm]
  rfl

theorem first_one {u : σ} (h : p u = true) (s : List σ) : First (one p) (u :: s) u s := by
  change (if p u then [(u, s)] else []).head? = _
  rw [h]
  rfl

theorem fails_one {u : σ} (h : p u = false) (s : List σ) : Fails (one p) (u :: s) := by
  change (if p u then [(u, s)] else []) = _
  rw [h]
  rfl

theorem First.either (h : First m s a r) : First (either m n) s a r := by
  obtain ⟨more, hrun⟩ := head?_eq_some_iff.mp h
  change (m.run s ++ n.run s).head? = _
  rw [hrun]
  rfl

theorem Fails.either (h : Fails m s) (hn : First n s a r) : First (either m n) s a r := by
  change (m.run s ++ n.run s).head? = _
  rw [h]
  exact hn

theorem First.maybe (h : First m s a r) : First (maybe m) s (some a) r :=
  First.either (First.bind h (first_pure _ _))

theorem Fails.maybe (h : Fails m s) : First (maybe m) s none s :=
  Fails.either (Fails.bind h) (first_pure _ _)

theorem first_exactly (hs : ∀ u ∈ s, p u = true) (r : List σ) :
    First (exactly p s.length) (s ++ r) s r := by
  induction s with
  | nil => exact first_pure [] r
  | cons u s ih =>
    exact (first_one (hs u mem_cons_self) _).bind
      ((ih fun v hv => hs v (mem_cons_of_mem _ hv)).bind (first_pure _ _))

theorem first_upTo {k : ℕ} (hs : ∀ u ∈ s, p u = true) (hlength : s.length ≤ k)
    (hstop : s.length = k ∨ ∀ u ∈ r.head?, p u = false) : First (upTo p k) (s ++ r) s r := by
  induction k generalizing s with
  | zero =>
    obtain rfl : s = [] := length_eq_zero_iff.mp (by omega)
    exact first_pure [] r
  | succ k ih =>
  cases s with
  | nil =>
    rcases hstop with h | h
    · simp at h
    · cases r with
      | nil => exact Fails.either (Fails.bind rfl) (first_pure _ _)
      | cons u r => exact Fails.either (Fails.bind (fails_one (h u rfl) r)) (first_pure _ _)
  | cons u s =>
  rw [length_cons] at hlength hstop
  have hrest := ih (fun v hv => hs v (mem_cons_of_mem _ hv)) (by omega)
    (hstop.imp_left fun h => by omega)
  exact First.either ((first_one (hs u mem_cons_self) _).bind
    (hrest.bind (first_pure _ _)))

theorem first_many (hs : ∀ u ∈ s, p u = true) (hne : s ≠ []) (hr : ∀ u ∈ r.head?, p u = false) :
    First (many p) (s ++ r) s r := by
  obtain ⟨u, s, rfl⟩ := exists_cons_of_ne_nil hne
  have hrest : First (upTo p (u :: s ++ r).length) (s ++ r) s r := by
    apply first_upTo (fun v hv => hs v (mem_cons_of_mem _ hv)) _ (.inr hr)
    rw [length_append, length_cons]
    omega
  have hall : First (do
      let v ← one p
      let vs ← upTo p (u :: s ++ r).length
      return v :: vs) (u :: s ++ r) (u :: s) r :=
    (first_one (hs u mem_cons_self) _).bind (hrest.bind (first_pure _ _))
  exact hall

theorem first_atEnd : First (atEnd : Pattern σ Unit) [] () [] := rfl

end Pattern
end Lib
