import Mathlib

/-!
# Deterministic machines and their runs

A machine reads one act at a time, changes its state and gives an output. What the developments
over it need is small: a run splits at any point (`run_append`), a property
that holds initially and is kept by every step holds after every run (`run_induction`), and a
condition on the single steps of a run can be carried along it (`Along`). `StepAt` names the
step at a position of a run, and `between` carries a property from one position to a later one.

`sim_filter` is the two-run rule: a run and the same run with some acts taken out give the same
outputs on the acts that stay, as long as a relation between the two states survives a kept act
on both sides and a dropped act on the first side alone.
-/

namespace Lib

open List

/-- A machine: one step takes a state and an act to the next state and an output. -/
structure Machine (State Act Out : Type) where
  step : State → Act → State × Out

namespace Machine

variable {State Act Out : Type} (m : Machine State Act Out)

/-- The state after a list of acts. -/
def run (s : State) : List Act → State
  | [] => s
  | a :: as => run (m.step s a).1 as

/-- The outputs along a list of acts. -/
def outputs (s : State) : List Act → List Out
  | [] => []
  | a :: as => (m.step s a).2 :: outputs (m.step s a).1 as

/-- Every step of the run meets the condition `C`, read at the state before the step. -/
def Along (C : State → Act → Prop) (s : State) : List Act → Prop
  | [] => True
  | a :: as => C s a ∧ Along C (m.step s a).1 as

section

variable (s : State)

include s

@[simp] theorem run_nil : m.run s [] = s := rfl

@[simp] theorem run_cons (a : Act) (as : List Act) :
    m.run s (a :: as) = m.run (m.step s a).1 as := rfl

theorem run_append (as bs : List Act) : m.run s (as ++ bs) = m.run (m.run s as) bs := by
  induction as generalizing s with
  | nil => rfl
  | cons a as ih => exact ih _

@[simp] theorem outputs_nil : m.outputs s [] = [] := rfl

@[simp] theorem outputs_cons (a : Act) (as : List Act) :
    m.outputs s (a :: as) = (m.step s a).2 :: m.outputs (m.step s a).1 as := rfl

end

theorem outputs_getElem? {s : State} {as : List Act} {i : ℕ} (h : i < as.length) :
    (m.outputs s as)[i]? = some (m.step (m.run s (as.take i)) as[i]).2 := by
  induction as generalizing s i with
  | nil => exact absurd h (Nat.not_lt_zero i)
  | cons a as ih =>
    cases i with
    | zero => rfl
    | succ i => exact ih (Nat.lt_of_succ_lt_succ h)

section

variable (C : State → Act → Prop) (s : State)

include C s

@[simp] theorem along_nil : m.Along C s [] := trivial

@[simp] theorem along_cons (a : Act) (as : List Act) :
    m.Along C s (a :: as) ↔ C s a ∧ m.Along C (m.step s a).1 as := Iff.rfl

theorem along_append (as bs : List Act) :
    m.Along C s (as ++ bs) ↔ m.Along C s as ∧ m.Along C (m.run s as) bs := by
  induction as generalizing s with
  | nil => simp
  | cons a as ih => simp[cons_append, along_cons, run_cons, ih, and_assoc]

end

/-- A condition that can be decided can be decided along a run. -/
instance decidableAlong (C : State → Act → Prop) [∀ s a, Decidable (C s a)] :
    ∀ (s : State) (as : List Act), Decidable (m.Along C s as)
  | _, [] => isTrue trivial
  | s, a :: as =>
    have := decidableAlong C (m.step s a).1 as
    inferInstanceAs (Decidable (C s a ∧ m.Along C (m.step s a).1 as))

theorem along_of_forall {C : State → Act → Prop} (h : ∀ s a, C s a) (s : State) (as : List Act) :
    m.Along C s as := by
  induction as generalizing s with
  | nil => trivial
  | cons a as ih => exact ⟨h s a, ih _⟩

variable {m}

/-- **Invariants.** A property kept by every step that meets `C` holds after every run whose
steps all meet `C`. -/
theorem run_induction_along {C : State → Act → Prop} {I : State → Prop}
    (hstep : ∀ s a, I s → C s a → I (m.step s a).1) {s : State} {as : List Act}
    (hs : I s) (hC : m.Along C s as) : I (m.run s as) := by
  induction as generalizing s with
  | nil => exact hs
  | cons a as ih => exact ih (hstep s a hs hC.1) hC.2

/-- **Invariants.** A property kept by the steps on the acts of a run survives the run. -/
theorem run_induction {I : State → Prop} {as : List Act}
    (hstep : ∀ s, ∀ a ∈ as, I s → I (m.step s a).1) {s : State} (hs : I s) :
    I (m.run s as) := by
  induction as generalizing s with
  | nil => exact hs
  | cons a as ih =>
    exact ih (fun s b hb => hstep s b (mem_cons_of_mem a hb))
      (hstep s a mem_cons_self hs)

/-- The step at position `i` of the run on `as`: the state before it, its act, its output and
the state after it. -/
structure StepAt (m : Machine State Act Out) (s : State) (as : List Act) (i : ℕ) (st : State)
    (a : Act) (o : Out) (st' : State) : Prop where
  act : as[i]? = some a
  before : m.run s (as.take i) = st
  step : m.step st a = (st', o)

theorem stepAt_run {s : State} {as : List Act} {n : ℕ} (h : n < as.length) :
    m.StepAt s as n (m.run s (as.take n)) as[n] (m.step (m.run s (as.take n)) as[n]).2
      (m.run s (as.take (n + 1))) where
  act := getElem?_eq_getElem h
  before := rfl
  step := by
    rw [take_add_one, getElem?_eq_getElem h, run_append]
    rfl

namespace StepAt

variable {s st st' st₁ st₁' : State} {as : List Act} {i j : ℕ} {a a₁ : Act} {o o₁ : Out}

theorem lt_length (h : m.StepAt s as i st a o st') : i < as.length :=
  (List.getElem?_eq_some_iff.mp h.act).1

theorem after (h : m.StepAt s as i st a o st') : m.run s (as.take (i + 1)) = st' := by
  rw [take_add_one, h.act, run_append, h.before]
  change (m.step st a).1 = st'
  rw [h.step]

/-- **Induction along a run**: what holds at the start and is carried from each position to the
next holds before every step. -/
theorem induction {I : ℕ → State → Prop} (h : I 0 s)
    (hstep : ∀ n t b u t', m.StepAt s as n t b u t' → I n t → I (n + 1) t')
    (hi : m.StepAt s as i st a o st') : I i st := by
  rw [← hi.before]
  have hall : ∀ n, n ≤ i → I n (m.run s (as.take n)) := by
    intro n
    induction n with
    | zero => intro _; exact h
    | succ n ih =>
    intro hn
    have hlt : n < as.length := by
      have hlen := hi.lt_length
      omega
    exact hstep n _ _ _ _ (stepAt_run hlt) (ih (by omega))
  exact hall i (Nat.le_refl i)

theorem between (hi : m.StepAt s as i st a o st') (hj : m.StepAt s as j st₁ a₁ o₁ st₁')
    (hij : i < j) {I : State → Prop} (h : I st')
    (hstep : ∀ k t b u t', i < k → k < j → m.StepAt s as k t b u t' → I t → I t') : I st₁ := by
  refine hj.induction (I := fun n t => i < n → n ≤ j → I t) ?_ ?_ hij (Nat.le_refl j)
  · intro hlt
    exact absurd hlt (Nat.not_lt_zero i)
  intro n t b u t' hn ih hin hnj
  by_cases heq : i = n
  · subst heq
    rw [← hn.after, hi.after]
    exact h
  · exact hstep n t b u t' (by omega) (by omega) hn (ih (by omega) (by omega))

theorem along {C : State → Act → Prop} (h : m.StepAt s as i st a o st') (hC : m.Along C s as) :
    C st a := by
  have hsplit : as = as.take i ++ a :: as.drop (i + 1) := by
    obtain ⟨hlt, rfl⟩ := List.getElem?_eq_some_iff.mp h.act
    simp
  rw [hsplit, along_append, h.before] at hC
  exact hC.2.1

theorem cons {b : Act} (h : m.StepAt (m.step s b).1 as i st a o st') :
    m.StepAt s (b :: as) (i + 1) st a o st' where
  act := h.act
  before := h.before
  step := h.step

end StepAt

theorem along_iff_stepAt {C : State → Act → Prop} {s : State} {as : List Act} :
    m.Along C s as ↔ ∀ i st a o st', m.StepAt s as i st a o st' → C st a := by
  constructor
  · intro hC i st a o st' hi
    exact hi.along hC
  intro hall
  induction as generalizing s with
  | nil => trivial
  | cons a as ih =>
    refine ⟨hall 0 s a (m.step s a).2 (m.step s a).1 ⟨rfl, rfl, rfl⟩, ?_⟩
    exact ih fun i st b o st' hi => hall (i + 1) st b o st' hi.cons

/-- **Two runs.** `R as` relates the state of a run to the state of the same run without the acts
that `keep` drops, `as` being the acts still to come. Where `R` survives a kept act on both sides,
with equal `obs` of the outputs, and a dropped act on the first side alone, the kept acts give the
same observations in both runs. `C` and `D` are conditions met along the two runs. -/
theorem sim_filter {Obs : Type} (keep : Act → Bool) (obs : Act → Out → Obs)
    {R : List Act → State → State → Prop} {C D : State → Act → Prop}
    (hkeep : ∀ a as s t, R (a :: as) s t → C s a → D t a → keep a = true →
      R as (m.step s a).1 (m.step t a).1 ∧ obs a (m.step s a).2 = obs a (m.step t a).2)
    (hdrop : ∀ a as s t, R (a :: as) s t → C s a → keep a = false → R as (m.step s a).1 t)
    {s t : State} {as : List Act} (hR : R as s t) (hC : m.Along C s as)
    (hD : m.Along D t (as.filter keep)) :
    ((as.zip (m.outputs s as)).filter (fun p => keep p.1)).map (fun p => obs p.1 p.2) =
      ((as.filter keep).zip (m.outputs t (as.filter keep))).map (fun p => obs p.1 p.2) := by
  induction as generalizing s t with
  | nil => rfl
  | cons a as ih =>
  cases hk : keep a with
  | true =>
    rw [filter_cons_of_pos hk] at hD ⊢
    obtain ⟨hR', hobs⟩ := hkeep a as s t hR hC.1 hD.1 hk
    simp only [outputs_cons, zip_cons_cons, filter_cons, hk, if_true, map_cons]
    rw [hobs, ih hR' hC.2 hD.2]
  | false =>
  have hk' : ¬ keep a = true := by simp [hk]
  rw [filter_cons_of_neg hk'] at hD ⊢
  simp only [outputs_cons, zip_cons_cons, filter_cons, hk, Bool.false_eq_true,
    if_false]
  exact ih (hdrop a as s t hR hC.1 hk) hC.2 hD

end Machine

end Lib
