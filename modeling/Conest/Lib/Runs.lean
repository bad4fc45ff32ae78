import Conest.Lib.Sorted

/-!
# Runs of consecutive numbers

A run of a set of numbers is an interval inside it that cannot be made longer. `runs` reads the runs
off a sorted list, and `mem_runs` says that these are the runs of its set, in order
(`runs_sorted`). `isRun_above` is what paging over runs rests on: behind the end of a run, the runs of
what is left are those of the whole.
-/

namespace Lib

open List
namespace Runs

/-- A longest interval in a set. -/
structure IsRun (S : ℕ → Prop) (run : ℕ × ℕ) : Prop where
  le : run.1 ≤ run.2
  inside : ∀ n, run.1 ≤ n → n ≤ run.2 → S n
  before : ∀ n, n + 1 = run.1 → ¬ S n
  behind : ¬ S (run.2 + 1)

/-- The runs of a sorted list, where the interval from `first` to `last` is read already. -/
def runsFrom (first last : ℕ) : List ℕ → List (ℕ × ℕ)
  | [] => [(first, last)]
  | n :: l => if last + 1 = n then runsFrom first n l else (first, last) :: runsFrom n n l

/-- The runs of a sorted list. -/
def runs : List ℕ → List (ℕ × ℕ)
  | [] => []
  | n :: l => runsFrom n n l

theorem IsRun.eq_of_overlap {S : ℕ → Prop} {r s : ℕ × ℕ} (hr : IsRun S r) (hs : IsRun S s)
    (hle : r.1 ≤ s.2) (hle' : s.1 ≤ r.2) : r = s := by
  have hfirst : ∀ {r s : ℕ × ℕ}, IsRun S r → IsRun S s → r.1 ≤ s.2 → s.1 ≤ r.2 → r.1 ≤ s.1 := by
    intro r s hr hs hle hle'
    by_contra hlt
    -- the number before the run `r` would be in the run `s`
    obtain ⟨k, hk⟩ : ∃ k, k + 1 = r.1 := ⟨r.1 - 1, by omega⟩
    exact hr.before k hk (hs.inside k (by omega) (by omega))
  have hlast : ∀ {r s : ℕ × ℕ}, IsRun S r → IsRun S s → r.1 ≤ s.2 → s.1 ≤ r.2 → s.2 ≤ r.2 := by
    intro r s hr hs hle hle'
    by_contra hlt
    exact hr.behind (hs.inside (r.2 + 1) (by omega) (by omega))
  exact Prod.ext (le_antisymm (hfirst hr hs hle hle') (hfirst hs hr hle' hle))
    (le_antisymm (hlast hs hr hle' hle) (hlast hr hs hle hle'))

section Sorted

variable {first last : ℕ} {l : List ℕ}

theorem le_of_mem_runsFrom (hle : first ≤ last) (hl : l.Pairwise (· < ·)) (hlast : ∀ n ∈ l, last < n)
    {run : ℕ × ℕ} (hmem : run ∈ runsFrom first last l) : first ≤ run.1 := by
  induction l generalizing first last with
  | nil =>
    rw [runsFrom, mem_singleton] at hmem
    rw [hmem]
  | cons n l ih =>
  have hl' := pairwise_cons.mp hl
  have hn := hlast n mem_cons_self
  rw [runsFrom] at hmem
  split at hmem
  · exact ih (by omega) hl'.2 hl'.1 hmem
  · rcases mem_cons.mp hmem with rfl | hmem
    · exact le_rfl
    · exact (by omega : first ≤ n).trans (ih le_rfl hl'.2 hl'.1 hmem)

/-- **Behind the end of a run**, the runs of what is left are those of the whole. -/
theorem isRun_above {S : ℕ → Prop} {stop : ℕ} (hstop : ¬ S (stop + 1)) {run : ℕ × ℕ} :
    IsRun (fun n => S n ∧ stop < n) run ↔ IsRun S run ∧ stop < run.1 := by
  constructor
  · intro hrun
    have hfirst := hrun.inside run.1 le_rfl hrun.le
    refine ⟨⟨hrun.le, fun n h h' => (hrun.inside n h h').1, fun n hn hS => ?_, fun hS => ?_⟩,
      hfirst.2⟩
    · by_cases hlt : stop < n
      · exact hrun.before n hn ⟨hS, hlt⟩
      · -- the run would start right behind the end
        have hsame : run.1 = stop + 1 := by
          omega
        exact hstop (hsame ▸ hfirst.1)
    · have hle := hrun.le
      exact hrun.behind ⟨hS, by omega⟩
  · rintro ⟨hrun, hlt⟩
    exact ⟨hrun.le, fun n h h' => ⟨hrun.inside n h h', by omega⟩,
      fun n hn hS => hrun.before n hn hS.1, fun hS => hrun.behind hS.1⟩

theorem isRun_of_gap (hle : first ≤ last) (hlast : ∀ n ∈ l, last < n) (hgap : last + 1 ∉ l)
    (run : ℕ × ℕ) : IsRun (fun n => (first ≤ n ∧ n ≤ last) ∨ n ∈ l) run ↔
      run = (first, last) ∨ IsRun (fun n => n ∈ l) run := by
  have hend : ¬((first ≤ last + 1 ∧ last + 1 ≤ last) ∨ last + 1 ∈ l) := by
    rintro (h | h)
    · omega
    · exact hgap h
  have hinterval : IsRun (fun n => (first ≤ n ∧ n ≤ last) ∨ n ∈ l) (first, last) := by
    refine ⟨hle, fun k h h' => .inl ⟨h, h'⟩, fun k (hk : k + 1 = first) => ?_, hend⟩
    rintro (h | h)
    · omega
    · have := hlast k h
      omega
  have hbehind : (fun n => n ∈ l) = fun n => ((first ≤ n ∧ n ≤ last) ∨ n ∈ l) ∧ last < n := by
    ext n
    exact ⟨fun h => ⟨.inr h, hlast n h⟩, fun h => h.1.resolve_left fun hn => by omega⟩
  rw [hbehind, isRun_above hend]
  refine ⟨fun hrun => ?_, fun h => h.elim (fun heq => heq ▸ hinterval) And.left⟩
  by_cases hlt : last < run.1
  · exact .inr ⟨hrun, hlt⟩
  -- the run starts in the interval
  refine .inl (hrun.eq_of_overlap hinterval (not_lt.mp hlt) ?_)
  rcases hrun.inside run.1 le_rfl hrun.le with h | h
  · exact h.1.trans hrun.le
  · exact absurd (hlast _ h) hlt

theorem interval_self (n : ℕ) (l : List ℕ) :
    (fun k => (n ≤ k ∧ k ≤ n) ∨ k ∈ l) = fun k => k ∈ n :: l := by
  ext k
  rw [mem_cons, ← le_antisymm_iff, eq_comm]

section

variable (hle : first ≤ last) (hl : l.Pairwise (· < ·)) (hlast : ∀ n ∈ l, last < n)

include hle hl hlast

theorem mem_runsFrom (run : ℕ × ℕ) :
    run ∈ runsFrom first last l ↔ IsRun (fun n => (first ≤ n ∧ n ≤ last) ∨ n ∈ l) run := by
  induction l generalizing first last with
  | nil =>
    rw [runsFrom, mem_singleton, isRun_of_gap hle hlast not_mem_nil]
    refine (or_iff_left fun hrun => ?_).symm
    exact not_mem_nil (hrun.inside run.1 le_rfl hrun.le)
  | cons n l ih =>
  have hl' := pairwise_cons.mp hl
  have hn := hlast n mem_cons_self
  rw [runsFrom]
  split
  · -- the interval goes on
    rw [ih (by omega) hl'.2 hl'.1]
    have hsame : (fun k => (first ≤ k ∧ k ≤ n) ∨ k ∈ l) =
        fun k => (first ≤ k ∧ k ≤ last) ∨ k ∈ n :: l := by
      ext k
      rw [mem_cons, ← or_assoc]
      refine or_congr_left ?_
      omega
    rw [hsame]
  next hgap =>
  have hnot : last + 1 ∉ n :: l := by
    rintro (_ | ⟨_, hmem⟩)
    · exact hgap rfl
    · have := hl'.1 _ hmem
      omega
  rw [isRun_of_gap hle hlast hnot, mem_cons, ih le_rfl hl'.2 hl'.1, interval_self]

theorem runsFrom_sorted : (runsFrom first last l).Pairwise fun r s => r.2 < s.1 := by
  induction l generalizing first last with
  | nil => exact pairwise_singleton _ _
  | cons n l ih =>
  have hl' := pairwise_cons.mp hl
  have hn := hlast n mem_cons_self
  rw [runsFrom]
  split
  · exact ih (by omega) hl'.2 hl'.1
  · refine pairwise_cons.mpr ⟨fun s hs => ?_, ih le_rfl hl'.2 hl'.1⟩
    exact hn.trans_le (le_of_mem_runsFrom le_rfl hl'.2 hl'.1 hs)

end

section

variable (hl : l.Pairwise (· < ·))

include hl

theorem mem_runs (run : ℕ × ℕ) : run ∈ runs l ↔ IsRun (fun n => n ∈ l) run := by
  cases l with
  | nil =>
    refine iff_of_false not_mem_nil fun hrun => ?_
    exact absurd (hrun.inside run.1 le_rfl hrun.le) not_mem_nil
  | cons n l =>
    have hl' := pairwise_cons.mp hl
    rw [runs, mem_runsFrom le_rfl hl'.2 hl'.1, interval_self]

theorem runs_sorted : (runs l).Pairwise fun r s => r.2 < s.1 := by
  cases l with
  | nil => exact List.Pairwise.nil
  | cons n l =>
    have hl' := pairwise_cons.mp hl
    exact runsFrom_sorted le_rfl hl'.2 hl'.1

theorem runs_sortedBy : Sorted.SortedBy Prod.fst (runs l) :=
  (runs_sorted hl).imp_of_mem fun {r _} hr _ hlt => ((mem_runs hl r).mp hr).le.trans_lt hlt

end

theorem runs_filter {run : ℕ × ℕ} (hl : l.Pairwise (· < ·)) (hrun : run ∈ runs l) :
    runs (l.filter fun n => decide (run.2 < n)) =
      (runs l).filter fun r => decide (run.1 < r.1) := by
  have hl' : (l.filter fun n => decide (run.2 < n)).Pairwise (· < ·) := hl.filter _
  have hisRun := (mem_runs hl run).mp hrun
  refine Sorted.eq_of_sorted (runs_sortedBy hl') ((runs_sortedBy hl).filter _) fun r => ?_
  have hset : (fun n => n ∈ l.filter fun n => decide (run.2 < n)) =
      fun n => n ∈ l ∧ run.2 < n := by
    funext n
    rw [mem_filter, decide_eq_true_eq]
  rw [mem_runs hl', hset, isRun_above hisRun.behind, mem_filter, mem_runs hl,
    decide_eq_true_eq]
  refine and_congr_right fun hr => ⟨fun hlt => hisRun.le.trans_lt hlt, fun hlt => ?_⟩
  -- two runs that overlap are one
  by_contra hnot
  have hsame := hisRun.eq_of_overlap hr (hlt.le.trans hr.le) (not_lt.mp hnot)
  exact absurd (congrArg Prod.fst hsame) (ne_of_lt hlt)

end Sorted

end Runs
end Lib
