import Conest.Lib.Sorted

/-!
# Following a cursor

A reader asks for a page, then for the page behind the last element of the one it got, until a page
is empty. `Follows` is such a reading, with the pages that came. `exists_follows` is the rule for it:
if each page is a beginning of what remains at its cursor, and is empty only where nothing remains,
then the reading ends, and its pages together are everything. `exists_follows_sorted` is the rule for
a sorted list, of which at each cursor the larger elements remain.
-/

namespace Lib

open List
namespace Paging

variable {C α E : Type}

/-- A reading from a cursor up to the first empty page. `after` is the cursor behind an element. -/
inductive Follows (next : C → Except E (List α)) (after : α → C) : C → List (List α) → Prop where
  | stop {c} (h : next c = .ok []) : Follows next after c []
  | more {c page last pages} (h : next c = .ok page) (hlast : page.getLast? = some last)
      (hrest : Follows next after (after last) pages) : Follows next after c (page :: pages)

variable {next : C → Except E (List α)} {after : α → C} {c : C}

theorem Follows.unique {pages pages' : List (List α)} (h : Follows next after c pages)
    (h' : Follows next after c pages') : pages = pages' := by
  induction h generalizing pages' with
  | stop hstop =>
    cases h' with
    | stop => rfl
    | more hmore hlast =>
      rw [hstop, Except.ok.injEq] at hmore
      rw [← hmore] at hlast
      cases hlast
  | more hmore hlast _ ih =>
  cases h' with
  | stop hstop =>
    rw [hstop, Except.ok.injEq] at hmore
    rw [← hmore] at hlast
    cases hlast
  | more hmore' hlast' hrest' =>
  rw [hmore, Except.ok.injEq] at hmore'
  subst hmore'
  rw [hlast, Option.some.injEq] at hlast'
  subst hlast'
  rw [ih hrest']

/-- What a cursor answers where `l` remains: a beginning of it, empty only if it is. -/
def Serves (next : C → Except E (List α)) (c : C) (l : List α) : Prop :=
  ∃ page, next c = .ok page ∧ page <+: l ∧ (l ≠ [] → page ≠ [])

/-- **The rule for readings.** `Remains c l` says that `l` remains at the cursor `c`. -/
theorem exists_follows (Remains : C → List α → Prop)
    (hserves : ∀ c l, Remains c l → Serves next c l)
    (hafter : ∀ c before last behind, Remains c (before ++ last :: behind) →
      Remains (after last) behind)
    {l : List α} (hc : Remains c l) : ∃ pages, Follows next after c pages ∧ pages.flatten = l := by
  -- what remains gets shorter with every page
  induction hn : l.length using Nat.strong_induction_on generalizing c l with
  | _ n ih =>
  obtain ⟨page, hnext, ⟨behind, hsplit⟩, hne⟩ := hserves c l hc
  cases hlast : page.getLast? with
  | none =>
    rw [getLast?_eq_none_iff] at hlast
    subst hlast
    refine ⟨[], Follows.stop hnext, ?_⟩
    by_contra hrest
    exact hne (fun hnil => hrest hnil.symm) rfl
  | some last =>
  obtain ⟨init, rfl⟩ := getLast?_eq_some_iff.mp hlast
  have hcut : l = init ++ last :: behind := by
    rw [← hsplit, append_assoc, singleton_append]
  have hshorter : behind.length < n := by
    rw [← hn, hcut, length_append, length_cons]
    omega
  obtain ⟨pages, hfollows, hflatten⟩ :=
    ih _ hshorter (hafter c init last behind (hcut ▸ hc)) rfl
  refine ⟨_, Follows.more hnext hlast hfollows, ?_⟩
  rw [flatten_cons, hflatten, hsplit]

theorem exists_follows_sorted {β κ : Type} [LinearOrder κ] {key : β → κ} {all : List β}
    (hsorted : Sorted.SortedBy key all) {f : β → α} {start : C}
    (hstart : Serves next start (all.map f))
    (hbehind : ∀ x ∈ all,
      Serves next (after (f x)) ((all.filter fun y => decide (key x < key y)).map f)) :
    ∃ pages, Follows next after start pages ∧ pages.flatten = all.map f := by
  refine exists_follows (fun c l => Serves next c l ∧
    ∃ before : List β, ∃ rest, all = before ++ rest ∧ l = rest.map f) (fun _ _ h => h.1) ?_
    ⟨hstart, [], all, rfl, rfl⟩
  rintro c init last behind ⟨-, before, rest, hall, hrest⟩
  obtain ⟨init', tail, rfl, -, htail⟩ := map_eq_append_iff.mp hrest.symm
  obtain ⟨x, behind', rfl, rfl, rfl⟩ := map_eq_cons_iff.mp htail
  have hsplit : all = (before ++ init') ++ x :: behind' := by rw [hall, append_assoc]
  have hlarger : (all.filter fun y => decide (key x < key y)) = behind' := by
    rw [hsplit]
    rw [hsplit] at hsorted
    exact hsorted.filter_after
  refine ⟨?_, before ++ init' ++ [x], behind', ?_, rfl⟩
  · have hmem : x ∈ all := hsplit ▸ mem_append_right _ mem_cons_self
    have hserves := hbehind x hmem
    rw [hlarger] at hserves
    exact hserves
  · rw [hsplit]
    simp

end Paging
end Lib
