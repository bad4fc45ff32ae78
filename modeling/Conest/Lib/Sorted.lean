import Mathlib

/-!
# Sorted lists

A list that is kept sorted by a key, where no two elements have one key: `insertSorted` puts a new
element at the place that a binary search finds. The search keeps an interval below which every
element is smaller and above which none is (`lowerBound_spec`), so the list stays sorted, and it is
the only sorted list of its elements (`eq_of_sorted`).
-/

namespace Lib

open List
namespace Sorted

variable {α κ : Type} [LinearOrder κ] (key : α → κ)

variable {l : List α} {x a : α}

/-- The list is strictly sorted by the key. -/
def SortedBy (l : List α) : Prop := l.Pairwise fun a b => key a < key b

/-- The binary search: halve the interval between `low` and `high` until it is empty. `below` says
of a position that its element is smaller. -/
def lowerBound (below : ℕ → Bool) : ℕ → ℕ → ℕ → ℕ
  | 0, low, _ => low
  | fuel + 1, low, high =>
    if low < high then
      let middle := (low + high) / 2
      if below middle then lowerBound below fuel (middle + 1) high
      else lowerBound below fuel low middle
    else low

/-- Insert an element at the first place whose element is not smaller. -/
def insertSorted (x : α) (l : List α) : List α :=
  let place := lowerBound (fun i => (l[i]?).any fun a => decide (key a < key x)) l.length 0 l.length
  l.take place ++ x :: l.drop place

/-- **The search finds the boundary**: for a test that holds up to some place and not from there
on, everything before the result passes and nothing from it on does. -/
theorem lowerBound_spec {below : ℕ → Bool} {n : ℕ}
    (hmono : ∀ i j, i ≤ j → j < n → below j = true → below i = true) {fuel low high : ℕ}
    (hfuel : high - low ≤ fuel) (hlow : low ≤ high) (hhigh : high ≤ n)
    (hbefore : ∀ i, i < low → below i = true)
    (hafter : ∀ i, high ≤ i → i < n → below i = false) :
    lowerBound below fuel low high ≤ n ∧
      (∀ i, i < lowerBound below fuel low high → below i = true) ∧
      ∀ i, lowerBound below fuel low high ≤ i → i < n → below i = false := by
  induction fuel generalizing low high with
  | zero =>
    -- the interval is empty
    obtain rfl : low = high := by omega
    exact ⟨hhigh, hbefore, hafter⟩
  | succ fuel ih =>
  unfold lowerBound
  split
  · next hlt =>
    dsimp only
    split
    · next htrue =>
      refine ih (by omega) (by omega) hhigh ?_ hafter
      intro i hi
      exact hmono i ((low + high) / 2) (by omega) (by omega) htrue
    next hfalse =>
    rw [Bool.not_eq_true] at hfalse
    refine ih (by omega) (by omega) (by omega) hbefore ?_
    intro i hi hin
    by_contra hnot
    rw [Bool.not_eq_false] at hnot
    rw [hmono ((low + high) / 2) i hi hin hnot] at hfalse
    cases hfalse
  next hge =>
  obtain rfl : low = high := by omega
  exact ⟨hhigh, hbefore, hafter⟩

variable {key}

theorem insertSorted_perm (x : α) (l : List α) : (insertSorted key x l).Perm (x :: l) := by
  unfold insertSorted
  refine perm_middle.trans (List.Perm.cons x ?_)
  rw [take_append_drop]

theorem mem_insertSorted : a ∈ insertSorted key x l ↔ a = x ∨ a ∈ l := by
  rw [(insertSorted_perm x l).mem_iff, mem_cons]

theorem SortedBy.insertSorted (hsorted : SortedBy key l) (hnew : ∀ a ∈ l, key a ≠ key x) :
    SortedBy key (insertSorted key x l) := by
  let below : ℕ → Bool := fun i => (l[i]?).any fun a => decide (key a < key x)
  have hbelow : ∀ i (hi : i < l.length), below i = true ↔ key l[i] < key x := by
    intro i hi
    simp [below, getElem?_eq_getElem hi]
  have hmono : ∀ i j, i ≤ j → j < l.length → below j = true → below i = true := by
    intro i j hij hj htrue
    rw [hbelow i (by omega)]
    rw [hbelow j hj] at htrue
    rcases Nat.lt_or_eq_of_le hij with hlt | rfl
    · exact (pairwise_iff_getElem.mp hsorted i j (by omega) hj hlt).trans htrue
    · exact htrue
  obtain ⟨hle, hbefore, hafter⟩ := lowerBound_spec hmono (Nat.sub_le _ 0) (Nat.zero_le _)
    (Nat.le_refl _) (fun i hi => absurd hi (Nat.not_lt_zero i))
    (fun i hi hin => absurd hin (Nat.not_lt.mpr hi))
  change SortedBy key (l.take (lowerBound below l.length 0 l.length) ++
    x :: l.drop (lowerBound below l.length 0 l.length))
  generalize lowerBound below l.length 0 l.length = place at hle hbefore hafter
  -- everything before the place is smaller than `x`, everything from it on is larger
  have hsmall : ∀ a ∈ l.take place, key a < key x := by
    intro a ha
    obtain ⟨i, hi, rfl⟩ := mem_iff_getElem.mp ha
    rw [length_take] at hi
    rw [getElem_take]
    exact (hbelow i (by omega)).mp (hbefore i (by omega))
  have hlarge : ∀ a ∈ l.drop place, key x < key a := by
    intro a ha
    obtain ⟨i, hi, rfl⟩ := mem_iff_getElem.mp ha
    rw [length_drop] at hi
    rw [getElem_drop]
    have hnot := hafter (place + i) (by omega) (by omega)
    refine lt_of_le_of_ne ?_ (hnew _ (getElem_mem _)).symm
    rw [← not_lt]
    intro hlt
    rw [(hbelow (place + i) (by omega)).mpr hlt] at hnot
    cases hnot
  unfold SortedBy at hsorted ⊢
  rw [pairwise_append, pairwise_cons]
  refine ⟨hsorted.sublist (take_sublist _ _), ⟨hlarge, hsorted.sublist (drop_sublist _ _)⟩,
    ?_⟩
  intro a ha b hb
  rcases mem_cons.mp hb with rfl | hb
  · exact hsmall a ha
  · exact (hsmall a ha).trans (hlarge b hb)

theorem eq_of_sorted {l' : List α} (hsorted : SortedBy key l) (hsorted' : SortedBy key l')
    (hmem : ∀ a, a ∈ l ↔ a ∈ l') : l = l' := by
  have hnodup : l.Nodup := hsorted.imp fun hlt heq => absurd (congrArg key heq) (ne_of_lt hlt)
  have hnodup' : l'.Nodup := hsorted'.imp fun hlt heq => absurd (congrArg key heq) (ne_of_lt hlt)
  have hperm : l.Perm l' := (perm_ext_iff_of_nodup hnodup hnodup').mpr hmem
  refine hperm.eq_of_pairwise ?_ hsorted hsorted'
  intro a b _ _ hab hba
  exact absurd hab (lt_asymm hba)

theorem SortedBy.filter_after {before after : List α} (h : SortedBy key (before ++ x :: after)) :
    (before ++ x :: after).filter (fun y => key x < key y) = after := by
  obtain ⟨-, htail, hacross⟩ := pairwise_append.mp h
  have hbefore : before.filter (fun y => key x < key y) = [] := by
    rw [filter_eq_nil_iff]
    intro y hy
    rw [decide_eq_true_eq, not_lt]
    exact le_of_lt (hacross y hy x mem_cons_self)
  have hafter : after.filter (fun y => key x < key y) = after := by
    rw [filter_eq_self]
    intro y hy
    rw [decide_eq_true_eq]
    exact (pairwise_cons.mp htail).1 y hy
  have hself : (x :: after).filter (fun y => key x < key y) = after.filter fun y =>
      key x < key y := filter_cons_of_neg (by simp)
  rw [filter_append, hbefore, hself, hafter, nil_append]

/-- **A window on a sorted list**: an element is among the first `n` exactly when fewer than `n`
elements are smaller. -/
theorem SortedBy.mem_take_iff (h : SortedBy key l) (hx : x ∈ l) {n : ℕ} :
    x ∈ l.take n ↔ (l.filter fun y => key y < key x).length < n := by
  obtain ⟨before, after, rfl⟩ := append_of_mem hx
  obtain ⟨-, htail, hacross⟩ := pairwise_append.mp h
  have hbefore : before.filter (fun y => key y < key x) = before := by
    rw [filter_eq_self]
    intro y hy
    rw [decide_eq_true_eq]
    exact hacross y hy x mem_cons_self
  have hrest : (x :: after).filter (fun y => key y < key x) = [] := by
    rw [filter_eq_nil_iff]
    intro y hy
    rw [decide_eq_true_eq, not_lt]
    rcases mem_cons.mp hy with rfl | hy
    · exact le_rfl
    · exact le_of_lt ((pairwise_cons.mp htail).1 y hy)
  rw [filter_append, hbefore, hrest, append_nil]
  constructor
  · intro hmem
    by_contra hle
    -- the window would lie inside what comes before
    rw [take_append_of_le_length (not_lt.mp hle)] at hmem
    exact absurd (hacross x (mem_of_mem_take hmem) x mem_cons_self) (lt_irrefl _)
  · intro hlt
    obtain ⟨k, rfl⟩ : ∃ k, n = before.length + (k + 1) := ⟨n - before.length - 1, by omega⟩
    rw [take_length_add_append]
    exact mem_append_right _ mem_cons_self

/-! ### The least element -/

/-- **Sorting puts the least element first**, for a key that tells elements apart. -/
theorem head?_insertionSort_iff {key : α → κ} (hkey : Function.Injective key) :
    (l.insertionSort fun a b => key a ≤ key b).head? = some a ↔ a ∈ l ∧ ∀ b ∈ l, key a ≤ key b := by
  have hsorted : (l.insertionSort fun a b => key a ≤ key b).Pairwise fun a b => key a ≤ key b :=
    pairwise_insertionSort _ _
  have hmem : ∀ b, b ∈ l.insertionSort (fun a b => key a ≤ key b) ↔ b ∈ l :=
    fun b => mem_insertionSort _
  generalize l.insertionSort (fun a b => key a ≤ key b) = sorted at hsorted hmem
  cases sorted with
  | nil =>
    refine iff_of_false (by simp) fun h => ?_
    exact absurd ((hmem a).mpr h.1) not_mem_nil
  | cons first rest =>
  have hfirst : ∀ b ∈ l, key first ≤ key b := by
    intro b hb
    rcases mem_cons.mp ((hmem b).mpr hb) with rfl | hrest
    · exact le_rfl
    · exact rel_of_pairwise_cons hsorted hrest
  have hin : first ∈ l := (hmem first).mp mem_cons_self
  rw [head?_cons, Option.some.injEq]
  constructor
  · rintro rfl
    exact ⟨hin, hfirst⟩
  · rintro ⟨ha, hleast⟩
    exact hkey (le_antisymm (hfirst a ha) (hleast first hin))

/-! ### Sorts that promise nothing of equal keys -/

/-- A sort by a key, the greatest first. Elements with one key may come in any order. -/
structure Descending where
  sort : {β : Type} → (β → ℕ) → List β → List β
  perm : ∀ {β : Type} (key : β → ℕ) (l : List β), (sort key l).Perm l
  sorted : ∀ {β : Type} (key : β → ℕ) (l : List β), (sort key l).Pairwise fun a b => key b ≤ key a

namespace Descending

variable (d : Descending) {β : Type} {key : β → ℕ}

theorem mem_sort {l : List β} {x : β} : x ∈ d.sort key l ↔ x ∈ l := (d.perm key l).mem_iff

@[simp] theorem sort_singleton (x : β) : d.sort key [x] = [x] :=
  perm_singleton.mp (d.perm key [x])

/-- The sort that inserts each element in its place. -/
def insertion : Descending where
  sort key l := l.insertionSort fun a b => key b ≤ key a
  perm _ l := List.perm_insertionSort _ l
  sorted key l := by
    have : Std.Total fun a b => key b ≤ key a := ⟨fun a b => le_total (key b) (key a)⟩
    have : IsTrans _ fun a b => key b ≤ key a := ⟨fun _ _ _ hab hbc => le_trans hbc hab⟩
    exact List.pairwise_insertionSort _ l

end Descending

end Sorted
end Lib
