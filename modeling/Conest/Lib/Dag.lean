import Mathlib

/-!
# Ancestors by a worklist

`walk` is the loop that collects the ancestors of a node: it takes a node off a stack, and if the
node is new, records it and pushes its parents. `parents` is the parent list of each node, empty
outside the finite set `dom`.

The loop ends: what is on the stack and the parent lists of the nodes not yet recorded together
lose one in each round (`potential`), so `ancestors` runs it on that much fuel and never runs out.
What it collects is the reflexive and transitive closure of the parent relation (`mem_ancestors`),
and it does not depend on the parent lists of nodes that are not ancestors (`ancestors_congr`).
-/

namespace Lib

open List
namespace Dag

variable {K : Type} [DecidableEq K]

/-- `b` is `a` itself or an ancestor of it. -/
def Reaches (parents : K → List K) : K → K → Prop :=
  Relation.ReflTransGen fun a b => b ∈ parents a

/-- The worklist loop: `pending` is the stack, its top first, and `found` the nodes recorded, in
the order of recording. -/
def walk (parents : K → List K) : ℕ → List K → List K → List K
  | 0, _, found => found
  | _ + 1, [], found => found
  | fuel + 1, next :: pending, found =>
    if next ∈ found then walk parents fuel pending found
    else walk parents fuel ((parents next).reverse ++ pending) (found ++ [next])

/-- What is left to do: the stack, and the parent lists of the nodes not recorded. -/
def potential (parents : K → List K) (dom : Finset K) (pending found : List K) : ℕ :=
  pending.length + ∑ k ∈ dom.filter (· ∉ found), (parents k).length

/-- The ancestors of a node, in the order in which the loop records them. -/
def ancestors (parents : K → List K) (dom : Finset K) (a : K) : List K :=
  walk parents (potential parents dom [a] []) [a] []

section Walk

variable {parents parents' : K → List K} {dom : Finset K}

section

variable (hdom : ∀ k, k ∉ dom → parents k = [])

include hdom

theorem potential_push {next : K} {found : List K} (hnew : next ∉ found) (pending : List K) :
    potential parents dom ((parents next).reverse ++ pending) (found ++ [next]) + 1 =
      potential parents dom (next :: pending) found := by
  have hsum : (parents next).length +
      ∑ k ∈ dom.filter (· ∉ found ++ [next]), (parents k).length =
      ∑ k ∈ dom.filter (· ∉ found), (parents k).length := by
    have herase : dom.filter (· ∉ found ++ [next]) = (dom.filter (· ∉ found)).erase next := by
      ext k
      simp only [Finset.mem_filter, Finset.mem_erase, mem_append, mem_singleton, not_or]
      tauto
    rw [herase]
    by_cases hmem : next ∈ dom
    · exact Finset.add_sum_erase _ (fun k => (parents k).length)
        (Finset.mem_filter.mpr ⟨hmem, hnew⟩)
    · have hnot : next ∉ dom.filter (· ∉ found) := fun h => hmem (Finset.mem_filter.mp h).1
      rw [Finset.erase_eq_of_notMem hnot, hdom next hmem]
      simp
  unfold potential
  simp only [length_append, length_reverse, length_cons]
  omega

/-- **What the loop collects.** With enough fuel, the nodes recorded at the end are those recorded
already and those that the stack reaches, provided that what is recorded is closed under parents up
to the stack. -/
theorem mem_walk {fuel : ℕ} {pending found : List K}
    (hfuel : potential parents dom pending found ≤ fuel)
    (hclosed : ∀ a ∈ found, ∀ b ∈ parents a, b ∈ found ∨ b ∈ pending) {x : K} :
    x ∈ walk parents fuel pending found ↔ x ∈ found ∨ ∃ a ∈ pending, Reaches parents a x := by
  induction fuel generalizing pending found with
  | zero =>
    -- no fuel: nothing is left
    have hnil : pending = [] := by
      unfold potential at hfuel
      exact eq_nil_of_length_eq_zero (by omega)
    subst hnil
    simp [walk]
  | succ fuel ih =>
  cases pending with
  | nil => simp [walk]
  | cons next pending =>
  unfold walk
  split
  · next hfound =>
    -- recorded already: its ancestors are covered by what is recorded and the rest
    have hcover : ∀ a b, Reaches parents a b → a ∈ found →
        b ∈ found ∨ ∃ c ∈ pending, Reaches parents c b := by
      intro a b hab
      induction hab using Relation.ReflTransGen.head_induction_on with
      | refl => intro ha; exact .inl ha
      | @head a c hac hcb ihcb =>
      intro ha
      rcases hclosed a ha c hac with hc | hc
      · exact ihcb hc
      · rcases mem_cons.mp hc with rfl | hc
        · exact ihcb hfound
        · exact .inr ⟨c, hc, hcb⟩
    rw [ih (by unfold potential at hfuel ⊢; simp only [length_cons] at hfuel; omega),
      exists_mem_cons_iff, or_left_comm,
      or_iff_right_of_imp fun hx => hcover next x hx hfound]
    intro a ha b hb
    refine (hclosed a ha b hb).elim .inl fun hb => ?_
    refine (mem_cons.mp hb).imp_left ?_
    rintro rfl
    exact hfound
  next hnew =>
  have hpot := potential_push hdom hnew pending
  have hhead : Reaches parents next x ↔ next = x ∨ ∃ c ∈ parents next, Reaches parents c x :=
    Relation.ReflTransGen.cases_head_iff
  rw [ih (by omega), exists_mem_cons_iff, hhead]
  · simp[mem_append, mem_singleton, mem_reverse, or_and_right, exists_or,
      eq_comm, or_assoc]
  intro a ha b hb
  simp only [mem_append, mem_singleton, mem_reverse] at ha ⊢
  rcases ha with ha | rfl
  · have := hclosed a ha b hb
    rw [mem_cons] at this
    tauto
  · exact .inr (.inl hb)

theorem mem_ancestors {a x : K} : x ∈ ancestors parents dom a ↔ Reaches parents a x := by
  unfold ancestors
  rw [mem_walk hdom (Nat.le_refl _) (by simp)]
  simp

end

theorem walk_nil (fuel : ℕ) (found : List K) : walk parents fuel [] found = found := by
  cases fuel <;> rfl

section

variable {dom' : Finset K} (hdom : ∀ k, k ∉ dom → parents k = [])
  (hdom' : ∀ k, k ∉ dom' → parents' k = [])

include hdom hdom'

/-- The loop does not depend on its fuel, once there is enough, nor on the parent lists of nodes
that the stack does not reach. -/
theorem walk_congr {fuel fuel' : ℕ} {pending found : List K}
    (hagree : ∀ a ∈ pending, ∀ x, Reaches parents a x → parents' x = parents x)
    (hfuel : potential parents dom pending found ≤ fuel)
    (hfuel' : potential parents' dom' pending found ≤ fuel') :
    walk parents fuel pending found = walk parents' fuel' pending found := by
  induction fuel generalizing fuel' pending found with
  | zero =>
    have hnil : pending = [] := by
      unfold potential at hfuel
      exact eq_nil_of_length_eq_zero (by omega)
    subst hnil
    rw [walk_nil, walk_nil]
  | succ fuel ih =>
  cases pending with
  | nil => rw [walk_nil, walk_nil]
  | cons next pending =>
  cases fuel' with
  | zero =>
    unfold potential at hfuel'
    simp only [length_cons] at hfuel'
    omega
  | succ fuel' =>
  have htail : ∀ a ∈ pending, ∀ x, Reaches parents a x → parents' x = parents x :=
    fun a ha => hagree a (mem_cons_of_mem next ha)
  unfold walk
  by_cases hfound : next ∈ found
  · rw [if_pos hfound, if_pos hfound]
    refine ih htail ?_ ?_
    · unfold potential at hfuel ⊢
      simp only [length_cons] at hfuel
      omega
    · unfold potential at hfuel' ⊢
      simp only [length_cons] at hfuel'
      omega
  rw [if_neg hfound, if_neg hfound]
  have hnext : parents' next = parents next :=
    hagree next mem_cons_self next Relation.ReflTransGen.refl
  have hpot := potential_push hdom hfound pending
  have hpot' := potential_push hdom' hfound pending
  rw [hnext] at hpot' ⊢
  refine ih ?_ (by omega) (by omega)
  intro a ha x hax
  rcases mem_append.mp ha with ha | ha
  · exact hagree next mem_cons_self x
      (Relation.ReflTransGen.head (mem_reverse.mp ha) hax)
  · exact htail a ha x hax

theorem ancestors_congr {a : K} (hagree : ∀ x, Reaches parents a x → parents' x = parents x) :
    ancestors parents dom a = ancestors parents' dom' a := by
  refine walk_congr hdom hdom' ?_ (Nat.le_refl _) (Nat.le_refl _)
  intro b hb
  rw [mem_singleton.mp hb]
  exact hagree

end

end Walk

end Dag
end Lib
