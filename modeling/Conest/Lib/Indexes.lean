import Conest.Lib.FMap

/-!
# Indexes over a list of elements

A program that stores elements one after another often keeps maps beside them that are brought up
to date with each element. Four kinds are treated here: each element under its key (`Keyed`), under
two keys (`Nested`), the element of highest rank under each key (`Best`), and the values that any
element gives for a key (`Grouped`). `Top` is `Best` without keys: the one element of highest rank.

Each kind says what the map holds as a function of the elements stored. So adding an element keeps
it (`Keyed.add` and so on), and two maps over the same elements, stored in whatever order, are
equal (`Keyed.unique` and so on).
-/

namespace Lib

open List
namespace Indexes

variable {α K J V R : Type} [DecidableEq K] [DecidableEq J] [DecidableEq V] [LinearOrder R]

/-! ### Each element under its key -/

variable {a : α}

/-- The map holds each element that has a key under that key, and nothing else. -/
structure Keyed (keyOf : α → Option K) (l : List α) (m : FMap K α) : Prop where
  get_iff : ∀ k a, m.get k = some a ↔ a ∈ l ∧ keyOf a = some k

/-- Add an element under its key. -/
def addKeyed (keyOf : α → Option K) (a : α) (m : FMap K α) : FMap K α :=
  match keyOf a with
  | some k => m.insert k a
  | none => m

variable {keyOf : α → Option K} {l l' : List α} {m m' : FMap K α}

omit [DecidableEq K] in
theorem Keyed.empty : Keyed keyOf [] (FMap.empty : FMap K α) :=
  ⟨fun k a => by simp⟩

theorem Keyed.add (h : Keyed keyOf l m) (hnew : ∀ k, keyOf a = some k → ∀ b ∈ l, keyOf b ≠ some k) :
    Keyed keyOf (l ++ [a]) (addKeyed keyOf a m) := by
  refine ⟨fun k b => ?_⟩
  unfold addKeyed
  rw [mem_append, mem_singleton]
  cases hkey : keyOf a with
  | none =>
    rw [h.get_iff]
    constructor
    · rintro ⟨hb, hk⟩
      exact ⟨.inl hb, hk⟩
    · rintro ⟨hb | rfl, hk⟩
      · exact ⟨hb, hk⟩
      · rw [hkey] at hk
        cases hk
  | some k₀ =>
  rw [FMap.get_insert]
  by_cases heq : k = k₀
  · -- the new key: no element that was there has it
    subst heq
    rw [if_pos rfl, Option.some.injEq]
    constructor
    · rintro rfl
      exact ⟨.inr rfl, hkey⟩
    · rintro ⟨hb | rfl, hk⟩
      · exact absurd hk (hnew k hkey b hb)
      · rfl
  · rw [if_neg heq, h.get_iff]
    constructor
    · rintro ⟨hb, hk⟩
      exact ⟨.inl hb, hk⟩
    · rintro ⟨hb | rfl, hk⟩
      · exact ⟨hb, hk⟩
      · rw [hkey, Option.some.injEq] at hk
        exact absurd hk.symm heq

omit [DecidableEq K] in
theorem Keyed.unique (h : Keyed keyOf l m) (h' : Keyed keyOf l' m') (hmem : ∀ a, a ∈ l ↔ a ∈ l') :
    m = m' := by
  ext k a
  rw [h.get_iff, h'.get_iff, hmem]

/-! ### Each element under two keys -/

/-- The map holds each element under its outer and then its inner key. -/
structure Nested (outer : α → K) (inner : α → J) (l : List α) (m : FMap K (FMap J α)) : Prop where
  get_iff : ∀ k j a, ((m.get k).bind fun sub => sub.get j) = some a ↔
    a ∈ l ∧ outer a = k ∧ inner a = j
  nonempty : ∀ k sub, m.get k = some sub → ∃ j a, sub.get j = some a

/-- Add an element under its two keys. -/
def addNested (outer : α → K) (inner : α → J) (a : α) (m : FMap K (FMap J α)) :
    FMap K (FMap J α) :=
  m.insert (outer a) (((m.get (outer a)).getD FMap.empty).insert (inner a) a)

variable {outer : α → K} {inner : α → J} {n n' : FMap K (FMap J α)}

omit [DecidableEq K] [DecidableEq J] in
theorem Nested.empty : Nested outer inner [] (FMap.empty : FMap K (FMap J α)) where
  get_iff := by intro k j a; simp
  nonempty := by intro k sub hget; cases hget

theorem Nested.add (h : Nested outer inner l n)
    (hnew : ∀ b ∈ l, outer b = outer a → inner b ≠ inner a) :
    Nested outer inner (l ++ [a]) (addNested outer inner a n) := by
  refine ⟨fun k j b => ?_, fun k sub hget => ?_⟩
  · unfold addNested
    rw [FMap.get_insert, mem_append, mem_singleton]
    by_cases hk : k = outer a
    · subst hk
      rw [if_pos rfl, Option.bind_some, FMap.get_insert]
      by_cases hj : j = inner a
      · subst hj
        rw [if_pos rfl, Option.some.injEq]
        constructor
        · rintro rfl
          exact ⟨.inr rfl, rfl, rfl⟩
        · rintro ⟨hb | rfl, houter, hinner⟩
          · exact absurd hinner (hnew b hb houter)
          · rfl
      -- another inner key: what was there before
      have hold : ((n.get (outer a)).getD FMap.empty).get j =
          (n.get (outer a)).bind fun sub => sub.get j := by
        cases n.get (outer a) <;> rfl
      rw [if_neg hj, hold, h.get_iff]
      constructor
      · rintro ⟨hb, hrest⟩
        exact ⟨.inl hb, hrest⟩
      · rintro ⟨hb | rfl, houter, hinner⟩
        · exact ⟨hb, houter, hinner⟩
        · exact absurd hinner.symm hj
    · rw [if_neg hk, h.get_iff]
      constructor
      · rintro ⟨hb, hrest⟩
        exact ⟨.inl hb, hrest⟩
      · rintro ⟨hb | rfl, houter, hinner⟩
        · exact ⟨hb, houter, hinner⟩
        · exact absurd houter.symm hk
  · unfold addNested at hget
    rw [FMap.get_insert] at hget
    split at hget
    · rw [Option.some.injEq] at hget
      subst hget
      exact ⟨inner a, a, by rw [FMap.get_insert, if_pos rfl]⟩
    · exact h.nonempty k sub hget

omit [DecidableEq K] [DecidableEq J] in
theorem Nested.unique (h : Nested outer inner l n) (h' : Nested outer inner l' n')
    (hmem : ∀ a, a ∈ l ↔ a ∈ l') : n = n' := by
  have hsame : ∀ k j, ((n.get k).bind fun sub => sub.get j) =
      (n'.get k).bind fun sub => sub.get j := by
    intro k j
    ext a
    rw [h.get_iff, h'.get_iff, hmem]
  ext1 k
  -- a submap is there when it has an entry
  cases hk : n.get k with
  | none =>
    cases hk' : n'.get k with
    | none => rfl
    | some sub =>
      obtain ⟨j, a, hget⟩ := h'.nonempty k sub hk'
      have heq := hsame k j
      rw [hk, hk', Option.bind_some, hget] at heq
      cases heq
  | some sub =>
  cases hk' : n'.get k with
  | none =>
    obtain ⟨j, a, hget⟩ := h.nonempty k sub hk
    have heq := hsame k j
    rw [hk, hk', Option.bind_some, hget] at heq
    cases heq
  | some sub' =>
  rw [Option.some.injEq]
  ext1 j
  have heq := hsame k j
  rw [hk, hk'] at heq
  exact heq

/-! ### The element of highest rank under each key -/

/-- The map holds under each key an element of the highest rank among those with the key. -/
structure Best (keyOf : α → Option K) (rank : α → R) (l : List α) (m : FMap K α) : Prop where
  best : ∀ k a, m.get k = some a → a ∈ l ∧ keyOf a = some k ∧
    ∀ b ∈ l, keyOf b = some k → rank b ≤ rank a
  isSome : ∀ k, ∀ a ∈ l, keyOf a = some k → (m.get k).isSome

/-- Add an element under its key if it outranks what is there. -/
def addBest (keyOf : α → Option K) (rank : α → R) (a : α) (m : FMap K α) : FMap K α :=
  match keyOf a with
  | some k => if (m.get k).all fun b => decide (rank b < rank a) then m.insert k a else m
  | none => m

variable {rank : α → R}

omit [DecidableEq K] in
theorem Best.empty : Best keyOf rank [] (FMap.empty : FMap K α) where
  best := by intro k a hget; cases hget
  isSome := by intro k a ha; cases ha

omit [DecidableEq K] in
theorem Best.add_same (h : Best keyOf rank l m)
    (hbeaten : ∀ k, keyOf a = some k → ∃ b, m.get k = some b ∧ rank a ≤ rank b) :
    Best keyOf rank (l ++ [a]) m := by
  refine ⟨fun k b hget => ?_, fun k b hb hk => ?_⟩
  · obtain ⟨hb, hk, hmax⟩ := h.best k b hget
    refine ⟨mem_append_left _ hb, hk, ?_⟩
    intro c hc hkc
    rcases mem_append.mp hc with hc | hc
    · exact hmax c hc hkc
    rw [mem_singleton] at hc
    subst hc
    obtain ⟨b', hb', hle⟩ := hbeaten k hkc
    rw [hget, Option.some.injEq] at hb'
    rw [hb']
    exact hle
  · rcases mem_append.mp hb with hb | hb
    · exact h.isSome k b hb hk
    · rw [mem_singleton] at hb
      subst hb
      obtain ⟨b', hb', -⟩ := hbeaten k hk
      rw [hb']
      rfl

theorem Best.add (h : Best keyOf rank l m) (a : α) :
    Best keyOf rank (l ++ [a]) (addBest keyOf rank a m) := by
  unfold addBest
  cases hkey : keyOf a with
  | none =>
    refine h.add_same fun k hk => ?_
    rw [hkey] at hk
    cases hk
  | some k₀ =>
  dsimp only
  split
  swap
  · next hnot =>
    -- something of at least its rank is there
    refine h.add_same fun k hk => ?_
    rw [hkey, Option.some.injEq] at hk
    subst hk
    cases hget : m.get k₀ with
    | none => simp [hget] at hnot
    | some b =>
      rw [hget, Option.all_some, decide_eq_true_eq, not_lt] at hnot
      exact ⟨b, rfl, hnot⟩
  next hall =>
  have hbeats : ∀ b ∈ l, keyOf b = some k₀ → rank b ≤ rank a := by
    intro b hb hk
    obtain ⟨c, hc⟩ := Option.isSome_iff_exists.mp (h.isSome k₀ b hb hk)
    rw [hc, Option.all_some, decide_eq_true_eq] at hall
    exact ((h.best k₀ c hc).2.2 b hb hk).trans (le_of_lt hall)
  refine ⟨fun k b hget => ?_, fun k b hb hk => ?_⟩
  · rw [FMap.get_insert] at hget
    split at hget
    · next heq =>
      rw [Option.some.injEq] at hget
      subst hget heq
      refine ⟨mem_append_right _ (mem_singleton_self a), hkey, ?_⟩
      intro c hc hkc
      rcases mem_append.mp hc with hc | hc
      · exact hbeats c hc hkc
      · rw [mem_singleton.mp hc]
    next hne =>
    obtain ⟨hb, hk, hmax⟩ := h.best k b hget
    refine ⟨mem_append_left _ hb, hk, ?_⟩
    intro c hc hkc
    rcases mem_append.mp hc with hc | hc
    · exact hmax c hc hkc
    · rw [mem_singleton.mp hc, hkey, Option.some.injEq] at hkc
      exact absurd hkc.symm hne
  · rw [FMap.get_insert]
    split
    · rfl
    next hne =>
    rcases mem_append.mp hb with hb | hb
    · exact h.isSome k b hb hk
    · rw [mem_singleton.mp hb, hkey, Option.some.injEq] at hk
      exact absurd hk.symm hne

omit [DecidableEq K] in
theorem Best.unique (h : Best keyOf rank l m) (h' : Best keyOf rank l' m')
    (hmem : ∀ a, a ∈ l ↔ a ∈ l')
    (hrank : ∀ a ∈ l, ∀ b ∈ l, keyOf a = keyOf b → rank a = rank b → a = b) : m = m' := by
  ext1 k
  cases hk : m.get k with
  | none =>
    cases hk' : m'.get k with
    | none => rfl
    | some b =>
      obtain ⟨hb, hkb, -⟩ := h'.best k b hk'
      have hsome := h.isSome k b ((hmem b).mpr hb) hkb
      rw [hk] at hsome
      cases hsome
  | some a =>
  obtain ⟨ha, hka, hmax⟩ := h.best k a hk
  obtain ⟨b, hk'⟩ := Option.isSome_iff_exists.mp (h'.isSome k a ((hmem a).mp ha) hka)
  obtain ⟨hb, hkb, hmax'⟩ := h'.best k b hk'
  have hsame : rank a = rank b :=
    le_antisymm (hmax' a ((hmem a).mp ha) hka) (hmax b ((hmem b).mpr hb) hkb)
  rw [hk', hrank a ha b ((hmem b).mpr hb) (hka.trans hkb.symm) hsame]

/-! ### The element of highest rank -/

/-- The element is one of the highest rank among those of the list with the property. -/
def Newest (p : α → Prop) (rank : α → R) (l : List α) (a : α) : Prop :=
  a ∈ l ∧ p a ∧ ∀ b ∈ l, p b → rank b ≤ rank a

/-- The option is an element of the highest rank among those with the property, if there are
any. -/
structure Top (p : α → Prop) (rank : α → R) (l : List α) (o : Option α) : Prop where
  newest : ∀ a, o = some a → Newest p rank l a
  isSome : ∀ a ∈ l, p a → o.isSome

/-- Replace what is there by an element with the property that outranks it. -/
def addTop (p : α → Prop) [DecidablePred p] (rank : α → R) (o : Option α) (a : α) : Option α :=
  if p a then if o.all fun b => decide (rank b < rank a) then some a else o else o

section Top

variable {p : α → Prop} {o o' : Option α}

theorem Top.empty : Top p rank [] none where
  newest := by intro a ha; cases ha
  isSome := by intro a ha; cases ha

theorem Top.add [DecidablePred p] (h : Top p rank l o) (a : α) :
    Top p rank (l ++ [a]) (addTop p rank o a) := by
  have hlast : a ∈ l ++ [a] := mem_append_right _ (mem_singleton_self a)
  -- what is there stays if it is not outranked
  have hkeep : (p a → ∃ b, o = some b ∧ rank a ≤ rank b) → Top p rank (l ++ [a]) o := by
    intro hbeaten
    refine ⟨fun b hb => ?_, fun b hb hp => ?_⟩
    · obtain ⟨hmem, hp, hmax⟩ := h.newest b hb
      refine ⟨mem_append_left _ hmem, hp, fun c hc hpc => ?_⟩
      rcases mem_append.mp hc with hc | hc
      · exact hmax c hc hpc
      rw [mem_singleton] at hc
      subst hc
      obtain ⟨b', hb', hle⟩ := hbeaten hpc
      rw [hb, Option.some.injEq] at hb'
      rw [hb']
      exact hle
    · rcases mem_append.mp hb with hb | hb
      · exact h.isSome b hb hp
      · rw [mem_singleton] at hb
        subst hb
        obtain ⟨b', hb', -⟩ := hbeaten hp
        rw [hb']
        rfl
  unfold addTop
  split
  swap
  next hnot => exact hkeep fun hp => absurd hp hnot
  next hp =>
  split
  swap
  · next hnot =>
    refine hkeep fun _ => ?_
    cases o with
    | none => simp at hnot
    | some b =>
      rw [Option.all_some, decide_eq_true_eq, not_lt] at hnot
      exact ⟨b, rfl, hnot⟩
  next hall =>
  refine ⟨fun b hb => ?_, fun _ _ _ => rfl⟩
  rw [Option.some.injEq] at hb
  subst hb
  refine ⟨hlast, hp, fun c hc hpc => ?_⟩
  rcases mem_append.mp hc with hc | hc
  · obtain ⟨b, hb⟩ := Option.isSome_iff_exists.mp (h.isSome c hc hpc)
    rw [hb, Option.all_some, decide_eq_true_eq] at hall
    exact ((h.newest b hb).2.2 c hc hpc).trans (le_of_lt hall)
  · rw [mem_singleton.mp hc]

omit [DecidableEq K] in
theorem Best.top (h : Best keyOf rank l m) (k : K) :
    Top (fun a => keyOf a = some k) rank l (m.get k) where
  newest := fun a ha => h.best k a ha
  isSome := h.isSome k

theorem Top.eq_some_iff (h : Top p rank l o) (hrank : ∀ a ∈ l, ∀ b ∈ l, rank a = rank b → a = b) :
    o = some a ↔ Newest p rank l a := by
  constructor
  · exact h.newest a
  · rintro ⟨ha, hp, hmax⟩
    obtain ⟨b, hb⟩ := Option.isSome_iff_exists.mp (h.isSome a ha hp)
    obtain ⟨hbl, hpb, hmaxb⟩ := h.newest b hb
    rw [hb, hrank b hbl a ha (le_antisymm (hmax b hbl hpb) (hmaxb a ha hp))]

theorem Top.rank_eq (h : Top p rank l o) (h' : Top p rank l' o') (hmem : ∀ a, a ∈ l ↔ a ∈ l') :
    o.map rank = o'.map rank := by
  have hle : ∀ {l₁ l₂ : List α} {o₁ o₂ : Option α}, Top p rank l₁ o₁ → Top p rank l₂ o₂ →
      (∀ a ∈ l₁, a ∈ l₂) → ∀ a, o₁ = some a → ∃ b, o₂ = some b ∧ rank a ≤ rank b := by
    intro l₁ l₂ o₁ o₂ h₁ h₂ hsub a ha
    obtain ⟨hal, hpa, -⟩ := h₁.newest a ha
    obtain ⟨b, hb⟩ := Option.isSome_iff_exists.mp (h₂.isSome a (hsub a hal) hpa)
    exact ⟨b, hb, (h₂.newest b hb).2.2 a (hsub a hal) hpa⟩
  have hto := hle h h' fun a => (hmem a).mp
  have hfrom := hle h' h fun a => (hmem a).mpr
  cases o with
  | none =>
    cases o' with
    | none => rfl
    | some b =>
      obtain ⟨a, ha, -⟩ := hfrom b rfl
      cases ha
  | some a =>
    obtain ⟨b, rfl, hab⟩ := hto a rfl
    obtain ⟨a', ha', hba⟩ := hfrom b rfl
    obtain rfl := Option.some.inj ha'
    exact congrArg some (le_antisymm hab hba)

/-- **Part of a list has the same top if and only if the top of the whole is in it.** -/
theorem Top.eq_iff_mem (h : Top p rank l o) (h' : Top p rank l' o') (hsub : l' ⊆ l)
    (hrank : ∀ a ∈ l, ∀ b ∈ l, rank a = rank b → a = b) :
    o' = o ↔ ∀ a, Newest p rank l a → a ∈ l' := by
  have hrank' : ∀ a ∈ l', ∀ b ∈ l', rank a = rank b → a = b :=
    fun a ha b hb => hrank a (hsub ha) b (hsub hb)
  constructor
  · rintro rfl a ha
    exact (h'.newest a ((h.eq_some_iff hrank).mpr ha)).1
  intro hall
  ext a
  constructor
  · intro ha
    -- the whole has a top, and it is in the part
    obtain ⟨hmem, hp, hmax⟩ := h'.newest a ha
    obtain ⟨b, hb⟩ := Option.isSome_iff_exists.mp (h.isSome a (hsub hmem) hp)
    have hbl := h.newest b hb
    have hle := hmax b (hall b hbl) hbl.2.1
    rw [hb, hrank b hbl.1 a (hsub hmem) (le_antisymm hle (hbl.2.2 a (hsub hmem) hp))]
  · intro ha
    have hnewest := h.newest a ha
    refine (h'.eq_some_iff hrank').mpr ⟨hall a hnewest, hnewest.2.1, ?_⟩
    exact fun b hb => hnewest.2.2 b (hsub hb)

end Top

/-! ### The values that any element gives for a key -/

/-- The map holds under each key the values that some element gives for it. -/
structure Grouped (pairsOf : α → List (K × V)) (l : List α) (m : FMap K (Finset V)) : Prop where
  mem_iff : ∀ k v, (∃ s, m.get k = some s ∧ v ∈ s) ↔ ∃ a ∈ l, (k, v) ∈ pairsOf a
  nonempty : ∀ k s, m.get k = some s → s.Nonempty

/-- Add one value under a key. -/
def addValue (m : FMap K (Finset V)) (pair : K × V) : FMap K (Finset V) :=
  m.insert pair.1 (insert pair.2 ((m.get pair.1).getD ∅))

variable {pairsOf : α → List (K × V)} {g g' : FMap K (Finset V)}

omit [DecidableEq K] [DecidableEq V] in
theorem Grouped.empty : Grouped pairsOf [] (FMap.empty : FMap K (Finset V)) where
  mem_iff := by intro k v; simp
  nonempty := by intro k s hget; cases hget

theorem mem_addValue (g : FMap K (Finset V)) (pair : K × V) (k : K) (v : V) :
    (∃ s, (addValue g pair).get k = some s ∧ v ∈ s) ↔
      (∃ s, g.get k = some s ∧ v ∈ s) ∨ (k, v) = pair := by
  obtain ⟨k₀, v₀⟩ := pair
  unfold addValue
  by_cases hk : k = k₀
  · subst hk
    cases hget : g.get k with
    | none => simp
    | some s => simp [or_comm]
  · simp [hk]

theorem mem_foldl_addValue (pairs : List (K × V)) (g : FMap K (Finset V)) (k : K) (v : V) :
    (∃ s, (pairs.foldl addValue g).get k = some s ∧ v ∈ s) ↔
      (∃ s, g.get k = some s ∧ v ∈ s) ∨ (k, v) ∈ pairs := by
  induction pairs generalizing g with
  | nil => simp
  | cons pair pairs ih =>
    rw [foldl_cons, ih, mem_addValue, mem_cons, or_assoc]

theorem nonempty_foldl_addValue (pairs : List (K × V)) {g : FMap K (Finset V)}
    (hg : ∀ k s, g.get k = some s → s.Nonempty) :
    ∀ k s, (pairs.foldl addValue g).get k = some s → s.Nonempty := by
  induction pairs generalizing g with
  | nil => exact hg
  | cons pair pairs ih =>
  refine ih ?_
  intro k s hget
  unfold addValue at hget
  rw [FMap.get_insert] at hget
  split at hget
  · rw [Option.some.injEq] at hget
    rw [← hget]
    exact Finset.insert_nonempty _ _
  · exact hg k s hget

theorem Grouped.add (h : Grouped pairsOf l g) (a : α) :
    Grouped pairsOf (l ++ [a]) ((pairsOf a).foldl addValue g) := by
  refine ⟨fun k v => ?_, nonempty_foldl_addValue _ h.nonempty⟩
  rw [mem_foldl_addValue, h.mem_iff]
  constructor
  · rintro (⟨b, hb, hpair⟩ | hpair)
    · exact ⟨b, mem_append_left _ hb, hpair⟩
    · exact ⟨a, mem_append_right _ (mem_singleton_self a), hpair⟩
  rintro ⟨b, hb, hpair⟩
  rcases mem_append.mp hb with hb | hb
  · exact .inl ⟨b, hb, hpair⟩
  · rw [mem_singleton] at hb
    subst hb
    exact .inr hpair

omit [DecidableEq K] [DecidableEq V] in
theorem Grouped.unique (h : Grouped pairsOf l g) (h' : Grouped pairsOf l' g')
    (hmem : ∀ a, a ∈ l ↔ a ∈ l') : g = g' := by
  have hsame : ∀ k v, (∃ s, g.get k = some s ∧ v ∈ s) ↔ ∃ s, g'.get k = some s ∧ v ∈ s := by
    intro k v
    rw [h.mem_iff, h'.mem_iff]
    exact exists_congr fun a => and_congr_left fun _ => hmem a
  ext1 k
  cases hk : g.get k with
  | none =>
    cases hk' : g'.get k with
    | none => rfl
    | some s =>
      obtain ⟨v, hv⟩ := h'.nonempty k s hk'
      obtain ⟨s', hs', -⟩ := (hsame k v).mpr ⟨s, hk', hv⟩
      rw [hk] at hs'
      cases hs'
  | some s =>
  obtain ⟨v, hv⟩ := h.nonempty k s hk
  obtain ⟨s', hk', -⟩ := (hsame k v).mp ⟨s, hk, hv⟩
  rw [hk', Option.some.injEq]
  ext w
  have hw := hsame k w
  simp only [hk, hk', Option.some.injEq, exists_eq_left'] at hw
  exact hw

end Indexes
end Lib
