import Conest.Group.Codec

/-!
# Frozen values

A payload is frozen when its event is signed and again when the event is read. Freezing sorts the keys
of an object and leaves everything else as it is: a frozen object is a permutation of its frozen
entries (`freeze_perm`), so a field is found under its key (`freeze_fieldAt`), and what is frozen stays
as it is (`freeze_frozen`).
-/

namespace Conest
namespace Group

open Lib List

/-- Whether a map has a key. -/
def containsKey (payload : List (DartString × Json)) (key : String) : Bool :=
  payload.any fun entry => entry.1 == DartString.ofString key

/-! ### Frozen objects -/

theorem insertEntry_perm {V : Type} {key : DartString} (value : V)
    {sorted : List (DartString × V)} (hnew : key ∉ sorted.map Prod.fst) :
    (insertEntry key value sorted).Perm ((key, value) :: sorted) := by
  induction sorted with
  | nil => exact List.Perm.refl _
  | cons entry sorted ih =>
  rw [map_cons, mem_cons, not_or] at hnew
  rw [insertEntry]
  split
  · exact List.Perm.refl _
  · rw [if_neg hnew.1]
    exact ((ih hnew.2).cons _).trans (List.Perm.swap _ _ _)

theorem sortByKey_perm {V : Type} {entries : List (DartString × V)}
    (hnodup : (entries.map Prod.fst).Nodup) : (sortByKey entries).Perm entries := by
  induction entries using reverseRecOn with
  | nil => exact List.Perm.refl _
  | append_singleton entries entry ih =>
  rw [map_append, nodup_append] at hnodup
  have hperm := ih hnodup.1
  have hnew : entry.1 ∉ (sortByKey entries).map Prod.fst := fun hmem =>
    hnodup.2.2 entry.1 ((hperm.map Prod.fst).mem_iff.mp hmem) entry.1
      (mem_singleton_self _) rfl
  have hstep : sortByKey (entries ++ [entry]) = insertEntry entry.1 entry.2 (sortByKey entries) := by
    unfold sortByKey
    rw [foldl_append, foldl_cons, foldl_nil]
  rw [hstep]
  refine (insertEntry_perm entry.2 hnew).trans ((hperm.cons _).trans ?_)
  exact (perm_append_singleton entry entries).symm

theorem freezeEntries_eq_map (entries : List (DartString × Json)) (depth : ℕ) :
    freezeEntries entries depth = entries.map fun entry => (entry.1, freeze entry.2 depth) := by
  induction entries with
  | nil => rfl
  | cons entry entries ih => rw [freezeEntries, ih, map_cons]

theorem eq_succeeded_of_collect {entries : List (DartString × Except String Json)}
    {values : List (DartString × Json)} (hok : collect entries = .ok values) :
    entries = succeeded values := by
  induction entries generalizing values with
  | nil =>
    cases hok
    rfl
  | cons entry entries ih =>
  obtain ⟨key, value⟩ := entry
  cases value with
  | error e => cases hok
  | ok value =>
  rw [collect] at hok
  cases hrest : collect entries with
  | error e => rw [hrest] at hok; cases hok
  | ok rest =>
    rw [hrest] at hok
    cases hok
    rw [ih hrest]
    rfl

section Frozen

variable {entries frozen : List (DartString × Json)} {depth : ℕ}

section

variable (hnodup : (entries.map Prod.fst).Nodup)
  (hok : freeze (.obj entries) depth = .ok (.obj frozen))

include hnodup hok

theorem freeze_perm :
    (succeeded frozen).Perm (entries.map fun entry => (entry.1, freeze entry.2 (depth + 1))) := by
  unfold freeze at hok
  split at hok
  · cases hok
  dsimp only at hok
  cases hcollect : collect (sortByKey (freezeEntries entries (depth + 1))) with
  | error e => rw [hcollect] at hok; cases hok
  | ok values =>
  rw [hcollect] at hok
  cases hok
  rw [← eq_succeeded_of_collect hcollect, ← freezeEntries_eq_map]
  apply sortByKey_perm
  rw [freezeEntries_eq_map, map_map]
  exact hnodup

theorem freeze_keys : (frozen.map Prod.fst).Perm (entries.map Prod.fst) := by
  have hperm := (freeze_perm hnodup hok).map Prod.fst
  rw [succeeded, map_map, map_map] at hperm
  exact hperm

end

theorem fieldAt_eq_of_mem (hnodup : (frozen.map Prod.fst).Nodup) {key : String} {value : Json}
    (hmem : (DartString.ofString key, value) ∈ frozen) : fieldAt frozen key = value := by
  obtain ⟨before, after, rfl⟩ := append_of_mem hmem
  have hfind : ((before ++ (DartString.ofString key, value) :: after).find? fun entry =>
      entry.1 == DartString.ofString key) = some (DartString.ofString key, value) := by
    rw [find?_eq_some_iff_append]
    refine ⟨beq_self_eq_true _, before, after, rfl, fun entry hentry => ?_⟩
    rw [map_append, nodup_append] at hnodup
    rw [Bool.not_eq_true', beq_eq_false_iff_ne]
    exact hnodup.2.2 entry.1 (mem_map_of_mem hentry) _ mem_cons_self
  unfold fieldAt
  rw [hfind]
  rfl

theorem freeze_fieldAt (hnodup : (entries.map Prod.fst).Nodup)
    (hok : freeze (.obj entries) depth = .ok (.obj frozen)) {key : String} {value : Json}
    (hmem : (DartString.ofString key, value) ∈ entries) :
    freeze value (depth + 1) = .ok (fieldAt frozen key) := by
  have hin : (DartString.ofString key, freeze value (depth + 1)) ∈ succeeded frozen :=
    (freeze_perm hnodup hok).mem_iff.mpr (mem_map.mpr ⟨_, hmem, rfl⟩)
  obtain ⟨⟨k, v⟩, hfrozen, heq⟩ := mem_map.mp hin
  rw [Prod.mk.injEq] at heq
  obtain ⟨rfl, hvalue⟩ := heq
  have hkeys := ((freeze_keys hnodup hok).nodup_iff).mpr hnodup
  rw [fieldAt_eq_of_mem hkeys hfrozen]
  exact hvalue.symm

theorem containsKey_eq_true {l : List (DartString × Json)} {key : String} :
    containsKey l key = true ↔ DartString.ofString key ∈ l.map Prod.fst := by
  unfold containsKey
  rw [any_eq_true, mem_map]
  simp only [beq_iff_eq]

theorem freeze_containsKey (hnodup : (entries.map Prod.fst).Nodup)
    (hok : freeze (.obj entries) depth = .ok (.obj frozen)) (key : String) :
    containsKey frozen key = containsKey entries key := by
  rw [Bool.eq_iff_iff, containsKey_eq_true, containsKey_eq_true,
    (freeze_keys hnodup hok).mem_iff]

end Frozen

section

variable {V : Type}

theorem insertEntry_append {key : DartString} (value : V) {sorted : List (DartString × V)}
    (hlast : ∀ entry ∈ sorted, entry.1 < key) :
    insertEntry key value sorted = sorted ++ [(key, value)] := by
  induction sorted with
  | nil => rfl
  | cons entry sorted ih =>
    have hlt := hlast entry mem_cons_self
    rw [insertEntry, if_neg (not_lt_of_gt hlt), if_neg (ne_of_gt hlt),
      ih fun e he => hlast e (mem_cons_of_mem _ he), cons_append]

theorem sortByKey_of_sorted {entries : List (DartString × V)}
    (hsorted : entries.Pairwise fun a b => a.1 < b.1) : sortByKey entries = entries := by
  induction entries using reverseRecOn with
  | nil => rfl
  | append_singleton entries entry ih =>
  obtain ⟨hfront, -, hlast⟩ := pairwise_append.mp hsorted
  have hstep : sortByKey (entries ++ [entry]) = insertEntry entry.1 entry.2 (sortByKey entries) := by
    unfold sortByKey
    rw [foldl_append, foldl_cons, foldl_nil]
  rw [hstep, ih hfront]
  exact insertEntry_append entry.2 fun e he => hlast e he entry (mem_singleton_self _)

theorem insertEntry_keys_sorted (key : DartString) (value : V) {sorted : List (DartString × V)}
    (hsorted : sorted.Pairwise fun a b => a.1 < b.1) :
    (insertEntry key value sorted).Pairwise (fun a b => a.1 < b.1) ∧
      ∀ e ∈ insertEntry key value sorted, e.1 = key ∨ e.1 ∈ sorted.map Prod.fst := by
  induction sorted with
  | nil =>
    refine ⟨pairwise_singleton _ _, fun e he => .inl ?_⟩
    rw [mem_singleton.mp he]
  | cons entry sorted ih =>
  obtain ⟨hhead, htail⟩ := pairwise_cons.mp hsorted
  rw [insertEntry]
  split
  · next hlt =>
    refine ⟨pairwise_cons.mpr ⟨fun e he => ?_, hsorted⟩, fun e he => ?_⟩
    · rcases mem_cons.mp he with rfl | he
      · exact hlt
      · exact hlt.trans (hhead e he)
    · rcases mem_cons.mp he with rfl | he
      · exact .inl rfl
      · exact .inr (mem_map_of_mem he)
  split
  · next heq =>
    refine ⟨pairwise_cons.mpr ⟨fun e he => ?_, htail⟩, fun e he => ?_⟩
    · rw [heq]
      exact hhead e he
    · rcases mem_cons.mp he with rfl | he
      · exact .inl rfl
      · exact .inr (mem_map_of_mem (mem_cons_of_mem _ he))
  next hge hne =>
  obtain ⟨hsorted', hmem⟩ := ih htail
  refine ⟨pairwise_cons.mpr ⟨fun e he => ?_, hsorted'⟩, fun e he => ?_⟩
  · rcases hmem e he with hkey | hin
    · rw [hkey]
      exact lt_of_le_of_ne (not_lt.mp hge) (Ne.symm hne)
    · obtain ⟨e', he', heq⟩ := mem_map.mp hin
      rw [← heq]
      exact hhead e' he'
  · rcases mem_cons.mp he with rfl | he
    · exact .inr mem_cons_self
    · exact (hmem e he).imp_right (mem_cons_of_mem _)

theorem sortByKey_sorted (entries : List (DartString × V)) :
    (sortByKey entries).Pairwise fun a b => a.1 < b.1 := by
  induction entries using reverseRecOn with
  | nil => exact List.Pairwise.nil
  | append_singleton entries entry ih =>
    unfold sortByKey at ih ⊢
    rw [foldl_append, foldl_cons]
    exact (insertEntry_keys_sorted entry.1 entry.2 ih).1

theorem mem_of_mem_insertEntry {key : DartString} {value : V} {sorted : List (DartString × V)}
    {entry : DartString × V} (hmem : entry ∈ insertEntry key value sorted) :
    entry = (key, value) ∨ entry ∈ sorted := by
  induction sorted with
  | nil => exact .inl (mem_singleton.mp hmem)
  | cons head sorted ih =>
  rw [insertEntry] at hmem
  split at hmem
  · exact mem_cons.mp hmem
  split at hmem
  · exact (mem_cons.mp hmem).imp_right (mem_cons_of_mem _)
  · rcases mem_cons.mp hmem with rfl | hmem
    · exact .inr mem_cons_self
    · exact (ih hmem).imp_right (mem_cons_of_mem _)

theorem mem_of_mem_sortByKey {entries : List (DartString × V)} {entry : DartString × V}
    (hmem : entry ∈ sortByKey entries) : entry ∈ entries := by
  induction entries using reverseRecOn with
  | nil => exact hmem
  | append_singleton entries last ih =>
  unfold sortByKey at ih hmem
  rw [foldl_append, foldl_cons] at hmem
  rcases mem_of_mem_insertEntry hmem with rfl | hmem
  · exact mem_append_right _ (mem_singleton_self _)
  · exact mem_append_left _ (ih hmem)

end

mutual

theorem freeze_frozen (value : Json) (depth : ℕ) {frozen : Json}
    (hok : freeze value depth = .ok frozen) : freeze frozen depth = .ok frozen := by
  unfold freeze at hok
  split at hok
  · cases hok
  next hdepth =>
  match value with
  | .null | .bool b | .str s =>
    cases hok
    unfold freeze
    rw [if_neg hdepth]
  | .int n =>
    dsimp only at hok
    split at hok
    · next hbound =>
      cases hok
      unfold freeze
      rw [if_neg hdepth]
      exact if_pos hbound
    · cases hok
  | .list elements =>
    dsimp only at hok
    cases hlist : freezeList elements (depth + 1) with
    | error e => rw [hlist] at hok; cases hok
    | ok values =>
    rw [hlist] at hok
    cases hok
    unfold freeze
    rw [if_neg hdepth]
    dsimp only
    rw [freezeList_frozen elements (depth + 1) hlist]
    rfl
  | .obj entries =>
    dsimp only at hok
    cases hcollect : collect (sortByKey (freezeEntries entries (depth + 1))) with
    | error e => rw [hcollect] at hok; cases hok
    | ok values =>
    rw [hcollect] at hok
    cases hok
    have hvalues := eq_succeeded_of_collect hcollect
    have hfrozen : freezeEntries values (depth + 1) = succeeded values := by
      rw [freezeEntries_eq_map]
      refine map_congr_left fun entry hentry => Prod.ext rfl ?_
      have hin : (entry.1, Except.ok entry.2) ∈ succeeded values :=
        mem_map.mpr ⟨entry, hentry, rfl⟩
      rw [← hvalues] at hin
      exact freezeEntries_frozen entries (depth + 1) (mem_of_mem_sortByKey hin) rfl
    have hsorted := sortByKey_sorted (freezeEntries entries (depth + 1))
    rw [hvalues] at hsorted
    unfold freeze
    rw [if_neg hdepth]
    dsimp only
    rw [hfrozen, sortByKey_of_sorted hsorted, collect_succeeded]
    rfl

theorem freezeList_frozen (elements : List Json) (depth : ℕ) {frozen : List Json}
    (hok : freezeList elements depth = .ok frozen) : freezeList frozen depth = .ok frozen := by
  match elements with
  | [] =>
    cases hok
    rfl
  | value :: rest =>
    unfold freezeList at hok
    cases hvalue : freeze value depth with
    | error e => rw [hvalue] at hok; cases hok
    | ok v =>
    cases hrest : freezeList rest depth with
    | error e => rw [hvalue, hrest] at hok; cases hok
    | ok vs =>
    rw [hvalue, hrest] at hok
    cases hok
    unfold freezeList
    rw [freeze_frozen value depth hvalue, freezeList_frozen rest depth hrest]
    rfl

theorem freezeEntries_frozen (entries : List (DartString × Json)) (depth : ℕ)
    {entry : DartString × Except String Json} (hmem : entry ∈ freezeEntries entries depth)
    {frozen : Json} (hok : entry.2 = .ok frozen) : freeze frozen depth = .ok frozen := by
  match entries with
  | [] => cases hmem
  | (key, value) :: rest =>
    unfold freezeEntries at hmem
    rcases mem_cons.mp hmem with rfl | hmem
    · exact freeze_frozen value depth hok
    · exact freezeEntries_frozen rest depth hmem hok

end

/-! ### Values that freezing leaves alone -/

theorem freeze_str_eq {s : DartString} {depth : ℕ} {frozen : Json}
    (hok : freeze (.str s) depth = .ok frozen) : frozen = .str s := by
  unfold freeze at hok
  split at hok
  · cases hok
  · exact (Except.ok.inj hok).symm

theorem freeze_int_eq {n : ℤ} {depth : ℕ} {frozen : Json}
    (hok : freeze (.int n) depth = .ok frozen) : frozen = .int n := by
  unfold freeze at hok
  split at hok
  · cases hok
  dsimp only at hok
  split at hok
  · exact (Except.ok.inj hok).symm
  · cases hok

theorem freezeList_eq {elements frozen : List Json} {depth : ℕ}
    (hplain : ∀ value ∈ elements, ∀ frozen, freeze value depth = .ok frozen → frozen = value)
    (hok : freezeList elements depth = .ok frozen) : frozen = elements := by
  induction elements generalizing frozen with
  | nil =>
    cases hok
    rfl
  | cons value rest ih =>
  unfold freezeList at hok
  cases hvalue : freeze value depth with
  | error e => rw [hvalue] at hok; cases hok
  | ok v =>
  cases hrest : freezeList rest depth with
  | error e => rw [hvalue, hrest] at hok; cases hok
  | ok vs =>
    rw [hvalue, hrest] at hok
    cases hok
    rw [hplain value mem_cons_self v hvalue,
      ih (fun value hmem => hplain value (mem_cons_of_mem _ hmem)) hrest]

theorem freeze_list_eq {elements : List Json} {depth : ℕ} {frozen : Json}
    (hplain : ∀ value ∈ elements, ∀ frozen,
      freeze value (depth + 1) = .ok frozen → frozen = value)
    (hok : freeze (.list elements) depth = .ok frozen) : frozen = .list elements := by
  unfold freeze at hok
  split at hok
  · cases hok
  dsimp only at hok
  cases hlist : freezeList elements (depth + 1) with
  | error e => rw [hlist] at hok; cases hok
  | ok values =>
    rw [hlist] at hok
    cases hok
    rw [freezeList_eq hplain hlist]

theorem freeze_strings_eq {strings : List DartString} {depth : ℕ} {frozen : Json}
    (hok : freeze (.list (strings.map Json.str)) depth = .ok frozen) :
    frozen = .list (strings.map Json.str) := by
  refine freeze_list_eq (fun value hmem frozen hvalue => ?_) hok
  obtain ⟨s, -, rfl⟩ := mem_map.mp hmem
  exact freeze_str_eq hvalue

theorem freeze_ints_eq {ints : List ℤ} {depth : ℕ} {frozen : Json}
    (hok : freeze (.list (ints.map Json.int)) depth = .ok frozen) :
    frozen = .list (ints.map Json.int) := by
  refine freeze_list_eq (fun value hmem frozen hvalue => ?_) hok
  obtain ⟨n, -, rfl⟩ := mem_map.mp hmem
  exact freeze_int_eq hvalue

end Group
end Conest
