import Conest.Updater.Sync

/-!
# The copy is the source

What a run that gets to its end leaves: the source's paths, kinds and contents, whatever was there
before. So it does not matter how many attempts were broken off, and where.

Copying makes the destination cover the source (`Covers`): what the source has is there. A copied
file goes through a temporary name, which is none of the source's, so it does not disturb what has
been copied. Removing keeps the cover and settles one name after the other (`Settled`); when all are
settled, the trees are the same (`SameTree`).
-/

namespace Conest
namespace Updater

open Lib Lib.Program List Option

/-! ### Entries -/

namespace Entries

@[simp] theorem lookup_put_self (name : Name) (node : Node) (d : Entries) :
    (put name node d).lookup name = some node := by
  simp [put]

section

variable {name other : Name} (h : other ≠ name)

include h

theorem lookup_filter_of_ne (d : Entries) :
    (d.filter fun entry => entry.1 != name).lookup other = d.lookup other := by
  induction d with
  | nil => rfl
  | cons entry d ih =>
  obtain ⟨key, node⟩ := entry
  by_cases hkey : key = name
  · subst hkey
    have hother : (other == key) = false := by simpa using h
    simp [lookup, ih, hother]
  · simp [hkey, lookup, ih]

theorem lookup_put_of_ne (node : Node) (d : Entries) :
    (put name node d).lookup other = d.lookup other := by
  have hother : (other == name) = false := by simpa using h
  simp only [put, lookup, hother]
  exact lookup_filter_of_ne h d

theorem lookup_remove_of_ne (d : Entries) : (remove name d).lookup other = d.lookup other :=
  lookup_filter_of_ne h d

end

@[simp] theorem lookup_remove_self (name : Name) (d : Entries) :
    (remove name d).lookup name = none := by
  rw [lookup_eq_none_iff]
  intro entry hentry
  simpa [ne_comm] using (mem_filter.mp hentry).2

section

variable {name : Name}

theorem lookup_eq_none_of_not_mem {d : Entries} (h : name ∉ d.map Prod.fst) :
    d.lookup name = none := by
  rw [lookup_eq_none_iff]
  intro entry hentry
  have hne : name ≠ entry.1 := fun heq => h (heq ▸ mem_map_of_mem hentry)
  simpa using hne

theorem mem_of_lookup {node : Node} {d : Entries} (h : d.lookup name = some node) :
    (name, node) ∈ d := by
  induction d with
  | nil => cases h
  | cons entry d ih =>
  obtain ⟨key, there⟩ := entry
  by_cases hkey : name = key
  · subst hkey
    simp only [lookup_cons_self, some.injEq] at h
    exact h ▸ mem_cons_self
  · have hother : (name == key) = false := by simpa using hkey
    simp only [lookup, hother] at h
    exact mem_cons_of_mem _ (ih h)

theorem lookup_of_subdirectory {d entries : Entries} (h : subdirectory name d = some entries) :
    d.lookup name = some (.dir entries) := by
  unfold subdirectory at h
  split at h
  next found heq => rw [heq, some.inj h]
  · cases h

end

end Entries

/-! ### What a step touches -/

/-- Only names with `p` change. -/
def Keeps (p : Name → Prop) (d d' : Entries) : Prop :=
  ∀ other, ¬p other → d'.lookup other = d.lookup other

/-- All other names stay as they are. -/
abbrev SameBut (name : Name) : Entries → Entries → Prop := Keeps (· = name)

def Touches {α : Type} (name : Name) (m : Prog α) : Prop :=
  ∀ d, Ensures (fun s => s = d) m fun _ => SameBut name d

theorem keeps_of_eq {p : Name → Prop} {d s : Entries} (h : s = d) : Keeps p d s :=
  fun _ _ => h ▸ rfl

theorem Keeps.step {p q : Name → Prop} {d d' d'' : Entries} (h : Keeps p d d')
    (hsub : ∀ other, q other → p other) (h' : Keeps q d' d'') : Keeps p d d'' :=
  fun other hother => (h' other fun hq => hother (hsub other hq)).trans (h other hother)

theorem sameBut_put (name : Name) (node : Node) (d : Entries) :
    SameBut name d (Entries.put name node d) := fun _ hother =>
  Entries.lookup_put_of_ne hother node d

section
variable {α β : Type} {name : Name}

section

variable {m : Prog α}

theorem Touches.keeps (h : Touches name m) {pre : Entries → Prop}
    (hpre : ∀ d d', SameBut name d d' → pre d → pre d') : Ensures pre m fun _ => pre :=
  Ensures.of_start fun d hd => (h d).weaken (fun _ heq => heq) fun _ d' hsame => hpre d d' hsame hd

theorem Touches.bind {k : α → Prog β} (hm : Touches name m) (hk : ∀ value, Touches name (k value)) :
    Touches name (m >>= k) := fun d =>
  (hm d).bind fun value => (hk value).keeps fun _ _ hsame hd => hd.step (fun _ h => h) hsame

theorem touches_of_same (h : ∀ d, Ensures (fun s => s = d) m fun _ s => s = d) :
    Touches name m := fun d =>
  (h d).weaken (fun _ heq => heq) fun _ _ heq => keeps_of_eq heq

end

section

variable (f : Option Node → Option (Option Node))

include f

theorem change_spec (d : Entries) : Ensures (fun s => s = d) (change name f) fun _ d' =>
      f (d.lookup name) = some (d'.lookup name) ∧ SameBut name d d' := by
  refine ensures_step fun s s' heq h => ?_
  subst heq
  obtain ⟨entry, hentry, rfl⟩ := map_eq_some_iff.mp h
  cases entry with
  | some node => exact ⟨by simp [hentry], sameBut_put name node s⟩
  | none =>
    exact ⟨by simp [hentry], fun _ hother => Entries.lookup_remove_of_ne hother s⟩

theorem touches_change : Touches name (change name f) :=
  fun d => (change_spec f d).weaken (fun _ heq => heq) fun _ _ h => h.2

end

theorem touches_inDirectory (m : Prog α) : Touches name (inDirectory name m) := fun d =>
  ensures_within (fun _ _ => True) fun _ _ heq _ =>
    ⟨ensures_true, fun _ entries _ => heq ▸ sameBut_put name (.dir entries) d⟩

end

theorem touches_removeTree (name : Name) (node : Node) : Touches name (removeTree name node) := by
  cases node with
  | file content =>
    rw [removeTree]
    exact touches_change _
  | dir entries =>
    exact (touches_of_same fun _ => ensures_attempt).bind fun _ =>
      (touches_inDirectory _).bind fun _ => touches_change _

theorem touches_removeDirAll (name : Name) : Touches name (removeDirAll name) := by
  refine (touches_of_same fun _ => ensures_look fun _ h => h).bind fun found => ?_
  split
  · exact touches_removeTree name _
  · exact fun _ => ensures_fail

theorem touches_removePath (name : Name) : Touches name (removePath name) := by
  refine (touches_of_same fun _ => ensures_asked).bind fun directory => ?_
  split
  · exact touches_removeDirAll name
  · exact touches_change _

/-! ### Copying one file -/

/-- `.updating` -/
def updatingSuffix : Name := [46, 117, 112, 100, 97, 116, 105, 110, 103]

def IsUpdating (name : Name) : Prop := updatingSuffix <:+ name

instance (name : Name) : Decidable (IsUpdating name) :=
  inferInstanceAs (Decidable (updatingSuffix <:+ name))

theorem isUpdating_tempName (toStringLossy : Name → Name) (name : Name) :
    IsUpdating (tempName toStringLossy name) :=
  suffix_append ([46] ++ toStringLossy name) updatingSuffix

/-- All names but one and the temporary ones stay as they are. -/
abbrev Off (name : Name) : Entries → Entries → Prop :=
  Keeps fun other => other = name ∨ IsUpdating other

theorem Off.own {name : Name} {d d' d'' : Entries} (h : Off name d d')
    (h' : SameBut name d' d'') : Off name d d'' := h.step (fun _ => .inl) h'

theorem Off.temp {name temp : Name} {d d' d'' : Entries} (htemp : IsUpdating temp)
    (h : Off name d d') (h' : SameBut temp d' d'') : Off name d d'' :=
  h.step (fun other (heq : other = temp) => .inr (heq ▸ htemp)) h'

theorem touches_copy (content : Bytes) (name : Name) : Touches name (copy content name) := by
  refine (touches_change _).bind fun _ d => ?_
  refine (ensures_forM (fun _ => SameBut name d) content fun byte _ _ =>
    (touches_change _).keeps fun _ _ hsame hd => hd.step (fun _ h => h) hsame).weaken ?_ fun _ _ h => h
  exact fun _ heq => keeps_of_eq heq

theorem copy_spec (content : Bytes) (name : Name) {pre : Entries → Prop} :
    Ensures pre (copy content name) fun _ d => d.lookup name = some (.file content) := by
  let written (rest : Bytes) (d : Entries) : Prop :=
    ∃ done, done ++ rest = content ∧ d.lookup name = some (.file done)
  have htruncate : Ensures pre (truncate name) fun _ => written content := by
    refine Ensures.of_start fun d _ => (change_spec _ d).weaken (fun _ h => h) ?_
    rintro _ d' ⟨h, -⟩
    split at h
    · cases h
    · exact ⟨[], rfl, (some.inj h).symm⟩
  have hround : ∀ byte rest, byte :: rest <:+ content →
      Ensures (written (byte :: rest)) (append name byte) fun _ => written rest := by
    intro byte rest _
    refine Ensures.of_start ?_
    rintro d ⟨done, hcontent, hd⟩
    refine (change_spec _ d).weaken (fun _ h => h) ?_
    rintro _ d' ⟨h, -⟩
    rw [hd] at h
    exact ⟨done ++ [byte], by simpa using hcontent, (some.inj h).symm⟩
  refine htruncate.bind fun _ => (ensures_forM written content hround).weaken (fun _ h => h) ?_
  rintro _ d ⟨done, hcontent, hd⟩
  rw [append_nil] at hcontent
  rw [hd, hcontent]

theorem rename_spec {name temp : Name} {node : Node} {d : Entries} (htemp : IsUpdating temp) :
    Ensures (fun s => s.lookup temp = some node ∧ Off name d s) (rename temp name) fun _ s =>
      s.lookup name = some node ∧ Off name d s := by
  refine ensures_step ?_
  rintro s s' ⟨hs, hoff⟩ h
  have hput : s' = Entries.put name node (Entries.remove temp s) := by
    rw [hs] at h
    split at h
    · cases h
    · next there heq _ =>
      rw [← some.inj heq] at h
      exact (some.inj h).symm
    · cases h
  subst hput
  refine ⟨Entries.lookup_put_self name node _, ?_⟩
  have hremoved : SameBut temp s (Entries.remove temp s) := fun _ hother =>
    Entries.lookup_remove_of_ne hother s
  exact (hoff.temp htemp hremoved).own (sameBut_put name node _)

theorem copyFile_spec (toStringLossy : Name → Name) (content : Bytes) {name : Name}
    (hname : ¬IsUpdating name) (d : Entries) :
    Ensures (Off name d) (copyFile toStringLossy content name) fun _ s =>
      s.lookup name = some (.file content) ∧ Off name d s := by
  have htemp := isUpdating_tempName toStringLossy name
  generalize hgiven : tempName toStringLossy name = temp at htemp
  have hne : temp ≠ name := fun heq => hname (heq ▸ htemp)
  have hcopied : Ensures (Off name d) (copy content temp) fun _ s =>
      s.lookup temp = some (.file content) ∧ Off name d s :=
    (copy_spec content temp).and ((touches_copy content temp).keeps
      fun _ _ hsame hoff => hoff.temp htemp hsame)
  unfold copyFile
  rw [hgiven]
  refine ensures_attempt.bind fun _ => ensures_asked.bind fun _ => ?_
  refine ensures_when (fun _ => (touches_removeDirAll name).keeps fun _ _ hsame hoff =>
    hoff.own hsame) (fun _ _ hs => hs) (ensures_asked.bind fun _ => ?_)
  refine ensures_when (fun _ => (touches_removePath temp).keeps fun _ _ hsame hoff =>
    hoff.temp htemp hsame) (fun _ _ hs => hs) (hcopied.bind fun _ => ?_)
  refine ensures_attempt.bind fun _ => ensures_asked.bind fun _ => ?_
  -- removing the old file leaves the new one, which is under another name
  refine ensures_when (fun _ => (touches_removePath name).keeps fun _ _ hsame hs =>
    ⟨(hsame temp hne).trans hs.1, hs.2.own hsame⟩) (fun _ _ hs => hs) ?_
  exact rename_spec htemp

/-! ### Copying all -/

mutual

/-- What is staged is there. -/
def Covers : Node → Node → Prop
  | .file content, .file there => there = content
  | .dir source, .dir there => CoversAll source there
  | _, _ => False

def CoversAll : List (Name × Node) → Entries → Prop
  | [], _ => True
  | (name, node) :: rest, d => (∃ there, d.lookup name = some there ∧ Covers node there) ∧
      CoversAll rest d

end

mutual

/-- A staged tree: the names in a directory differ, and none is a temporary one. -/
def Tidy : Node → Prop
  | .file _ => True
  | .dir entries => TidyAll entries

def TidyAll : List (Name × Node) → Prop
  | [] => True
  | (name, node) :: rest => ¬IsUpdating name ∧ name ∉ rest.map Prod.fst ∧ Tidy node ∧ TidyAll rest

end

section

variable {source : List (Name × Node)}

theorem coversAll_iff {d : Entries} : CoversAll source d ↔
      ∀ entry ∈ source, ∃ there, d.lookup entry.1 = some there ∧ Covers entry.2 there := by
  induction source with
  | nil => simp [CoversAll]
  | cons entry rest ih =>
    rw [CoversAll, ih, forall_mem_cons]

theorem tidyAll_iff : TidyAll source ↔
      (source.map Prod.fst).Nodup ∧ ∀ entry ∈ source, ¬IsUpdating entry.1 ∧ Tidy entry.2 := by
  induction source with
  | nil => simp [TidyAll]
  | cons entry rest ih =>
    rw [TidyAll, map_cons, nodup_cons, forall_mem_cons]
    tauto

end

mutual

theorem copyEntry_spec (toStringLossy : Name → Name) {name : Name} (hname : ¬IsUpdating name)
    (d : Entries) : ∀ node : Node, Tidy node →
      Ensures (fun s => s = d) (copyEntry toStringLossy name node) fun _ s =>
        (∃ there, s.lookup name = some there ∧ Covers node there) ∧ Off name d s
  | .file content, _ => by
    refine ensures_attempt.bind fun _ =>
      (copyFile_spec toStringLossy content hname d).weaken (fun s hs => ?_) fun _ s hs => ?_
    · exact keeps_of_eq hs
    · exact ⟨⟨.file content, hs.1, rfl⟩, hs.2⟩
  | .dir entries, htidy => by
    rw [copyEntry]
    have hstart : Ensures (fun s => s = d) (attempt : Prog Unit) fun _ => Off name d :=
      ensures_attempt.weaken (fun _ hs => hs) fun _ s hs => keeps_of_eq hs
    refine hstart.bind fun _ => ensures_asked.bind fun _ => ?_
    refine ensures_when (fun _ => (touches_change _).keeps fun _ _ hsame hoff =>
      hoff.own hsame) (fun _ _ hs => hs) ?_
    refine ((touches_change _).keeps fun _ _ hsame hoff => hoff.own hsame).bind
      fun _ => ensures_within (fun _ there => CoversAll entries there) fun s there hoff _ =>
        ⟨?_, fun _ there' hcovers => ?_⟩
    · -- in the directory, `copy_entries` starts from what is there
      refine ensures_attempt.bind fun _ => ?_
      exact (copyAll_spec toStringLossy there entries htidy).weaken (fun _ h => h) fun _ _ h => h.1
    · refine ⟨⟨.dir there', Entries.lookup_put_self name _ s, hcovers⟩, ?_⟩
      exact hoff.own (sameBut_put name _ s)

theorem copyAll_spec (toStringLossy : Name → Name) (d : Entries) :
    ∀ source : List (Name × Node), TidyAll source →
      Ensures (fun s => s = d) (copyAll toStringLossy source) fun _ s =>
        CoversAll source s ∧ ∀ other, other ∉ source.map Prod.fst → ¬IsUpdating other →
          s.lookup other = d.lookup other
  | [], _ => by
    rw [copyAll]
    exact ensures_pure fun s hs => ⟨trivial, fun _ _ _ => hs ▸ rfl⟩
  | (name, node) :: rest, htidy => by
    obtain ⟨hname, hfresh, hnode, hrest⟩ := htidy
    rw [copyAll]
    refine (copyEntry_spec toStringLossy hname d node hnode).bind fun _ =>
      Ensures.of_start fun d' hd' => ?_
    obtain ⟨⟨there, hthere, hcovers⟩, hoff⟩ := hd'
    refine (copyAll_spec toStringLossy d' rest hrest).weaken (fun _ h => h) fun _ s hs => ?_
    obtain ⟨hall, hothers⟩ := hs
    refine ⟨⟨⟨there, ?_, hcovers⟩, hall⟩, fun other hother hupdating => ?_⟩
    · -- the entries that follow have other names
      rw [hothers name hfresh hname, hthere]
    · rw [map_cons, mem_cons, not_or] at hother
      rw [hothers other hother.2 hupdating, hoff other (not_or.mpr ⟨hother.1, hupdating⟩)]

end

/-! ### The order of the copies -/

theorem perm_byName (entries : List (Name × Node)) : (byName entries).Perm entries :=
  perm_insertionSort _ entries

theorem mem_byName {entry : Name × Node} {entries : List (Name × Node)} :
    entry ∈ byName entries ↔ entry ∈ entries :=
  (perm_byName entries).mem_iff

section

variable {source : List (Name × Node)}

theorem coversAll_byName {d : Entries} : CoversAll (byName source) d ↔ CoversAll source d := by
  simp only [coversAll_iff, mem_byName]

theorem tidyAll_byName (h : TidyAll source) : TidyAll (byName source) := by
  rw [tidyAll_iff] at h ⊢
  refine ⟨?_, fun entry hentry => h.2 entry (mem_byName.mp hentry)⟩
  exact ((perm_byName source).map Prod.fst).nodup_iff.mpr h.1

end

theorem names_sortedEntries (source : List (Name × Node)) :
    (sortedEntries source).map Prod.fst = source.map Prod.fst := by
  induction source with
  | nil => rfl
  | cons entry rest ih =>
    rw [sortedEntries, map_cons, map_cons, ih]

mutual

theorem tidy_sorted : ∀ node : Node, Tidy node → Tidy (sorted node)
  | .file _, _ => trivial
  | .dir entries, h => by
    exact tidyAll_byName (tidyAll_sortedEntries entries h)

theorem tidyAll_sortedEntries : ∀ source : List (Name × Node), TidyAll source →
    TidyAll (sortedEntries source)
  | [], _ => trivial
  | (name, node) :: rest, ⟨hname, hfresh, hnode, hrest⟩ => by
    rw [sortedEntries]
    refine ⟨hname, ?_, tidy_sorted node hnode, tidyAll_sortedEntries rest hrest⟩
    rwa [names_sortedEntries]

end

mutual

theorem covers_of_sorted : ∀ node there : Node, Covers (sorted node) there → Covers node there
  | .file _, _, h => h
  | .dir entries, .dir there, h => by
    exact coversAll_of_sorted entries there (coversAll_byName.mp h)
  | .dir _, .file _, h => h

theorem coversAll_of_sorted : ∀ (source : List (Name × Node)) (d : Entries),
    CoversAll (sortedEntries source) d → CoversAll source d
  | [], _, _ => trivial
  | (_, node) :: rest, d, ⟨⟨there, hthere, hcovers⟩, hrest⟩ =>
    ⟨⟨there, hthere, covers_of_sorted node there hcovers⟩, coversAll_of_sorted rest d hrest⟩

end

/-! ### The same tree -/

inductive Kind where
  | file (content : Bytes)
  | directory
deriving DecidableEq

/-- What there is at a path. -/
def kindAt : List Name → Node → Option Kind
  | [], .file content => some (.file content)
  | [], .dir _ => some .directory
  | _ :: _, .file _ => none
  | name :: path, .dir entries =>
    match entries.lookup name with
    | some node => kindAt path node
    | none => none

/-- The same paths, kinds and contents. -/
def SameTree (a b : Node) : Prop := ∀ path, kindAt path a = kindAt path b

/-- What a name comes to when it has been compared with the source. -/
def Settled (source : List (Name × Node)) (name : Name) (d : Entries) : Prop :=
  match source.lookup name with
  | some node => ∃ there, d.lookup name = some there ∧ Covers node there ∧ SameTree node there
  | none => d.lookup name = none

section

variable {source : List (Name × Node)}

theorem Settled.congr {name : Name} {d d' : Entries} (h : Settled source name d)
    (hsame : d'.lookup name = d.lookup name) : Settled source name d' := by
  unfold Settled at h ⊢
  rwa [hsame]

theorem sameTree_of_settled {d : Entries} (h : ∀ name, Settled source name d) :
    SameTree (.dir source) (.dir d) := by
  intro path
  cases path with
  | nil => rfl
  | cons name path =>
  have hname := h name
  unfold Settled at hname
  unfold kindAt
  cases hnode : source.lookup name with
  | some node =>
    rw [hnode] at hname
    obtain ⟨there, hthere, -, hsame⟩ := hname
    rw [hthere]
    exact hsame path
  | none =>
    rw [hnode] at hname
    rw [show d.lookup name = none from hname]

theorem lookup_of_tidyAll (h : TidyAll source) {entry : Name × Node} (hentry : entry ∈ source) :
    source.lookup entry.1 = some entry.2 := by
  rw [tidyAll_iff] at h
  obtain ⟨before, after, rfl⟩ := append_of_mem hentry
  have hnot : entry.1 ∉ before.map Prod.fst := by
    have hnodup := h.1
    rw [map_append, nodup_append] at hnodup
    intro hmem
    exact hnodup.2.2 entry.1 hmem entry.1 mem_cons_self rfl
  rw [lookup_append, Entries.lookup_eq_none_of_not_mem hnot]
  exact lookup_cons_self

theorem CoversAll.settle {name : Name} {d d' : Entries} (h : CoversAll source d)
    (htidy : TidyAll source) (hsame : SameBut name d d') (hname : Settled source name d') :
    CoversAll source d' := by
  rw [coversAll_iff] at h ⊢
  intro entry hentry
  by_cases heq : entry.1 = name
  · subst heq
    unfold Settled at hname
    rw [lookup_of_tidyAll htidy hentry] at hname
    obtain ⟨there, hthere, hcovers, -⟩ := hname
    exact ⟨there, hthere, hcovers⟩
  · rw [hsame entry.1 heq]
    exact h entry hentry

end

/-! ### Removing -/

theorem removeTree_spec (name : Name) (node : Node) {pre : Entries → Prop} :
    Ensures pre (removeTree name node) fun _ d => d.lookup name = none := by
  cases node with
  | file content =>
    rw [removeTree]
    refine Ensures.of_start fun d _ => (change_spec _ d).weaken (fun _ h => h) ?_
    rintro _ d' ⟨h, -⟩
    split at h
    · exact (some.inj h).symm
    · cases h
  | dir entries =>
  refine ensures_true.bind fun _ => ensures_true.bind fun _ => Ensures.of_start fun d _ => ?_
  refine (change_spec _ d).weaken (fun _ h => h) ?_
  rintro _ d' ⟨h, -⟩
  split at h
  · exact (some.inj h).symm
  · cases h

theorem removePath_spec (name : Name) {pre : Entries → Prop} :
    Ensures pre (removePath name) fun _ d => d.lookup name = none := by
  refine ensures_asked.bind fun directory => ?_
  split
  · refine ensures_true.bind fun found => ?_
    split
    · exact removeTree_spec name _
    · exact ensures_fail
  · exact removeTree_spec name (.file [])

mutual

theorem removeStaleEntries_spec : ∀ (node : Node) (d : Entries), Tidy node → Covers node (.dir d) →
    Ensures (fun s => s = d) (removeStaleEntries node) fun _ s =>
      Covers node (.dir s) ∧ SameTree node (.dir s)
  | .file _, _, _, hcovers => hcovers.elim
  | .dir source, d, htidy, hcovers => by
    let inv (names : List Name) (s : Entries) : Prop :=
      CoversAll source s ∧ ∀ name, name ∈ names ∨ Settled source name s
    have hlisted : Ensures (fun s => s = d) (look fun s => (byName s).map Prod.fst) inv := by
      refine ensures_look fun s hs => ⟨hs ▸ hcovers, fun name => ?_⟩
      by_cases hmem : name ∈ (byName s).map Prod.fst
      · exact .inl hmem
      refine .inr ?_
      have hnone : s.lookup name = none := by
        refine Entries.lookup_eq_none_of_not_mem fun hin => hmem ?_
        exact ((perm_byName s).map Prod.fst).mem_iff.mpr hin
      -- so it is none of the source's, which are there
      unfold Settled
      cases hnode : source.lookup name with
      | none => exact hnone
      | some node =>
      subst hs
      obtain ⟨there, hthere, -⟩ :=
        coversAll_iff.mp hcovers _ (Entries.mem_of_lookup hnode)
      rw [hnone] at hthere
      cases hthere
    refine ensures_attempt.bind fun _ => ensures_attempt.bind fun _ => hlisted.bind fun names => ?_
    refine (ensures_forM inv names fun name rest _ => ?_).weaken (fun _ h => h) ?_
    · refine Ensures.of_start ?_
      rintro d' ⟨hall, hsettled⟩
      refine (removeStale_spec source name d' htidy hall).weaken (fun _ h => h) ?_
      rintro _ s ⟨hname, hsame⟩
      refine ⟨hall.settle htidy hsame hname, fun other => ?_⟩
      by_cases heq : other = name
      · exact .inr (heq ▸ hname)
      · refine (hsettled other).imp (fun hmem => ?_) fun hother => hother.congr (hsame other heq)
        exact (mem_cons.mp hmem).resolve_left heq
    · rintro _ s ⟨hall, hsettled⟩
      exact ⟨hall, sameTree_of_settled fun name => (hsettled name).resolve_left not_mem_nil⟩

theorem removeStale_spec : ∀ (source : List (Name × Node)) (name : Name) (d : Entries),
    TidyAll source → CoversAll source d →
      Ensures (fun s => s = d) (removeStale source name) fun _ s =>
        Settled source name s ∧ SameBut name d s
  | [], name, d, _, _ => by
    rw [removeStale]
    refine (removePath_spec name).and ?_
    exact touches_removePath name d
  | (sourceName, node) :: rest, name, d, ⟨_, _, hnode, hrest⟩, hcovers => by
    rw [removeStale]
    obtain ⟨⟨there, hthere, hnodeCovers⟩, hrestCovers⟩ := hcovers
    split
    · next heq =>
      subst heq
      refine ensures_attempt.bind fun _ => ?_
      have hlook : Ensures (fun s => s = d)
          (look fun s => (Entries.subdirectory sourceName s).isSome)
          fun directory s => directory = (Entries.subdirectory sourceName d).isSome ∧ s = d :=
        ensures_look fun s hs => ⟨hs ▸ rfl, hs⟩
      refine hlook.bind fun directory => ensures_attempt.bind fun _ => ?_
      have hfound : ∀ s : Entries, Settled ((sourceName, node) :: rest) sourceName s ↔
          ∃ there, s.lookup sourceName = some there ∧ Covers node there ∧ SameTree node there := by
        intro s
        simp only [Settled, lookup_cons_self]
      split
      · refine ensures_within (fun _ t => Covers node (.dir t) ∧ SameTree node (.dir t)) ?_
        rintro s t ⟨_, hs⟩ ht
        refine ⟨?_, fun _ t' hsame => ⟨?_, ?_⟩⟩
        · have hdir := Entries.lookup_of_subdirectory ht
          rw [hs, hthere] at hdir
          rw [some.inj hdir] at hnodeCovers
          exact removeStaleEntries_spec node t hnode hnodeCovers
        · exact (hfound _).mpr ⟨.dir t', Entries.lookup_put_self _ _ _, hsame⟩
        · exact hs ▸ sameBut_put sourceName _ s
      next hnot =>
      refine ensures_pure ?_
      rintro s ⟨hdirectory, rfl⟩
      refine ⟨(hfound s).mpr ⟨there, hthere, hnodeCovers, ?_⟩, keeps_of_eq rfl⟩
      -- kinds agree by now, so it is a file, and as it has been copied
      cases node with
      | file content =>
        cases there with
        | file found => exact fun path => by rw [show found = content from hnodeCovers]
        | dir entries => exact hnodeCovers.elim
      | dir source =>
        refine absurd ⟨rfl, hdirectory.trans ?_⟩ hnot
        cases there with
        | file found => exact hnodeCovers.elim
        | dir entries => simp [Entries.subdirectory, hthere]
    next hne =>
    have hsettled : ∀ s, Settled rest name s → Settled ((sourceName, node) :: rest) name s := by
      intro s hs
      have hother : (name == sourceName) = false := beq_eq_false_iff_ne.mpr (Ne.symm hne)
      simpa only [Settled, lookup, hother] using hs
    exact (removeStale_spec rest name d hrest hrestCovers).weaken (fun _ h => h)
      fun _ s hs => ⟨hsettled s hs.1, hs.2⟩

end

/-! ### Whole runs -/

/-- What there is after attempts, each of which may have been broken off. -/
def afterAttempts (toStringLossy : Name → Name) (source : Entries) (attempts : List (List Fate))
    (d : Entries) : Entries :=
  attempts.foldl (fun d fates => (syncDirectories toStringLossy source).leaves fates d) d

theorem syncDirectories_spec (toStringLossy : Name → Name) {source : Entries}
    (htidy : TidyAll source) {pre : Entries → Prop} :
    Ensures pre (syncDirectories toStringLossy source) fun _ s =>
      SameTree (.dir source) (.dir s) := by
  have hsorted := tidyAll_byName (tidyAll_sortedEntries source htidy)
  refine Ensures.of_start fun d _ => ?_
  have hcopied : Ensures (fun s => s = d)
      (copyEntries toStringLossy (byName (sortedEntries source))) fun _ s => CoversAll source s := by
    refine ensures_attempt.bind fun _ => ?_
    refine (copyAll_spec toStringLossy d _ hsorted).weaken (fun _ h => h) fun _ s hs => ?_
    exact coversAll_of_sorted source s (coversAll_byName.mp hs.1)
  refine hcopied.bind fun _ => Ensures.of_start fun d' hcovers => ?_
  exact (removeStaleEntries_spec (.dir source) d' htidy hcovers).weaken (fun _ h => h)
    fun _ _ hs => hs.2

/-- **A run that gets to its end leaves the source's tree**, whatever attempts were broken off
before it. -/
theorem sync_leaves_the_source (toStringLossy : Name → Name) (source : Entries)
    (htidy : TidyAll source) (attempts : List (List Fate)) (fates : List Fate) (d : Entries)
    (hends : (syncDirectories toStringLossy source).ends fates
      (afterAttempts toStringLossy source attempts d) = true) :
    SameTree (.dir source) (.dir ((syncDirectories toStringLossy source).leaves fates
      (afterAttempts toStringLossy source attempts d))) := by
  have hspec : Ensures (fun _ => True) (syncDirectories toStringLossy source) fun _ s =>
      SameTree (.dir source) (.dir s) := syncDirectories_spec toStringLossy htidy
  obtain ⟨_, hsame⟩ := hspec.of_ends trivial hends
  exact hsame

/-- A file in a directory's place and the reverse: the first attempt is killed when the new file is
there under its temporary name only, and the second fails at once. -/
theorem sync_leaves_the_source_twice_broken :
    SameTree (.dir [([97], .file [1, 2]), ([98], .dir [([99], .file [])])])
      (.dir ((syncDirectories id [([97], .file [1, 2]), ([98], .dir [([99], .file [])])]).leaves []
        (afterAttempts id [([97], .file [1, 2]), ([98], .dir [([99], .file [])])]
          [List.replicate 12 .runs ++ [.killed], [.runs, .fails]]
          [([97], .dir [([100], .file [5])]), ([98], .file [7]), ([101], .file [])]))) :=
  sync_leaves_the_source id _ (by simp [TidyAll, Tidy]; decide) _ _ _ (by decide)

end Updater
end Conest
