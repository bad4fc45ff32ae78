import Conest.Group.MembershipHistory

/-!
# The shape of a membership history

`WF` is what every history that is built by imports satisfies (`wf_run`): the parents of a record
are there and have smaller Lamport times, the heads are the records that no record follows, the
first record is the only root, and the pinned identities are those of the records.

Records are never replaced and their parents come first, so what a record sees of the DAG is
final. `AgreeOn h h' a` says that two histories hold the same records from `a` down; then they have
the same ancestors of `a` (`ancestors_agree`), and where they agree on the parents of a record, the
same authority for it (`authorityFor_agree`) and the same verdict on it, as far as the verdict does
not depend on the identities pinned and on whether there is a record at all
(`Accepts.transfer`).
-/

namespace Conest
namespace Group

open Lib List

namespace GroupMembershipHistory

variable {crypto : Crypto} {h h' : GroupMembershipHistory} {r : GroupMembershipRecord}

/-! ### Ancestors -/

variable {a b : DartString} {ps : List GroupMembershipRecord} {s : GroupMembershipRecord}

/-- `b` is `a` or an ancestor of it. -/
def Reaches (h : GroupMembershipHistory) (a b : DartString) : Prop := Dag.Reaches h.parentsOf a b

theorem parentsOf_of_get {id : DartString} (hget : h.records.get id = some r) :
    h.parentsOf id = r.parents := by
  unfold parentsOf
  rw [hget]

theorem parentsOf_of_notMem : ∀ id, id ∉ h.records.keys → h.parentsOf id = [] := by
  intro id hid
  unfold parentsOf
  cases hget : h.records.get id with
  | none => rfl
  | some record => exact absurd (FMap.mem_keys_iff.mpr ⟨record, hget⟩) hid

theorem mem_ancestors : b ∈ h.ancestors a ↔ h.Reaches a b :=
  Dag.mem_ancestors parentsOf_of_notMem

theorem isAncestor_iff : h.isAncestor b a = true ↔ h.Reaches a b := by
  unfold isAncestor
  rw [decide_eq_true_eq, mem_ancestors]

theorem reaches_refl (a : DartString) : h.Reaches a a := Relation.ReflTransGen.refl

theorem reaches_iff_of_get (hget : h.records.get a = some r) :
    h.Reaches a b ↔ b = a ∨ ∃ p ∈ r.parents, h.Reaches p b := by
  have hparents := parentsOf_of_get hget
  constructor
  · intro hab
    rcases Relation.ReflTransGen.cases_head hab with heq | ⟨p, hp, hpb⟩
    · exact .inl heq.symm
    · rw [hparents] at hp
      exact .inr ⟨p, hp, hpb⟩
  · rintro (rfl | ⟨p, hp, hpb⟩)
    · exact reaches_refl b
    · refine Relation.ReflTransGen.head ?_ hpb
      rw [hparents]
      exact hp

theorem mem_parentRecords {rp : GroupMembershipRecord} :
    rp ∈ h.parentRecords r ↔ ∃ p ∈ r.parents, h.records.get p = some rp := by
  exact mem_filterMap

theorem parentRecords_eq_nil_iff
    (hknown : ∀ p ∈ r.parents, ∃ record, h.records.get p = some record) :
    h.parentRecords r = [] ↔ r.parents = [] := by
  unfold parentRecords
  rw [filterMap_eq_nil_iff, eq_nil_iff_forall_not_mem]
  refine forall₂_congr fun p hp => ?_
  obtain ⟨record, hget⟩ := hknown p hp
  simp [hget]

/-! ### The invariant -/

/-- **What every history satisfies.** -/
structure WF (h : GroupMembershipHistory) : Prop where
  id_eq : ∀ id r, h.records.get id = some r → r.id = id
  groupId_eq : ∀ id r, h.records.get id = some r → r.proof.groupId = h.groupId
  parent_before : ∀ id r, h.records.get id = some r → ∀ p ∈ r.parents,
    ∃ rp, h.records.get p = some rp ∧ rp.proof.lamport < r.proof.lamport
  heads_iff : ∀ id, id ∈ h.heads ↔
    (∃ r, h.records.get id = some r) ∧ ∀ k r, h.records.get k = some r → id ∉ r.parents
  root_exists : ∀ id r, h.records.get id = some r → ∃ k root, h.records.get k = some root ∧
    root.parents = []
  root_unique : ∀ id id' r r', h.records.get id = some r → h.records.get id' = some r' →
    r.parents = [] → r'.parents = [] → id = id'
  owner_identity : ∀ id r, h.records.get id = some r →
    h.trustedOwner.deviceId ∈ r.group.activeMemberDeviceIds →
    r.group.memberProfileFor h.trustedOwner.deviceId = some h.trustedOwner
  identities_iff : ∀ device profile, h.identities.get device = some profile ↔
    ∃ id r, h.records.get id = some r ∧ device ∈ r.group.activeMemberDeviceIds ∧
      r.group.memberProfileFor device = some profile

theorem WF.initial (groupId : DartString) (trustedOwner : GroupMemberProfile) :
    (initial groupId trustedOwner).WF where
  id_eq := by intro id r hget; cases hget
  groupId_eq := by intro id r hget; cases hget
  parent_before := by intro id r hget; cases hget
  heads_iff := by
    intro id
    constructor
    · intro hmem
      exact absurd hmem (Finset.notMem_empty id)
    · rintro ⟨⟨r, hget⟩, -⟩
      cases hget
  root_exists := by intro id r hget; cases hget
  root_unique := by intro id id' r r' hget; cases hget
  owner_identity := by intro id r hget; cases hget
  identities_iff := by
    intro device profile
    constructor
    · intro hget
      cases hget
    · rintro ⟨id, r, hget, -⟩
      cases hget

theorem accept_get (h : GroupMembershipHistory) (r : GroupMembershipRecord) (id : DartString) :
    (h.accept r).records.get id = if id = r.id then some r else h.records.get id := rfl

theorem accept_get_iff {id : DartString} (hfresh : h.records.get r.id = none) :
    (h.accept r).records.get id = some s ↔ (id = r.id ∧ s = r) ∨ h.records.get id = some s := by
  rw [accept_get]
  by_cases heq : id = r.id
  · rw [heq, hfresh]
    simp [eq_comm]
  · simp [heq]

theorem pinIdentities_get (group : GroupRecord) (pins : FMap DartString GroupMemberProfile)
    (device : DartString) :
    (pinIdentities group pins).get device =
      if device ∈ group.activeMemberDeviceIds then
        (group.memberProfileFor device).or (pins.get device)
      else pins.get device := by
  unfold pinIdentities
  generalize group.activeMemberDeviceIds = devices
  induction devices generalizing pins with
  | nil => simp
  | cons d devices ih =>
  rw [foldl_cons, ih]
  by_cases heq : device = d
  · subst heq
    cases hprofile : group.memberProfileFor device with
    | none => simp
    | some profile => simp
  · have hmem : device ∈ d :: devices ↔ device ∈ devices := by simp [heq]
    simp only [hmem]
    cases hprofile : group.memberProfileFor d with
    | none => rfl
    | some profile => simp [heq]

theorem checkMember_ok_iff {device : DartString} {profile : GroupMemberProfile}
    (hprofile : r.group.memberProfileFor device = some profile) :
    h.checkMember r device = .ok () ↔
      (h.pinnedIdentity device = none ∨ h.pinnedIdentity device = some profile) ∧
        r.admissions.get device = some (h.expectedAdmission r device) := by
  unfold checkMember
  rw [hprofile]
  dsimp only
  split
  · next hpin =>
    simp only [reduceCtorEq, false_iff, not_and]
    intro hor
    rcases hor with heq | heq
    · exact absurd heq hpin.1
    · exact absurd heq hpin.2
  next hpin =>
  have hor : h.pinnedIdentity device = none ∨ h.pinnedIdentity device = some profile := by
    by_contra hnot
    exact hpin (not_or.mp hnot)
  split
  next hadm => simp [hadm]
  next hadm => exact ⟨fun _ => ⟨hor, not_not.mp hadm⟩, fun _ => rfl⟩

theorem Accepts.identity_eq (ha : Accepts crypto h r) {device : DartString}
    {pinned : GroupMemberProfile} (hactive : device ∈ r.group.activeMemberDeviceIds)
    (hpinned : h.pinnedIdentity device = some pinned) :
    r.group.memberProfileFor device = some pinned := by
  obtain ⟨profile, hprofile⟩ := GroupMembershipRecord.exists_memberProfileFor hactive
  obtain ⟨hor, -⟩ := (checkMember_ok_iff hprofile).mp (ha.members device hactive)
  rw [hpinned] at hor
  rcases hor with hnone | hsome
  · cases hnone
  · rw [hprofile, hsome]

theorem WF.same_identity (hwf : h.WF) {id id' : DartString} {s' : GroupMembershipRecord}
    (hs : h.records.get id = some s) (hs' : h.records.get id' = some s') {device : DartString}
    (hactive : device ∈ s.group.activeMemberDeviceIds)
    (hactive' : device ∈ s'.group.activeMemberDeviceIds) :
    s.group.memberProfileFor device = s'.group.memberProfileFor device := by
  obtain ⟨profile, hprofile⟩ := GroupMembershipRecord.exists_memberProfileFor hactive
  obtain ⟨profile', hprofile'⟩ := GroupMembershipRecord.exists_memberProfileFor hactive'
  have hpin := (hwf.identities_iff device profile).mpr ⟨id, s, hs, hactive, hprofile⟩
  have hpin' := (hwf.identities_iff device profile').mpr ⟨id', s', hs', hactive', hprofile'⟩
  rw [hprofile, hprofile', ← hpin, ← hpin']

theorem WF.pinnedIdentity_eq (hwf : h.WF) {id : DartString} (hs : h.records.get id = some s)
    {device : DartString} (hactive : device ∈ s.group.activeMemberDeviceIds) :
    h.pinnedIdentity device = s.group.memberProfileFor device := by
  unfold pinnedIdentity
  split
  · next heq =>
    subst heq
    exact (hwf.owner_identity id s hs hactive).symm
  · obtain ⟨profile, hprofile⟩ := GroupMembershipRecord.exists_memberProfileFor hactive
    rw [hprofile]
    exact (hwf.identities_iff device profile).mpr ⟨id, s, hs, hactive, hprofile⟩

theorem Accepts.parent_before (ha : Accepts crypto h r) {p : DartString} (hp : p ∈ r.parents) :
    ∃ rp, h.records.get p = some rp ∧ rp.proof.lamport < r.proof.lamport := by
  obtain ⟨rp, hget⟩ := ha.parents_known p hp
  refine ⟨rp, hget, ?_⟩
  have hmem : rp ∈ h.parentRecords r := mem_parentRecords.mpr ⟨p, hp, hget⟩
  obtain ⟨actor, hactor, -⟩ := ha.signed
  rcases actorFor_cases hactor with ⟨hnil, -⟩ | ⟨authority, -, hvalid, -⟩
  · rw [hnil] at hmem
    cases hmem
  · unfold parentsValid at hvalid
    simp only [Bool.and_eq_true, all_eq_true, decide_eq_true_eq] at hvalid
    exact hvalid.1.1.2 rp hmem

theorem Accepts.root_first (ha : Accepts crypto h r) (hroot : r.parents = []) (id : DartString) :
    h.records.get id = none := by
  obtain ⟨actor, hactor, -⟩ := ha.signed
  rcases actorFor_cases hactor with ⟨-, hanchored, -⟩ | ⟨authority, hne, -⟩
  · unfold rootAnchored at hanchored
    simp only [Bool.and_eq_true, decide_eq_true_eq] at hanchored
    have hempty := hanchored.1.1.1
    cases hget : h.records.get id with
    | none => rfl
    | some s =>
      have hmem := FMap.mem_keys_iff.mpr ⟨s, hget⟩
      rw [hempty] at hmem
      exact absurd hmem (Finset.notMem_empty id)
  · exact absurd ((parentRecords_eq_nil_iff ha.parents_known).mpr hroot) hne

theorem WF.notMem_parents (hwf : h.WF) {id : DartString} (hfresh : h.records.get id = none)
    {k : DartString} (hs : h.records.get k = some s) : id ∉ s.parents := by
  intro hmem
  obtain ⟨rp, hget, -⟩ := hwf.parent_before k s hs id hmem
  rw [hfresh] at hget
  cases hget

section

variable (hwf : h.WF) (ha : Accepts crypto h r)

include hwf ha

theorem WF.accept_heads_iff (id : DartString) :
    id ∈ (h.accept r).heads ↔ (∃ s, (h.accept r).records.get id = some s) ∧
      ∀ k s, (h.accept r).records.get k = some s → id ∉ s.parents := by
  have hself : r.id ∉ r.parents := by
    intro hmem
    obtain ⟨rp, hget⟩ := ha.parents_known r.id hmem
    rw [ha.fresh] at hget
    cases hget
  change id ∈ insert r.id (h.heads \ r.parents.toFinset) ↔ _
  rw [Finset.mem_insert, Finset.mem_sdiff, mem_toFinset, hwf.heads_iff]
  simp only [accept_get_iff ha.fresh]
  constructor
  · rintro (rfl | ⟨⟨⟨s, hs⟩, hno⟩, hnot⟩)
    · refine ⟨⟨r, .inl ⟨rfl, rfl⟩⟩, ?_⟩
      rintro k s (⟨-, rfl⟩ | hs)
      · exact hself
      · exact hwf.notMem_parents ha.fresh hs
    · refine ⟨⟨s, .inr hs⟩, ?_⟩
      rintro k t (⟨-, rfl⟩ | ht)
      · exact hnot
      · exact hno k t ht
  · rintro ⟨⟨s, hs⟩, hno⟩
    rcases hs with ⟨heq, -⟩ | hs
    · exact .inl heq
    · refine .inr ⟨⟨⟨s, hs⟩, fun k t ht => hno k t (.inr ht)⟩, ?_⟩
      exact hno r.id r (.inl ⟨rfl, rfl⟩)

theorem WF.accept_identities_iff (device : DartString) (profile : GroupMemberProfile) :
    (h.accept r).identities.get device = some profile ↔
      ∃ id s, (h.accept r).records.get id = some s ∧ device ∈ s.group.activeMemberDeviceIds ∧
        s.group.memberProfileFor device = some profile := by
  change (pinIdentities r.group h.identities).get device = some profile ↔ _
  rw [pinIdentities_get]
  simp only [accept_get_iff ha.fresh]
  by_cases hactive : device ∈ r.group.activeMemberDeviceIds
  · obtain ⟨own, hown⟩ := GroupMembershipRecord.exists_memberProfileFor hactive
    rw [if_pos hactive, hown]
    constructor
    · intro heq
      exact ⟨r.id, r, .inl ⟨rfl, rfl⟩, hactive, hown.trans heq⟩
    rintro ⟨id, s, ⟨-, rfl⟩ | hs, hs_active, hs_profile⟩
    · exact hown.symm.trans hs_profile
    · -- an older record gave the device the identity to which the new one was held
      have hpin := hwf.pinnedIdentity_eq hs hs_active
      rw [hs_profile] at hpin
      have hsame := ha.identity_eq hactive hpin
      exact hown.symm.trans hsame
  · rw [if_neg hactive, hwf.identities_iff]
    constructor
    · rintro ⟨id, s, hs, hrest⟩
      exact ⟨id, s, .inr hs, hrest⟩
    · rintro ⟨id, s, ⟨-, rfl⟩ | hs, hs_active, hs_profile⟩
      · exact absurd hs_active hactive
      · exact ⟨id, s, hs, hs_active, hs_profile⟩

theorem WF.accept : (h.accept r).WF where
  id_eq := by
    intro id s hs
    rcases (accept_get_iff ha.fresh).mp hs with ⟨rfl, rfl⟩ | hs
    · rfl
    · exact hwf.id_eq id s hs
  groupId_eq := by
    intro id s hs
    rcases (accept_get_iff ha.fresh).mp hs with ⟨-, rfl⟩ | hs
    · exact ha.groupId_eq
    · exact hwf.groupId_eq id s hs
  parent_before := by
    intro id s hs p hp
    have hold : ∃ rp, h.records.get p = some rp ∧ rp.proof.lamport < s.proof.lamport := by
      rcases (accept_get_iff ha.fresh).mp hs with ⟨-, rfl⟩ | hs
      · exact ha.parent_before hp
      · exact hwf.parent_before id s hs p hp
    obtain ⟨rp, hget, hlt⟩ := hold
    exact ⟨rp, (accept_get_iff ha.fresh).mpr (.inr hget), hlt⟩
  heads_iff := hwf.accept_heads_iff ha
  root_exists := by
    -- a record with parents follows one that is there already
    intro _ _ _
    cases hparents : r.parents with
    | nil => exact ⟨r.id, r, (accept_get_iff ha.fresh).mpr (.inl ⟨rfl, rfl⟩), hparents⟩
    | cons p ps =>
      obtain ⟨rp, hget⟩ := ha.parents_known p (by rw [hparents]; exact mem_cons_self)
      obtain ⟨k, root, hroot, hnil⟩ := hwf.root_exists p rp hget
      exact ⟨k, root, (accept_get_iff ha.fresh).mpr (.inr hroot), hnil⟩
  root_unique := by
    intro id id' s s' hs hs' hnil hnil'
    have hfirst : ∀ {k t}, h.records.get k = some t → r.parents ≠ [] := by
      intro k t ht hroot
      rw [ha.root_first hroot k] at ht
      cases ht
    rcases (accept_get_iff ha.fresh).mp hs with ⟨rfl, rfl⟩ | hold
    · rcases (accept_get_iff ha.fresh).mp hs' with ⟨rfl, -⟩ | hold'
      · rfl
      · exact absurd hnil (hfirst hold')
    · rcases (accept_get_iff ha.fresh).mp hs' with ⟨rfl, rfl⟩ | hold'
      · exact absurd hnil' (hfirst hold)
      · exact hwf.root_unique id id' s s' hold hold' hnil hnil'
  owner_identity := by
    intro id s hs hactive
    rcases (accept_get_iff ha.fresh).mp hs with ⟨-, rfl⟩ | hs
    · refine ha.identity_eq hactive ?_
      exact if_pos rfl
    · exact hwf.owner_identity id s hs hactive
  identities_iff := hwf.accept_identities_iff ha

end

theorem WF.importRecord (hwf : h.WF) (r : GroupMembershipRecord) :
    (h.importRecord crypto r).1.WF := by
  rcases importRecord_cases crypto h r with ⟨ha, heq⟩ | ⟨-, heq, -⟩
  · rw [heq]
    exact hwf.accept ha
  · rw [heq]
    exact hwf

theorem wf_run (crypto : Crypto) (groupId : DartString) (trustedOwner : GroupMemberProfile)
    (offered : List GroupMembershipRecord) :
    ((machine crypto).run (initial groupId trustedOwner) offered).WF :=
  Machine.run_induction (fun _ r _ hwf => hwf.importRecord r) (WF.initial groupId trustedOwner)

/-! ### What one record sees of the DAG -/

theorem WF.reaches_known (hwf : h.WF) (hab : h.Reaches a b) (hget : h.records.get a = some r) :
    ∃ s, h.records.get b = some s ∧ (b = a ∨ s.proof.lamport < r.proof.lamport) := by
  -- along the path the Lamport time falls with every step
  induction hab using Relation.ReflTransGen.head_induction_on generalizing r with
  | refl => exact ⟨r, hget, .inl rfl⟩
  | @head a c hac _ ih =>
  rw [parentsOf_of_get hget] at hac
  obtain ⟨rc, hrc, hlt⟩ := hwf.parent_before a r hget c hac
  obtain ⟨s, hs, hor⟩ := ih hrc
  refine ⟨s, hs, .inr ?_⟩
  rcases hor with rfl | hor
  · rw [hrc, Option.some.injEq] at hs
    rw [← hs]
    exact hlt
  · exact hor.trans hlt

theorem WF.reaches_antisymm (hwf : h.WF) (hab : h.Reaches a b) (hba : h.Reaches b a)
    (hget : h.records.get a = some r) : a = b := by
  obtain ⟨s, hs, hor⟩ := hwf.reaches_known hab hget
  rcases hor with heq | hlt
  · exact heq.symm
  obtain ⟨r', hr', hor'⟩ := hwf.reaches_known hba hs
  rw [hget, Option.some.injEq] at hr'
  rcases hor' with heq | hlt'
  · exact heq
  · rw [← hr'] at hlt'
    exact absurd hlt (Nat.lt_asymm hlt')

/-- Two histories hold the same records from `a` down. -/
def AgreeOn (h h' : GroupMembershipHistory) (a : DartString) : Prop :=
  ∀ x, h.Reaches a x → h'.records.get x = h.records.get x

section

variable (hagree : AgreeOn h h' a)

include hagree

theorem AgreeOn.below (hab : h.Reaches a b) : AgreeOn h h' b :=
  fun x hbx => hagree x (Relation.ReflTransGen.trans hab hbx)

theorem ancestors_agree : h'.ancestors a = h.ancestors a := by
  refine (Dag.ancestors_congr parentsOf_of_notMem parentsOf_of_notMem ?_).symm
  intro x hx
  unfold parentsOf
  rw [hagree x hx]

theorem reaches_agree : h'.Reaches a b ↔ h.Reaches a b := by
  rw [← mem_ancestors, ← mem_ancestors, ancestors_agree hagree]

end

theorem WF.agreeOn_accept (hwf : h.WF) (ha : Accepts crypto h r) (hget : h.records.get a = some s) :
    AgreeOn h (h.accept r) a := by
  intro x hax
  obtain ⟨t, ht, -⟩ := hwf.reaches_known hax hget
  rw [ht]
  exact (accept_get_iff ha.fresh).mpr (.inr ht)

theorem mem_commonAncestors (hne : ps ≠ []) {id : DartString} :
    id ∈ h.commonAncestors ps ↔ ∀ p ∈ ps, h.Reaches p.id id := by
  have hfold : ∀ (rest : List GroupMembershipRecord) (start : List DartString),
      id ∈ rest.foldl (fun common parent => common.filter (· ∈ h.ancestors parent.id)) start ↔
        id ∈ start ∧ ∀ p ∈ rest, h.Reaches p.id id := by
    intro rest
    induction rest with
    | nil => intro start; simp
    | cons p rest ih =>
      intro start
      rw [foldl_cons, ih, forall_mem_cons]
      simp only [mem_filter, decide_eq_true_eq, mem_ancestors, and_assoc]
  cases ps with
  | nil => exact absurd rfl hne
  | cons first rest =>
    unfold commonAncestors
    rw [hfold, mem_ancestors, forall_mem_cons]

theorem commonAncestors_agree (hagree : ∀ p ∈ ps, AgreeOn h h' p.id) :
    h'.commonAncestors ps = h.commonAncestors ps := by
  cases ps with
  | nil => rfl
  | cons first rest =>
  obtain ⟨hfirst, hrest⟩ := forall_mem_cons.mp hagree
  simp only [commonAncestors]
  rw [ancestors_agree hfirst]
  refine foldl_ext _ _ _ fun common p hp => ?_
  rw [ancestors_agree (hrest p hp)]

section

variable (hne : ps ≠ []) (hagree : ∀ p ∈ ps, AgreeOn h h' p.id)

include hne hagree

theorem newestCommon_agree : h'.newestCommon ps = h.newestCommon ps := by
  obtain ⟨first, hfirst⟩ := exists_mem_of_ne_nil ps hne
  unfold newestCommon
  rw [commonAncestors_agree hagree]
  refine filter_congr fun id _ => ?_
  congr 1
  rw [Bool.eq_iff_iff, any_eq_true, any_eq_true]
  refine exists_congr fun other => and_congr_right fun hother => ?_
  -- a shared ancestor lies below the first record, where the two histories agree
  have hbelow : AgreeOn h h' other :=
    (hagree first hfirst).below ((mem_commonAncestors hne).mp hother first hfirst)
  rw [Bool.and_eq_true, Bool.and_eq_true, isAncestor_iff, isAncestor_iff, reaches_agree hbelow]

theorem authorityFor_agree : h'.authorityFor ps = h.authorityFor ps := by
  obtain ⟨first, hfirst⟩ := exists_mem_of_ne_nil ps hne
  have hresolution : h'.resolutionAuthority ps = h.resolutionAuthority ps := by
    unfold resolutionAuthority
    rw [newestCommon_agree hne hagree]
    match hnewest : h.newestCommon ps with
    | [] => rfl
    | [newest] =>
      have hmem : newest ∈ h.newestCommon ps := by rw [hnewest]; exact mem_singleton_self _
      have hcommon := (mem_commonAncestors hne).mp (mem_filter.mp hmem).1
      simp[hagree first hfirst newest (hcommon first hfirst)]
    | _ :: _ :: _ => rfl
  unfold authorityFor
  split
  · rfl
  · exact hresolution

end

theorem parentRecords_agree (hagree : ∀ p ∈ r.parents, AgreeOn h h' p) :
    h'.parentRecords r = h.parentRecords r := by
  refine filterMap_congr fun p hp => ?_
  exact hagree p hp p (reaches_refl p)

theorem WF.agreeOn_parentRecords (hwf : h.WF) (hagree : ∀ p ∈ r.parents, AgreeOn h h' p) :
    ∀ rp ∈ h.parentRecords r, AgreeOn h h' rp.id := by
  intro rp hrp
  obtain ⟨p, hp, hget⟩ := mem_parentRecords.mp hrp
  rw [hwf.id_eq p rp hget]
  exact hagree p hp

theorem WF.actorFor_agree (hwf : h.WF) (hgroup : h'.groupId = h.groupId)
    (howner : h'.trustedOwner = h.trustedOwner)
    (hagree : ∀ p ∈ r.parents, AgreeOn h h' p)
    (hroot : h.parentRecords r = [] → (h'.records.keys = ∅ ↔ h.records.keys = ∅)) :
    h'.actorFor crypto r = h.actorFor crypto r := by
  have hparents := parentRecords_agree hagree
  have hbelow := hwf.agreeOn_parentRecords hagree
  unfold actorFor
  rw [hparents]
  dsimp only
  by_cases hnil : h.parentRecords r = []
  · have hanchored : h'.rootAnchored crypto r = h.rootAnchored crypto r := by
      unfold rootAnchored
      rw [hgroup, howner]
      simp[hroot hnil]
    rw [hnil, hanchored, howner]
    rfl
  rw [authorityFor_agree hnil hbelow]
  have hredundant : ((h.parentRecords r).any fun parent => (h.parentRecords r).any fun other =>
        decide (other.id ≠ parent.id) && h'.isAncestor parent.id other.id) =
      (h.parentRecords r).any fun parent => (h.parentRecords r).any fun other =>
        decide (other.id ≠ parent.id) && h.isAncestor parent.id other.id := by
    rw [Bool.eq_iff_iff]
    simp only [any_eq_true, Bool.and_eq_true, isAncestor_iff]
    refine exists_congr fun parent => and_congr_right fun _ => ?_
    refine exists_congr fun other => and_congr_right fun hother => ?_
    rw [reaches_agree (hbelow other hother)]
  have hnonempty : ¬ (h.parentRecords r).isEmpty = true := by simpa using hnil
  rw [hredundant, if_neg hnonempty, if_neg hnonempty]

/-- **The verdict on a record travels**: a history accepts what another one accepts if the two
agree below the record's parents, the record is new, a root comes first, and the identities pinned
are those of the record. -/
theorem Accepts.transfer (hwf : h.WF) (ha : Accepts crypto h r) (hgroup : h'.groupId = h.groupId)
    (howner : h'.trustedOwner = h.trustedOwner) (hagree : ∀ p ∈ r.parents, AgreeOn h h' p)
    (hfresh : h'.records.get r.id = none) (hroot : r.parents = [] → h'.records.keys = ∅)
    (hpins : ∀ device ∈ r.group.activeMemberDeviceIds, ∀ profile,
      h'.identities.get device = some profile →
        r.group.memberProfileFor device = some profile) :
    Accepts crypto h' r where
  groupId_eq := ha.groupId_eq.trans hgroup.symm
  fresh := hfresh
  parents_known := by
    intro p hp
    obtain ⟨rp, hget⟩ := ha.parents_known p hp
    exact ⟨rp, (hagree p hp p (reaches_refl p)).trans hget⟩
  signed := by
    obtain ⟨actor, hactor, hsigned⟩ := ha.signed
    refine ⟨actor, ?_, ?_⟩
    · rw [hwf.actorFor_agree hgroup howner hagree, hactor]
      intro hnil
      have hparents := (parentRecords_eq_nil_iff ha.parents_known).mp hnil
      refine iff_of_true (hroot hparents) ?_
      rw [Finset.eq_empty_iff_forall_notMem]
      intro id hid
      obtain ⟨s, hs⟩ := FMap.mem_keys_iff.mp hid
      rw [ha.root_first hparents id] at hs
      cases hs
    · unfold signedBy at hsigned ⊢
      rw [hgroup]
      exact hsigned
  members := by
    intro device hactive
    obtain ⟨profile, hprofile⟩ := GroupMembershipRecord.exists_memberProfileFor hactive
    obtain ⟨hpin, hadmission⟩ := (checkMember_ok_iff hprofile).mp (ha.members device hactive)
    refine (checkMember_ok_iff hprofile).mpr ⟨?_, ?_⟩
    · unfold pinnedIdentity at hpin ⊢
      rw [howner]
      split
      · next heq =>
        rw [if_pos heq] at hpin
        exact hpin
      · cases hget : h'.identities.get device with
        | none => exact .inl rfl
        | some pinned => exact .inr ((hpins device hactive pinned hget).symm.trans hprofile)
    · rw [hadmission]
      unfold expectedAdmission
      rw [parentRecords_agree hagree]

end GroupMembershipHistory

end Group
end Conest
