import Conest.Group.Ancestry

/-!
# Privileges in the membership DAG

Every record of a history is the root, or signed by the owner of its authority, or an update that
an admin may make to its single parent (`SignedProperly`, kept by every import because what a
record sees of the DAG is final). The authority is the single parent or the newest common ancestor
of the parents (`Authority`): `resolutionAuthority` computes the common ancestor that all common
ancestors lie below, because a common ancestor lies below one with the largest Lamport time.

An admin's update creates no role, keeps owners and admins and leaves the title, the visibility and
the roles of staying members as they are (`AdminUpdate`). So whoever is owner, admin or moderator in
a record has that role since a root or an owner-signed record, and a chain of admin-signed records
changes none of it (`no_privilege_escalation`).
-/

namespace Conest
namespace Group

open Lib List Option

namespace GroupMembershipHistory

variable {crypto : Crypto} {h : GroupMembershipHistory} {r s t : GroupMembershipRecord}

/-! ### The authority of a record -/

variable {role : GroupMemberRole} {a b : DartString}

/-- `a` is a common ancestor of `ps`, and every common ancestor is `a` or an ancestor of it. -/
structure NewestCommonAncestor (h : GroupMembershipHistory) (ps : List DartString)
    (a : DartString) : Prop where
  common : ∀ p ∈ ps, h.Reaches p a
  newest : ∀ c, (∀ p ∈ ps, h.Reaches p c) → h.Reaches a c

/-- `a` is the authority of a record: its single parent, or the newest common ancestor of its
parents. -/
def Authority (h : GroupMembershipHistory) (r : GroupMembershipRecord) (a : DartString) : Prop :=
  r.parents = [a] ∨ 1 < r.parents.length ∧ h.NewestCommonAncestor r.parents a

/-- The author of the record was the owner of its authority. -/
def OwnerSigned (h : GroupMembershipHistory) (r : GroupMembershipRecord) : Prop :=
  ∃ a authority, h.Authority r a ∧ h.records.get a = some authority ∧
    r.proof.authorDeviceId = authority.group.ownerDeviceId

theorem WF.exists_newestCommon_above (hwf : h.WF) {ps : List GroupMembershipRecord} (hne : ps ≠ [])
    (hknown : ∀ p ∈ ps, h.records.get p.id = some p) {c : DartString}
    (hc : c ∈ h.commonAncestors ps) : ∃ a ∈ h.newestCommon ps, h.Reaches a c := by
  obtain ⟨first, hfirst⟩ := List.exists_mem_of_ne_nil ps hne
  have hrecord : ∀ x ∈ h.commonAncestors ps, ∃ t, h.records.get x = some t := by
    intro x hx
    obtain ⟨t, ht, -⟩ := hwf.reaches_known ((mem_commonAncestors hne).mp hx first hfirst)
      (hknown first hfirst)
    exact ⟨t, ht⟩
  -- among the common ancestors above `c`, take one with the largest Lamport time
  let time : DartString → ℕ := fun x => ((h.records.get x).map fun t => t.proof.lamport).getD 0
  obtain ⟨a, ha, hmax⟩ := Finset.exists_max_image
    ((h.commonAncestors ps).toFinset.filter fun x => h.isAncestor c x = true) time
    ⟨c, by simp [hc, isAncestor_iff, reaches_refl]⟩
  simp only [Finset.mem_filter, List.mem_toFinset, isAncestor_iff] at ha hmax
  refine ⟨a, ?_, ha.2⟩
  unfold newestCommon
  rw [List.mem_filter]
  refine ⟨ha.1, ?_⟩
  rw [Bool.not_eq_true', Bool.eq_false_iff]
  intro hany
  obtain ⟨other, hother, hboth⟩ := List.any_eq_true.mp hany
  rw [Bool.and_eq_true, decide_eq_true_eq, isAncestor_iff] at hboth
  obtain ⟨hneq, habove⟩ := hboth
  have hle := hmax other ⟨hother, Relation.ReflTransGen.trans habove ha.2⟩
  -- but a common ancestor above `a` is later than `a`
  obtain ⟨u, hu⟩ := hrecord other hother
  obtain ⟨v, hv, hor⟩ := hwf.reaches_known habove hu
  rcases hor with heq | hlt
  · exact hneq heq.symm
  · simp only [time, hu, hv, Option.map_some, Option.getD_some] at hle
    exact absurd hlt (Nat.not_lt.mpr hle)

theorem WF.map_id_parentRecords (hwf : h.WF)
    (hknown : ∀ p ∈ r.parents, ∃ record, h.records.get p = some record) :
    (h.parentRecords r).map GroupMembershipRecord.id = r.parents := by
  unfold parentRecords
  rw [map_filterMap]
  refine (filterMap_congr ?_).trans filterMap_some
  intro p hp
  obtain ⟨rp, hget⟩ := hknown p hp
  rw [hget, map_some, hwf.id_eq p rp hget]

theorem WF.get_id_parentRecords (hwf : h.WF) :
    ∀ rp ∈ h.parentRecords r, h.records.get rp.id = some rp := by
  intro rp hrp
  obtain ⟨p, -, hget⟩ := mem_parentRecords.mp hrp
  rw [hwf.id_eq p rp hget]
  exact hget

theorem WF.authority_of_ok (hwf : h.WF)
    (hknown : ∀ p ∈ r.parents, ∃ record, h.records.get p = some record)
    (hne : h.parentRecords r ≠ []) (hok : h.authorityFor (h.parentRecords r) = .ok s) :
    ∃ a, h.Authority r a ∧ h.records.get a = some s := by
  have hids := hwf.map_id_parentRecords hknown
  have hself : ∀ rp ∈ h.parentRecords r, h.records.get rp.id = some rp := hwf.get_id_parentRecords
  unfold authorityFor at hok
  split at hok
  · next parent hps =>
    rw [Except.ok.injEq] at hok
    subst hok
    rw [hps] at hids hself
    exact ⟨parent.id, .inl hids.symm, hself parent (mem_singleton_self parent)⟩
  next hmany =>
  unfold resolutionAuthority at hok
  split at hok
  swap
  · cases hok
  next newest hnewest =>
  split at hok
  swap
  · cases hok
  next record hget =>
  rw [Except.ok.injEq] at hok
  subst hok
  refine ⟨newest, .inr ⟨?_, ?_, ?_⟩, hget⟩
  · -- not empty and not a single record
    rw [← hids]
    match hps : h.parentRecords r with
    | [] => exact absurd hps hne
    | [p] => exact absurd hps (hmany p)
    | _ :: _ :: _ => simp
  · have hmem : newest ∈ h.newestCommon (h.parentRecords r) := by
      rw [hnewest]
      exact mem_singleton_self newest
    have hcommon := (mem_commonAncestors hne).mp (mem_filter.mp hmem).1
    rw [← hids]
    intro p hp
    obtain ⟨rp, hrp, rfl⟩ := mem_map.mp hp
    exact hcommon rp hrp
  · intro c hc
    rw [← hids] at hc
    have hcommon : c ∈ h.commonAncestors (h.parentRecords r) :=
      (mem_commonAncestors hne).mpr fun rp hrp => hc rp.id (mem_map_of_mem hrp)
    obtain ⟨a, ha, hac⟩ := hwf.exists_newestCommon_above hne hself hcommon
    rw [hnewest, mem_singleton] at ha
    rw [← ha]
    exact hac

/-! ### What an admin may change -/

/-- **An admin's update** of `s` to `t`. -/
structure AdminUpdate (s t : GroupMembershipRecord) : Prop where
  author_admin : s.group.roleFor t.proof.authorDeviceId = some .admin
  owner_eq : t.group.ownerDeviceId = s.group.ownerDeviceId
  title_eq : t.group.title = s.group.title
  visibility_eq : t.historyVisibility = s.historyVisibility
  removed : ∀ device ∈ s.group.activeMemberDeviceIds,
    device ∉ t.group.activeMemberDeviceIds →
      s.group.roleFor device = some .member ∨ s.group.roleFor device = some .moderator
  kept : ∀ device ∈ s.group.activeMemberDeviceIds, device ∈ t.group.activeMemberDeviceIds →
    s.group.roleFor device = t.group.roleFor device
  added : ∀ device ∈ t.group.activeMemberDeviceIds,
    device ∈ s.group.activeMemberDeviceIds ∨ t.group.roleFor device = some .member

theorem adminUpdate_of_allowed (hallowed : adminUpdateAllowed s t = true) : AdminUpdate s t := by
  unfold adminUpdateAllowed at hallowed
  dsimp only at hallowed
  split at hallowed
  · cases hallowed
  next hguard =>
  simp only [not_or, not_not] at hguard
  obtain ⟨hadmin, howner, htitle, -, hvisibility⟩ := hguard
  rw [Bool.and_eq_true, List.all_eq_true, List.all_eq_true] at hallowed
  obtain ⟨hbefore, hafter⟩ := hallowed
  refine ⟨hadmin, howner, htitle, hvisibility, ?_, ?_, ?_⟩
  · intro device hactive hgone
    have hcan := hbefore device hactive
    have hfalse : t.group.hasActiveMember device = false := by
      rw [Bool.eq_false_iff]
      exact fun htrue => hgone (GroupRecord.hasActiveMember_iff.mp htrue)
    rw [hfalse, Bool.not_false] at hcan
    exact GroupRecord.canRemoveMember_of_admin hadmin hcan
  · intro device hactive hstays
    have hsame := hbefore device hactive
    rw [GroupRecord.hasActiveMember_iff.mpr hstays, Bool.not_true] at hsame
    exact of_decide_eq_true hsame
  · intro device hactive
    have hnew := hafter device hactive
    rw [Bool.or_eq_true, GroupRecord.hasActiveMember_iff, decide_eq_true_eq] at hnew
    exact hnew

theorem AdminUpdate.role_before (hup : AdminUpdate s t) {device : DartString}
    (hrole : t.group.roleFor device = some role) (hne : role ≠ .member) :
    s.group.roleFor device = some role := by
  have hactive : device ∈ t.group.activeMemberDeviceIds := by
    rw [← GroupRecord.roleFor_isSome_iff, hrole]
    rfl
  rcases hup.added device hactive with hbefore | hmember
  · rw [hup.kept device hbefore hactive, hrole]
  · rw [hrole, some.injEq] at hmember
    exact absurd hmember hne

theorem AdminUpdate.role_after (hup : AdminUpdate s t) {device : DartString}
    (hrole : s.group.roleFor device = some role) (hhigh : role = .owner ∨ role = .admin) :
    t.group.roleFor device = some role := by
  have hactive : device ∈ s.group.activeMemberDeviceIds := by
    rw [← GroupRecord.roleFor_isSome_iff, hrole]
    rfl
  by_cases hstays : device ∈ t.group.activeMemberDeviceIds
  · rw [← hup.kept device hactive hstays, hrole]
  -- only members and moderators can be removed
  have hlow := hup.removed device hactive hstays
  rw [hrole] at hlow
  rcases hhigh with rfl | rfl <;> simp at hlow

/-! ### Every record is signed properly -/

/-- Who signed a record: the root's owner, the owner of its authority, or an admin of its single
parent. -/
inductive SignedProperly (h : GroupMembershipHistory) (r : GroupMembershipRecord) : Prop
  | root (hroot : r.parents = [])
  | owner (howner : h.OwnerSigned r)
  | admin (p : DartString) (rp : GroupMembershipRecord) (hparent : r.parents = [p])
      (hget : h.records.get p = some rp) (hup : AdminUpdate rp r)

/-- Every record of the history is signed properly. -/
def AllSigned (h : GroupMembershipHistory) : Prop :=
  ∀ id r, h.records.get id = some r → h.SignedProperly r

theorem SignedProperly.of_accepts (hwf : h.WF) (ha : Accepts crypto h r) : h.SignedProperly r := by
  obtain ⟨actor, hactor, -⟩ := ha.signed
  rcases actorFor_cases hactor with ⟨hnil, -⟩ | ⟨authority, hne, -, hauth, hsigner, -⟩
  · exact .root ((parentRecords_eq_nil_iff ha.parents_known).mp hnil)
  obtain ⟨a, hauthority, hget⟩ := hwf.authority_of_ok ha.parents_known hne hauth
  rcases hsigner with howner | ⟨hsingle, hallowed⟩
  · exact .owner ⟨a, authority, hauthority, hget, howner⟩
  -- one record for the parents means one parent
  have hids := hwf.map_id_parentRecords ha.parents_known
  rw [hsingle] at hids
  have hself : h.records.get authority.id = some authority := by
    refine hwf.get_id_parentRecords (r := r) authority ?_
    rw [hsingle]
    exact mem_singleton_self authority
  exact .admin authority.id authority hids.symm hself (adminUpdate_of_allowed hallowed)

theorem SignedProperly.accept (hwf : h.WF) (ha : Accepts crypto h r)
    (hparents : ∀ p ∈ s.parents, ∃ rp, h.records.get p = some rp) (hs : h.SignedProperly s) :
    (h.accept r).SignedProperly s := by
  have hkeep : ∀ {id u}, h.records.get id = some u → (h.accept r).records.get id = some u :=
    fun hu => (accept_get_iff ha.fresh).mpr (.inr hu)
  have hreach : ∀ p ∈ s.parents, ∀ x, (h.accept r).Reaches p x ↔ h.Reaches p x := by
    intro p hp x
    obtain ⟨rp, hget⟩ := hparents p hp
    exact reaches_agree (hwf.agreeOn_accept ha hget)
  cases hs with
  | root hroot => exact .root hroot
  | admin p rp hparent hget hup => exact .admin p rp hparent (hkeep hget) hup
  | owner howner =>
  obtain ⟨a, authority, hauthority, hget, hauthor⟩ := howner
  refine .owner ⟨a, authority, ?_, hkeep hget, hauthor⟩
  rcases hauthority with hsingle | ⟨hmany, hcommon, hnewest⟩
  · exact .inl hsingle
  refine .inr ⟨hmany, fun p hp => (hreach p hp a).mpr (hcommon p hp), ?_⟩
  intro c hc
  rw [reaches_agree (hwf.agreeOn_accept ha hget)]
  exact hnewest c fun p hp => (hreach p hp c).mp (hc p hp)

theorem AllSigned.importRecord (hall : h.AllSigned) (hwf : h.WF) (r : GroupMembershipRecord) :
    (h.importRecord crypto r).1.AllSigned := by
  rcases importRecord_cases crypto h r with ⟨ha, heq⟩ | ⟨-, heq, -⟩
  swap
  · rw [heq]
    exact hall
  rw [heq]
  intro id s hs
  rcases (accept_get_iff ha.fresh).mp hs with ⟨-, rfl⟩ | hold
  · exact (SignedProperly.of_accepts hwf ha).accept hwf ha ha.parents_known
  refine (hall id s hold).accept hwf ha ?_
  intro p hp
  obtain ⟨rp, hget, -⟩ := hwf.parent_before id s hold p hp
  exact ⟨rp, hget⟩

theorem allSigned_run (crypto : Crypto) (groupId : DartString)
    (trustedOwner : GroupMemberProfile) (offered : List GroupMembershipRecord) :
    ((machine crypto).run (initial groupId trustedOwner) offered).AllSigned := by
  refine (Machine.run_induction
    (I := fun h : GroupMembershipHistory => h.WF ∧ h.AllSigned) ?_ ?_).2
  · intro h r _ hI
    exact ⟨hI.1.importRecord r, hI.2.importRecord hI.1 r⟩
  · refine ⟨WF.initial groupId trustedOwner, ?_⟩
    intro id r hget
    cases hget

/-! ### Roles along the DAG -/

/-- **Where a role comes from**: along admin-signed records back to a root or an owner-signed
record. -/
theorem role_source (hwf : h.WF) (hall : h.AllSigned) {id device : DartString}
    (hr : h.records.get id = some r) (hrole : r.group.roleFor device = some role)
    (hne : role ≠ .member) :
    ∃ x t, h.records.get x = some t ∧ h.Reaches id x ∧ (t.parents = [] ∨ h.OwnerSigned t) ∧
      t.group.roleFor device = some role := by
  -- by induction on the Lamport time, which falls from a record to its parent
  induction hn : r.proof.lamport using Nat.strong_induction_on generalizing id r with
  | _ n ih =>
  cases hall id r hr with
  | root hroot => exact ⟨id, r, hr, reaches_refl id, .inl hroot, hrole⟩
  | owner howner => exact ⟨id, r, hr, reaches_refl id, .inr howner, hrole⟩
  | admin p rp hparent hget hup =>
  have hp : p ∈ r.parents := by rw [hparent]; exact mem_singleton_self p
  obtain ⟨rp', hget', hlt⟩ := hwf.parent_before id r hr p hp
  rw [hget, some.injEq] at hget'
  rw [← hget', hn] at hlt
  obtain ⟨x, t, hx, hreach, hsigned, hfound⟩ :=
    ih rp.proof.lamport hlt hget (hup.role_before hrole hne) rfl
  refine ⟨x, t, hx, ?_, hsigned, hfound⟩
  exact (reaches_iff_of_get hr).mpr (.inr ⟨p, hp, hreach⟩)

/-- `b` follows `a` and is signed by neither the root's owner nor the owner of its authority. -/
def AdminStep (h : GroupMembershipHistory) (a b : DartString) : Prop :=
  ∃ t, h.records.get b = some t ∧ a ∈ t.parents ∧ ¬ h.OwnerSigned t

theorem AdminStep.update (hall : h.AllSigned) (hstep : h.AdminStep a b)
    (hs : h.records.get a = some s) (ht : h.records.get b = some t) : AdminUpdate s t := by
  obtain ⟨t', ht', hparent, hnot⟩ := hstep
  rw [ht, some.injEq] at ht'
  subst ht'
  cases hall b t ht with
  | root hroot =>
    rw [hroot] at hparent
    cases hparent
  | owner howner => exact absurd howner hnot
  | admin p rp hsingle hget hup =>
    rw [hsingle, mem_singleton] at hparent
    rw [← hparent, hs, some.injEq] at hget
    rw [hget]
    exact hup

/-- What a chain of admin-signed records cannot change between its first and its last record. -/
structure NothingGained (s t : GroupMembershipRecord) : Prop where
  no_new_role : ∀ device role, t.group.roleFor device = some role → role ≠ .member →
    s.group.roleFor device = some role
  keeps_high : ∀ device role, s.group.roleFor device = some role →
    role = .owner ∨ role = .admin → t.group.roleFor device = some role
  owner_eq : t.group.ownerDeviceId = s.group.ownerDeviceId
  title_eq : t.group.title = s.group.title
  visibility_eq : t.historyVisibility = s.historyVisibility

theorem NothingGained.refl (s : GroupMembershipRecord) : NothingGained s s :=
  ⟨fun _ _ hrole _ => hrole, fun _ _ hrole _ => hrole, rfl, rfl, rfl⟩

theorem NothingGained.update (hgain : NothingGained r s) (hup : AdminUpdate s t) :
    NothingGained r t where
  no_new_role device role hrole hne :=
    hgain.no_new_role device role (hup.role_before hrole hne) hne
  keeps_high device role hrole hhigh :=
    hup.role_after (hgain.keeps_high device role hrole hhigh) hhigh
  owner_eq := hup.owner_eq.trans hgain.owner_eq
  title_eq := hup.title_eq.trans hgain.title_eq
  visibility_eq := hup.visibility_eq.trans hgain.visibility_eq

theorem AdminStep.before_known (hwf : h.WF) (hstep : h.AdminStep a b) :
    ∃ s, h.records.get a = some s := by
  obtain ⟨t, ht, hparent, -⟩ := hstep
  obtain ⟨s, hs, -⟩ := hwf.parent_before b t ht a hparent
  exact ⟨s, hs⟩

theorem nothingGained_chain (hwf : h.WF) (hall : h.AllSigned)
    (hchain : Relation.ReflTransGen h.AdminStep a b) (hs : h.records.get a = some s)
    (ht : h.records.get b = some t) : NothingGained s t := by
  induction hchain generalizing t with
  | refl =>
    rw [hs, some.injEq] at ht
    rw [← ht]
    exact NothingGained.refl s
  | @tail b c _ hstep ih =>
    obtain ⟨u, hu⟩ := hstep.before_known hwf
    exact (ih hu).update (hstep.update hall hu ht)

theorem role_stays (hwf : h.WF) (hall : h.AllSigned) {device : DartString}
    (hchain : Relation.ReflTransGen (fun x y => h.AdminStep x y ∧
      ∀ u v, h.records.get x = some u → h.records.get y = some v →
        device ∈ u.group.activeMemberDeviceIds ∧ device ∈ v.group.activeMemberDeviceIds) a b)
    (hs : h.records.get a = some s) (ht : h.records.get b = some t) :
    t.group.roleFor device = s.group.roleFor device := by
  induction hchain generalizing t with
  | refl =>
    rw [hs, some.injEq] at ht
    rw [ht]
  | @tail b c _ hstep ih =>
  obtain ⟨hadmin, hstays⟩ := hstep
  obtain ⟨u, hu⟩ := hadmin.before_known hwf
  obtain ⟨hbefore, hafter⟩ := hstays u t hu ht
  have hup := hadmin.update hall hu ht
  calc t.group.roleFor device
      = u.group.roleFor device := (hup.kept device hbefore hafter).symm
    _ = s.group.roleFor device := ih hu

/-- **No privilege escalation.** In every history that imports build, whoever is owner, admin or
moderator in a record has that role in an ancestor of it, or in itself, that is the root or was
signed by the owner of its authority. A chain of records that are not gives nobody such a role,
takes it from no owner or admin and leaves the owner, the title and the visibility as they are; and
whoever is active in every record of the chain keeps their role. -/
theorem no_privilege_escalation (crypto : Crypto) (groupId : DartString)
    (trustedOwner : GroupMemberProfile) (offered : List GroupMembershipRecord) :
    let h := (machine crypto).run (initial groupId trustedOwner) offered
    (∀ id r device role, h.records.get id = some r → r.group.roleFor device = some role →
      role ≠ .member →
      ∃ x t, h.records.get x = some t ∧ h.Reaches id x ∧ (t.parents = [] ∨ h.OwnerSigned t) ∧
        t.group.roleFor device = some role) ∧
    ∀ a b s t, h.records.get a = some s → h.records.get b = some t →
      (Relation.ReflTransGen h.AdminStep a b → NothingGained s t) ∧
      ∀ device, Relation.ReflTransGen (fun x y => h.AdminStep x y ∧
          ∀ u v, h.records.get x = some u → h.records.get y = some v →
            device ∈ u.group.activeMemberDeviceIds ∧ device ∈ v.group.activeMemberDeviceIds) a b →
        t.group.roleFor device = s.group.roleFor device := by
  intro h
  have hwf : h.WF := wf_run crypto groupId trustedOwner offered
  have hall : h.AllSigned := allSigned_run crypto groupId trustedOwner offered
  refine ⟨?_, ?_⟩
  · intro id r device role hr hrole hne
    exact role_source hwf hall hr hrole hne
  · intro a b s t hs ht
    exact ⟨fun hchain => nothingGained_chain hwf hall hchain hs ht,
      fun device hchain => role_stays hwf hall hchain hs ht⟩

end GroupMembershipHistory

namespace Sample

open GroupMembershipHistory

def invites : GroupMembershipRecord where
  proof := event byFriend 2 2 (digest 1) isDigest_one
  payload := payload (snapshot [owner, friend, guest] [friend.deviceId] 3) [digest 1]
    [(owner.deviceId, some (digest 0)), (friend.deviceId, some (digest 1)), (guest.deviceId, none)]
  kind := rfl
  checkpointsValid := by decide
  snapshotValid := by decide
  membersPinned := by decide

theorem no_privilege_escalation_invited :
    let h := (machine crypto).run (initial groupId owner) [root, admits, invites]
    (∃ x t, h.records.get x = some t ∧ h.Reaches (digest 2) x ∧
      (t.parents = [] ∨ h.OwnerSigned t) ∧ t.group.roleFor friend.deviceId = some .admin) ∧
    NothingGained admits invites := by
  intro h
  have hnot : ¬ h.OwnerSigned invites := by
    rintro ⟨a, authority, hauthority, hget, hauthor⟩
    rcases hauthority with hsingle | ⟨hmany, -⟩
    · obtain rfl : digest 1 = a := singleton_injective hsingle
      obtain rfl : admits = authority := some.inj hget
      exact absurd hauthor (by decide)
    · exact absurd hmany (by decide)
  obtain ⟨hsource, hchain⟩ :=
    no_privilege_escalation crypto groupId owner [root, admits, invites]
  refine ⟨hsource (digest 2) invites friend.deviceId .admin rfl (by decide) (by decide), ?_⟩
  refine (hchain (digest 1) (digest 2) admits invites rfl rfl).1 ?_
  exact Relation.ReflTransGen.single ⟨invites, rfl, mem_singleton_self _, hnot⟩

end Sample

end Group
end Conest
