import Conest.Group.Ancestry

/-!
# Admission boundaries

An active device carries in every record the record that admitted it. `Boundaries` says that the
admission is a boundary: it is the record itself or an ancestor, and on every path between the two
the device stays active with that same admission. So a device that was removed on a path and
admitted again has a newer admission than the removal (`admission_boundaries`).

The argument is an induction over the imports. A new record either keeps the admission that all its
parents give the device, and then a record between the two lies between a parent and the admission;
or it is the admission itself, and then only the record lies between, because the DAG has no cycle.
-/

namespace Conest
namespace Group

open Lib List Option

namespace GroupMembershipHistory

variable {crypto : Crypto} {h : GroupMembershipHistory} {r : GroupMembershipRecord}

/-- From the record `a` to the record `id`, on every path, the device is active and was admitted
by `a`. -/
structure AdmittedSince (h : GroupMembershipHistory) (id device a : DartString) : Prop where
  known : ∃ s, h.records.get a = some s
  ancestor : h.Reaches id a
  between : ∀ x t, h.records.get x = some t → h.Reaches id x → h.Reaches x a →
    device ∈ t.group.activeMemberDeviceIds ∧ t.admissions.get device = some a

/-- **Every admission is a boundary.** -/
def Boundaries (h : GroupMembershipHistory) : Prop :=
  ∀ id r, h.records.get id = some r → ∀ device ∈ r.group.activeMemberDeviceIds,
    ∃ a, r.admissions.get device = some a ∧ h.AdmittedSince id device a

theorem expectedAdmission_cases (h : GroupMembershipHistory) (r : GroupMembershipRecord)
    (device : DartString) :
    h.expectedAdmission r device = r.id ∨
      h.parentRecords r ≠ [] ∧ ∀ rp ∈ h.parentRecords r,
        rp.admissions.get device = some (h.expectedAdmission r device) := by
  unfold expectedAdmission
  split
  · next admission hprior =>
    refine .inr ⟨?_, ?_⟩
    · intro hnil
      rw [hnil] at hprior
      simp at hprior
    intro rp hrp
    have hmem : rp.admissions.get device ∈
        ((h.parentRecords r).map fun parent => parent.admissions.get device).dedup :=
      mem_dedup.mpr (mem_map_of_mem hrp)
    rw [hprior] at hmem
    exact mem_singleton.mp hmem
  · exact .inl rfl

theorem AdmittedSince.accept (hwf : h.WF) (ha : Accepts crypto h r) {id device a : DartString}
    {s : GroupMembershipRecord} (hs : h.records.get id = some s)
    (hsince : h.AdmittedSince id device a) : (h.accept r).AdmittedSince id device a := by
  have hagree := hwf.agreeOn_accept ha hs
  obtain ⟨t, ht⟩ := hsince.known
  refine ⟨⟨t, (accept_get_iff ha.fresh).mpr (.inr ht)⟩, ?_, ?_⟩
  · exact (reaches_agree hagree).mpr hsince.ancestor
  intro x u hx hidx hxa
  -- what lies below an old record is old
  have hidx' := (reaches_agree hagree).mp hidx
  have hxa' := (reaches_agree (hagree.below hidx')).mp hxa
  rw [hagree x hidx'] at hx
  exact hsince.between x u hx hidx' hxa'

theorem admittedSince_self (hwf : h.WF) {id device : DartString} (hget : h.records.get id = some r)
    (hactive : device ∈ r.group.activeMemberDeviceIds)
    (hadmission : r.admissions.get device = some id) : h.AdmittedSince id device id := by
  refine ⟨⟨r, hget⟩, reaches_refl id, ?_⟩
  intro x t hx hidx hxid
  obtain rfl : id = x := hwf.reaches_antisymm hidx hxid hget
  rw [hget, some.injEq] at hx
  rw [← hx]
  exact ⟨hactive, hadmission⟩

theorem admittedSince_of_parents {id device a : DartString} (hget : h.records.get id = some r)
    (hne : r.parents ≠ []) (hactive : device ∈ r.group.activeMemberDeviceIds)
    (hadmission : r.admissions.get device = some a)
    (hparents : ∀ p ∈ r.parents, h.AdmittedSince p device a) : h.AdmittedSince id device a := by
  obtain ⟨p, hp⟩ := exists_mem_of_ne_nil r.parents hne
  refine ⟨(hparents p hp).known, ?_, ?_⟩
  · exact (reaches_iff_of_get hget).mpr (.inr ⟨p, hp, (hparents p hp).ancestor⟩)
  intro x t hx hidx hxa
  rcases (reaches_iff_of_get hget).mp hidx with rfl | ⟨q, hq, hqx⟩
  · rw [hget, some.injEq] at hx
    rw [← hx]
    exact ⟨hactive, hadmission⟩
  · exact (hparents q hq).between x t hx hqx hxa

theorem Boundaries.accept (hbound : h.Boundaries) (hwf : h.WF) (ha : Accepts crypto h r) :
    (h.accept r).Boundaries := by
  intro id s hs device hactive
  rcases (accept_get_iff ha.fresh).mp hs with ⟨rfl, rfl⟩ | hold
  swap
  · obtain ⟨a, hadmission, hsince⟩ := hbound id s hold device hactive
    exact ⟨a, hadmission, hsince.accept hwf ha hold⟩
  obtain ⟨profile, hprofile⟩ := GroupMembershipRecord.exists_memberProfileFor hactive
  obtain ⟨-, hadmission⟩ := (checkMember_ok_iff hprofile).mp (ha.members device hactive)
  refine ⟨h.expectedAdmission s device, hadmission, ?_⟩
  rcases expectedAdmission_cases h s device with hself | ⟨hne, hprior⟩
  · rw [hself] at hadmission ⊢
    exact admittedSince_self (hwf.accept ha) hs hactive hadmission
  refine admittedSince_of_parents hs ?_ hactive hadmission ?_
  · exact fun hnil => hne ((parentRecords_eq_nil_iff ha.parents_known).mpr hnil)
  intro p hp
  -- a parent that gives the device an admission has it active, and the boundary is the parent's
  obtain ⟨rp, hget⟩ := ha.parents_known p hp
  have hgiven := hprior rp (mem_parentRecords.mpr ⟨p, hp, hget⟩)
  have hactive' : device ∈ rp.group.activeMemberDeviceIds := by
    rw [← GroupMembershipRecord.admissions_get_isSome_iff, hgiven]
    rfl
  obtain ⟨a, hadm, hsince⟩ := hbound p rp hget device hactive'
  rw [hgiven, some.injEq] at hadm
  rw [hadm]
  exact hsince.accept hwf ha hget

theorem Boundaries.importRecord (hbound : h.Boundaries) (hwf : h.WF) (r : GroupMembershipRecord) :
    (h.importRecord crypto r).1.Boundaries := by
  rcases importRecord_cases crypto h r with ⟨ha, heq⟩ | ⟨-, heq, -⟩
  · rw [heq]
    exact hbound.accept hwf ha
  · rw [heq]
    exact hbound

theorem boundaries_run (crypto : Crypto) (groupId : DartString)
    (trustedOwner : GroupMemberProfile) (offered : List GroupMembershipRecord) :
    ((machine crypto).run (initial groupId trustedOwner) offered).Boundaries := by
  refine (Machine.run_induction (I := fun h : GroupMembershipHistory => h.WF ∧ h.Boundaries) ?_ ?_).2
  · intro h r _ hI
    exact ⟨hI.1.importRecord r, hI.2.importRecord hI.1 r⟩
  · refine ⟨WF.initial groupId trustedOwner, ?_⟩
    intro id r hget
    cases hget

/-- **Admission boundaries.** In every history that imports build, the admission of a device that
is active in a record names a record, which is that record or an ancestor of it. In every record on
a path between the two the device is active with the same admission; so on a path on which the
device was removed, the admission is newer than the removal. -/
theorem admission_boundaries (crypto : Crypto) (groupId : DartString)
    (trustedOwner : GroupMemberProfile) (offered : List GroupMembershipRecord) (id : DartString)
    (r : GroupMembershipRecord)
    (hr : ((machine crypto).run (initial groupId trustedOwner) offered).records.get id = some r)
    (device : DartString) (hactive : device ∈ r.group.activeMemberDeviceIds) :
    let h := (machine crypto).run (initial groupId trustedOwner) offered
    ∃ a admitting, r.admissions.get device = some a ∧ h.records.get a = some admitting ∧
      h.Reaches id a ∧
      (∀ x t, h.records.get x = some t → h.Reaches id x → h.Reaches x a →
        device ∈ t.group.activeMemberDeviceIds ∧ t.admissions.get device = some a) ∧
      ∀ x t, h.records.get x = some t → h.Reaches id x →
        device ∉ t.group.activeMemberDeviceIds → ¬ h.Reaches x a := by
  intro h
  obtain ⟨a, hadmission, hsince⟩ := boundaries_run crypto groupId trustedOwner offered id r hr
    device hactive
  obtain ⟨admitting, hget⟩ := hsince.known
  refine ⟨a, admitting, hadmission, hget, hsince.ancestor, hsince.between, ?_⟩
  intro x t hx hidx hgone hxa
  exact hgone (hsince.between x t hx hidx hxa).1

end GroupMembershipHistory

namespace Sample

open GroupMembershipHistory

def removes : GroupMembershipRecord where
  proof := event byOwner 2 2 (digest 1) isDigest_one
  payload := payload (snapshot [owner] [] 3) [digest 1] [(owner.deviceId, some (digest 0))]
  kind := rfl
  checkpointsValid := by decide
  snapshotValid := by decide
  membersPinned := by decide

def readmits : GroupMembershipRecord where
  proof := event byOwner 3 3 (digest 2) isDigest_two
  payload := payload (snapshot [owner, friend] [] 4) [digest 2]
    [(owner.deviceId, some (digest 0)), (friend.deviceId, none)]
  kind := rfl
  checkpointsValid := by decide
  snapshotValid := by decide
  membersPinned := by decide

theorem admission_boundaries_readmitted :
    let h := (machine crypto).run (initial groupId owner) [root, admits, removes, readmits]
    ∃ a admitting, readmits.admissions.get friend.deviceId = some a ∧
      h.records.get a = some admitting ∧ h.Reaches (digest 3) a ∧
      (∀ x t, h.records.get x = some t → h.Reaches (digest 3) x → h.Reaches x a →
        friend.deviceId ∈ t.group.activeMemberDeviceIds ∧
          t.admissions.get friend.deviceId = some a) ∧
      ∀ x t, h.records.get x = some t → h.Reaches (digest 3) x →
        friend.deviceId ∉ t.group.activeMemberDeviceIds → ¬ h.Reaches x a :=
  admission_boundaries crypto groupId owner [root, admits, removes, readmits] (digest 3) readmits
    rfl friend.deviceId (by decide)

end Sample

end Group
end Conest
