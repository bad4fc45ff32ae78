import Conest.Lib.FMap
import Conest.Group.Event
import Conest.Group.Roles

/-!
# Membership records

A membership event carries a snapshot of the group, the records it follows (its parents), the
visibility of history, the admission of each active device and checkpoints of authors' chains.
`MembershipPayload` is that payload once its JSON is read, and `GroupMembershipRecord.fromEvent`
the checks that turn an event into a record. A record carries what the checks establish, so a
record that fails one cannot be built.
-/

namespace Conest
namespace Group

open Lib List

inductive GroupHistoryVisibility where
  | allRetained
  | sinceAdmission
deriving DecidableEq

/-- How far an author's chain was known when a record was signed. -/
structure GroupHistoryCheckpoint where
  sequence : ℤ
  eventId : DartString
deriving DecidableEq

namespace GroupHistoryCheckpoint

def isValid (checkpoint : GroupHistoryCheckpoint) : Bool :=
  decide (1 ≤ checkpoint.sequence) && decide (checkpoint.sequence ≤ groupEventMaxCounter) &&
    checkpoint.eventId.isDigest

end GroupHistoryCheckpoint

/-- The payload of a membership event, read from its JSON. `group` is the snapshot as it is given,
and an admission that names no record stands for the event's own. -/
structure MembershipPayload where
  group : GroupRecord
  parents : List DartString
  historyVisibility : GroupHistoryVisibility
  admissions : FMap DartString (Option DartString)
  checkpoints : FMap DartString GroupHistoryCheckpoint

namespace MembershipPayload

variable (data : MembershipPayload)

/-- The devices active in the snapshot. -/
def active : List DartString := data.group.normalized.activeMemberDeviceIds

def checkpointsValid : Bool :=
  decide (∀ author ∈ data.checkpoints.keys,
    (data.checkpoints.get author).map GroupHistoryCheckpoint.isValid = some true)

/-- The bounds on a snapshot, and that exactly the active devices have an admission. -/
def snapshotValid (proof : GroupHistoryEvent) : Bool :=
  let group := data.group.normalized
  decide (data.parents.length ≤ 16) && decide data.parents.Nodup &&
    data.parents.all DartString.isDigest && decide (data.checkpoints.size ≤ 256) &&
    decide (group.groupId = proof.groupId) && decide (1 ≤ group.membershipVersion) &&
    decide (data.active.length ≤ 16) && decide (group.memberProfiles.length ≤ 256) &&
    group.localRemovedAt.isNone && decide (data.admissions.size = data.active.toFinset.card) &&
    data.active.all data.admissions.contains &&
    decide (∀ device ∈ data.admissions.keys,
      (data.admissions.get device).map (fun admission =>
        (admission.getD proof.eventId).isDigest) = some true)

/-- Whether a member's signing key and transport key are 32 bytes each, and its endpoint is the
signing key in hexadecimal. -/
def memberPinned (member : GroupMemberProfile) : Bool :=
  match member.signingPublicKeyBase64.bind DartString.base64Decode,
    member.publicKeyBase64.base64Decode with
  | some signingKey, some publicKey =>
    signingKey.length == 32 && publicKey.length == 32 &&
      member.irohEndpointId == some (DartString.hex signingKey)
  | _, _ => false

def membersPinned : Bool :=
  data.active.all fun device =>
    (data.group.normalized.memberProfileFor device).any memberPinned

end MembershipPayload

/-- Owner- or admin-signed membership evidence. -/
structure GroupMembershipRecord where
  proof : GroupHistoryEvent
  payload : MembershipPayload
  kind : proof.kind = .membership
  checkpointsValid : payload.checkpointsValid = true
  snapshotValid : payload.snapshotValid proof = true
  membersPinned : payload.membersPinned = true

namespace GroupMembershipRecord

/-- The record of a membership event. Where `base64Decode` throws, the source's exception is that
of `dart:convert`; it is the last one here. -/
def fromEvent (proof : GroupHistoryEvent) (data : MembershipPayload) :
    Except String GroupMembershipRecord :=
  if kind : proof.kind = .membership then
    if checkpoints : data.checkpointsValid = true then
      if snapshot : data.snapshotValid proof = true then
        if pinned : data.membersPinned = true then
          .ok ⟨proof, data, kind, checkpoints, snapshot, pinned⟩
        else .error "Membership requires pinned signing and transport identities."
      else .error "Invalid membership snapshot."
    else .error "Invalid admission checkpoint."
  else .error "Expected a signed membership event."

section Fields

variable (record : GroupMembershipRecord)

def id : DartString := record.proof.eventId

def group : GroupRecord := record.payload.group.normalized

def parents : List DartString := record.payload.parents

def historyVisibility : GroupHistoryVisibility := record.payload.historyVisibility

/-- The record that admitted each active device. -/
def admissions : FMap DartString DartString :=
  record.payload.admissions.map fun admission => admission.getD record.proof.eventId

def checkpoints : FMap DartString GroupHistoryCheckpoint := record.payload.checkpoints

end Fields

variable {record : GroupMembershipRecord}

theorem admissions_get_isSome_iff {device : DartString} :
    (record.admissions.get device).isSome ↔ device ∈ record.group.activeMemberDeviceIds := by
  have hvalid := record.snapshotValid
  unfold MembershipPayload.snapshotValid at hvalid
  simp only [Bool.and_eq_true, decide_eq_true_eq, all_eq_true] at hvalid
  obtain ⟨⟨⟨-, hsize⟩, hall⟩, -⟩ := hvalid
  -- the active devices are among the keys and there are as many of them
  have hsub : record.payload.active.toFinset ⊆ record.payload.admissions.keys := by
    intro d hd
    rw [FMap.mem_keys]
    exact hall d (mem_toFinset.mp hd)
  have heq : record.payload.active.toFinset = record.payload.admissions.keys :=
    Finset.eq_of_subset_of_card_le hsub (Nat.le_of_eq hsize)
  unfold admissions
  rw [FMap.get_map, Option.isSome_map, ← FMap.mem_keys, ← heq, mem_toFinset]
  rfl

theorem exists_memberProfileFor {device : DartString}
    (hactive : device ∈ record.group.activeMemberDeviceIds) :
    ∃ profile, record.group.memberProfileFor device = some profile := by
  have hpinned := record.membersPinned
  have hdevice := all_eq_true.mp hpinned device hactive
  obtain ⟨profile, hprofile, -⟩ := (Option.any_eq_true _ _).mp hdevice
  exact ⟨profile, hprofile⟩

end GroupMembershipRecord

end Group
end Conest
