import Conest.Lib.Dart

/-!
# Groups, members and roles

A `GroupRecord` is a snapshot of a group. Its constructor normalises what it is given: identifiers
are trimmed, blank and repeated ones are dropped, the owner is always a member and never removed,
and a role list keeps only active members other than the owner. Roles are then read off the
normalised lists.
-/

namespace Conest
namespace Group

open Lib

/-- The identity of a member: the fields that `_sameIdentity` compares, so that two profiles have
the same identity when they are equal here. -/
structure GroupMemberProfile where
  accountId : DartString
  deviceId : DartString
  publicKeyBase64 : DartString
  signingPublicKeyBase64 : Option DartString
  irohEndpointId : Option DartString
deriving DecidableEq

inductive GroupMemberRole where
  | owner
  | admin
  | moderator
  | member
deriving DecidableEq

/-- Trim, and keep the first occurrence of each identifier that is not blank; `seen` is what was
kept before. -/
def dedupeIdsFrom (seen : List DartString) : List DartString → List DartString
  | [] => []
  | id :: ids =>
    if id.trim = [] ∨ id.trim ∈ seen then dedupeIdsFrom seen ids
    else id.trim :: dedupeIdsFrom (id.trim :: seen) ids

def dedupeIds (ids : List DartString) : List DartString := dedupeIdsFrom [] ids

/-- Keep the first profile of each device. -/
def dedupeMemberProfilesFrom (seen : List DartString) :
    List GroupMemberProfile → List GroupMemberProfile
  | [] => []
  | profile :: profiles =>
    if profile.deviceId.trim = [] ∨ profile.deviceId ∈ seen then
      dedupeMemberProfilesFrom seen profiles
    else profile :: dedupeMemberProfilesFrom (profile.deviceId :: seen) profiles

def dedupeMemberProfiles (profiles : List GroupMemberProfile) : List GroupMemberProfile :=
  dedupeMemberProfilesFrom [] profiles

/-- The members of a role list: active, not the owner, and not in the list of a higher role. -/
def normalizedGroupRoleIds (ownerDeviceId : DartString)
    (memberDeviceIds removedDeviceIds roleDeviceIds excludedRoleDeviceIds : List DartString) :
    List DartString :=
  let removed := dedupeIds removedDeviceIds
  let activeMembers := (dedupeIds (ownerDeviceId :: memberDeviceIds)).filter (· ∉ removed)
  let excluded := dedupeIds excludedRoleDeviceIds
  (dedupeIds roleDeviceIds).filter fun deviceId =>
    deviceId ≠ ownerDeviceId ∧ deviceId ∈ activeMembers ∧ deviceId ∉ removed ∧
      deviceId ∉ excluded

/-- A snapshot of a group. The two times are in microseconds; only whether they are set matters
here. -/
structure GroupRecord where
  groupId : DartString
  title : DartString
  ownerDeviceId : DartString
  adminDeviceIds : List DartString
  moderatorDeviceIds : List DartString
  memberDeviceIds : List DartString
  removedDeviceIds : List DartString
  memberProfiles : List GroupMemberProfile
  membershipVersion : ℤ
  localRemovedAt : Option ℤ
  dissolvedAt : Option ℤ
deriving DecidableEq

namespace GroupRecord

/-- The constructor: the fields as they are given, with the lists normalised. -/
def normalized (given : GroupRecord) : GroupRecord where
  groupId := given.groupId
  title := given.title
  ownerDeviceId := given.ownerDeviceId
  adminDeviceIds := normalizedGroupRoleIds given.ownerDeviceId given.memberDeviceIds
    given.removedDeviceIds given.adminDeviceIds []
  moderatorDeviceIds := normalizedGroupRoleIds given.ownerDeviceId given.memberDeviceIds
    given.removedDeviceIds given.moderatorDeviceIds
    (normalizedGroupRoleIds given.ownerDeviceId given.memberDeviceIds given.removedDeviceIds
      given.adminDeviceIds [])
  memberDeviceIds := dedupeIds (given.ownerDeviceId :: given.memberDeviceIds)
  removedDeviceIds := (dedupeIds given.removedDeviceIds).filter (· ≠ given.ownerDeviceId)
  memberProfiles := dedupeMemberProfiles given.memberProfiles
  membershipVersion := given.membershipVersion
  localRemovedAt := given.localRemovedAt
  dissolvedAt := given.dissolvedAt

def isDissolved (group : GroupRecord) : Bool := group.dissolvedAt.isSome

def activeMemberDeviceIds (group : GroupRecord) : List DartString :=
  if group.isDissolved then []
  else group.memberDeviceIds.filter fun deviceId => deviceId ∉ group.removedDeviceIds

def hasActiveMember (group : GroupRecord) (deviceId : DartString) : Bool :=
  decide (deviceId ∈ group.activeMemberDeviceIds)

def roleFor (group : GroupRecord) (deviceId : DartString) : Option GroupMemberRole :=
  if !group.hasActiveMember deviceId then none
  else if deviceId = group.ownerDeviceId then some .owner
  else if deviceId ∈ group.adminDeviceIds then some .admin
  else if deviceId ∈ group.moderatorDeviceIds then some .moderator
  else some .member

def canRemoveMember (group : GroupRecord) (actorDeviceId memberDeviceId : DartString) : Bool :=
  match group.roleFor actorDeviceId, group.roleFor memberDeviceId with
  | none, _ | _, none => false
  | some actorRole, some memberRole =>
    if memberRole = .owner then false
    else if actorRole = .owner then true
    else if actorRole = .admin then decide (memberRole = .member ∨ memberRole = .moderator)
    else false

def memberProfileFor (group : GroupRecord) (deviceId : DartString) : Option GroupMemberProfile :=
  group.memberProfiles.find? fun profile => profile.deviceId == deviceId

/-! ### Roles -/

theorem hasActiveMember_iff {group : GroupRecord} {deviceId : DartString} :
    group.hasActiveMember deviceId = true ↔ deviceId ∈ group.activeMemberDeviceIds := by
  simp [hasActiveMember]

theorem roleFor_isSome_iff {group : GroupRecord} {deviceId : DartString} :
    (group.roleFor deviceId).isSome ↔ deviceId ∈ group.activeMemberDeviceIds := by
  unfold roleFor
  rw [← hasActiveMember_iff]
  cases group.hasActiveMember deviceId with
  | false => simp
  | true =>
  simp only [Bool.not_true, Bool.false_eq_true, if_false, iff_true]
  split
  · rfl
  · split
    · rfl
    · split <;> rfl

theorem canRemoveMember_of_admin {group : GroupRecord} {actor device : DartString}
    (hactor : group.roleFor actor = some .admin) (hcan : group.canRemoveMember actor device = true) :
    group.roleFor device = some .member ∨ group.roleFor device = some .moderator := by
  unfold canRemoveMember at hcan
  rw [hactor] at hcan
  cases hrole : group.roleFor device with
  | none => simp [hrole] at hcan
  | some role => cases role <;> simp_all

end GroupRecord

end Group
end Conest
