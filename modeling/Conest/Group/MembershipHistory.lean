import Conest.Lib.Dag
import Conest.Lib.Machine
import Conest.Group.Records

/-!
# The membership history

`GroupMembershipHistory` is the DAG of the records that one device has accepted for a group: the
records by identifier, the heads (records that no record follows) and the identity pinned for each
device. `importRecord` is `_import`, its checks in the order of the source, with the texts of its
exceptions; a record that fails a check leaves the history as it is.

`Accepts` lists what an accepted record has passed: a record is accepted exactly when it holds, and
otherwise the history stays as it is (`importRecord_cases`). `actorFor_cases` says who can have
signed an accepted record: the approved owner a root, the owner of the authority any other, and an
admin an update of a single parent.
-/

namespace Conest
namespace Group

open Lib

inductive GroupMembershipImport where
  | accepted
  | duplicate
  | missingParents
deriving DecidableEq

/-- The membership DAG of one group, as one device holds it. -/
structure GroupMembershipHistory where
  groupId : DartString
  trustedOwner : GroupMemberProfile
  records : FMap DartString GroupMembershipRecord
  heads : Finset DartString
  identities : FMap DartString GroupMemberProfile

/-- What a null assertion on a missing value throws. -/
def nullCheckError : String := "Null check operator used on a null value"

namespace GroupMembershipHistory

/-- The history before any import. -/
def initial (groupId : DartString) (trustedOwner : GroupMemberProfile) :
    GroupMembershipHistory where
  groupId := groupId
  trustedOwner := trustedOwner
  records := FMap.empty
  heads := ∅
  identities := FMap.empty

/-! ### The DAG -/

section Dag

variable (h : GroupMembershipHistory)

/-- The parents of a record, none where the record is unknown. -/
def parentsOf (id : DartString) : List DartString :=
  match h.records.get id with
  | some record => record.parents
  | none => []

/-- A record and all its ancestors, in the order in which the worklist meets them. -/
def ancestors (id : DartString) : List DartString :=
  Dag.ancestors h.parentsOf h.records.keys id

def isAncestor (ancestor descendant : DartString) : Bool :=
  decide (ancestor ∈ h.ancestors descendant)

/-- The records of the parents of an incoming record. -/
def parentRecords (incoming : GroupMembershipRecord) : List GroupMembershipRecord :=
  incoming.parents.filterMap h.records.get

/-- The ancestors that all of the records share. -/
def commonAncestors : List GroupMembershipRecord → List DartString
  | [] => []
  | first :: rest =>
    rest.foldl (fun common parent => common.filter (· ∈ h.ancestors parent.id))
      (h.ancestors first.id)

/-- The shared ancestors that are no ancestors of another shared one. -/
def newestCommon (parents : List GroupMembershipRecord) : List DartString :=
  (h.commonAncestors parents).filter fun id =>
    !(h.commonAncestors parents).any fun other => decide (other ≠ id) && h.isAncestor id other

def resolutionAuthority (parents : List GroupMembershipRecord) :
    Except String GroupMembershipRecord :=
  match h.newestCommon parents with
  | [newest] =>
    match h.records.get newest with
    | some record => .ok record
    | none => .error nullCheckError
  | _ => .error "Ambiguous membership resolution authority."

/-- The record whose roles decide: the parent, or for several parents their newest common
ancestor. -/
def authorityFor (parents : List GroupMembershipRecord) : Except String GroupMembershipRecord :=
  match parents with
  | [parent] => .ok parent
  | _ => h.resolutionAuthority parents

end Dag

/-! ### Who may sign -/

/-- Whether an admin may turn `before` into `after`. -/
def adminUpdateAllowed (before after : GroupMembershipRecord) : Bool :=
  let previous := before.group
  let next := after.group
  let author := after.proof.authorDeviceId
  if previous.roleFor author ≠ some .admin ∨ next.ownerDeviceId ≠ previous.ownerDeviceId ∨
      next.title ≠ previous.title ∨ next.isDissolved ∨
      after.historyVisibility ≠ before.historyVisibility then false
  else
    (previous.activeMemberDeviceIds.all fun device =>
      if !next.hasActiveMember device then previous.canRemoveMember author device
      else decide (previous.roleFor device = next.roleFor device)) &&
    next.activeMemberDeviceIds.all fun device =>
      previous.hasActiveMember device || decide (next.roleFor device = some .member)

/-- The largest membership version among the parents. -/
def maxVersion : List GroupMembershipRecord → ℤ
  | [] => 0
  | first :: rest =>
    rest.foldl (fun a parent =>
      if a > parent.group.membershipVersion then a else parent.group.membershipVersion)
      first.group.membershipVersion

/-- The reference, the Lamport time and the version of a record against its parents. -/
def parentsValid (incoming : GroupMembershipRecord) (parents : List GroupMembershipRecord) : Bool :=
  decide (incoming.parents.head? = some incoming.proof.membershipId) &&
    (parents.all fun parent => decide (parent.proof.lamport < incoming.proof.lamport)) &&
    (parents.all fun parent => !parent.group.isDissolved) &&
    decide (incoming.group.membershipVersion = maxVersion parents + 1)

section Import

variable (crypto : Crypto) (h : GroupMembershipHistory)

def rootAnchored (incoming : GroupMembershipRecord) : Bool :=
  decide (h.records.keys = ∅) && decide (incoming.group.ownerDeviceId = h.trustedOwner.deviceId) &&
    !incoming.group.isDissolved &&
    decide (incoming.proof.membershipId =
      crypto.rootReference h.groupId (h.trustedOwner.signingPublicKeyBase64.getD []))

/-- The profile of the one who must have signed: the approved owner for a root, and a member of the
authority otherwise. -/
def actorFor (incoming : GroupMembershipRecord) : Except String (Option GroupMemberProfile) :=
  let parents := h.parentRecords incoming
  if parents.isEmpty then
    if h.rootAnchored crypto incoming then .ok (some h.trustedOwner)
    else .error "Membership root is not anchored to the approved owner."
  else if !parentsValid incoming parents then .error "Invalid membership parent/version."
  else
    match h.authorityFor parents with
    | .error e => .error e
    | .ok authority =>
      let author := incoming.proof.authorDeviceId
      let ownerAction := decide (author = authority.group.ownerDeviceId)
      if parents.length > 1 && !ownerAction then
        .error "Conflicting membership requires an owner-signed resolution."
      else if !ownerAction && !adminUpdateAllowed authority incoming then
        .error "Unauthorized membership change."
      else if incoming.group.ownerDeviceId ≠ authority.group.ownerDeviceId ∧
          ¬ parents.any fun parent => parent.group.hasActiveMember incoming.group.ownerDeviceId then
        .error "Ownership may only pass to an existing member."
      else if parents.any fun parent =>
          parents.any fun other => decide (other.id ≠ parent.id) && h.isAncestor parent.id other.id
          then
        .error "Redundant membership resolution parent."
      else .ok (authority.group.memberProfileFor author)

/-- Whether the actor has a signing key and signed the record with it. -/
def signedBy (incoming : GroupMembershipRecord) (actor : Option GroupMemberProfile) : Bool :=
  match actor with
  | none => false
  | some profile =>
    match profile.signingPublicKeyBase64 with
    | none => false
    | some key =>
      incoming.proof.verify crypto h.groupId profile.accountId profile.deviceId key

/-- The identity that a device is held to. -/
def pinnedIdentity (device : DartString) : Option GroupMemberProfile :=
  if device = h.trustedOwner.deviceId then some h.trustedOwner else h.identities.get device

/-- The admission that a record must give a device: the one that all parents give it, and the
record itself where they differ or one of them does not have the device. -/
def expectedAdmission (incoming : GroupMembershipRecord) (device : DartString) : DartString :=
  match ((h.parentRecords incoming).map fun parent => parent.admissions.get device).dedup with
  | [some admission] => admission
  | _ => incoming.id

/-- The checks on one active device. -/
def checkMember (incoming : GroupMembershipRecord) (device : DartString) : Except String Unit :=
  match incoming.group.memberProfileFor device with
  | none => .error nullCheckError
  | some profile =>
    if h.pinnedIdentity device ≠ none ∧ h.pinnedIdentity device ≠ some profile then
      .error "Membership cannot replace a pinned identity."
    else if incoming.admissions.get device ≠ some (h.expectedAdmission incoming device) then
      .error "An admission boundary cannot change for an existing member."
    else .ok ()

/-- The checks on the active devices, up to the first that fails. -/
def checkMembers (incoming : GroupMembershipRecord) : List DartString → Except String Unit
  | [] => .ok ()
  | device :: devices =>
    match h.checkMember incoming device with
    | .error e => .error e
    | .ok () => checkMembers incoming devices

/-- Pin the identity of each active device. -/
def pinIdentities (group : GroupRecord) (identities : FMap DartString GroupMemberProfile) :
    FMap DartString GroupMemberProfile :=
  group.activeMemberDeviceIds.foldl (fun pins device =>
    match group.memberProfileFor device with
    | some profile => pins.insert device profile
    | none => pins) identities

/-- The history with the record in it. -/
def accept (incoming : GroupMembershipRecord) : GroupMembershipHistory :=
  { h with
    records := h.records.insert incoming.id incoming
    heads := insert incoming.id (h.heads \ incoming.parents.toFinset)
    identities := pinIdentities incoming.group h.identities }

def importRecord (incoming : GroupMembershipRecord) :
    GroupMembershipHistory × Except String GroupMembershipImport :=
  if incoming.proof.groupId ≠ h.groupId then (h, .error "Membership belongs to another group.")
  else if h.records.contains incoming.id then (h, .ok .duplicate)
  else if incoming.parents.any fun id => !h.records.contains id then (h, .ok .missingParents)
  else
    match h.actorFor crypto incoming with
    | .error e => (h, .error e)
    | .ok actor =>
      if !h.signedBy crypto incoming actor then
        (h, .error "Invalid membership author signature.")
      else
        match h.checkMembers incoming incoming.group.activeMemberDeviceIds with
        | .error e => (h, .error e)
        | .ok () => (h.accept incoming, .ok .accepted)

end Import

/-- A history as a machine that imports one record at a time. -/
def machine (crypto : Crypto) :
    Machine GroupMembershipHistory GroupMembershipRecord (Except String GroupMembershipImport) where
  step h incoming := h.importRecord crypto incoming

/-! ### What an accepted record has passed -/

/-- **What acceptance needs.** -/
structure Accepts (crypto : Crypto) (h : GroupMembershipHistory) (r : GroupMembershipRecord) :
    Prop where
  groupId_eq : r.proof.groupId = h.groupId
  fresh : h.records.get r.id = none
  parents_known : ∀ p ∈ r.parents, ∃ record, h.records.get p = some record
  signed : ∃ actor, h.actorFor crypto r = .ok actor ∧ h.signedBy crypto r actor = true
  members : ∀ device ∈ r.group.activeMemberDeviceIds, h.checkMember r device = .ok ()

variable {crypto : Crypto} {h : GroupMembershipHistory} {r : GroupMembershipRecord}

theorem checkMembers_ok_iff {devices : List DartString} :
    h.checkMembers r devices = .ok () ↔ ∀ device ∈ devices, h.checkMember r device = .ok () := by
  induction devices with
  | nil => simp [checkMembers]
  | cons device devices ih =>
  unfold checkMembers
  rw [List.forall_mem_cons, ← ih]
  cases hcheck : h.checkMember r device with
  | error e => simp
  | ok u => simp

/-- **Acceptance.** A record is accepted exactly when it passes every check, and otherwise the
history stays as it is. -/
theorem importRecord_cases (crypto : Crypto) (h : GroupMembershipHistory)
    (r : GroupMembershipRecord) :
    (Accepts crypto h r ∧ h.importRecord crypto r = (h.accept r, .ok .accepted)) ∨
      (¬ Accepts crypto h r ∧ (h.importRecord crypto r).1 = h ∧
        (h.importRecord crypto r).2 ≠ .ok .accepted) := by
  unfold importRecord
  by_cases hgroup : r.proof.groupId = h.groupId
  swap
  · rw [if_pos hgroup]
    exact .inr ⟨fun ha => hgroup ha.groupId_eq, rfl, by simp⟩
  rw [if_neg (not_not_intro hgroup)]
  cases hfresh : h.records.get r.id with
  | some record =>
    rw [if_pos (by simp [FMap.contains, hfresh])]
    refine .inr ⟨fun ha => ?_, rfl, by simp⟩
    have hnone := ha.fresh
    rw [hfresh] at hnone
    cases hnone
  | none =>
  rw [if_neg (by simp [FMap.contains, hfresh])]
  have hknown : (r.parents.any fun id => !h.records.contains id) = true ↔
      ¬ ∀ p ∈ r.parents, ∃ record, h.records.get p = some record := by
    simp [FMap.contains, Option.eq_none_iff_forall_ne_some]
  by_cases hparents : ∀ p ∈ r.parents, ∃ record, h.records.get p = some record
  swap
  · rw [if_pos (hknown.mpr hparents)]
    exact .inr ⟨fun ha => hparents ha.parents_known, rfl, by simp⟩
  rw [if_neg (fun hany => hknown.mp hany hparents)]
  cases hactor : h.actorFor crypto r with
  | error e =>
    refine .inr ⟨fun ha => ?_, rfl, by simp⟩
    obtain ⟨actor, hok, -⟩ := ha.signed
    rw [hactor] at hok
    cases hok
  | ok actor =>
  cases hsigned : h.signedBy crypto r actor with
  | false =>
    refine .inr ⟨fun ha => ?_, by simp [hsigned], by simp [hsigned]⟩
    obtain ⟨actor', hok, hsig⟩ := ha.signed
    rw [hactor, Except.ok.injEq] at hok
    rw [← hok, hsigned] at hsig
    cases hsig
  | true =>
  simp only [hsigned, Bool.not_true, Bool.false_eq_true, if_false]
  cases hmembers : h.checkMembers r r.group.activeMemberDeviceIds with
  | error e =>
    refine .inr ⟨fun ha => ?_, rfl, by simp⟩
    have hok := checkMembers_ok_iff.mpr ha.members
    rw [hmembers] at hok
    cases hok
  | ok u =>
    refine .inl ⟨⟨hgroup, hfresh, hparents, ⟨actor, hactor, hsigned⟩, ?_⟩, rfl⟩
    exact checkMembers_ok_iff.mp hmembers

theorem importRecord_of_accepts (ha : Accepts crypto h r) :
    h.importRecord crypto r = (h.accept r, .ok .accepted) := by
  rcases importRecord_cases crypto h r with ⟨-, heq⟩ | ⟨hnot, -⟩
  · exact heq
  · exact absurd ha hnot

/-! ### Who signed -/

/-- **Who may have signed.** A root is the approved owner's. Any other record is by the owner of
its authority, or it has one parent and is an update that an admin may make. -/
theorem actorFor_cases {actor : Option GroupMemberProfile}
    (hok : h.actorFor crypto r = .ok actor) :
    (h.parentRecords r = [] ∧ h.rootAnchored crypto r = true ∧ actor = some h.trustedOwner) ∨
      ∃ authority, h.parentRecords r ≠ [] ∧ parentsValid r (h.parentRecords r) = true ∧
        h.authorityFor (h.parentRecords r) = .ok authority ∧
        (r.proof.authorDeviceId = authority.group.ownerDeviceId ∨
          h.parentRecords r = [authority] ∧ adminUpdateAllowed authority r = true) ∧
        actor = authority.group.memberProfileFor r.proof.authorDeviceId := by
  unfold actorFor at hok
  by_cases hnil : (h.parentRecords r).isEmpty = true
  · rw [if_pos hnil] at hok
    by_cases hroot : h.rootAnchored crypto r = true
    · rw [if_pos hroot, Except.ok.injEq] at hok
      exact .inl ⟨List.isEmpty_iff.mp hnil, hroot, hok.symm⟩
    · rw [if_neg hroot] at hok
      cases hok
  rw [if_neg hnil] at hok
  by_cases hvalid : parentsValid r (h.parentRecords r) = true
  swap
  · rw [if_pos (by simpa using hvalid)] at hok
    cases hok
  rw [if_neg (by simp [hvalid])] at hok
  cases hauth : h.authorityFor (h.parentRecords r) with
  | error e => simp [hauth] at hok
  | ok authority =>
  simp only [hauth] at hok
  refine .inr ⟨authority, fun heq => hnil (by simp [heq]), hvalid, rfl, ?_⟩
  -- the four guards after the authority is known
  split at hok
  · cases hok
  next hsingle =>
  split at hok
  · cases hok
  next hallowed =>
  split at hok
  · cases hok
  split at hok
  · cases hok
  rw [Except.ok.injEq] at hok
  refine ⟨?_, hok.symm⟩
  by_cases howner : r.proof.authorDeviceId = authority.group.ownerDeviceId
  · exact .inl howner
  simp only [howner, decide_false, Bool.not_false, Bool.and_true, decide_eq_true_eq,
    Bool.true_and, Bool.not_eq_true', Bool.not_eq_false] at hsingle hallowed
  refine .inr ⟨?_, hallowed⟩
  -- a single parent is its own authority
  match hps : h.parentRecords r with
  | [] => simp [hps] at hnil
  | [p] =>
    simp only [hps, authorityFor, Except.ok.injEq] at hauth
    rw [hauth]
  | p :: q :: rest => simp [hps] at hsingle

end GroupMembershipHistory

/-! ### A small group

Values to evaluate the model on: an owner, a friend and a guest, with events whose digests are runs
of one digit. -/

namespace Sample

instance instNeZeroTen : NeZero 10 := ⟨by decide⟩

def digest (n : Fin 10) : DartString := List.replicate 64 (Fin.ofNat 65536 (48 + n))

theorem isDigest_digest (n : Fin 10) : (digest n).isDigest = true := by
  revert n
  decide

theorem isDigest_zero : (digest 0).isDigest = true := isDigest_digest 0

theorem isDigest_one : (digest 1).isDigest = true := isDigest_digest 1

theorem isDigest_two : (digest 2).isDigest = true := isDigest_digest 2

def key (group last : String) : DartString :=
  (List.replicate 10 (DartString.ofString group)).flatten ++ DartString.ofString last

def profile (account device group last byte : String) : GroupMemberProfile where
  accountId := DartString.ofString account
  deviceId := DartString.ofString device
  publicKeyBase64 := key group last
  signingPublicKeyBase64 := some (key group last)
  irohEndpointId := some (List.replicate 32 (DartString.ofString byte)).flatten

def owner : GroupMemberProfile := profile "oa" "od" "AAAA" "AAA=" "00"

def friend : GroupMemberProfile := profile "fa" "fd" "BAQE" "BAQ=" "04"

def guest : GroupMemberProfile := profile "ga" "gd" "CAgI" "CAg=" "08"

def groupId : DartString := DartString.ofString "g"

def crypto : Crypto where
  verifyEd25519Signature _ := true
  rootReference _ _ :=
    DartString.ofString "cbbd90393e7df7eccfbf7c4fc462c13b0bab62d290a3023b71f18bb90fab0e41"

structure Author where
  profile : GroupMemberProfile
  identity : isIdentity profile.accountId ∧ isIdentity profile.deviceId
  key_length : ((profile.signingPublicKeyBase64.getD []).base64Decode.map List.length) = some 32

def byOwner : Author := ⟨owner, by decide, by decide⟩

def byFriend : Author := ⟨friend, by decide, by decide⟩

def event (author : Author) (n : Fin 10) (time : Fin 10) (membershipId : DartString)
    (hdigest : membershipId.isDigest = true) : GroupHistoryEvent where
  eventId := digest n
  groupId := groupId
  authorAccountId := author.profile.accountId
  authorDeviceId := author.profile.deviceId
  signingPublicKeyBase64 := author.profile.signingPublicKeyBase64.getD []
  sequence := time + 1
  previousEventId := if time = 0 then none else some (digest (time - 1))
  lamport := time + 1
  membershipId := membershipId
  kind := .membership
  payload := []
  signatureBase64 := List.replicate 86 65 ++ [61, 61]
  eventId_digest := isDigest_digest n
  identities := ⟨by decide, author.identity⟩
  one_le_sequence := Nat.le_add_left 1 time
  sequence_le_lamport := Nat.le_refl _
  lamport_le := by
    revert time
    decide
  previous := by
    revert time
    decide
  membershipId_digest := hdigest
  signingKey_length := author.key_length
  signature_length := by decide
  payload_frozen := by rfl

def snapshot (members : List GroupMemberProfile) (admins : List DartString) (version : ℤ) :
    GroupRecord where
  groupId := groupId
  title := DartString.ofString "t"
  ownerDeviceId := owner.deviceId
  adminDeviceIds := admins
  moderatorDeviceIds := []
  memberDeviceIds := members.map GroupMemberProfile.deviceId
  removedDeviceIds := []
  memberProfiles := members
  membershipVersion := version
  localRemovedAt := none
  dissolvedAt := none

def payload (group : GroupRecord) (parents : List DartString)
    (admissions : List (DartString × Option DartString)) : MembershipPayload where
  group := group
  parents := parents
  historyVisibility := .allRetained
  admissions := admissions.foldr (fun entry map => map.insert entry.1 entry.2) FMap.empty
  checkpoints := FMap.empty

def root : GroupMembershipRecord where
  proof := event byOwner 0 0 (crypto.rootReference [] []) (by decide)
  payload := payload (snapshot [owner] [] 1) [] [(owner.deviceId, none)]
  kind := rfl
  checkpointsValid := by decide
  snapshotValid := by decide
  membersPinned := by decide

def admits : GroupMembershipRecord where
  proof := event byOwner 1 1 (digest 0) isDigest_zero
  payload := payload (snapshot [owner, friend] [friend.deviceId] 2) [digest 0]
    [(owner.deviceId, some (digest 0)), (friend.deviceId, none)]
  kind := rfl
  checkpointsValid := by decide
  snapshotValid := by decide
  membersPinned := by decide

example : ((GroupMembershipHistory.machine crypto).outputs
    (GroupMembershipHistory.initial groupId owner) [admits, root, admits, root]).map
      Except.toOption =
    [some .missingParents, some .accepted, some .accepted, some .duplicate] := by decide

end Sample

end Group
end Conest
