import Conest.Group.Ancestry

/-!
# Who may receive history

`canReceive` decides whether a device may be given an event, and `canForward` whether a carrier may
bring it. The current record, the only head, gates the recipient; the record that the event names
gates its author. An author who was removed is fenced in: an event written under a record from
before a removal counts only up to the checkpoint that was signed for the author, in the record of
the removal or in a later one under which the author was still away.
-/

namespace Conest
namespace Group

open Lib

namespace GroupMembershipHistory

variable (h : GroupMembershipHistory)

/-- The record that all others are ancestors of, if there is one. -/
def current : Option GroupMembershipRecord :=
  match h.heads.sort (· ≤ ·) with
  | [head] => h.records.get head
  | _ => none

/-! ### Departures -/

/-- The devices active under a record. -/
def active (recordId : DartString) : List DartString :=
  match h.records.get recordId with
  | some record => record.group.activeMemberDeviceIds
  | none => []

/-- The parents of a record under which a device was active, if the record drops it. -/
def departures (recordId device : DartString) : List DartString :=
  if device ∈ h.active recordId then []
  else (h.parentsOf recordId).filter fun parentId => device ∈ h.active parentId

/-- The checkpoint that a record carries for an author. -/
def checkpointAt (recordId author : DartString) : Option GroupHistoryCheckpoint :=
  (h.records.get recordId).bind fun record => record.checkpoints.get author

/-- Whether the author is inactive in every record from the removal to the given one. -/
def staysDeparted (removalId author recordId : DartString) : Bool :=
  !(h.ancestors recordId).any fun id =>
    decide (id ≠ removalId) && h.isAncestor removalId id && decide (author ∈ h.active id)

/-- One round of the search for the earliest checkpoint after a removal. -/
def earlierCheckpoint (removalId author : DartString) (earliest : Option GroupHistoryCheckpoint)
    (id : DartString) : Option GroupHistoryCheckpoint :=
  if id = removalId ∨ !h.isAncestor removalId id then earliest
  else
    match h.checkpointAt id author with
    | none => earliest
    | some attested =>
      if earliest.any fun e => attested.sequence ≥ e.sequence then earliest
      -- a cutoff signed after a readmission could cover the later epoch
      else if h.staysDeparted removalId author id then some attested
      else earliest

/-- The signed cutoff for an author's departure, as seen from a head: the one in the record of the
removal, or the earliest in a later record. -/
def departureCheckpoint (removalId author headId : DartString) : Option GroupHistoryCheckpoint :=
  match h.checkpointAt removalId author with
  | some direct => some direct
  | none => (h.ancestors headId).foldl (h.earlierCheckpoint removalId author) none

/-- Whether an event is within a cutoff. -/
def withinCheckpoint (event : GroupHistoryEvent) : Option GroupHistoryCheckpoint → Bool
  | none => false
  | some checkpoint =>
    if event.sequence > checkpoint.sequence then false
    else !(decide (event.sequence = checkpoint.sequence) &&
      decide (event.eventId ≠ checkpoint.eventId))

/-- Whether an event is within the cutoff of every removal that its author was under. -/
def isBeforeRemovalFences (event : GroupHistoryEvent) (head : GroupMembershipRecord) : Bool :=
  (h.ancestors head.id).all fun recordId =>
    let departedFrom := h.departures recordId event.authorDeviceId
    if h.isAncestor event.membershipId recordId &&
        departedFrom.any (fun parentId => h.isAncestor event.membershipId parentId) then
      withinCheckpoint event (h.departureCheckpoint recordId event.authorDeviceId head.id)
    else true

/-! ### Receiving and forwarding -/

/-- The checkpoint from which a device admitted later sees an author's events. -/
def admittedAfter (admission : GroupMembershipRecord) (author : DartString) : ℤ :=
  ((admission.checkpoints.get author).map GroupHistoryCheckpoint.sequence).getD 0

/-- Whether the record that admitted a device shows it the event. -/
def visibleSince (admission membership : GroupMembershipRecord) (event : GroupHistoryEvent) :
    Bool :=
  match admission.historyVisibility with
  | .allRetained => true
  | .sinceAdmission =>
    h.isAncestor admission.id membership.id &&
      decide (admittedAfter admission event.authorDeviceId < event.sequence)

/-- Whether the author's profile in a record signed the event. An active member has a profile with
a signing key. -/
def signedByMember (crypto : Crypto) (event : GroupHistoryEvent)
    (membership : GroupMembershipRecord) : Bool :=
  (membership.group.memberProfileFor event.authorDeviceId).any fun author =>
    author.signingPublicKeyBase64.any fun key =>
      event.verify crypto h.groupId author.accountId author.deviceId key

def canReceive (crypto : Crypto) (event : GroupHistoryEvent) (recipientDeviceId : DartString) :
    Bool :=
  match h.current, h.records.get event.membershipId with
  | some head, some membership =>
    if event.kind = .membership || !head.group.hasActiveMember recipientDeviceId ||
        !h.isAncestor membership.id head.id ||
        !membership.group.hasActiveMember event.authorDeviceId then false
    else
      match (head.admissions.get recipientDeviceId).bind h.records.get with
      | none => false
      | some admission =>
        h.isBeforeRemovalFences event head && h.visibleSince admission membership event &&
          h.signedByMember crypto event membership
  | _, _ => false

def canForward (crypto : Crypto) (event : GroupHistoryEvent)
    (carrierDeviceId recipientDeviceId : DartString) : Bool :=
  (h.current.any fun head => head.group.hasActiveMember carrierDeviceId) &&
    h.canReceive crypto event carrierDeviceId && h.canReceive crypto event recipientDeviceId

variable {h} {crypto : Crypto} {event : GroupHistoryEvent}

theorem kind_ne_of_canReceive {recipientDeviceId : DartString}
    (hcan : h.canReceive crypto event recipientDeviceId = true) : event.kind ≠ .membership := by
  unfold canReceive at hcan
  split at hcan
  swap
  · cases hcan
  intro hkind
  rw [if_pos (by simp [hkind])] at hcan
  cases hcan

theorem kind_ne_of_canForward {carrierDeviceId recipientDeviceId : DartString}
    (hcan : h.canForward crypto event carrierDeviceId recipientDeviceId = true) :
    event.kind ≠ .membership := by
  unfold canForward at hcan
  rw [Bool.and_eq_true] at hcan
  exact kind_ne_of_canReceive hcan.2

end GroupMembershipHistory

end Group
end Conest
