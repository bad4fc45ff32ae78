import Conest.Group.Access
import Conest.Journal.OrderIndependence
import Conest.Group.Convergence

/-!
# The replica of a group's history

A replica is a journal with the membership history that its membership events make.
`importMembership` tries a record on a copy of the history and publishes the copy once the journal
has the event; `importEvent` appends an event that its author, its carrier and this device are
entitled to. `restore` rebuilds the history from the journal: it imports the membership events in
pages, in the order of the journal, which is not the order in which they were accepted.

The loop over the pages imports every membership event of the journal once (`restoreFrom_eq`), and
so `restore` comes to the imports of all of them in that order.
-/

namespace Conest
namespace Journal

open Lib Conest.Group List

/-- A device that keeps the history of a group: its journal, the reading of a membership payload
from its JSON, the device and the owner that it approved. -/
structure Device where
  env : Env
  readPayload : List (DartString × Json) → Except String MembershipPayload
  localDeviceId : DartString
  trustedOwner : GroupMemberProfile

structure Replica where
  worker : Worker
  membership : GroupMembershipHistory

namespace Device

variable (d : Device)

/-- The membership record of an event. -/
def recordOf (proof : GroupHistoryEvent) : Except String GroupMembershipRecord :=
  if proof.kind ≠ .membership then .error "Expected a signed membership event."
  else
    match d.readPayload proof.payload with
    | .error e => .error e
    | .ok data => GroupMembershipRecord.fromEvent proof data

/-- The history before any import. -/
def noMembership : GroupMembershipHistory :=
  GroupMembershipHistory.initial d.env.groupId d.trustedOwner

/-! ### Imports -/

def importMembership (replica : Replica) (proof : GroupHistoryEvent) (nonce : Nonce)
    (io : WriteOutcome) : Replica × Except String GroupMembershipImport :=
  match d.recordOf proof with
  | .error e => (replica, .error e)
  | .ok record =>
    match replica.membership.importRecord d.env.crypto record with
    | (candidate, .ok .accepted) =>
      match replica.worker.append d.env proof nonce io with
      | (w, .ok _) => (⟨w, candidate⟩, .ok .accepted)
      | (w, .error e) => (⟨w, replica.membership⟩, .error e)
    | (_, result) => (replica, result)

def importEvent (replica : Replica) (event : GroupHistoryEvent) (carrierDeviceId : DartString)
    (nonce : Nonce) (io : WriteOutcome) : Replica × Except String Bool :=
  if !replica.membership.canForward d.env.crypto event carrierDeviceId d.localDeviceId then
    (replica, .error "Unauthorized group history event.")
  else
    let appended := replica.worker.append d.env event nonce io
    (⟨appended.1, replica.membership⟩, appended.2)

/-! ### Restoring -/

/-- Import the records of membership events, one after another. -/
def importAll : GroupMembershipHistory → List GroupHistoryEvent →
    Except String GroupMembershipHistory
  | h, [] => .ok h
  | h, proof :: proofs =>
    match d.recordOf proof with
    | .error e => .error e
    | .ok record =>
      match h.importRecord d.env.crypto record with
      | (_, .error e) => .error e
      | (_, .ok .missingParents) => .error "Journal is missing a membership dependency."
      | (h', .ok _) => importAll h' proofs

/-- Import page after page, from the event after the cursor. Each page takes at least one event, so
one round more than there are events is enough. -/
def restoreFrom (w : Worker) : ℕ → Option DartString → GroupMembershipHistory →
    Except String GroupMembershipHistory
  | 0, _, h => .ok h
  | fuel + 1, cursor, h =>
    match w.execute d.env (.memberships cursor 32) with
    | .error e => .error e
    | .ok (.events []) => .ok h
    | .ok (.events page) =>
      match d.importAll h page with
      | .error e => .error e
      | .ok h' => restoreFrom w fuel (page.getLast?.map GroupHistoryEvent.eventId) h'
    | .ok _ => .error "the answer is not a subtype of type 'List' in type cast"

/-- The replica of a journal file. -/
def restore (file : Bytes) : Except String Replica :=
  match Worker.openJournal d.env file with
  | .error e => .error e
  | .ok w =>
    match d.restoreFrom w (w.index.ordered.length + 1) none d.noMembership with
    | .error e => .error e
    | .ok h => .ok ⟨w, h⟩

/-! ### Runs -/

/-- What happens to a replica: calls of its two imports, each with how a write would end, and
restarts of the device. -/
inductive Call where
  | importMembership (proof : GroupHistoryEvent) (nonce : Nonce) (io : WriteOutcome)
  | importEvent (event : GroupHistoryEvent) (carrierDeviceId : DartString) (nonce : Nonce)
      (io : WriteOutcome)
  | restart

/-- The event that a call brings. -/
def Call.event? : Call → Option GroupHistoryEvent
  | .importMembership proof _ _ => some proof
  | .importEvent event _ _ _ => some event
  | .restart => none

inductive Reply where
  | membership (result : GroupMembershipImport)
  | event (appended : Bool)
  | restarted

/-- Restart the device: open the journal and restore the replica. -/
def restart (replica : Replica) : Replica × Except String Reply :=
  match d.restore replica.worker.file with
  | .error e => (replica, .error e)
  | .ok restored => (restored, .ok .restarted)

def machine : Machine Replica Call (Except String Reply) where
  step replica call :=
    match call with
    | .importMembership proof nonce io =>
      let imported := d.importMembership replica proof nonce io
      (imported.1, imported.2.map .membership)
    | .importEvent event carrierDeviceId nonce io =>
      let imported := d.importEvent replica event carrierDeviceId nonce io
      (imported.1, imported.2.map .event)
    | .restart => d.restart replica

/-- The replica of a new journal. -/
def fresh : Replica := ⟨Worker.fresh, d.noMembership⟩

end Device

/-! ### What the pages give -/

variable {d : Device} {w : Worker} {rs : List Stored}

theorem recordOf_proof {proof : GroupHistoryEvent} {record : GroupMembershipRecord}
    (hrecord : d.recordOf proof = .ok record) : record.proof = proof := by
  unfold Device.recordOf at hrecord
  split at hrecord
  · cases hrecord
  split at hrecord
  · cases hrecord
  unfold GroupMembershipRecord.fromEvent at hrecord
  split at hrecord
  swap
  · cases hrecord
  split at hrecord
  swap
  · cases hrecord
  split at hrecord
  swap
  · cases hrecord
  split at hrecord
  swap
  · cases hrecord
  rw [← Except.ok.inj hrecord]

theorem importAll_append (h : GroupMembershipHistory) (proofs more : List GroupHistoryEvent) :
    d.importAll h (proofs ++ more) =
      match d.importAll h proofs with
      | .error e => .error e
      | .ok h' => d.importAll h' more := by
  induction proofs generalizing h with
  | nil => rfl
  | cons proof proofs ih =>
  rw [cons_append, Device.importAll, Device.importAll]
  cases d.recordOf proof with
  | error e => rfl
  | ok record =>
  dsimp only
  split
  · rfl
  · rfl
  · exact ih _

theorem pageOf_eq_take (limit : ℕ) (entries : List Entry) (count bytes : ℕ) :
    ∃ k, k ≤ entries.length ∧ pageOf limit entries count bytes =
      (entries.take k).map Entry.event := by
  induction entries generalizing count bytes with
  | nil => exact ⟨0, Nat.le_refl 0, rfl⟩
  | cons entry entries ih =>
  rw [pageOf]
  split
  · exact ⟨0, Nat.zero_le _, rfl⟩
  · obtain ⟨k, hk, hpage⟩ := ih (count + 1) (bytes + entry.size)
    refine ⟨k + 1, Nat.succ_le_succ hk, ?_⟩
    rw [hpage, take_succ_cons, map_cons]

theorem pageOf_ne_nil {limit : ℕ} (hlimit : limit ≠ 0) {entry : Entry} {entries : List Entry}
    (hsize : entry.size ≤ pageBytes) : pageOf limit (entry :: entries) 0 0 ≠ [] := by
  rw [pageOf, if_neg (by omega)]
  exact cons_ne_nil _ _

/-- The membership entries of a journal, in its order. -/
def Worker.memberships (w : Worker) : List Entry :=
  w.index.ordered.filter fun entry => entry.kind = .membership

section

variable (hw : Holds d.env w rs)

include hw

theorem Holds.mem_memberships {entry : Entry} :
    entry ∈ w.memberships ↔ entry ∈ rs.map Stored.entry ∧ entry.kind = .membership := by
  unfold Worker.memberships
  rw [mem_filter, decide_eq_true_eq, hw.describes.ordered_mem]

theorem Holds.memberships_sorted : Sorted.SortedBy Entry.key w.memberships :=
  hw.describes.ordered_sorted.filter _

/-- **A page of membership events**: those of the first entries after the cursor. -/
theorem Holds.execute_memberships {before rest : List Entry}
    (hsplit : w.memberships = before ++ rest) :
    w.execute d.env (.memberships (before.getLast?.map Entry.id) 32) =
      .ok (.events (pageOf 32 rest 0 0)) := by
  have hselect : w.index.select d.env.text (.memberships (before.getLast?.map Entry.id) 32) =
      .ok (.entries rest 32) := by
    rcases eq_nil_or_concat' before with rfl | ⟨init, last, rfl⟩
    · rw [nil_append] at hsplit
      rw [← hsplit]
      rfl
    rw [append_assoc, singleton_append] at hsplit
    have hlast : last ∈ w.memberships := by
      rw [hsplit]
      simp
    -- the cursor is found, and what is larger comes after it
    have hget : w.index.entries.get last.id = some last :=
      hw.describes.get_iff.mpr ⟨(hw.mem_memberships.mp hlast).1, rfl⟩
    have hafter : (w.index.ordered.filter fun entry =>
        entry.kind = .membership ∧ last.key < entry.key) = rest := by
      have hsorted := hw.memberships_sorted
      rw [hsplit] at hsorted
      have hrest := hsorted.filter_after
      rw [← hsplit, Worker.memberships, filter_filter] at hrest
      rw [← hrest]
      refine filter_congr fun entry _ => ?_
      rw [Bool.decide_and, Bool.and_comm]
    rw [getLast?_concat, Option.map_some, Index.select, hget]
    dsimp only
    rw [hafter]
  have hread : ∀ e ∈ rest, w.readEntry d.env e = .ok e.event := by
    intro e he
    refine hw.readEntry (hw.mem_memberships.mp ?_).1
    rw [hsplit]
    exact mem_append_right before he
  unfold Worker.execute
  rw [hw.healthy, hselect]
  dsimp only
  rw [Worker.answer, read_eq hread]
  rfl

theorem Holds.size_le {entry : Entry} (hentry : entry ∈ w.memberships) :
    entry.size ≤ pageBytes := by
  obtain ⟨r, hr, rfl⟩ := mem_map.mp (hw.mem_memberships.mp hentry).1
  have hmax : maxFrame ≤ pageBytes := by decide
  exact (hw.good r hr).size_le.trans hmax

/-- **The loop over the pages imports every membership event once, in the order of the journal.** -/
theorem Holds.restoreFrom_eq {before rest : List Entry}
    (hsplit : w.memberships = before ++ rest) {fuel : ℕ} (hfuel : rest.length < fuel)
    (h : GroupMembershipHistory) :
    d.restoreFrom w fuel (before.getLast?.map Entry.id) h =
      d.importAll h (rest.map Entry.event) := by
  -- by induction on the rounds left; each takes the first of the rest at least
  induction fuel generalizing before rest h with
  | zero => exact absurd hfuel (Nat.not_lt_zero _)
  | succ fuel ih =>
  rw [Device.restoreFrom, hw.execute_memberships hsplit]
  cases rest with
  | nil => rfl
  | cons entry rest =>
  have hentry : entry ∈ w.memberships := by
    rw [hsplit]
    simp
  obtain ⟨k, hk, hpage⟩ := pageOf_eq_take 32 (entry :: rest) 0 0
  have hne : pageOf 32 (entry :: rest) 0 0 ≠ [] := pageOf_ne_nil (by decide) (hw.size_le hentry)
  cases k with
  | zero =>
    rw [hpage] at hne
    exact absurd rfl hne
  | succ k =>
  rw [take_succ_cons, map_cons] at hpage
  rw [hpage]
  dsimp only
  have hwhole : (entry :: rest).map Entry.event =
      (entry.event :: (rest.take k).map Entry.event) ++ (rest.drop k).map Entry.event := by
    rw [cons_append, ← map_append, take_append_drop, map_cons]
  rw [hwhole, importAll_append]
  cases d.importAll h (entry.event :: (rest.take k).map Entry.event) with
  | error e => rfl
  | ok h' =>
  have hsplit' : w.memberships = (before ++ entry :: rest.take k) ++ rest.drop k := by
    rw [hsplit, append_assoc, cons_append, take_append_drop]
  have hcursor : (entry.event :: (rest.take k).map Entry.event).getLast?.map
      GroupHistoryEvent.eventId =
      (before ++ entry :: rest.take k).getLast?.map Entry.id := by
    rw [← map_cons, getLast?_map, getLast?_append_cons]
    rfl
  have hless : (rest.drop k).length < fuel := by
    rw [length_drop]
    rw [length_cons] at hfuel
    omega
  rw [hcursor]
  exact ih hsplit' hless h'

/-- **Restoring a journal is importing its membership events in its order.** -/
theorem Holds.restore_eq {file : Bytes} (hopen : Worker.openJournal d.env file = .ok w) :
    d.restore file =
      match d.importAll d.noMembership (w.memberships.map Entry.event) with
      | .error e => .error e
      | .ok h => .ok ⟨w, h⟩ := by
  have hfuel : w.memberships.length < w.index.ordered.length + 1 :=
    Nat.lt_succ_of_le (length_filter_le _ _)
  have hloop := hw.restoreFrom_eq (nil_append w.memberships).symm hfuel d.noMembership
  unfold Device.restore
  rw [hopen]
  rw [← hloop]
  rfl

end

end Journal
end Conest
