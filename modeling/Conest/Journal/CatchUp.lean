import Conest.Journal.Replica

/-!
# Catching up with a peer

`pullFrom` brings a replica up to date from one peer. It first asks for the membership records after
a cursor, page by page, and imports them; then, if the membership is undisputed, it walks the peer's
inventory, author by author, and fetches and imports the events that the journal does not have. The
cursors are saved after every page, so that a pull that was cut short goes on where it stopped.

The peer is anything that answers the three requests; `Device.serve` is a replica that answers them.
What a pull writes can fail: `Writes` says how each append and each save ends. A pull that throws
leaves the replica and the saved progress as they are at that point.
-/

namespace Conest
namespace Journal

open Lib Conest.Group

def groupSyncPageSize : ℕ := 32

/-! ### Messages -/

structure GroupSyncCursor where
  authorDeviceId : DartString
  afterSequence : ℤ
deriving DecidableEq

structure GroupSyncInventoryEntry where
  eventId : DartString
  authorDeviceId : DartString
  sequence : ℤ
deriving DecidableEq

structure GroupSyncInventory where
  entries : List GroupSyncInventoryEntry
  next : Option GroupSyncCursor

/-- A peer, as the device that asks sees it. -/
structure GroupHistoryExchange where
  membershipPage : Option DartString → Except String (List GroupHistoryEvent)
  inventory : Option GroupSyncCursor → Except String GroupSyncInventory
  events : List DartString → Except String (List GroupHistoryEvent)

/-! ### Serving -/

/-- The events of an answer. -/
def eventsOfAnswer : Except String Answer → Except String (List GroupHistoryEvent)
  | .error e => .error e
  | .ok (.events events) => .ok events
  | .ok _ => .error "the answer is not a subtype of type 'List' in type cast"

/-- The identifiers of an answer. -/
def idsOfAnswer : Except String Answer → Except String (List DartString)
  | .error e => .error e
  | .ok (.ids ids) => .ok ids
  | .ok _ => .error "the answer is not a subtype of type 'List' in type cast"

namespace Device

variable (d : Device)

/-- Both devices are members under an undisputed membership. -/
def requirePeer (replica : Replica) (peer : DartString) : Except String Unit :=
  if replica.membership.current.any fun head =>
      head.group.hasActiveMember peer && head.group.hasActiveMember d.localDeviceId then .ok ()
  else .error "Group membership must be current and undisputed before serving history."

/-- Whether there are heads, and every one has both devices as members. -/
def sharesHeads (replica : Replica) (requesterDeviceId : DartString) : Bool :=
  decide (replica.membership.heads ≠ ∅) &&
    decide (∀ id ∈ replica.membership.heads,
      ((replica.membership.records.get id).any fun record =>
        record.group.hasActiveMember requesterDeviceId &&
          record.group.hasActiveMember d.localDeviceId) = true)

def membershipPage (replica : Replica) (requesterDeviceId : DartString)
    (afterEventId : Option DartString) : Except String (List GroupHistoryEvent) :=
  if !d.sharesHeads replica requesterDeviceId then
    .error "Unauthorized membership history request."
  else eventsOfAnswer (replica.worker.execute d.env (.memberships afterEventId groupSyncPageSize))

/-- Whether the replica brings an event to the device that asks. -/
def forwards (replica : Replica) (requesterDeviceId : DartString) (event : GroupHistoryEvent) :
    Bool :=
  decide (event.kind ≠ .membership) &&
    replica.membership.canForward d.env.crypto event d.localDeviceId requesterDeviceId

def entryOfEvent (event : GroupHistoryEvent) : GroupSyncInventoryEntry where
  eventId := event.eventId
  authorDeviceId := event.authorDeviceId
  sequence := event.sequence

/-- The author and the sequence from which an inventory page starts; `none` if there are no
authors. -/
def inventoryStart (replica : Replica) (cursor : Option GroupSyncCursor) :
    Except String (Option GroupSyncCursor) :=
  match cursor with
  | some cursor => .ok (some cursor)
  | none =>
    match idsOfAnswer (replica.worker.execute d.env (.authors none 1)) with
    | .error e => .error e
    | .ok [author] => .ok (some ⟨author, 0⟩)
    | .ok [] => .ok none
    | .ok _ => .error "Bad state: Too many elements"

/-- The next cursor: behind the last event of the page, or the next author's first. -/
def inventoryNext (replica : Replica) (author : DartString) (page : List GroupHistoryEvent) :
    Except String (Option GroupSyncCursor) :=
  match page.getLast? with
  | some last => .ok (some ⟨author, last.sequence⟩)
  | none =>
    match idsOfAnswer (replica.worker.execute d.env (.authors (some author) 1)) with
    | .error e => .error e
    | .ok [next] => .ok (some ⟨next, 0⟩)
    | .ok [] => .ok none
    | .ok _ => .error "Bad state: Too many elements"

/-- The events of an author behind a sequence, up to a page. -/
def authorPage (replica : Replica) (author : DartString) (after : ℤ) :
    Except String (List GroupHistoryEvent) :=
  if after = groupEventMaxCounter then .ok []
  else eventsOfAnswer (replica.worker.execute d.env
    (.range author (after + 1) groupEventMaxCounter groupSyncPageSize))

def inventory (replica : Replica) (requesterDeviceId : DartString)
    (cursor : Option GroupSyncCursor) : Except String GroupSyncInventory :=
  match d.requirePeer replica requesterDeviceId with
  | .error e => .error e
  | .ok () =>
    if cursor.any fun c =>
        decide (c.afterSequence < 0 ∨ c.afterSequence > (groupEventMaxCounter : ℤ)) then
      .error "Invalid inventory cursor."
    else
      match d.inventoryStart replica cursor with
      | .error e => .error e
      | .ok none => .ok ⟨[], none⟩
      | .ok (some start) =>
        match d.authorPage replica start.authorDeviceId start.afterSequence with
        | .error e => .error e
        | .ok page =>
          match d.inventoryNext replica start.authorDeviceId page with
          | .error e => .error e
          | .ok next =>
            .ok ⟨(page.filter (d.forwards replica requesterDeviceId)).map entryOfEvent, next⟩

def events (replica : Replica) (requesterDeviceId : DartString) (ids : List DartString) :
    Except String (List GroupHistoryEvent) :=
  match d.requirePeer replica requesterDeviceId with
  | .error e => .error e
  | .ok () =>
    if ids = [] ∨ ids.length > groupSyncPageSize ∨ ¬ ids.Nodup then
      .error "Invalid history request size."
    else
      match eventsOfAnswer (replica.worker.execute d.env (.events ids)) with
      | .error e => .error e
      | .ok found => .ok (found.filter (d.forwards replica requesterDeviceId))

/-- A replica as a peer, while it does not change. -/
def serve (replica : Replica) (requesterDeviceId : DartString) : GroupHistoryExchange where
  membershipPage := d.membershipPage replica requesterDeviceId
  inventory := d.inventory replica requesterDeviceId
  events := d.events replica requesterDeviceId

end Device

/-! ### Pulling -/

/-- What is saved of a pull from one peer. A pull that is done saves nothing, which reads as
`null` in every place. -/
structure Progress where
  inventoryPhase : Bool
  head : Option DartString
  membershipAfter : Option DartString
  author : Option DartString
  sequence : Option ℤ
deriving DecidableEq

def Progress.nothing : Progress := ⟨false, none, none, none, none⟩

/-- How the writes of a pull end: the nonce and the outcome of each import, and each save. -/
structure Writes where
  nonce : ℕ → Nonce
  io : ℕ → WriteOutcome
  save : ℕ → Except String Unit

/-- The replica and the saved progress during a pull, with the numbers of writes so far. -/
structure Session where
  replica : Replica
  progress : Progress
  imports : ℕ
  saves : ℕ

/-- The identity of the undisputed head. -/
def Session.headId (s : Session) : Option DartString :=
  s.replica.membership.current.map GroupMembershipRecord.id

namespace Device

variable (d : Device) (o : Writes) (peer : GroupHistoryExchange) (carrierDeviceId : DartString)

def saveProgress (s : Session) (progress : Progress) : Session × Except String Unit :=
  match o.save s.saves with
  | .ok () => ({ s with progress := progress, saves := s.saves + 1 }, .ok ())
  | .error e => ({ s with saves := s.saves + 1 }, .error e)

/-- What is saved between the pages. -/
def progressOf (s : Session) (inventoryPhase : Bool) (membershipAfter : Option DartString)
    (cursor : Option GroupSyncCursor) : Progress where
  inventoryPhase := inventoryPhase
  head := s.headId
  membershipAfter := membershipAfter
  author := cursor.map GroupSyncCursor.authorDeviceId
  sequence := cursor.map GroupSyncCursor.afterSequence

/-- Import the membership proofs of a page. -/
def importProofs (s : Session) : List GroupHistoryEvent → Session × Except String Unit
  | [] => (s, .ok ())
  | proof :: proofs =>
    let imported := d.importMembership s.replica proof (o.nonce s.imports) (o.io s.imports)
    let s := { s with replica := imported.1, imports := s.imports + 1 }
    match imported.2 with
    | .error e => (s, .error e)
    | .ok .missingParents => (s, .error "Peer omitted a membership dependency.")
    | .ok _ => importProofs s proofs

def overBudget : String := "History exchange work budget reached; resume later."

/-- The membership phase, with the pages that may still be asked for: it ends with an empty page.
The inventory cursor is dropped when the head changes. -/
def membershipPhase (beforeHead : Option DartString) :
    ℕ → Session → Option DartString → Option GroupSyncCursor →
      Session × Except String (ℕ × Option GroupSyncCursor)
  | 0, s, _, _ => (s, .error overBudget)
  | budget + 1, s, membershipCursor, cursor =>
    match peer.membershipPage membershipCursor with
    | .error e => (s, .error e)
    | .ok page =>
      if page.length > groupSyncPageSize then (s, .error "Oversized membership page.")
      else
        match page.getLast? with
        | none => (s, .ok (budget, cursor))
        | some last =>
          match d.importProofs o s page with
          | (s, .error e) => (s, .error e)
          | (s, .ok ()) =>
            if membershipCursor = some last.eventId then
              (s, .error "Membership cursor did not advance.")
            else
              let cursor := if beforeHead ≠ s.headId then none else cursor
              match saveProgress o s (progressOf s false (some last.eventId) cursor) with
              | (s, .error e) => (s, .error e)
              | (s, .ok ()) => membershipPhase beforeHead budget s (some last.eventId) cursor

/-- Import what the peer sent, each event once and as it was advertised. -/
def importReceived (entries : List GroupSyncInventoryEntry) :
    List GroupHistoryEvent → Session → List DartString → ℕ →
      Session × Except String (List DartString × ℕ)
  | [], s, wanted, imported => (s, .ok (wanted, imported))
  | event :: received, s, wanted, imported =>
    if event.eventId ∉ wanted then (s, .error "Unrequested history event.")
    else
      match entries.find? fun entry => decide (entry.eventId = event.eventId) with
      | none => (s, .error "Bad state: No element")
      | some advertised =>
        if event.authorDeviceId ≠ advertised.authorDeviceId ∨
            (event.sequence : ℤ) ≠ advertised.sequence then
          (s, .error "History response does not match inventory.")
        else
          let result := d.importEvent s.replica event carrierDeviceId (o.nonce s.imports)
            (o.io s.imports)
          let s := { s with replica := result.1, imports := s.imports + 1 }
          match result.2 with
          | .error e => (s, .error e)
          | .ok new =>
            importReceived entries received s (wanted.erase event.eventId)
              (if new then imported + 1 else imported)

/-- Ask for events until none is wanted. Every round takes at least one, so as many rounds as
there are wanted events are enough. -/
def fetch (entries : List GroupSyncInventoryEntry) :
    ℕ → Session → List DartString → ℕ → Session × Except String ℕ
  | _, s, [], imported => (s, .ok imported)
  | 0, s, _ :: _, _ => (s, .error "out of rounds")
  | rounds + 1, s, wanted, imported =>
    match peer.events wanted with
    | .error e => (s, .error e)
    | .ok received =>
      if received.length > groupSyncPageSize then (s, .error "Oversized history response.")
      else if received = [] then
        (s, .error "History provider is missing requested events; retry another peer.")
      else
        match d.importReceived o carrierDeviceId entries received s wanted imported with
        | (s, .error e) => (s, .error e)
        | (s, .ok (wanted, imported)) => fetch entries rounds s wanted imported

/-- Whether an inventory entry may be asked for. -/
def validEntry (entry : GroupSyncInventoryEntry) : Bool :=
  entry.eventId.isDigest && !entry.authorDeviceId.isEmpty &&
    decide (entry.authorDeviceId.length ≤ 128) &&
    decide (1 ≤ entry.sequence ∧ entry.sequence ≤ groupEventMaxCounter)

/-- Whether the next cursor does not come after the one that was asked for. -/
def staysBehind (cursor next : Option GroupSyncCursor) : Bool :=
  cursor.any fun cursor => next.any fun next =>
    decide (next.authorDeviceId < cursor.authorDeviceId ∨
      next.authorDeviceId = cursor.authorDeviceId ∧ next.afterSequence ≤ cursor.afterSequence)

/-- The identifiers of a page that the journal does not have. -/
def missingIds (s : Session) (ids : List DartString) : Except String (List DartString) :=
  if ids = [] then .ok []
  else
    match idsOfAnswer (s.replica.worker.execute d.env (.retained ids)) with
    | .error e => .error e
    | .ok retained => .ok (ids.filter fun id => decide (id ∉ retained))

/-- The inventory phase, with the pages that may still be asked for: it ends when there is no next
cursor. -/
def inventoryPhase : ℕ → Session → Option GroupSyncCursor → ℕ → Session × Except String ℕ
  | 0, s, _, _ => (s, .error overBudget)
  | budget + 1, s, cursor, imported =>
    match peer.inventory cursor with
    | .error e => (s, .error e)
    | .ok page =>
      if page.entries.length > groupSyncPageSize then (s, .error "Oversized history inventory.")
      else
        let ids := page.entries.map GroupSyncInventoryEntry.eventId
        if ¬ ids.Nodup ∨ !page.entries.all validEntry then
          (s, .error "Invalid group inventory entry.")
        else
          match d.missingIds s ids with
          | .error e => (s, .error e)
          | .ok missing =>
            match d.fetch o peer carrierDeviceId page.entries missing.length s missing imported with
            | (s, .error e) => (s, .error e)
            | (s, .ok imported) =>
              if staysBehind cursor page.next then
                (s, .error "History inventory cursor did not advance.")
              else
                match saveProgress o s (progressOf s true none page.next) with
                | (s, .error e) => (s, .error e)
                | (s, .ok ()) =>
                  match page.next with
                  | some next => inventoryPhase budget s (some next) imported
                  | none =>
                    match saveProgress o s Progress.nothing with
                    | (s, .error e) => (s, .error e)
                    | (s, .ok ()) => (s, .ok imported)

/-- The inventory cursor that was saved, if it was saved under the same head. -/
def savedCursor (s : Session) : Option GroupSyncCursor :=
  if s.progress.head = s.headId then
    match s.progress.author, s.progress.sequence with
    | some author, some sequence =>
      if 0 ≤ sequence ∧ sequence ≤ groupEventMaxCounter then some ⟨author, sequence⟩ else none
    | _, _ => none
  else none

/-- Whether the membership phase is taken for done. -/
def membershipComplete (s : Session) : Bool :=
  s.progress.inventoryPhase && decide (s.progress.head = s.headId)

/-- The membership phase if it is not taken for done. -/
def learnMembership (s : Session) (maxPages : ℕ) :
    Session × Except String (ℕ × Option GroupSyncCursor) :=
  if membershipComplete s then (s, .ok (maxPages, savedCursor s))
  else d.membershipPhase o peer s.headId maxPages s s.progress.membershipAfter (savedCursor s)

def pullFrom (s : Session) (maxPages : ℤ) : Session × Except String ℕ :=
  if maxPages < 1 ∨ maxPages > 4096 then (s, .error "Invalid sync work budget.")
  else
    let beforeHead := s.headId
    match d.learnMembership o peer s maxPages.toNat with
    | (s, .error e) => (s, .error e)
    | (s, .ok (budget, cursor)) =>
      let cursor := if beforeHead ≠ s.headId then none else cursor
      match saveProgress o s (progressOf s true none cursor) with
      | (s, .error e) => (s, .error e)
      | (s, .ok ()) =>
        match d.requirePeer s.replica carrierDeviceId with
        | .error e => (s, .error e)
        | .ok () => d.inventoryPhase o peer carrierDeviceId budget s cursor 0

end Device

/-! ### One round of the inventory phase -/

section Rounds

variable {d : Device} {o : Writes} {peer : GroupHistoryExchange} {carrierDeviceId : DartString}

theorem saveProgress_replica (s : Session) (progress : Progress) :
    (Device.saveProgress o s progress).1.replica = s.replica := by
  unfold Device.saveProgress
  split <;> rfl

/-- How a round ends after the events of its page are fetched. -/
inductive RoundEnd (d : Device) (o : Writes) (peer : GroupHistoryExchange)
    (carrierDeviceId : DartString) (budget : ℕ) (cursor next : Option GroupSyncCursor)
    (replica : Replica) (imported : ℕ) : Session × Except String ℕ → Prop
  | failed {s : Session} (e : String) : s.replica = replica →
      RoundEnd d o peer carrierDeviceId budget cursor next replica imported (s, .error e)
  | goesOn {s : Session} {following : GroupSyncCursor} : s.replica = replica →
      next = some following → Device.staysBehind cursor next = false →
      RoundEnd d o peer carrierDeviceId budget cursor next replica imported
        (d.inventoryPhase o peer carrierDeviceId budget s (some following) imported)
  | done {s : Session} : s.replica = replica → next = none →
      RoundEnd d o peer carrierDeviceId budget cursor next replica imported (s, .ok imported)

/-- **One round**: it throws before it fetches anything, or while it fetches, or it fetches what is
missing of a valid page and then throws, goes on or is done. -/
theorem inventoryPhase_cases (budget : ℕ) (s : Session) (cursor : Option GroupSyncCursor)
    (imported : ℕ) :
    (∃ e, d.inventoryPhase o peer carrierDeviceId (budget + 1) s cursor imported =
      (s, .error e)) ∨
    ∃ page missing, peer.inventory cursor = .ok page ∧
      (page.entries.map GroupSyncInventoryEntry.eventId).Nodup ∧
      d.missingIds s (page.entries.map GroupSyncInventoryEntry.eventId) = .ok missing ∧
      ((∃ s' e, d.fetch o peer carrierDeviceId page.entries missing.length s missing imported =
            (s', .error e) ∧
          d.inventoryPhase o peer carrierDeviceId (budget + 1) s cursor imported =
            (s', .error e)) ∨
        ∃ s' imported', d.fetch o peer carrierDeviceId page.entries missing.length s missing
            imported = (s', .ok imported') ∧
          RoundEnd d o peer carrierDeviceId budget cursor page.next s'.replica imported'
            (d.inventoryPhase o peer carrierDeviceId (budget + 1) s cursor imported)) := by
  rw [Device.inventoryPhase]
  cases hpage : peer.inventory cursor with
  | error e => exact .inl ⟨e, rfl⟩
  | ok page =>
  dsimp only
  split
  · exact .inl ⟨_, rfl⟩
  split
  · exact .inl ⟨_, rfl⟩
  next hvalid =>
  rw [not_or, not_not] at hvalid
  cases hmissing : d.missingIds s (page.entries.map GroupSyncInventoryEntry.eventId) with
  | error e => exact .inl ⟨e, rfl⟩
  | ok missing =>
  refine .inr ⟨page, missing, rfl, hvalid.1, hmissing, ?_⟩
  dsimp only
  cases hfetch : d.fetch o peer carrierDeviceId page.entries missing.length s missing
    imported with
  | mk s' result =>
    cases result with
    | error e => exact .inl ⟨s', e, rfl, rfl⟩
    | ok imported' =>
    refine .inr ⟨s', imported', rfl, ?_⟩
    dsimp only
    split
    · exact .failed _ rfl
    next hbehind =>
    rw [Bool.not_eq_true] at hbehind
    have hsaved := saveProgress_replica (o := o) s'
      (Device.progressOf s' true none page.next)
    cases hsave : Device.saveProgress o s'
      (Device.progressOf s' true none page.next) with
    | mk s₁ result =>
      rw [hsave] at hsaved
      cases result with
      | error e => exact .failed _ hsaved
      | ok u =>
      dsimp only
      split
      next following hnext => exact .goesOn hsaved hnext hbehind
      next hnext =>
      have hlast := saveProgress_replica (o := o) s₁ Progress.nothing
      split
      · next hfinal =>
        rw [hfinal] at hlast
        exact .failed _ (hlast.trans hsaved)
      next hfinal =>
      rw [hfinal] at hlast
      exact .done (hlast.trans hsaved) hnext

end Rounds

end Journal
end Conest
