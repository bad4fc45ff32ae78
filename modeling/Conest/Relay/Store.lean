import Conest.Lib.FMap
import Conest.Relay.Database

/-!
# Storing an envelope

`storeFrom` is `RelayState::store_from`: the checks before the transaction (`prepare`, with the
per-mailbox throughput window of `allow_mailbox_bytes`) and the transaction itself (`enqueue`):
expiry, deduplication with its early commit, the pairing cap, the mailbox quota, the share of
the source and the total, each of the three evicting in a loop of its own, and the insert.

The loops have no bound in the source. Here each runs on fuel, one more than the rows there are,
and gives `Outcome.diverges` when the fuel is spent: an iteration that goes on without deleting a
row leaves the table as it was, so a loop that outlasts its fuel repeats itself for ever.
`pairingLoop` really does so when only leased announcements are left; `mailboxLoop` and
`totalLoop` never do.

`serde_json` is a parameter (`Serde`), and so is SQLite's choice among holders that store equally
much, which SQL leaves open (`HolderChoice`).
-/

open Lib List Option

namespace Conest
namespace Relay

/-- What the relay uses of `serde_json`: printing, reading, member lookup and the string of a
string value. -/
structure Serde (Value : Type) where
  toVec : Value → Except String String
  fromStr : String → Option Value
  get : Value → String → Option Value
  asStr : Value → Option String

namespace Serde

variable {Value : Type} (serde : Serde Value)

/-- `envelope_kind`. -/
def envelopeKind (envelope : Value) : Option String :=
  (serde.get envelope "kind").bind serde.asStr

/-- `envelope_sender_device_id`. -/
def envelopeSenderDeviceId (envelope : Value) : Option String :=
  (serde.get envelope "senderDeviceId").bind serde.asStr

/-- The dedup key: a `messageId` string of 1 to 256 bytes. -/
def dedupKey (envelope : Value) : Option String :=
  ((serde.get envelope "messageId").bind serde.asStr).filter fun value =>
    !value.isEmpty && decide (value.utf8ByteSize ≤ 256)

end Serde

/-! ### The throughput window of a mailbox -/

/-- Bytes stored into one mailbox in the current minute. -/
structure MailboxByteWindow where
  windowStartedMillis : ℕ
  bytesUsed : ℕ
deriving DecidableEq, Repr

/-- `allow_mailbox_bytes`. -/
def allowMailboxBytes (cfg : RelayConfig) (now : ℕ) (windows : FMap String MailboxByteWindow)
    (mailbox : String) (bytes : ℕ) : FMap String MailboxByteWindow × Bool :=
  if cfg.maxBytesPerMailboxPerMinute = 0 then (windows, true)
  else
    let windows := windows.retain fun _ w => decide (now - w.windowStartedMillis < 120000)
    let window := (windows.get mailbox).getD { windowStartedMillis := now, bytesUsed := 0 }
    let window :=
      if 60000 ≤ now - window.windowStartedMillis then
        { windowStartedMillis := now, bytesUsed := 0 }
      else window
    if cfg.maxBytesPerMailboxPerMinute < saturatingAdd window.bytesUsed bytes then
      (windows.insert mailbox window, false)
    else
      (windows.insert mailbox
        { window with bytesUsed := saturatingAdd window.bytesUsed bytes }, true)

/-! ### The largest holder -/

/-- What the rows of `source` that hold no lease add up to. -/
def unleasedBytes (rows : List QueueEntry) (source : Option String) : ℕ :=
  tally QueueEntry.envelopeBytes (fun r => r.unleased && r.source == source) rows

/-- `SELECT source ... WHERE lease_id IS NULL GROUP BY source ORDER BY SUM(envelope_bytes) DESC
LIMIT 1`: no row when nothing is unleased, else a source of an unleased row that no other source
outweighs. Which one, where several weigh the same, is SQLite's choice. -/
structure HolderChoice where
  pick : List QueueEntry → Option (Option String)
  pick_none : ∀ rows, pick rows = none ↔ ∀ r ∈ rows, r.unleased = false
  pick_some : ∀ rows source, pick rows = some source →
    (∃ r ∈ rows, r.unleased = true ∧ r.source = source) ∧
      ∀ r ∈ rows, r.unleased = true → unleasedBytes rows r.source ≤ unleasedBytes rows source

/-- Fold one row into the search for the first largest holder. -/
def firstLargestStep (rows : List QueueEntry) (best : Option (Option String)) (r : QueueEntry) :
    Option (Option String) :=
  if r.unleased then
    match best with
    | none => some r.source
    | some b => if unleasedBytes rows b < unleasedBytes rows r.source then some r.source else best
  else best

/-- The largest holder whose rows come first. -/
def firstLargest (rows : List QueueEntry) : Option (Option String) :=
  rows.foldl (firstLargestStep rows) none

theorem foldl_firstLargestStep (rows seen todo : List QueueEntry) (best : Option (Option String))
    (hnone : best = none → ∀ r ∈ seen, r.unleased = false)
    (hsome : ∀ b, best = some b → (∃ r ∈ seen, r.unleased = true ∧ r.source = b) ∧
      ∀ r ∈ seen, r.unleased = true → unleasedBytes rows r.source ≤ unleasedBytes rows b) :
    (todo.foldl (firstLargestStep rows) best = none →
        ∀ r ∈ seen ++ todo, r.unleased = false) ∧
      ∀ b, todo.foldl (firstLargestStep rows) best = some b →
        (∃ r ∈ seen ++ todo, r.unleased = true ∧ r.source = b) ∧
          ∀ r ∈ seen ++ todo, r.unleased = true →
            unleasedBytes rows r.source ≤ unleasedBytes rows b := by
  induction todo generalizing seen best with
  | nil =>
    rw [append_nil]
    exact ⟨hnone, hsome⟩
  | cons a todo ih =>
  rw [show seen ++ a :: todo = (seen ++ [a]) ++ todo by simp]
  refine ih (seen ++ [a]) _ ?_ ?_
  · intro h r hr
    unfold firstLargestStep at h
    cases ha : a.unleased with
    | true =>
      rw [if_pos ha] at h
      cases best with
      | none => simp at h
      | some b =>
        simp only at h
        split at h <;> simp at h
    | false =>
      rw [ha] at h
      rcases mem_append.mp hr with hr | hr
      · exact hnone h r hr
      · rw [mem_singleton.mp hr]; exact ha
  · intro b h
    unfold firstLargestStep at h
    cases ha : a.unleased with
    | false =>
      rw [ha] at h
      obtain ⟨⟨r, hr, hru, hrs⟩, hmax⟩ := hsome b h
      refine ⟨⟨r, mem_append_left _ hr, hru, hrs⟩, ?_⟩
      intro r' hr' hu'
      rcases mem_append.mp hr' with hr' | hr'
      · exact hmax r' hr' hu'
      · rw [mem_singleton.mp hr', ha] at hu'
        simp at hu'
    | true =>
    rw [if_pos ha] at h
    cases best with
    | none =>
      obtain rfl := some.inj h
      refine ⟨⟨a, mem_append_right _ mem_cons_self, ha, rfl⟩, ?_⟩
      intro r hr hu
      rcases mem_append.mp hr with hr | hr
      · rw [hnone rfl r hr] at hu
        simp at hu
      · rw [mem_singleton.mp hr]
    | some b' =>
    obtain ⟨⟨r, hr, hru, hrs⟩, hmax⟩ := hsome b' rfl
    simp only at h
    split at h
    · next hlt =>
      obtain rfl := some.inj h
      refine ⟨⟨a, mem_append_right _ mem_cons_self, ha, rfl⟩, ?_⟩
      intro r' hr' hu'
      rcases mem_append.mp hr' with hr' | hr'
      · exact (hmax r' hr' hu').trans hlt.le
      · rw [mem_singleton.mp hr']
    next hge =>
    obtain rfl := some.inj h
    refine ⟨⟨r, mem_append_left _ hr, hru, hrs⟩, ?_⟩
    intro r' hr' hu'
    rcases mem_append.mp hr' with hr' | hr'
    · exact hmax r' hr' hu'
    · rw [mem_singleton.mp hr']
      exact Nat.le_of_not_lt hge

/-- The choice that takes the holder whose rows come first. -/
def HolderChoice.first : HolderChoice where
  pick := firstLargest
  pick_none := by
    intro rows
    have h := foldl_firstLargestStep rows [] rows none (by simp) (by simp)
    constructor
    · intro hn
      exact h.1 hn
    intro hall
    cases hp : firstLargest rows with
    | none => rfl
    | some b =>
      obtain ⟨⟨r, hr, hu, -⟩, -⟩ := h.2 b hp
      rw [hall r hr] at hu
      exact absurd hu (by simp)
  pick_some := by
    intro rows b hp
    exact (foldl_firstLargestStep rows [] rows none (by simp) (by simp)).2 b hp

/-! ### The transaction -/

section Enqueue

variable (cfg : RelayConfig) (choice : HolderChoice) (e : NewEntry)

/-- Rows of the mailbox stored into. -/
def NewEntry.inMailbox (r : QueueEntry) : Bool := r.mailbox == e.mailbox

/-- Pairing announcements of the mailbox stored into. -/
def NewEntry.pairingInMailbox (r : QueueEntry) : Bool := e.inMailbox r && r.isPairing

/-- `DELETE FROM queue_entries WHERE queued_at_millis < cutoff`. -/
def Database.deleteExpired (db : Database) (cutoff : ℕ) : Database :=
  db.deleteWhere fun r => decide (r.queuedAtMillis < cutoff)

/-- Whether the dedup key is in the mailbox already. -/
def NewEntry.alreadyPresent (db : Database) : Bool :=
  match e.dedupKey with
  | some key => db.queueEntries.any fun r => e.inMailbox r && r.dedupKey == some key
  | none => false

/-- A sender's new announcement replaces its old ones. -/
def dedupPairing (db : Database) : Database :=
  match e.senderDeviceId with
  | some sender =>
    db.deleteWhere fun r => e.pairingInMailbox r && r.senderDeviceId == some sender
  | none => db

/-- The pairing cap: the oldest unleased announcement makes room. -/
def pairingLoop : ℕ → Database → Outcome String Database
  | 0, _ => .diverges
  | fuel + 1, db =>
    if db.countWhere e.pairingInMailbox < maxPairingPerMailbox then .ok db
    else
      pairingLoop fuel
        (db.deleteById (db.selectFirst fun r => e.pairingInMailbox r && r.unleased)).1

/-- The row the mailbox quota evicts next: the oldest unleased row whose kind differs from a
pairing announcement, else the oldest unleased row. -/
def NewEntry.quotaVictim (db : Database) : Option ℕ :=
  (db.selectFirst fun r => e.inMailbox r && r.unleased && r.kindDiffersFromPairing).or
    (db.selectFirst fun r => e.inMailbox r && r.unleased)

/-- The mailbox quota, by rows and by bytes. -/
def mailboxLoop : ℕ → Database → Outcome String Database
  | 0, _ => .diverges
  | fuel + 1, db =>
    if db.countWhere e.inMailbox < cfg.maxQueuePerMailbox ∧
        saturatingAdd (db.bytesWhere e.inMailbox) e.encodedLen ≤ cfg.maxMailboxBytes then
      .ok db
    else if (db.deleteById (e.quotaVictim db)).2 = 0 then
      .error "envelope exceeds mailbox byte quota"
    else mailboxLoop fuel (db.deleteById (e.quotaVictim db)).1

/-- What the source of the entry holds already: a bounded share. -/
def checkShare (db : Database) : Outcome String Unit :=
  match e.source with
  | some source =>
    Outcome.require
      (saturatingAdd (db.bytesWhere fun r => r.source == some source) e.encodedLen ≤
        cfg.maxStoredBytesPerPeer)
      "this address holds too much on the relay"
  | none => .ok ()

/-- `SELECT bytes FROM stored_total`, with `max(0)`. -/
def Database.total (db : Database) : ℕ := db.storedTotal.toNat

/-- The oldest unleased row of a holder. -/
def Database.oldestOf (db : Database) (holder : Option String) : Option ℕ :=
  db.selectFirst fun r => r.source == holder && r.unleased

/-- The query for the largest holder, failing when nothing is unleased. -/
def largestHolder (db : Database) : Outcome String (Option String) :=
  match choice.pick db.queueEntries with
  | some source => .ok source
  | none => .error "relay storage is full"

/-- The holder an iteration takes from: the one looked up before, or a fresh lookup. -/
def currentHolder (db : Database) (largest : Option (Option String)) :
    Outcome String (Option String) :=
  match largest with
  | some holder => .ok holder
  | none => largestHolder choice db

/-- Room in the whole relay: the largest holder's oldest rows go, and once that holder has
nothing left to give the largest is looked up again. -/
def totalLoop : ℕ → Database → Option (Option String) → Outcome String Database
  | 0, _, _ => .diverges
  | fuel + 1, db, largest =>
    if saturatingAdd db.total e.encodedLen ≤ cfg.maxTotalBytes then .ok db
    else do
      let holder ← currentHolder choice db largest
      if (db.deleteById (db.oldestOf holder)).2 = 0 then do
        let again ← largestHolder choice db
        if (db.deleteById (db.oldestOf again)).2 = 0 then .error "relay storage is full"
        else totalLoop fuel (db.deleteById (db.oldestOf again)).1 none
      else totalLoop fuel (db.deleteById (db.oldestOf holder)).1 (some holder)

/-- What a store of an announcement does first: the sender's old ones go, then the cap is met. -/
def pairingRoom (db : Database) : Outcome String Database :=
  if e.kind = some pairingAnnouncement then
    pairingLoop e ((dedupPairing e db).queueEntries.length + 1) (dedupPairing e db)
  else .ok db

/-- The evictions and checks between deduplication and the insert. -/
def makeRoom (db : Database) : Outcome String Database := do
  let db ← pairingRoom e db
  let db ← mailboxLoop cfg e (db.queueEntries.length + 1) db
  checkShare cfg e db
  totalLoop cfg choice e (db.queueEntries.length + 1) db none

/-- The transaction of `store_from`: its value is what is committed, an error rolls it back. -/
def enqueue (db : Database) : Outcome String Database := do
  let cutoff ← sqlInteger "cleaning relay queue" (e.queuedAtMillis - cfg.ttlMillis)
  let db := db.deleteExpired cutoff
  if e.alreadyPresent db then pure db
  else do
    let db ← makeRoom cfg choice e db
    let _ ← sqlInteger "persisting relay envelope" e.queuedAtMillis
    db.insertEntry e

end Enqueue

/-! ### The call -/

/-- What storage keeps of a running relay: its database and, in memory, the throughput windows
of the mailboxes. -/
structure RelayState where
  database : Database
  mailboxBytes : FMap String MailboxByteWindow

/-- The two clock readings of a `store_from` call: `allow_mailbox_bytes`'s and its own. -/
structure StoreClock where
  quota : ℕ
  now : ℕ
deriving DecidableEq, Repr

section StoreFrom

variable {Value : Type} (serde : Serde Value) (cfg : RelayConfig) (choice : HolderChoice)

/-- The throughput check of a store. Announcements bypass it: they are deduplicated by sender. -/
def chargeMailbox (windows : FMap String MailboxByteWindow) (clock : StoreClock)
    (recipient : String) (envelope : Value) (bytes : ℕ) : FMap String MailboxByteWindow × Bool :=
  if serde.envelopeKind envelope ≠ some pairingAnnouncement then
    allowMailboxBytes cfg clock.quota windows recipient bytes
  else (windows, true)

/-- The checks before the transaction, and the row to insert. -/
def prepare (windows : FMap String MailboxByteWindow) (clock : StoreClock)
    (source recipient : String) (envelope : Value) :
    FMap String MailboxByteWindow × Except String NewEntry :=
  match validateMailboxId recipient with
  | some error => (windows, .error error)
  | none =>
    match serde.toVec envelope with
    | .error error => (windows, .error error)
    | .ok encoded =>
      if cfg.maxEnvelopeBytes < encoded.utf8ByteSize then
        (windows, .error ("envelope too large: " ++ toString encoded.utf8ByteSize ++
          " bytes > " ++ toString cfg.maxEnvelopeBytes))
      else
        match chargeMailbox serde cfg windows clock recipient envelope encoded.utf8ByteSize with
        | (windows, true) =>
          (windows, .ok
            { mailbox := recipient
              queuedAtMillis := clock.now
              envelopeJson := encoded
              kind := serde.envelopeKind envelope
              senderDeviceId := serde.envelopeSenderDeviceId envelope
              dedupKey := serde.dedupKey envelope
              source := if source.isEmpty then none else some (peerGroup source) })
        | (windows, false) => (windows, .error "mailbox throughput quota exceeded")

theorem prepare_queuedAtMillis {windows windows' : FMap String MailboxByteWindow}
    {clock : StoreClock} {source recipient : String} {envelope : Value} {e : NewEntry}
    (h : prepare serde cfg windows clock source recipient envelope = (windows', .ok e)) :
    e.queuedAtMillis = clock.now := by
  unfold prepare at h
  split at h
  · simp at h
  split at h
  · simp at h
  split at h
  · simp at h
  · split at h
    · rw [← Except.ok.inj (Prod.mk.inj h).2]
    · simp at h

/-- `RelayState::store_from`. -/
def storeFrom (state : RelayState) (clock : StoreClock) (source recipient : String)
    (envelope : Value) : RelayState × Outcome String Unit :=
  match prepare serde cfg state.mailboxBytes clock source recipient envelope with
  | (windows, .error error) => ({ state with mailboxBytes := windows }, .error error)
  | (windows, .ok entry) =>
    match enqueue cfg choice entry state.database with
    | .ok database => ({ database, mailboxBytes := windows }, .ok ())
    | .error error => ({ state with mailboxBytes := windows }, .error error)
    | .diverges => ({ state with mailboxBytes := windows }, .diverges)

end StoreFrom

end Relay
end Conest
