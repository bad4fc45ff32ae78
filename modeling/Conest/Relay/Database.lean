import Conest.Lib.Outcome
import Conest.Lib.Table
import Conest.Relay.Config

/-!
# The relay's database

The two tables of `RelayState::try_new` and the statements the relay executes on them.
`queue_entries` is kept in rowid order, as its b-tree keeps it, so `ORDER BY id LIMIT n` is a
prefix of the selected rows; `AUTOINCREMENT` never hands an id out twice, which `nextId` and the
fields `ids_sorted` and `ids_lt` record. `stored_total` is a counter of its own: the triggers add
`NEW.envelope_bytes` on insert and subtract `OLD.envelope_bytes` on delete, and nothing else
writes it, so that it equals the sum over the table is a theorem and not part of the type.

`Evicts Q db db'` is what every deletion comes to, one statement or a whole loop of them: rows of
`db'` are rows of `db`, a row that is gone meets `Q`, the counter moved with the rows, and no id
was handed out. The relation composes (`Evicts.trans`), and each quota is monotone along it.
-/

open Lib List

namespace Conest
namespace Relay

/-- A row of `queue_entries`. -/
structure QueueEntry where
  id : ℕ
  mailbox : String
  queuedAtMillis : ℕ
  envelopeJson : String
  envelopeBytes : ℕ
  kind : Option String
  senderDeviceId : Option String
  dedupKey : Option String
  leaseId : Option String
  leaseUntilMillis : Option ℕ
  source : Option String
deriving DecidableEq, Repr

namespace QueueEntry

/-- `kind = 'pairing_announcement'`. -/
def isPairing (r : QueueEntry) : Bool := r.kind == some pairingAnnouncement

/-- `lease_id IS NULL`. -/
def unleased (r : QueueEntry) : Bool := r.leaseId.isNone

/-- `kind != 'pairing_announcement'` as SQL reads it: `NULL`, hence not selected, when the kind
is `NULL`. -/
def kindDiffersFromPairing (r : QueueEntry) : Bool :=
  match r.kind with
  | some k => k != pairingAnnouncement
  | none => false

end QueueEntry

/-- The columns `store_from` writes; the id is the database's to choose and a new row holds no
lease. -/
structure NewEntry where
  mailbox : String
  queuedAtMillis : ℕ
  envelopeJson : String
  kind : Option String
  senderDeviceId : Option String
  dedupKey : Option String
  source : Option String
deriving DecidableEq, Repr

/-- `encoded.len()`. -/
def NewEntry.encodedLen (e : NewEntry) : ℕ := e.envelopeJson.utf8ByteSize

/-- The row an insert of `e` under `id` makes. -/
def NewEntry.toRow (e : NewEntry) (id : ℕ) : QueueEntry where
  id := id
  mailbox := e.mailbox
  queuedAtMillis := e.queuedAtMillis
  envelopeJson := e.envelopeJson
  envelopeBytes := e.encodedLen
  kind := e.kind
  senderDeviceId := e.senderDeviceId
  dedupKey := e.dedupKey
  leaseId := none
  leaseUntilMillis := none
  source := e.source

/-- The database: the rows of `queue_entries` in rowid order, the counter of `stored_total` and
the next `AUTOINCREMENT` id. -/
structure Database where
  queueEntries : List QueueEntry
  storedTotal : ℤ
  nextId : ℕ
  ids_sorted : queueEntries.Pairwise fun r r' => r.id < r'.id
  ids_lt : ∀ r ∈ queueEntries, r.id < nextId

/-- An SQLite database file holds at most `2^48` bytes; the JSON texts of the rows lie in it, so
an insert past that fails with `SQLITE_FULL`. -/
def sqliteMaxBytes : ℕ := 2 ^ 48

/-- What SQLite says when the file or the rowids are used up. -/
def diskFull : String := "database or disk is full"

/-- The conversion error of `rusqlite` for an unsigned value past `i64::MAX`. -/
def outOfRange : String := "out of range integral type conversion attempted"

/-- Binding an unsigned value as an SQLite integer. -/
def sqlInteger (context : String) (n : ℕ) : Outcome String ℕ :=
  if n ≤ i64Max then .ok n else .error (context ++ ": " ++ outOfRange)

theorem sqlInteger_eq_ok {context : String} {n k : ℕ} (h : sqlInteger context n = .ok k) :
    k = n ∧ n ≤ i64Max := by
  unfold sqlInteger at h
  split at h
  next hn => exact ⟨(Outcome.ok.inj h).symm, hn⟩
  · simp at h

@[simp] theorem sqlInteger_ne_diverges (context : String) (n : ℕ) :
    sqlInteger context n ≠ .diverges := by
  unfold sqlInteger
  split <;> simp

namespace Database

/-- The database of a relay's first start: both tables made, no row queued. -/
def empty : Database where
  queueEntries := []
  storedTotal := 0
  nextId := 1
  ids_sorted := List.Pairwise.nil
  ids_lt := by simp

/-- `SUM(envelope_bytes)` over the rows that meet `p`. -/
def bytesWhere (db : Database) (p : QueueEntry → Bool) : ℕ :=
  tally QueueEntry.envelopeBytes p db.queueEntries

/-- `SUM(envelope_bytes)` over the table. -/
def bytesStored (db : Database) : ℕ := db.bytesWhere fun _ => true

/-- `COUNT(*)` over the rows that meet `p`. -/
def countWhere (db : Database) (p : QueueEntry → Bool) : ℕ :=
  tally (fun _ => 1) p db.queueEntries

/-- `SELECT id ... ORDER BY id LIMIT 1`. -/
def selectFirst (db : Database) (p : QueueEntry → Bool) : Option ℕ :=
  (db.queueEntries.find? p).map QueueEntry.id

/-- `DELETE FROM queue_entries WHERE p`, with the delete trigger run on each row. -/
def deleteWhere (db : Database) (p : QueueEntry → Bool) : Database where
  queueEntries := db.queueEntries.filter fun r => !p r
  storedTotal := db.storedTotal - db.bytesWhere p
  nextId := db.nextId
  ids_sorted := db.ids_sorted.sublist List.filter_sublist
  ids_lt := fun r hr => db.ids_lt r (List.mem_filter.mp hr).1

/-- `DELETE FROM queue_entries WHERE id = ?`, with the number of rows changed; comparing with
`NULL` selects nothing. -/
def deleteById (db : Database) (id : Option ℕ) : Database × ℕ :=
  (db.deleteWhere fun r => id == some r.id,
    db.queueEntries.countP fun r => id == some r.id)

/-- `UPDATE queue_entries SET lease_id = ?, lease_until_millis = ? WHERE p`. -/
def setLease (db : Database) (p : QueueEntry → Bool) (lease : Option String)
    (leaseUntil : Option ℕ) : Database where
  queueEntries := db.queueEntries.map fun r =>
    if p r then { r with leaseId := lease, leaseUntilMillis := leaseUntil } else r
  storedTotal := db.storedTotal
  nextId := db.nextId
  ids_sorted := by
    rw [List.pairwise_map]
    refine db.ids_sorted.imp ?_
    intro r r' h
    split <;> split <;> exact h
  ids_lt := by
    intro r hr
    obtain ⟨r', hr', rfl⟩ := List.mem_map.mp hr
    have := db.ids_lt r' hr'
    split <;> exact this

/-- `INSERT INTO queue_entries`, with the unique index on mailbox and dedup key and the insert
trigger. -/
def insertEntry (db : Database) (e : NewEntry) : Outcome String Database := do
  Outcome.require (¬ db.queueEntries.any fun r =>
      r.mailbox == e.mailbox && r.dedupKey.isSome && r.dedupKey == e.dedupKey)
    ("persisting relay envelope: UNIQUE constraint failed: " ++
      "queue_entries.mailbox, queue_entries.dedup_key")
  Outcome.require (db.bytesStored + e.encodedLen ≤ sqliteMaxBytes ∧ db.nextId ≤ i64Max)
    ("persisting relay envelope: " ++ diskFull)
  pure
    { queueEntries := db.queueEntries ++ [e.toRow db.nextId]
      storedTotal := db.storedTotal + e.encodedLen
      nextId := db.nextId + 1
      ids_sorted := by
        rw [List.pairwise_append]
        refine ⟨db.ids_sorted, List.pairwise_singleton _ _, ?_⟩
        intro r hr r' hr'
        rw [List.mem_singleton.mp hr']
        exact db.ids_lt r hr
      ids_lt := by
        intro r hr
        rcases List.mem_append.mp hr with hr | hr
        · exact Nat.lt_succ_of_lt (db.ids_lt r hr)
        · rw [List.mem_singleton.mp hr]
          exact Nat.lt_succ_self _ }

/-- What a successful insert did: one row appended under a fresh id, its bytes counted, and the
table still within the file's limit. -/
theorem insertEntry_eq_ok {db db' : Database} {e : NewEntry} (h : db.insertEntry e = .ok db') :
    db'.queueEntries = db.queueEntries ++ [e.toRow db.nextId] ∧
      db'.storedTotal = db.storedTotal + e.encodedLen ∧ db'.nextId = db.nextId + 1 ∧
      db.bytesStored + e.encodedLen ≤ sqliteMaxBytes := by
  obtain ⟨_, -, h⟩ := Outcome.bind_eq_ok.mp h
  obtain ⟨_, hcap, h⟩ := Outcome.bind_eq_ok.mp h
  rw [Outcome.require_eq_ok] at hcap
  obtain rfl := Outcome.ok.inj h
  exact ⟨rfl, rfl, rfl, hcap.1⟩

theorem insertEntry_ne_diverges (db : Database) (e : NewEntry) :
    db.insertEntry e ≠ .diverges := by
  refine Outcome.bind_ne_diverges Outcome.require_ne_diverges fun _ _ => ?_
  exact Outcome.bind_ne_diverges Outcome.require_ne_diverges fun _ _ => by simp

theorem eq_of_id_eq (db : Database) {r r' : QueueEntry} (hr : r ∈ db.queueEntries)
    (hr' : r' ∈ db.queueEntries) (h : r.id = r'.id) : r = r' := by
  by_contra hne
  have hd : db.queueEntries.Pairwise fun a b => a.id ≠ b.id :=
    db.ids_sorted.imp fun hlt => Nat.ne_of_lt hlt
  have : Std.Symm fun a b : QueueEntry => a.id ≠ b.id := ⟨fun _ _ hab => Ne.symm hab⟩
  exact hd.forall hr hr' hne h

theorem selectFirst_eq_some {db : Database} {p : QueueEntry → Bool} {id : ℕ}
    (h : db.selectFirst p = some id) : ∃ r ∈ db.queueEntries, r.id = id ∧ p r = true := by
  obtain ⟨r, hr, rfl⟩ := Option.map_eq_some_iff.mp h
  exact ⟨r, mem_of_find?_eq_some hr, rfl, find?_some hr⟩

theorem selectFirst_eq_none {db : Database} {p : QueueEntry → Bool} :
    db.selectFirst p = none ↔ ∀ r ∈ db.queueEntries, ¬ p r = true := by
  unfold selectFirst
  rw [Option.map_eq_none_iff, find?_eq_none]

theorem deleteById_removed_pos {db : Database} {id : ℕ} {r : QueueEntry}
    (hr : r ∈ db.queueEntries) (hid : r.id = id) : 0 < (db.deleteById (some id)).2 := by
  unfold deleteById
  rw [countP_pos_iff]
  exact ⟨r, hr, by simp [hid]⟩

theorem deleteById_length (db : Database) (id : Option ℕ) :
    (db.deleteById id).1.queueEntries.length + (db.deleteById id).2 =
      db.queueEntries.length := by
  have h := length_eq_length_filter_add (l := db.queueEntries)
    fun r : QueueEntry => id == some r.id
  rw [← countP_eq_length_filter] at h
  exact (h.trans (Nat.add_comm _ _)).symm

@[simp] theorem mem_deleteWhere {db : Database} {p : QueueEntry → Bool} {r : QueueEntry} :
    r ∈ (db.deleteWhere p).queueEntries ↔ r ∈ db.queueEntries ∧ p r = false := by
  simp [deleteWhere]

end Database

/-! ### Evictions -/

/-- `db'` is `db` with rows deleted, all of which met `Q`. -/
structure Evicts (Q : QueueEntry → Prop) (db db' : Database) : Prop where
  sublist : db'.queueEntries.Sublist db.queueEntries
  /-- A row that is gone met `Q`. -/
  gone : ∀ r ∈ db.queueEntries, r ∈ db'.queueEntries ∨ Q r
  /-- The counter moved with the rows. -/
  drift : db'.storedTotal - db'.bytesStored = db.storedTotal - db.bytesStored
  nextId_eq : db'.nextId = db.nextId

namespace Evicts

variable {Q Q' : QueueEntry → Prop} {db db' db'' : Database}

protected theorem refl (Q : QueueEntry → Prop) (db : Database) : Evicts Q db db where
  sublist := List.Sublist.refl _
  gone := fun _ hr => .inl hr
  drift := rfl
  nextId_eq := rfl

protected theorem trans (h : Evicts Q db db') (h' : Evicts Q db' db'') : Evicts Q db db'' where
  sublist := h'.sublist.trans h.sublist
  gone := by
    intro r hr
    rcases h.gone r hr with hr' | hQ
    · exact h'.gone r hr'
    · exact .inr hQ
  drift := h'.drift.trans h.drift
  nextId_eq := h'.nextId_eq.trans h.nextId_eq

theorem mono (h : Evicts Q db db') (hQ : ∀ r ∈ db.queueEntries, Q r → Q' r) :
    Evicts Q' db db' where
  sublist := h.sublist
  gone := fun r hr => (h.gone r hr).imp_right (hQ r hr)
  drift := h.drift
  nextId_eq := h.nextId_eq

theorem mem (h : Evicts Q db db') {r : QueueEntry} (hr : r ∈ db'.queueEntries) :
    r ∈ db.queueEntries :=
  h.sublist.subset hr

theorem bytesWhere_le (h : Evicts Q db db') (p : QueueEntry → Bool) :
    db'.bytesWhere p ≤ db.bytesWhere p :=
  tally_le_of_sublist h.sublist

theorem countWhere_le (h : Evicts Q db db') (p : QueueEntry → Bool) :
    db'.countWhere p ≤ db.countWhere p :=
  tally_le_of_sublist h.sublist

theorem deleteWhere (db : Database) (p : QueueEntry → Bool) :
    Evicts (fun r => p r = true) db (db.deleteWhere p) where
  sublist := filter_sublist
  gone := by
    intro r hr
    cases hp : p r with
    | true => exact .inr rfl
    | false => exact .inl (by simp [hr, hp])
  drift := by
    have h := tally_filter_add_filter_not QueueEntry.envelopeBytes p db.queueEntries
    change (db.storedTotal - (db.bytesWhere p : ℤ)) -
      (tally QueueEntry.envelopeBytes (fun _ => true)
        (db.queueEntries.filter fun r => !p r) : ℤ) = _
    unfold Database.bytesStored Database.bytesWhere
    omega
  nextId_eq := rfl

theorem deleteFirst (db : Database) (p : QueueEntry → Bool) :
    Evicts (fun r => p r = true) db (db.deleteById (db.selectFirst p)).1 := by
  refine (Evicts.deleteWhere db fun r => db.selectFirst p == some r.id).mono ?_
  intro r hr hid
  obtain ⟨r', hr', hid', hp⟩ := Database.selectFirst_eq_some (eq_of_beq hid)
  rwa [db.eq_of_id_eq hr hr' hid'.symm]

end Evicts

end Relay
end Conest
