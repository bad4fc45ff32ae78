import Conest.Lib.Machine
import Conest.Relay.Store

/-!
# Fetching, acknowledging, restarting: the relay as a machine

`takeQueue` is `RelayState::take_queue`, the one transaction behind the legacy `fetch` and behind
`fetch_leased`: expired rows go, leases that have reached their end are released in every
mailbox, the oldest unleased rows of the mailbox are returned, and each ordinary row among them
is leased (with a lease) or deleted (without). `acknowledgeLease`, `stats` and `restart` are the
other operations on the table.

`relay` puts them together as a machine on `Option RelayState`: `none` is a relay that hangs
inside a call, holding the database lock, and answers nothing more. A long poll that finds its
mailbox empty drains it a second time when it is woken; that drain is a fetch of its own here,
with its own clock reading.
-/

open Lib Option

namespace Conest
namespace Relay

/-! ### `take_queue` -/

variable {result : Outcome String Unit}

/-- A lease that a `fetch_leased` call offers: the id drawn for the call and how long it lasts. -/
structure Lease where
  id : String
  millis : ℕ
deriving DecidableEq, Repr

/-- `UPDATE ... SET lease_id = NULL ... WHERE lease_until_millis <= now`. -/
def Database.releaseExpired (db : Database) (now : ℕ) : Database :=
  db.setLease (fun r => r.leaseUntilMillis.any fun t => decide (t ≤ now)) none none

section TakeQueue

variable {Value : Type} (serde : Serde Value) (cfg : RelayConfig)

/-- The table as the fetch sees it: expired rows gone, ended leases released. -/
def Database.sweep (db : Database) (cutoff now : ℕ) : Database :=
  (db.deleteExpired cutoff).releaseExpired now

/-- `SELECT id, envelope_json, kind ... WHERE mailbox = ? AND lease_id IS NULL ORDER BY id
LIMIT ?`. -/
def Database.readyRows (db : Database) (recipient : String) (limit : ℕ) : List QueueEntry :=
  (db.queueEntries.filter fun r => r.mailbox == recipient && r.unleased).take limit

/-- The loop body of `take_queue`: a row that does not parse is dropped, an announcement stays,
any other row is leased or, on a legacy fetch, deleted. -/
def takeRow (now : ℕ) (lease : Option Lease) (db : Database) (r : QueueEntry) :
    Outcome String Database :=
  match serde.fromStr r.envelopeJson with
  | none => .ok (db.deleteById (some r.id)).1
  | some _ =>
    if r.isPairing then .ok db
    else
      match lease with
      | some lease => do
        let leaseUntil ← sqlInteger "leasing relay envelope" (saturatingAdd now lease.millis)
        pure (db.setLease (fun r' => r'.id == r.id) (some lease.id) (some leaseUntil))
      | none => .ok (db.deleteById (some r.id)).1

/-- `take_queue`'s loop over the selected rows. -/
def takeRows (now : ℕ) (lease : Option Lease) : List QueueEntry → Database →
    Outcome String Database
  | [], db => .ok db
  | r :: rows, db => do
    let db ← takeRow serde now lease db r
    takeRows now lease rows db

/-- What a fetch gives back: the rows whose envelopes are returned, and the lease they are
under. -/
structure Taken where
  rows : List QueueEntry
  leaseId : Option String

/-- The selected rows whose envelope parses; their envelopes are the messages. -/
def parsedRows (rows : List QueueEntry) : List QueueEntry :=
  rows.filter fun r => (serde.fromStr r.envelopeJson).isSome

/-- The messages of a fetch. -/
def Taken.messages (t : Taken) : List Value := t.rows.filterMap fun r => serde.fromStr r.envelopeJson

/-- `RelayState::take_queue`. -/
def takeQueue (db : Database) (now : ℕ) (recipient : String) (limit : ℕ)
    (lease : Option Lease) : Outcome String (Database × Taken) := do
  let cutoff ← sqlInteger "cleaning relay queue" (now - cfg.ttlMillis)
  let now ← sqlInteger "releasing expired relay leases" now
  let db := db.sweep cutoff now
  let limit ← sqlInteger "querying relay fetch" limit
  let rows := db.readyRows recipient limit
  let db ← takeRows serde now lease rows db
  pure (db, {
    rows := parsedRows serde rows
    leaseId := if rows.any fun r => !r.isPairing then lease.map Lease.id else none })

/-- The limit of a fetch: what the client asks for, between one and the configured limit. -/
def fetchLimit (limit : Option ℕ) : ℕ :=
  max 1 (min (limit.getD cfg.maxFetchLimit) cfg.maxFetchLimit)

/-- How long a lease lasts: what the client asks for, between five seconds and five minutes. -/
def leaseMillis (leaseMs : Option ℕ) : ℕ := max 5000 (min (leaseMs.getD 30000) 300000)

/-- One drain of `RelayState::fetch`. -/
def fetch (db : Database) (now : ℕ) (recipient : String) (limit : Option ℕ) :
    Outcome String (Database × Taken) :=
  match validateMailboxId recipient with
  | some error => .error error
  | none => takeQueue serde cfg db now recipient (fetchLimit cfg limit) none

/-- One drain of `RelayState::fetch_leased`, which drew `leaseId`. -/
def fetchLeased (db : Database) (now : ℕ) (recipient : String) (limit leaseMs : Option ℕ)
    (leaseId : String) : Outcome String (Database × Taken) :=
  match validateMailboxId recipient with
  | some error => .error error
  | none =>
    takeQueue serde cfg db now recipient (fetchLimit cfg limit)
      (some { id := leaseId, millis := leaseMillis leaseMs })

end TakeQueue

/-! ### The other operations -/

/-- `RelayState::acknowledge_lease`. -/
def acknowledgeLease (db : Database) (recipient leaseId : String) : Outcome String Database :=
  match validateMailboxId recipient with
  | some error => .error error
  | none =>
    if leaseId.utf8ByteSize < 16 ∨ 128 < leaseId.utf8ByteSize then
      .error "lease id has an invalid length"
    else .ok (db.deleteWhere fun r => r.mailbox == recipient && r.leaseId == some leaseId)

/-- The counts of `RelayState::stats`. -/
structure RelayStats where
  queueCount : ℕ
  queuedEnvelopeCount : ℕ
  queuedBytes : ℕ
  activeLeases : ℕ
deriving DecidableEq, Repr

/-- `RelayState::stats`: it sweeps expired rows too. A clock past `i64::MAX` makes its statements
fail, and it goes on without them. -/
def stats (cfg : RelayConfig) (db : Database) (now : ℕ) : Database × RelayStats :=
  let db := if now - cfg.ttlMillis ≤ i64Max then db.deleteExpired (now - cfg.ttlMillis) else db
  (db, {
    queueCount := (db.queueEntries.map QueueEntry.mailbox).dedup.length
    queuedEnvelopeCount := db.queueEntries.length
    queuedBytes := db.bytesStored
    activeLeases :=
      if now ≤ i64Max then
        ((db.queueEntries.filter fun r => r.leaseUntilMillis.any fun t => decide (now < t)).filterMap
          QueueEntry.leaseId).dedup.length
      else 0 })

/-- `RelayState::try_new` on a database that exists: every lease is released, and `stored_total`
has its row already, so `INSERT OR IGNORE` leaves it. -/
def Database.tryNew (db : Database) : Database := db.setLease (fun r => r.leaseId.isSome) none none

/-! ### The machine -/

/-- One operation on the relay, with the clock readings and the lease id it draws. -/
inductive Op (Value : Type) where
  | store (clock : StoreClock) (source recipient : String) (envelope : Value)
  | fetch (now : ℕ) (recipient : String) (limit : Option ℕ)
  | fetchLeased (now : ℕ) (recipient : String) (limit leaseMs : Option ℕ) (leaseId : String)
  | acknowledge (recipient leaseId : String)
  | stats (now : ℕ)
  | restart

/-- What an operation answers. -/
inductive Reply where
  | stored
  | taken (t : Taken)
  | acknowledged
  | stats (s : RelayStats)
  | restarted
  | refused (error : String)
  | hangs

section Machine

variable {Value : Type} (serde : Serde Value) (cfg : RelayConfig) (choice : HolderChoice)

/-- Commit what a transaction made of the database, or leave it as it was. -/
def RelayState.commit {α : Type} (state : RelayState) (result : Outcome String (Database × α))
    (reply : α → Reply) : Option RelayState × Reply :=
  match result with
  | .ok (database, a) => (some { state with database }, reply a)
  | .error error => (some state, .refused error)
  | .diverges => (none, .hangs)

/-- One operation on a running relay. -/
def RelayState.exec (state : RelayState) : Op Value → Option RelayState × Reply
  | .store clock source recipient envelope =>
    match storeFrom serde cfg choice state clock source recipient envelope with
    | (state, .ok ()) => (some state, .stored)
    | (state, .error error) => (some state, .refused error)
    | (_, .diverges) => (none, .hangs)
  | .fetch now recipient limit =>
    state.commit (Relay.fetch serde cfg state.database now recipient limit) .taken
  | .fetchLeased now recipient limit leaseMs leaseId =>
    state.commit (Relay.fetchLeased serde cfg state.database now recipient limit leaseMs leaseId)
      .taken
  | .acknowledge recipient leaseId =>
    state.commit ((acknowledgeLease state.database recipient leaseId).bind fun db => .ok (db, ()))
      fun _ => .acknowledged
  | .stats now =>
    (some { state with database := (Relay.stats cfg state.database now).1 },
      .stats (Relay.stats cfg state.database now).2)
  | .restart =>
    (some { database := state.database.tryNew, mailboxBytes := FMap.empty }, .restarted)

/-- The relay: `none` is a relay that hangs. -/
def relay : Machine (Option RelayState) (Op Value) Reply where
  step state op :=
    match state with
    | some state => state.exec serde cfg choice op
    | none => (none, .hangs)

/-- A relay just started on an empty database. -/
def RelayState.initial : RelayState where
  database := Database.empty
  mailboxBytes := FMap.empty

end Machine

/-! ### What an operation does to the table -/

section

variable {Value : Type} {serde : Serde Value}

theorem takeRow_eq_ok {now : ℕ} {lease : Option Lease} {db db' : Database} {r : QueueEntry}
    (h : takeRow serde now lease db r = .ok db') :
    (db' = db ∧ r.isPairing = true ∧ (serde.fromStr r.envelopeJson).isSome) ∨
      (db' = (db.deleteById (some r.id)).1 ∧
        ((serde.fromStr r.envelopeJson).isSome = false ∨ lease = none ∧ r.isPairing = false)) ∨
      ∃ l, lease = some l ∧ r.isPairing = false ∧ (serde.fromStr r.envelopeJson).isSome ∧
        db' = db.setLease (fun r' => r'.id == r.id) (some l.id)
          (some (saturatingAdd now l.millis)) := by
  unfold takeRow at h
  cases hp : serde.fromStr r.envelopeJson with
  | none =>
    rw [hp] at h
    exact .inr (.inl ⟨(Outcome.ok.inj h).symm, .inl rfl⟩)
  | some v =>
  rw [hp] at h
  cases hk : r.isPairing with
  | true =>
    rw [if_pos hk] at h
    exact .inl ⟨(Outcome.ok.inj h).symm, rfl, rfl⟩
  | false =>
  rw [hk] at h
  cases lease with
  | none => exact .inr (.inl ⟨(Outcome.ok.inj h).symm, .inr ⟨rfl, rfl⟩⟩)
  | some l =>
    obtain ⟨u, hu, h⟩ := Outcome.bind_eq_ok.mp h
    obtain ⟨rfl, -⟩ := sqlInteger_eq_ok hu
    exact .inr (.inr ⟨l, rfl, rfl, rfl, (Outcome.ok.inj h).symm⟩)

theorem takeQueue_eq_ok {cfg : RelayConfig} {db db' : Database} {now limit : ℕ}
    {recipient : String} {lease : Option Lease} {t : Taken}
    (h : takeQueue serde cfg db now recipient limit lease = .ok (db', t)) : takeRows serde now lease
        ((db.sweep (now - cfg.ttlMillis) now).readyRows recipient limit)
        (db.sweep (now - cfg.ttlMillis) now) = .ok db' ∧
      t.rows = parsedRows serde
        ((db.sweep (now - cfg.ttlMillis) now).readyRows recipient limit) := by
  obtain ⟨c, hc, h₁⟩ := Outcome.bind_eq_ok.mp h
  obtain ⟨n, hn, h₂⟩ := Outcome.bind_eq_ok.mp h₁
  obtain ⟨l, hl, h₃⟩ := Outcome.bind_eq_ok.mp h₂
  obtain ⟨d, hd, h₄⟩ := Outcome.bind_eq_ok.mp h₃
  rw [(sqlInteger_eq_ok hc).1, (sqlInteger_eq_ok hn).1, (sqlInteger_eq_ok hl).1] at hd h₄
  obtain ⟨rfl, rfl⟩ := Prod.mk.inj (Outcome.ok.inj h₄)
  exact ⟨hd, rfl⟩

end

/-! ### The operations, one by one -/

section Committed

variable {Value : Type} (serde : Serde Value) (cfg : RelayConfig) (choice : HolderChoice)

/-- **What an operation that answers does to the table.** A refusal leaves it as it was; any other
answer says which transaction committed. -/
inductive Committed (db : Database) : Op Value → Reply → Database → Prop
  | refused {op : Op Value} (error : String) (hop : op ≠ .restart) :
      Committed db op (.refused error) db
  | stored {clock : StoreClock} {source recipient : String} {envelope : Value} {e : NewEntry}
      {db' : Database} (hnow : e.queuedAtMillis = clock.now)
      (h : enqueue cfg choice e db = .ok db') :
      Committed db (.store clock source recipient envelope) .stored db'
  | fetched {now : ℕ} {recipient : String} {limit : Option ℕ} {db' : Database} {t : Taken}
      (h : takeQueue serde cfg db now recipient (fetchLimit cfg limit) none = .ok (db', t)) :
      Committed db (.fetch now recipient limit) (.taken t) db'
  | leased {now : ℕ} {recipient : String} {limit leaseMs : Option ℕ} {leaseId : String}
      {db' : Database} {t : Taken}
      (h : takeQueue serde cfg db now recipient (fetchLimit cfg limit)
        (some { id := leaseId, millis := leaseMillis leaseMs }) = .ok (db', t)) :
      Committed db (.fetchLeased now recipient limit leaseMs leaseId) (.taken t) db'
  | acknowledged (recipient leaseId : String) :
      Committed db (.acknowledge recipient leaseId) .acknowledged
        (db.deleteWhere fun r => r.mailbox == recipient && r.leaseId == some leaseId)
  | stats (now : ℕ) :
      Committed db (.stats now) (.stats (Relay.stats cfg db now).2) (Relay.stats cfg db now).1
  | restarted : Committed db .restart .restarted db.tryNew

variable {serde cfg choice}

section

variable {state state' : RelayState} {clock : StoreClock} {source recipient : String}
  {envelope : Value}
  (h : storeFrom serde cfg choice state clock source recipient envelope = (state', result))

include h

theorem storeFrom_cases : (∃ error, result = .error error ∧ state'.database = state.database) ∨
      ∃ windows e, prepare serde cfg state.mailboxBytes clock source recipient envelope =
          (windows, .ok e) ∧
        (result = .ok () ∧ enqueue cfg choice e state.database = .ok state'.database ∨
          result = .diverges ∧ enqueue cfg choice e state.database = .diverges) := by
  unfold storeFrom at h
  cases hprep : prepare serde cfg state.mailboxBytes clock source recipient envelope with
  | mk windows prepared =>
  rw [hprep] at h
  cases prepared with
  | error error =>
    obtain ⟨rfl, rfl⟩ := Prod.mk.inj h
    exact .inl ⟨error, rfl, rfl⟩
  | ok e =>
  dsimp only at h
  cases henq : enqueue cfg choice e state.database with
  | ok database =>
    rw [henq] at h
    obtain ⟨rfl, rfl⟩ := Prod.mk.inj h
    exact .inr ⟨windows, e, rfl, .inl ⟨rfl, henq⟩⟩
  | error error =>
    rw [henq] at h
    obtain ⟨rfl, rfl⟩ := Prod.mk.inj h
    exact .inl ⟨error, rfl, rfl⟩
  | diverges =>
    rw [henq] at h
    obtain ⟨rfl, rfl⟩ := Prod.mk.inj h
    exact .inr ⟨windows, e, rfl, .inr ⟨rfl, henq⟩⟩

theorem storeFrom_committed : (∃ error, result = .error error ∧ state'.database = state.database) ∨
      ∃ e : NewEntry, e.queuedAtMillis = clock.now ∧
        (result = .ok () ∧ enqueue cfg choice e state.database = .ok state'.database ∨
          result = .diverges ∧ enqueue cfg choice e state.database = .diverges) := by
  rcases storeFrom_cases h with hrefused | ⟨_, e, hprep, henq⟩
  · exact .inl hrefused
  · exact .inr ⟨e, prepare_queuedAtMillis serde cfg hprep, henq⟩

end

theorem commit_committed {α : Type} {state state' : RelayState} {op : Op Value}
    {result : Outcome String (Database × α)} {reply : α → Reply} {answer : Reply}
    (hop : op ≠ .restart)
    (hok : ∀ db a, result = .ok (db, a) → Committed serde cfg choice state.database op (reply a) db)
    (h : state.commit result reply = (some state', answer)) :
    Committed serde cfg choice state.database op answer state'.database := by
  unfold RelayState.commit at h
  split at h
  · next db a =>
    obtain ⟨hs, rfl⟩ := Prod.mk.inj h
    obtain rfl := some.inj hs
    exact hok db a rfl
  · next error =>
    obtain ⟨hs, rfl⟩ := Prod.mk.inj h
    obtain rfl := some.inj hs
    exact Committed.refused error hop
  · simp at h

theorem exec_committed {state state' : RelayState} {op : Op Value} {answer : Reply}
    (h : state.exec serde cfg choice op = (some state', answer)) :
    Committed serde cfg choice state.database op answer state'.database := by
  cases op with
  | store clock source recipient envelope =>
    unfold RelayState.exec at h
    dsimp only at h
    cases hstore : storeFrom serde cfg choice state clock source recipient envelope with
    | mk s result =>
    rw [hstore] at h
    rcases storeFrom_committed hstore with
      ⟨error, rfl, hdb⟩ | ⟨e, hnow, ⟨rfl, henq⟩ | ⟨rfl, -⟩⟩
    · obtain ⟨hs, rfl⟩ := Prod.mk.inj h
      obtain rfl := some.inj hs
      rw [hdb]
      exact Committed.refused error (by simp)
    · obtain ⟨hs, rfl⟩ := Prod.mk.inj h
      obtain rfl := some.inj hs
      exact Committed.stored hnow henq
    · simp at h
  | fetch now recipient limit =>
    refine commit_committed (by simp) ?_ h
    intro db t hok
    unfold Relay.fetch at hok
    split at hok
    · simp at hok
    · exact Committed.fetched hok
  | fetchLeased now recipient limit leaseMs leaseId =>
    refine commit_committed (by simp) ?_ h
    intro db t hok
    unfold Relay.fetchLeased at hok
    split at hok
    · simp at hok
    · exact Committed.leased hok
  | acknowledge recipient leaseId =>
    refine commit_committed (by simp) ?_ h
    intro db _ hok
    obtain ⟨db₁, hack, hok⟩ := Outcome.bind_eq_ok.mp hok
    obtain ⟨rfl, -⟩ := Prod.mk.inj (Outcome.ok.inj hok)
    unfold acknowledgeLease at hack
    split at hack
    · simp at hack
    split at hack
    · simp at hack
    · obtain rfl := Outcome.ok.inj hack
      exact Committed.acknowledged recipient leaseId
  | stats now =>
    obtain ⟨hs, rfl⟩ := Prod.mk.inj h
    obtain rfl := some.inj hs
    exact Committed.stats now
  | restart =>
    obtain ⟨hs, rfl⟩ := Prod.mk.inj h
    obtain rfl := some.inj hs
    exact Committed.restarted

end Committed

end Relay
end Conest
