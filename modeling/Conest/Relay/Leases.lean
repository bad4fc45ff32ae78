import Conest.Relay.Bounds

/-!
# Leases: exclusivity, and nothing lost

An ordinary entry is handed out by `fetch_leased` under a lease, and by a legacy `fetch` for good.
Entries are told apart by their row ids, which are never handed out twice. For every run
(`lease_exclusivity`):

* at most one outstanding lease covers an entry, and the lease a row names is the outstanding one;
* a second `fetch_leased` returns the entry only after a restart, or once a fetch has read a
  clock at or past the end of the first lease;
* a legacy fetch that returned it is the last call that does;
* a row under a lease goes only by an acknowledgement that names its mailbox and that lease, by
  its age, or by a legacy fetch that has seen the lease end, so no store evicts it;
* an acknowledgement of a lease whose entry was leased again since leaves the entry alone.

An entry whose lease has ended is an ordinary unleased entry again, and a legacy fetch may take
it for good (`released_entry_goes_to_legacy_fetch`).

The argument is about single rows. `Committed.row_after` and `Committed.row_gone` say what an
operation can do to one row: keep it, release its lease, lease it, or delete it, and why.
`Held`, `Gone` and `NotUnder` are three properties of one id that operations keep, and each clause
of the result carries one of them from one step of the run to a later one.
-/

open Lib List Option

namespace Conest
namespace Relay

variable {Value : Type} {serde : Serde Value} {cfg : RelayConfig} {choice : HolderChoice}

/-! ### The rows after a fetch -/

variable {r r' q : QueueEntry} {st st' : RelayState} {i j u' : ℕ}

/-- What the loop body of `take_queue` makes of the row it looks at. -/
def takeAct (serde : Serde Value) (now : ℕ) (lease : Option Lease) (r : QueueEntry) :
    Option QueueEntry :=
  if (serde.fromStr r.envelopeJson).isSome then
    if r.isPairing then some r
    else lease.map fun l =>
      { r with leaseId := some l.id, leaseUntilMillis := some (saturatingAdd now l.millis) }
  else none

section

variable {now : ℕ} {lease : Option Lease}

theorem takeAct_id (h : takeAct serde now lease r = some r') : r'.id = r.id := by
  unfold takeAct at h
  split at h
  · split at h
    · rw [some.inj h]
    · obtain ⟨l, -, rfl⟩ := map_eq_some_iff.mp h
      rfl
  · simp at h

theorem takeRow_mem {db db' : Database} (hq : q ∈ db.queueEntries)
    (h : takeRow serde now lease db q = .ok db') (r' : QueueEntry) : r' ∈ db'.queueEntries ↔
      (r' ∈ db.queueEntries ∧ r'.id ≠ q.id) ∨ takeAct serde now lease q = some r' := by
  rcases takeRow_eq_ok h with ⟨rfl, hp, hs⟩ | ⟨rfl, hwhy⟩ | ⟨l, rfl, hp, hs, rfl⟩
  · -- an announcement stays as it is
    have hact : takeAct serde now lease q = some q := by simp [takeAct, hp, hs]
    rw [hact]
    constructor
    · intro hr
      by_cases hid : r'.id = q.id
      · exact .inr (by rw [db'.eq_of_id_eq hr hq hid])
      · exact .inl ⟨hr, hid⟩
    · rintro (⟨hr, -⟩ | hr)
      · exact hr
      · rwa [← some.inj hr]
  · -- deleted
    have hact : takeAct serde now lease q = none := by
      rcases hwhy with hs | ⟨rfl, hp⟩
      · simp [takeAct, hs]
      · simp [takeAct, hp]
    rw [hact]
    simp only [Database.deleteById, Database.mem_deleteWhere, reduceCtorEq, or_false]
    refine and_congr_right fun _ => ?_
    rw [beq_eq_false_iff_ne, ne_eq, some.injEq, eq_comm]
  · -- leased
    have hact : takeAct serde now (some l) q = some { q with
        leaseId := some l.id, leaseUntilMillis := some (saturatingAdd now l.millis) } := by
      simp [takeAct, hp, hs]
    rw [hact, mem_setLease]
    refine or_congr (and_congr_right fun _ => beq_eq_false_iff_ne) ?_
    constructor
    · rintro ⟨r, hr, hid, rfl⟩
      rw [db.eq_of_id_eq hr hq (eq_of_beq hid)]
    · intro hr
      exact ⟨q, hq, beq_self_eq_true _, (some.inj hr).symm⟩

theorem takeRows_mem {rows : List QueueEntry} {db db' : Database}
    (hsub : ∀ q ∈ rows, q ∈ db.queueEntries) (hnd : rows.Pairwise fun q q' => q.id ≠ q'.id)
    (h : takeRows serde now lease rows db = .ok db') : r' ∈ db'.queueEntries ↔
      (r' ∈ db.queueEntries ∧ ∀ q ∈ rows, r'.id ≠ q.id) ∨
        ∃ q ∈ rows, takeAct serde now lease q = some r' := by
  induction rows generalizing db with
  | nil =>
    obtain rfl := Outcome.ok.inj h
    simp
  | cons q rows ih =>
  obtain ⟨db₁, hrow, hrest⟩ := Outcome.bind_eq_ok.mp h
  have hq := hsub q mem_cons_self
  have hmem := takeRow_mem hq hrow
  obtain ⟨hqne, hnd'⟩ := pairwise_cons.mp hnd
  have hsub' : ∀ q' ∈ rows, q' ∈ db₁.queueEntries := by
    intro q' hq'
    exact (hmem q').mpr
      (.inl ⟨hsub q' (mem_cons_of_mem q hq'), (hqne q' hq').symm⟩)
  rw [ih hsub' hnd' hrest, hmem]
  constructor
  · rintro (⟨⟨hr, hne⟩ | hact, hall⟩ | ⟨q', hq', hact⟩)
    · exact .inl ⟨hr, forall_mem_cons.mpr ⟨hne, hall⟩⟩
    · exact .inr ⟨q, mem_cons_self, hact⟩
    · exact .inr ⟨q', mem_cons_of_mem q hq', hact⟩
  rintro (⟨hr, hall⟩ | ⟨q', hq', hact⟩)
  · obtain ⟨hne, hall⟩ := forall_mem_cons.mp hall
    exact .inl ⟨.inl ⟨hr, hne⟩, hall⟩
  · rcases mem_cons.mp hq' with rfl | hq'
    · refine .inl ⟨.inr hact, ?_⟩
      intro q'' hq''
      rw [takeAct_id hact]
      exact hqne q'' hq''
    · exact .inr ⟨q', hq', hact⟩

theorem takeRows_nextId {rows : List QueueEntry} {db db' : Database}
    (h : takeRows serde now lease rows db = .ok db') : db'.nextId = db.nextId := by
  induction rows generalizing db with
  | nil => rw [← Outcome.ok.inj h]
  | cons q rows ih =>
    obtain ⟨db₁, hrow, hrest⟩ := Outcome.bind_eq_ok.mp h
    rw [ih hrest]
    rcases takeRow_eq_ok hrow with ⟨rfl, -, -⟩ | ⟨rfl, -⟩ | ⟨l, -, -, -, rfl⟩ <;> rfl

end

/-- A row whose lease the clock reading `now` has seen end. -/
def LeaseEnded (now : ℕ) (r : QueueEntry) : Prop := ∃ u, r.leaseUntilMillis = some u ∧ u ≤ now

/-- The row with its lease released. -/
def QueueEntry.released (r : QueueEntry) : QueueEntry :=
  { r with leaseId := none, leaseUntilMillis := none }

theorem mem_sweep {db : Database} {cutoff now : ℕ} : r ∈ (db.sweep cutoff now).queueEntries ↔
      ∃ r₀ ∈ db.queueEntries, cutoff ≤ r₀.queuedAtMillis ∧
        (¬ LeaseEnded now r₀ ∧ r = r₀ ∨ LeaseEnded now r₀ ∧ r = r₀.released) := by
  have hended : ∀ r₀ : QueueEntry,
      (r₀.leaseUntilMillis.any fun t => decide (t ≤ now)) = true ↔ LeaseEnded now r₀ := by
    intro r₀
    unfold LeaseEnded
    cases r₀.leaseUntilMillis <;> simp
  unfold Database.sweep Database.releaseExpired Database.deleteExpired
  rw [mem_setLease]
  constructor
  · rintro (⟨hr, hne⟩ | ⟨r₀, hr, he, rfl⟩)
    · obtain ⟨hr, hq⟩ := Database.mem_deleteWhere.mp hr
      refine ⟨r, hr, Nat.le_of_not_lt (of_decide_eq_false hq), .inl ⟨?_, rfl⟩⟩
      rw [← hended, hne]
      simp
    · obtain ⟨hr, hq⟩ := Database.mem_deleteWhere.mp hr
      exact ⟨r₀, hr, Nat.le_of_not_lt (of_decide_eq_false hq), .inr ⟨(hended r₀).mp he, rfl⟩⟩
  rintro ⟨r₀, hr, hq, ⟨he, rfl⟩ | ⟨he, rfl⟩⟩
  · refine .inl ⟨Database.mem_deleteWhere.mpr
      ⟨hr, decide_eq_false (Nat.not_lt_of_le hq)⟩, ?_⟩
    rw [← hended] at he
    simpa using he
  · exact .inr ⟨r₀, Database.mem_deleteWhere.mpr
      ⟨hr, decide_eq_false (Nat.not_lt_of_le hq)⟩, (hended r₀).mpr he, rfl⟩

/-- A row ready for a fetch: it is of the mailbox, has not expired, and holds no lease or one that
has ended. -/
structure Ready (cfg : RelayConfig) (now : ℕ) (recipient : String) (r : QueueEntry) : Prop where
  mailbox : r.mailbox = recipient
  fresh : now - cfg.ttlMillis ≤ r.queuedAtMillis
  free : r.leaseId = none ∨ LeaseEnded now r

theorem mem_of_mem_readyRows {db : Database} {limit : ℕ} {recipient : String}
    (hq : q ∈ db.readyRows recipient limit) : q ∈ db.queueEntries :=
  (mem_filter.mp (mem_of_mem_take hq)).1

theorem mem_readyRows {db : Database} {now limit : ℕ} {recipient : String}
    (hq : q ∈ (db.sweep (now - cfg.ttlMillis) now).readyRows recipient limit) :
    ∃ r ∈ db.queueEntries, Ready cfg now recipient r ∧
      (q = r ∨ LeaseEnded now r ∧ q = r.released) := by
  obtain ⟨hmem, hsel⟩ := mem_filter.mp (mem_of_mem_take hq)
  obtain ⟨hbox, hun⟩ := Bool.and_eq_true_iff.mp hsel
  have hnone : q.leaseId = none := isNone_iff_eq_none.mp hun
  obtain ⟨r, hr, hfresh, ⟨-, rfl⟩ | ⟨hended, rfl⟩⟩ := mem_sweep.mp hmem
  · exact ⟨q, hr, ⟨eq_of_beq hbox, hfresh, .inl hnone⟩, .inl rfl⟩
  · exact ⟨r, hr, ⟨eq_of_beq hbox, hfresh, .inr hended⟩, .inr ⟨hended, rfl⟩⟩

section

variable {db db' : Database} {now limit : ℕ} {recipient : String} {lease : Option Lease} {t : Taken}
  (h : takeQueue serde cfg db now recipient limit lease = .ok (db', t))

include h

/-- **The table after a fetch**: the swept table, with the action of the loop on the rows
selected. -/
theorem takeQueue_mem : r' ∈ db'.queueEntries ↔
      (r' ∈ (db.sweep (now - cfg.ttlMillis) now).queueEntries ∧
        ∀ q ∈ (db.sweep (now - cfg.ttlMillis) now).readyRows recipient limit, r'.id ≠ q.id) ∨
      ∃ q ∈ (db.sweep (now - cfg.ttlMillis) now).readyRows recipient limit,
        takeAct serde now lease q = some r' := by
  obtain ⟨hrows, -⟩ := takeQueue_eq_ok h
  refine takeRows_mem ?_ ?_ hrows
  · intro q hq
    exact mem_of_mem_readyRows hq
  · have hsub : ((db.sweep (now - cfg.ttlMillis) now).readyRows recipient limit).Sublist
        (db.sweep (now - cfg.ttlMillis) now).queueEntries :=
      (take_sublist _ _).trans filter_sublist
    exact ((db.sweep (now - cfg.ttlMillis) now).ids_sorted.sublist hsub).imp
      fun hlt => Nat.ne_of_lt hlt

theorem takeQueue_nextId : db'.nextId = db.nextId := by
  rw [takeRows_nextId (takeQueue_eq_ok h).1]
  rfl

theorem takeQueue_returned (hq : q ∈ t.rows) :
    q ∈ (db.sweep (now - cfg.ttlMillis) now).readyRows recipient limit ∧
      (serde.fromStr q.envelopeJson).isSome = true ∧
      ∃ r ∈ db.queueEntries, r.id = q.id ∧ Ready cfg now recipient r := by
  rw [(takeQueue_eq_ok h).2] at hq
  obtain ⟨hq, hparse⟩ := mem_filter.mp hq
  obtain ⟨r, hr, hready, hqr⟩ := mem_readyRows hq
  refine ⟨hq, hparse, r, hr, ?_, hready⟩
  rcases hqr with rfl | ⟨-, rfl⟩ <;> rfl

theorem takeQueue_returned_after (hq : q ∈ t.rows) (hr' : r' ∈ db'.queueEntries)
    (hid : r'.id = q.id) : takeAct serde now lease q = some r' := by
  have hready := (takeQueue_returned h hq).1
  rcases (takeQueue_mem h).mp hr' with ⟨-, hall⟩ | ⟨q', hq', hact⟩
  · exact absurd hid (hall q hready)
  have hqq : q' = q :=
    Database.eq_of_id_eq _ (mem_of_mem_readyRows hq') (mem_of_mem_readyRows hready)
      (by rw [← takeAct_id hact, hid])
  rwa [hqq] at hact

end

/-! ### What one operation does to one row -/

/-- The clock reading of a fetch, against which leases are released. -/
def Op.fetchClock : Op Value → Option ℕ
  | .fetch now _ _ => some now
  | .fetchLeased now _ _ _ _ => some now
  | _ => none

/-- The clock reading against which an operation expires rows. -/
def Op.clock : Op Value → Option ℕ
  | .store clock _ _ _ => some clock.now
  | .fetch now _ _ => some now
  | .fetchLeased now _ _ _ _ => some now
  | .stats now => some now
  | _ => none

/-- The lease id an operation draws. -/
def Op.drawn : Op Value → Option String
  | .fetchLeased _ _ _ _ leaseId => some leaseId
  | _ => none

/-- The operation releases a lease that ends at `u`: a restart does, and a fetch that answers and
has read a clock at or past the end. -/
def Op.Releases (op : Op Value) (answer : Reply) (u : ℕ) : Prop :=
  op = .restart ∨ ∃ now t, op.fetchClock = some now ∧ answer = .taken t ∧ u ≤ now

theorem Op.not_releases {op : Op Value} {answer : Reply} (hop : op ≠ .restart)
    (hans : ∀ t, answer ≠ .taken t) (u : ℕ) : ¬ op.Releases answer u := by
  rintro (hre | ⟨now, t, -, ht, -⟩)
  · exact hop hre
  · exact hans t ht

/-- The moves of a row that stays. -/
inductive RowMove (serde : Serde Value) (op : Op Value) (answer : Reply) (r : QueueEntry) :
    QueueEntry → Prop
  | kept (hheld : ∀ u, r.leaseUntilMillis = some u → r.leaseId ≠ none → ¬ op.Releases answer u) :
      RowMove serde op answer r r
  | released (hwhy : op = .restart ∨ ∃ u, r.leaseUntilMillis = some u ∧ op.Releases answer u) :
      RowMove serde op answer r r.released
  | leased {now : ℕ} {recipient : String} {limit leaseMs : Option ℕ} {leaseId : String}
      {t : Taken} {q : QueueEntry} (hop : op = .fetchLeased now recipient limit leaseMs leaseId)
      (hans : answer = .taken t) (hq : q ∈ t.rows) (hqord : q.isPairing = false)
      (hid : q.id = r.id)
      (hfree : r.leaseId = none ∨ LeaseEnded now r) (hord : r.isPairing = false)
      (hparse : (serde.fromStr r.envelopeJson).isSome = true) :
      RowMove serde op answer r { r with
        leaseId := some leaseId
        leaseUntilMillis := some (saturatingAdd now (leaseMillis leaseMs)) }

theorem RowMove.id_eq {op : Op Value} {answer : Reply} (h : RowMove serde op answer r r') :
    r'.id = r.id := by
  cases h <;> rfl

/-- The ways a row goes. -/
inductive RowGone (serde : Serde Value) (cfg : RelayConfig) (op : Op Value) (r : QueueEntry) :
    Prop
  | expired {now : ℕ} (hclock : op.clock = some now)
      (hold : r.queuedAtMillis < now - cfg.ttlMillis)
  | acknowledged {leaseId : String} (hop : op = .acknowledge r.mailbox leaseId)
      (hlease : r.leaseId = some leaseId)
  | evicted (hfree : r.isPairing = true ∨ r.unleased = true)
  | taken {now : ℕ} {limit : Option ℕ} (hop : op = .fetch now r.mailbox limit)
      (hfree : r.leaseId = none ∨ LeaseEnded now r)
  | dropped {now : ℕ} (hop : op.fetchClock = some now)
      (hparse : (serde.fromStr r.envelopeJson).isSome = false)

section Fetch

variable {db db' : Database} {op : Op Value} {now : ℕ} {limit : ℕ} {recipient : String}
  {lease : Option Lease} {t : Taken}

theorem takeQueue_row_after (hop : op ≠ .restart) (hclock : op.fetchClock = some now)
    (hlease : ∀ l, lease = some l → ∃ lim ms,
      op = .fetchLeased now recipient lim ms l.id ∧ l.millis = leaseMillis ms)
    (h : takeQueue serde cfg db now recipient limit lease = .ok (db', t))
    (hr' : r' ∈ db'.queueEntries) : ∃ r ∈ db.queueEntries, RowMove serde op (.taken t) r r' := by
  have hreleases : ∀ u, op.Releases (.taken t) u ↔ u ≤ now := by
    intro u
    constructor
    · rintro (hre | ⟨now', t', hclock', -, hle⟩)
      · exact absurd hre hop
      · rw [hclock] at hclock'
        rwa [some.inj hclock']
    · intro hle
      exact .inr ⟨now, t, hclock, rfl, hle⟩
  have hreleased : ∀ r, LeaseEnded now r → RowMove serde op (.taken t) r r.released := by
    rintro r ⟨u, hu, hle⟩
    exact RowMove.released (.inr ⟨u, hu, (hreleases u).mpr hle⟩)
  rcases (takeQueue_mem h).mp hr' with ⟨hmem, -⟩ | ⟨q, hq, hact⟩
  · -- not selected: as the sweep left it
    obtain ⟨r, hr, -, ⟨hnot, rfl⟩ | ⟨hended, rfl⟩⟩ := mem_sweep.mp hmem
    · refine ⟨r', hr, RowMove.kept ?_⟩
      intro u hu _ hre
      exact hnot ⟨u, hu, (hreleases u).mp hre⟩
    · exact ⟨r, hr, hreleased r hended⟩
  obtain ⟨r, hr, hready, hqr⟩ := mem_readyRows hq
  have hjson : q.envelopeJson = r.envelopeJson := by rcases hqr with rfl | ⟨-, rfl⟩ <;> rfl
  have hpair : q.isPairing = r.isPairing := by rcases hqr with rfl | ⟨-, rfl⟩ <;> rfl
  have hqid : q.id = r.id := by rcases hqr with rfl | ⟨-, rfl⟩ <;> rfl
  unfold takeAct at hact
  split at hact
  · next hparse =>
    split at hact
    · -- an announcement stays, released if its lease has ended
      obtain rfl := some.inj hact
      rcases hqr with rfl | ⟨hended, rfl⟩
      · refine ⟨q, hr, RowMove.kept ?_⟩
        intro u hu hne hre
        rcases hready.free with hnone | hended
        · exact hne hnone
        · -- the sweep released it, so it names no lease
          obtain ⟨-, hsel⟩ := mem_filter.mp (mem_of_mem_take hq)
          exact hne (isNone_iff_eq_none.mp (Bool.and_eq_true_iff.mp hsel).2)
      · exact ⟨r, hr, hreleased r hended⟩
    next hord =>
    obtain ⟨l, hl, rfl⟩ := map_eq_some_iff.mp hact
    obtain ⟨lim, ms, hop, hms⟩ := hlease l hl
    have hret : q ∈ t.rows := by
      rw [(takeQueue_eq_ok h).2]
      exact mem_filter.mpr ⟨hq, hparse⟩
    have hqord : q.isPairing = false := by simpa using hord
    have hord' : r.isPairing = false := by rw [← hpair]; exact hqord
    have hparse' : (serde.fromStr r.envelopeJson).isSome = true := by rw [← hjson]; exact hparse
    refine ⟨r, hr, ?_⟩
    rw [hms]
    rcases hqr with rfl | ⟨-, rfl⟩
    · exact RowMove.leased hop rfl hret hqord hqid hready.free hord' hparse'
    · exact RowMove.leased hop rfl hret hqord hqid hready.free hord' hparse'
  · simp at hact

theorem takeQueue_row_gone (hclock : op.fetchClock = some now) (hexp : op.clock = some now)
    (hlegacy : lease = none → ∃ lim, op = .fetch now recipient lim)
    (h : takeQueue serde cfg db now recipient limit lease = .ok (db', t))
    (hr : r ∈ db.queueEntries) :
    (∃ r' ∈ db'.queueEntries, r'.id = r.id) ∨ RowGone serde cfg op r := by
  by_cases hold : r.queuedAtMillis < now - cfg.ttlMillis
  · exact .inr (RowGone.expired hexp hold)
  -- the row survives the sweep, perhaps released, and is selected or not
  obtain ⟨s, hs, hsid, hsr⟩ : ∃ s ∈ (db.sweep (now - cfg.ttlMillis) now).queueEntries,
      s.id = r.id ∧ (s = r ∨ s = r.released) := by
    by_cases hended : LeaseEnded now r
    · exact ⟨r.released, mem_sweep.mpr ⟨r, hr, Nat.le_of_not_lt hold, .inr ⟨hended, rfl⟩⟩,
        rfl, .inr rfl⟩
    · exact ⟨r, mem_sweep.mpr ⟨r, hr, Nat.le_of_not_lt hold, .inl ⟨hended, rfl⟩⟩,
        rfl, .inl rfl⟩
  by_cases hsel : ∃ q ∈ (db.sweep (now - cfg.ttlMillis) now).readyRows recipient limit,
      s.id = q.id
  · obtain ⟨q, hq, hidq⟩ := hsel
    obtain rfl : s = q := Database.eq_of_id_eq _ hs (mem_of_mem_readyRows hq) hidq
    cases hact : takeAct serde now lease s with
    | some r' =>
      exact .inl ⟨r', (takeQueue_mem h).mpr (.inr ⟨s, hq, hact⟩),
        (takeAct_id hact).trans hsid⟩
    | none =>
    obtain ⟨r₀, hr₀, hready, hqr⟩ := mem_readyRows hq
    obtain rfl : r₀ = r := by
      refine db.eq_of_id_eq hr₀ hr ?_
      rw [← hsid]
      rcases hqr with rfl | ⟨-, rfl⟩ <;> rfl
    have hjson : s.envelopeJson = r₀.envelopeJson := by rcases hsr with rfl | rfl <;> rfl
    unfold takeAct at hact
    split at hact
    · split at hact
      · simp at hact
      · obtain ⟨lim, hop⟩ := hlegacy (map_eq_none_iff.mp hact)
        rw [← hready.mailbox] at hop
        exact .inr (RowGone.taken hop hready.free)
    next hparse =>
    rw [hjson] at hparse
    exact .inr (RowGone.dropped hclock (by simpa using hparse))
  · push Not at hsel
    exact .inl ⟨s, (takeQueue_mem h).mpr (.inl ⟨hs, hsel⟩), hsid⟩

end Fetch

namespace Committed

variable {db db' : Database} {op : Op Value} {answer : Reply}

section

variable (h : Committed serde cfg choice db op answer db')

include h

theorem nextId_le : db.nextId ≤ db'.nextId := by
  cases h with
  | refused error hop => exact Nat.le_refl _
  | stored hnow henq =>
    obtain ⟨room, hev, rfl | ⟨-, hins⟩⟩ := enqueue_eq_ok henq
    · exact hev.nextId_eq.ge
    · obtain ⟨-, -, hnext, -⟩ := Database.insertEntry_eq_ok hins
      rw [hnext, hev.nextId_eq]
      exact Nat.le_succ _
  | fetched ht => exact (takeQueue_nextId ht).ge
  | leased ht => exact (takeQueue_nextId ht).ge
  | acknowledged recipient leaseId => exact Nat.le_refl _
  | stats now => exact (stats_evicts cfg db now).nextId_eq.ge
  | restarted => exact Nat.le_refl _

/-- **A row after an operation** is a new one, under a fresh id and without a lease, or comes from
the row of its id by one of the moves. -/
theorem row_after {r' : QueueEntry} (hr' : r' ∈ db'.queueEntries) :
    (r'.id = db.nextId ∧ r'.leaseId = none ∧ r'.leaseUntilMillis = none) ∨
      ∃ r ∈ db.queueEntries, RowMove serde op answer r r' := by
  have hkept : op ≠ .restart → (∀ t, answer ≠ .taken t) → r' ∈ db.queueEntries →
      ∃ r ∈ db.queueEntries, RowMove serde op answer r r' := fun hop hans hr =>
    ⟨r', hr, RowMove.kept fun u _ _ => Op.not_releases hop hans u⟩
  cases h with
  | refused error hop => exact .inr (hkept hop (by simp) hr')
  | stored hnow henq =>
    obtain ⟨room, hev, rfl | ⟨-, hins⟩⟩ := enqueue_eq_ok henq
    · exact .inr (hkept (by simp) (by simp) (hev.mem hr'))
    obtain ⟨hrows, -, -, -⟩ := Database.insertEntry_eq_ok hins
    rw [hrows] at hr'
    rcases mem_append.mp hr' with hr' | hr'
    · exact .inr (hkept (by simp) (by simp) (hev.mem hr'))
    · obtain rfl := mem_singleton.mp hr'
      exact .inl ⟨hev.nextId_eq, rfl, rfl⟩
  | fetched ht =>
    exact .inr (takeQueue_row_after (by simp) rfl (fun l hl => absurd hl (by simp)) ht hr')
  | @leased now recipient limit leaseMs leaseId db' t ht =>
    refine .inr (takeQueue_row_after (by simp) rfl ?_ ht hr')
    intro l hl
    obtain rfl := some.inj hl
    exact ⟨limit, leaseMs, rfl, rfl⟩
  | acknowledged recipient leaseId =>
    exact .inr (hkept (by simp) (by simp) ((Evicts.deleteWhere db _).mem hr'))
  | stats now =>
    exact .inr (hkept (by simp) (by simp) ((stats_evicts cfg db now).mem hr'))
  | restarted =>
    rcases (mem_setLease _ _ _).mp hr' with ⟨hr, hnone⟩ | ⟨r, hr, -, rfl⟩
    · refine .inr ⟨r', hr, RowMove.kept ?_⟩
      intro u _ hne
      exact absurd (by simpa using hnone) hne
    · exact .inr ⟨r, hr, RowMove.released (.inl rfl)⟩

/-- **A row before an operation** has its id in the table after it, or went for a reason. -/
theorem row_gone {r : QueueEntry} (hr : r ∈ db.queueEntries) :
    (∃ r' ∈ db'.queueEntries, r'.id = r.id) ∨ RowGone serde cfg op r := by
  cases h with
  | refused error hop => exact .inl ⟨r, hr, rfl⟩
  | @stored clock source recipient envelope e db' hnow henq =>
    obtain ⟨room, hev, hdone⟩ := enqueue_eq_ok henq
    rcases hev.gone r hr with hmem | hold | hfree
    · refine .inl ⟨r, ?_, rfl⟩
      rcases hdone with rfl | ⟨-, hins⟩
      · exact hmem
      · rw [(Database.insertEntry_eq_ok hins).1]
        exact mem_append_left _ hmem
    · rw [hnow] at hold
      exact .inr (RowGone.expired rfl hold)
    · exact .inr (RowGone.evicted hfree)
  | @fetched now recipient limit db' t ht =>
    exact takeQueue_row_gone rfl rfl (fun _ => ⟨limit, rfl⟩) ht hr
  | leased ht => exact takeQueue_row_gone rfl rfl (fun hl => absurd hl (by simp)) ht hr
  | acknowledged recipient leaseId =>
    rcases (Evicts.deleteWhere db _).gone r hr with hmem | hsel
    · exact .inl ⟨r, hmem, rfl⟩
    · obtain ⟨hbox, hlease⟩ := Bool.and_eq_true_iff.mp hsel
      obtain rfl := eq_of_beq hbox
      exact .inr (RowGone.acknowledged rfl (eq_of_beq hlease))
  | stats now =>
    rcases (stats_evicts cfg db now).gone r hr with hmem | hold
    · exact .inl ⟨r, hmem, rfl⟩
    · exact .inr (RowGone.expired rfl hold)
  | restarted =>
    cases hl : r.leaseId.isSome with
    | true =>
      exact .inl ⟨r.released, (mem_setLease _ _ _).mpr (.inr ⟨r, hr, hl, rfl⟩), rfl⟩
    | false => exact .inl ⟨r, (mem_setLease _ _ _).mpr (.inl ⟨hr, hl⟩), rfl⟩

end

theorem returned {t : Taken} (h : Committed serde cfg choice db op (.taken t) db')
    {q : QueueEntry} (hq : q ∈ t.rows) :
    ∃ now recipient, op.fetchClock = some now ∧
      ∃ r ∈ db.queueEntries, r.id = q.id ∧ Ready cfg now recipient r := by
  cases h with
  | @fetched now recipient limit db' t ht =>
    exact ⟨now, recipient, rfl, (takeQueue_returned ht hq).2.2⟩
  | @leased now recipient limit leaseMs leaseId db' t ht =>
    exact ⟨now, recipient, rfl, (takeQueue_returned ht hq).2.2⟩

end Committed

/-! ### Properties of one entry that operations keep -/

/-- The two lease columns are set together, and only on an ordinary row that parses. -/
def LeaseColumns (serde : Serde Value) (db : Database) : Prop :=
  ∀ r ∈ db.queueEntries, (r.leaseId = none ∧ r.leaseUntilMillis = none) ∨
    ∃ leaseId u, r.leaseId = some leaseId ∧ r.leaseUntilMillis = some u ∧
      r.isPairing = false ∧ (serde.fromStr r.envelopeJson).isSome = true

/-- The entry `x` is under the lease `leaseId`, which ends at `u`, or is gone. -/
def Held (x : ℕ) (leaseId : String) (u : ℕ) (db : Database) : Prop :=
  x < db.nextId ∧
    ∀ r ∈ db.queueEntries, r.id = x → r.leaseId = some leaseId ∧ r.leaseUntilMillis = some u

/-- The entry `x` was queued and is gone. -/
def Gone (x : ℕ) (db : Database) : Prop := x < db.nextId ∧ ∀ r ∈ db.queueEntries, r.id ≠ x

/-- The entry `x` was queued and is not under the lease `leaseId`. -/
def NotUnder (x : ℕ) (leaseId : String) (db : Database) : Prop :=
  x < db.nextId ∧ ∀ r ∈ db.queueEntries, r.id = x → r.leaseId ≠ some leaseId

section Keep

variable {db db' : Database} {op : Op Value} {answer : Reply} {x u : ℕ} {leaseId : String}

theorem LeaseColumns.step (h : LeaseColumns serde db)
    (hc : Committed serde cfg choice db op answer db') : LeaseColumns serde db' := by
  intro r' hr'
  rcases hc.row_after hr' with ⟨-, hl, hu⟩ | ⟨r, hr, hmove⟩
  · exact .inl ⟨hl, hu⟩
  cases hmove with
  | kept hheld => exact h r' hr
  | released hwhy => exact .inl ⟨rfl, rfl⟩
  | leased hop hans hq hqord hid hfree hord hparse => exact .inr ⟨_, _, rfl, rfl, hord, hparse⟩

theorem Held.step (h : Held x leaseId u db) (hc : Committed serde cfg choice db op answer db')
    (hre : ¬ op.Releases answer u) : Held x leaseId u db' := by
  refine ⟨h.1.trans_le hc.nextId_le, ?_⟩
  intro r' hr' hid
  rcases hc.row_after hr' with ⟨hnew, -, -⟩ | ⟨r, hr, hmove⟩
  · have hlt := h.1
    omega
  have hheld := h.2 r hr (by rw [← hmove.id_eq, hid])
  cases hmove with
  | kept _ => exact hheld
  | released hwhy =>
    -- the row's lease ends at `u`, so releasing it releases `u`
    refine absurd ?_ hre
    rcases hwhy with hrestart | ⟨u', hu', hrel⟩
    · exact .inl hrestart
    · rw [hheld.2] at hu'
      rwa [some.inj hu']
  | leased hop hans hq hqord hidq hfree hord hparse =>
  rcases hfree with hnone | ⟨u', hu', hle⟩
  · rw [hheld.1] at hnone
    simp at hnone
  rw [hheld.2] at hu'
  obtain rfl := some.inj hu'
  refine absurd (.inr ⟨_, _, ?_, hans, hle⟩) hre
  rw [hop]
  rfl

theorem Gone.step (h : Gone x db) (hc : Committed serde cfg choice db op answer db') :
    Gone x db' := by
  refine ⟨h.1.trans_le hc.nextId_le, ?_⟩
  intro r' hr' hid
  rcases hc.row_after hr' with ⟨hnew, -, -⟩ | ⟨r, hr, hmove⟩
  · have hlt := h.1
    omega
  · exact h.2 r hr (by rw [← hmove.id_eq, hid])

theorem NotUnder.step (h : NotUnder x leaseId db)
    (hc : Committed serde cfg choice db op answer db') (hdraw : op.drawn ≠ some leaseId) :
    NotUnder x leaseId db' := by
  refine ⟨h.1.trans_le hc.nextId_le, ?_⟩
  intro r' hr' hid
  rcases hc.row_after hr' with ⟨-, hl, -⟩ | ⟨r, hr, hmove⟩
  · rw [hl]
    simp
  have hne := h.2 r hr (by rw [← hmove.id_eq, hid])
  cases hmove with
  | kept _ => exact hne
  | released _ => simp [QueueEntry.released]
  | leased hop hans hq hqord hidq hfree hord hparse =>
    intro heq
    refine hdraw ?_
    rw [hop]
    exact heq

theorem Committed.returned_lt {t : Taken} (hc : Committed serde cfg choice db op (.taken t) db')
    (hq : q ∈ t.rows) : q.id < db'.nextId := by
  obtain ⟨-, -, -, r, hr, hid, -⟩ := hc.returned hq
  rw [← hid]
  exact (db.ids_lt r hr).trans_le hc.nextId_le

section

variable {now : ℕ} {recipient : String}

theorem Committed.held_of_leased {limit leaseMs : Option ℕ} {t : Taken}
    (hc : Committed serde cfg choice db (.fetchLeased now recipient limit leaseMs leaseId)
      (.taken t) db') (hq : q ∈ t.rows) (hord : q.isPairing = false) :
    Held q.id leaseId (saturatingAdd now (leaseMillis leaseMs)) db' := by
  refine ⟨hc.returned_lt hq, ?_⟩
  intro r' hr' hid
  cases hc with
  | leased ht =>
  have hact := takeQueue_returned_after ht hq hr' hid
  have hparse := (takeQueue_returned ht hq).2.1
  simp only [takeAct, hparse, hord, if_true, Bool.false_eq_true, if_false, map_some,
    some.injEq] at hact
  rw [← hact]
  exact ⟨rfl, rfl⟩

theorem Committed.gone_of_fetched {limit : Option ℕ} {t : Taken}
    (hc : Committed serde cfg choice db (.fetch now recipient limit) (.taken t) db')
    (hq : q ∈ t.rows) (hord : q.isPairing = false) : Gone q.id db' := by
  refine ⟨hc.returned_lt hq, ?_⟩
  intro r' hr' hid
  cases hc with
  | fetched ht =>
    have hact := takeQueue_returned_after ht hq hr' hid
    simp [takeAct, hord] at hact

end

end Keep

/-! ### Every run -/

section Runs

variable (serde cfg choice)

/-- A step of the run on `ops` from an empty database, at position `i`. -/
abbrev RelayStep (ops : List (Op Value)) (i : ℕ) (st : RelayState) (op : Op Value)
    (answer : Reply) (st' : RelayState) : Prop :=
  (relay serde cfg choice).StepAt (some RelayState.initial) ops i (some st) op answer (some st')

/-- The operation at `i` is a `fetch_leased` that returned the ordinary entry `x` under
`leaseId`, until `u`. -/
def LeasedAt (ops : List (Op Value)) (i x : ℕ) (leaseId : String) (u : ℕ) : Prop :=
  ∃ st st' now recipient limit leaseMs t q,
    RelayStep serde cfg choice ops i st (.fetchLeased now recipient limit leaseMs leaseId)
      (.taken t) st' ∧
    q ∈ t.rows ∧ q.id = x ∧ q.isPairing = false ∧ u = saturatingAdd now (leaseMillis leaseMs)

/-- The operation at `i` is a legacy fetch that returned the ordinary entry `x`. -/
def FetchedAt (ops : List (Op Value)) (i x : ℕ) : Prop :=
  ∃ st st' now recipient limit t q,
    RelayStep serde cfg choice ops i st (.fetch now recipient limit) (.taken t) st' ∧
    q ∈ t.rows ∧ q.id = x ∧ q.isPairing = false

/-- A lease handed out at `i` that ends at `u` has lapsed before position `n`: the relay was
restarted, or a fetch has read a clock at or past its end. -/
def Lapsed (ops : List (Op Value)) (u i n : ℕ) : Prop :=
  ∃ k st op answer st', i < k ∧ k < n ∧ RelayStep serde cfg choice ops k st op answer st' ∧
    op.Releases answer u

/-- The lease `leaseId` handed out at `i` covers the entry `x` and has not lapsed before
position `n`. -/
def Outstanding (ops : List (Op Value)) (n i x : ℕ) (leaseId : String) : Prop :=
  ∃ u, LeasedAt serde cfg choice ops i x leaseId u ∧ i < n ∧ ¬ Lapsed serde cfg choice ops u i n

/-- **The laws of leases** along the run on `ops`. -/
structure LeaseLaws (ops : List (Op Value)) : Prop where
  /-- An entry is under at most one outstanding lease. -/
  one_lease : ∀ n i j x leaseId leaseId', Outstanding serde cfg choice ops n i x leaseId →
    Outstanding serde cfg choice ops n j x leaseId' → i = j
  /-- The lease a row names is the outstanding one. -/
  named : ∀ n st, (relay serde cfg choice).run (some RelayState.initial) (ops.take n) = some st →
    ∀ r ∈ st.database.queueEntries, ∀ leaseId, r.leaseId = some leaseId →
      ∃ i, Outstanding serde cfg choice ops n i r.id leaseId
  /-- Two `fetch_leased` calls return an entry only once the first lease has lapsed. -/
  leased_again : ∀ i j x leaseId leaseId' u u', i < j →
    LeasedAt serde cfg choice ops i x leaseId u → LeasedAt serde cfg choice ops j x leaseId' u' →
    Lapsed serde cfg choice ops u i (j + 1)
  /-- A legacy fetch that returned an entry is the last call that does. -/
  legacy_last : ∀ i j x st op t st', i < j → FetchedAt serde cfg choice ops i x →
    RelayStep serde cfg choice ops j st op (.taken t) st' → ∀ q ∈ t.rows, q.id ≠ x
  /-- A row under a lease is deleted by an acknowledgement of that lease, by its age, or by a
  legacy fetch that has seen the lease end. -/
  deleted : ∀ i st op answer st', RelayStep serde cfg choice ops i st op answer st' →
    ∀ r ∈ st.database.queueEntries, ∀ leaseId, r.leaseId = some leaseId →
      (∀ r' ∈ st'.database.queueEntries, r'.id ≠ r.id) →
      op = .acknowledge r.mailbox leaseId ∨
        (∃ now, op.clock = some now ∧ r.queuedAtMillis < now - cfg.ttlMillis) ∨
        ∃ now limit u, op = .fetch now r.mailbox limit ∧ r.leaseUntilMillis = some u ∧ u ≤ now
  /-- Acknowledging a lease leaves alone an entry that was leased again since. -/
  stale_ack : ∀ i j k x leaseId leaseId' u u' mailbox st answer st', i < j → j < k →
    LeasedAt serde cfg choice ops i x leaseId u → LeasedAt serde cfg choice ops j x leaseId' u' →
    RelayStep serde cfg choice ops k st (.acknowledge mailbox leaseId) answer st' →
    ∀ r ∈ st.database.queueEntries, r.id = x → r ∈ st'.database.queueEntries

variable {serde cfg choice} {ops : List (Op Value)}

theorem RelayStep.committed {op : Op Value} {answer : Reply}
    (h : RelayStep serde cfg choice ops i st op answer st') :
    Committed serde cfg choice st.database op answer st'.database :=
  exec_committed h.step

theorem relay_step_some {state : Option RelayState} {op : Op Value} {answer : Reply}
    (h : (relay serde cfg choice).step state op = (some st', answer)) :
    ∃ st, state = some st ∧ Committed serde cfg choice st.database op answer st'.database := by
  cases state with
  | none => exact absurd h (by simp [relay])
  | some st => exact ⟨st, rfl, exec_committed h⟩

/-- A property of the table, of the states in which the relay is running. -/
def OnTable (P : Database → Prop) (state : Option RelayState) : Prop :=
  ∀ st, state = some st → P st.database

/-- **From one step to a later one.** What holds of the table after the step at `i` and is kept
by the operations in between holds of it before the step at `j`. -/
theorem RelayStep.between {P : Database → Prop} {st₁ st₁' : RelayState} {op op₁ : Op Value}
    {answer answer₁ : Reply} (hi : RelayStep serde cfg choice ops i st op answer st')
    (hj : RelayStep serde cfg choice ops j st₁ op₁ answer₁ st₁') (hij : i < j)
    (h : P st'.database)
    (hstep : ∀ k t o a t', i < k → k < j → RelayStep serde cfg choice ops k t o a t' →
      P t.database → P t'.database) : P st₁.database := by
  have hon : OnTable P (some st₁) := by
    refine Machine.StepAt.between hi hj hij ?_ ?_
    · intro t ht
      rwa [← some.inj ht]
    · intro k t o a t' hik hkj hk hP t₁' ht₁'
      subst ht₁'
      obtain ⟨t₁, rfl, -⟩ := relay_step_some hk.step
      exact hstep k t₁ o a t₁' hik hkj hk (hP t₁ rfl)
  exact hon st₁ rfl

theorem eq_of_drawn (hids : (ops.filterMap Op.drawn).Nodup) {op op' : Op Value} {leaseId : String}
    (hi : ops[i]? = some op) (hj : ops[j]? = some op') (hop : op.drawn = some leaseId)
    (hop' : op'.drawn = some leaseId) : i = j := by
  have hpair := List.pairwise_iff_getElem.mp (List.pairwise_filterMap.mp hids)
  obtain ⟨hilt, rfl⟩ := List.getElem?_eq_some_iff.mp hi
  obtain ⟨hjlt, rfl⟩ := List.getElem?_eq_some_iff.mp hj
  rcases Nat.lt_trichotomy i j with hij | hij | hij
  · exact absurd rfl (hpair i j hilt hjlt hij leaseId hop leaseId hop')
  · exact hij
  · exact absurd rfl (hpair j i hjlt hilt hij leaseId hop' leaseId hop)

theorem leaseColumns_of_run {n : ℕ}
    (h : (relay serde cfg choice).run (some RelayState.initial) (ops.take n) = some st) :
    LeaseColumns serde st.database := by
  have hon : OnTable (LeaseColumns serde)
      ((relay serde cfg choice).run (some RelayState.initial) (ops.take n)) := by
    refine Machine.run_induction ?_ ?_
    · intro s op _ hs st' hst'
      obtain ⟨st₀, rfl, hc⟩ := relay_step_some (Prod.ext hst' rfl :
        (relay serde cfg choice).step s op = (some st', ((relay serde cfg choice).step s op).2))
      exact (hs st₀ rfl).step hc
    · intro st₀ hst₀
      obtain rfl := some.inj hst₀
      intro r hr
      exact absurd hr (by simp [RelayState.initial, Database.empty])
  exact hon st h

theorem lapsed_of_leased_again {x : ℕ} {leaseId leaseId' : String} {u : ℕ} (hij : i < j)
    (hi : LeasedAt serde cfg choice ops i x leaseId u)
    (hj : LeasedAt serde cfg choice ops j x leaseId' u') :
    Lapsed serde cfg choice ops u i (j + 1) := by
  obtain ⟨si, si', now, recipient, limit, leaseMs, t, q, hstep, hq, rfl, hord, rfl⟩ := hi
  obtain ⟨sj, sj', now', recipient', limit', leaseMs', t', q', hstep', hq', hid, -, -⟩ := hj
  by_contra hno
  -- not lapsed: the lease is still on the row when the second call selects it
  have hheld : Held q.id leaseId (saturatingAdd now (leaseMillis leaseMs)) sj.database := by
    refine hstep.between hstep' hij (hstep.committed.held_of_leased hq hord) ?_
    intro k s o a s' hik hkj hk hs
    exact hs.step hk.committed fun hre =>
      hno ⟨k, s, o, a, s', hik, Nat.lt_succ_of_lt hkj, hk, hre⟩
  obtain ⟨now₁, recipient₁, hclock, r, hr, hrid, hready⟩ := hstep'.committed.returned hq'
  obtain ⟨hl, hu⟩ := hheld.2 r hr (hrid.trans hid)
  rcases hready.free with hnone | ⟨u₁, hu₁, hle⟩
  · rw [hl] at hnone
    simp at hnone
  rw [hu] at hu₁
  obtain rfl := some.inj hu₁
  exact hno ⟨j, sj, _, _, sj', hij, Nat.lt_succ_self j, hstep',
    .inr ⟨now₁, t', hclock, rfl, hle⟩⟩

theorem Lapsed.mono {u n n' : ℕ} (h : Lapsed serde cfg choice ops u i n) (hn : n ≤ n') :
    Lapsed serde cfg choice ops u i n' := by
  obtain ⟨k, st, op, answer, st', hik, hkn, hrest⟩ := h
  exact ⟨k, st, op, answer, st', hik, hkn.trans_le hn, hrest⟩

theorem outstanding_not_lt {n x : ℕ} {leaseId leaseId' : String}
    (hi : Outstanding serde cfg choice ops n i x leaseId)
    (hj : Outstanding serde cfg choice ops n j x leaseId') : ¬ i < j := by
  intro hij
  obtain ⟨u, hleased, -, hno⟩ := hi
  obtain ⟨u', hleased', hjn, -⟩ := hj
  exact hno ((lapsed_of_leased_again hij hleased hleased').mono hjn)

/-- **The lease a row names is outstanding**, and the row's end is that lease's. -/
theorem outstanding_of_named (n : ℕ)
    (hrun : (relay serde cfg choice).run (some RelayState.initial) (ops.take n) = some st)
    (hr : r ∈ st.database.queueEntries) {leaseId : String} (hl : r.leaseId = some leaseId) :
    ∃ i u, LeasedAt serde cfg choice ops i r.id leaseId u ∧ r.leaseUntilMillis = some u ∧
      i < n ∧ ¬ Lapsed serde cfg choice ops u i n := by
  induction n generalizing st r with
  | zero =>
    obtain rfl := some.inj hrun
    exact absurd hr (by simp [RelayState.initial, Database.empty])
  | succ n ih =>
  by_cases hn : n < ops.length
  · -- the last step: what it did to the row decides
    have hstep := Machine.stepAt_run (m := relay serde cfg choice)
      (s := some RelayState.initial) hn
    rw [hrun] at hstep
    obtain ⟨st₀, hst₀, hc⟩ := relay_step_some hstep.step
    rw [hst₀] at hstep hc
    rcases hc.row_after hr with ⟨-, hnone, -⟩ | ⟨r₀, hr₀, hmove⟩
    · rw [hl] at hnone
      simp at hnone
    generalize hans : ((relay serde cfg choice).step (some st₀) ops[n]).2 = answer
      at hstep hc hmove
    generalize hop : ops[n] = op at hstep hc hmove
    cases hmove with
    | kept hheld =>
      obtain ⟨i, u, hleased, hu, hin, hno⟩ := ih hst₀ hr₀ hl
      refine ⟨i, u, hleased, hu, Nat.lt_succ_of_lt hin, ?_⟩
      rintro ⟨k, s, o, a, s', hik, hkn, hk, hre⟩
      rcases Nat.lt_succ_iff_lt_or_eq.mp hkn with hkn | rfl
      · exact hno ⟨k, s, o, a, s', hik, hkn, hk, hre⟩
      obtain rfl := some.inj (hk.act.symm.trans hstep.act)
      obtain rfl := some.inj (hk.before.symm.trans hstep.before)
      obtain ⟨-, rfl⟩ := Prod.mk.inj (hk.step.symm.trans hstep.step)
      exact hheld u hu (by rw [hl]; simp) hre
    | released _ => exact absurd hl (by simp [QueueEntry.released])
    | leased hop' hans' hq hqord hid hfree hord hparse =>
      subst hop' hans'
      obtain rfl := some.inj hl
      refine ⟨n, _, ⟨st₀, st, _, _, _, _, _, _, hstep, hq, hid, hqord, rfl⟩, rfl,
        Nat.lt_succ_self n, ?_⟩
      rintro ⟨k, s, o, a, s', hik, hkn, -, -⟩
      omega
  · -- no step at `n`
    have htake : ops.take (n + 1) = ops.take n := by
      rw [take_of_length_le (by omega), take_of_length_le (by omega)]
    rw [htake] at hrun
    obtain ⟨i, u, hleased, hu, hin, hno⟩ := ih hrun hr hl
    refine ⟨i, u, hleased, hu, Nat.lt_succ_of_lt hin, ?_⟩
    rintro ⟨k, s, o, a, s', hik, hkn, hk, hre⟩
    have hlt := hk.lt_length
    exact hno ⟨k, s, o, a, s', hik, by omega, hk, hre⟩

theorem not_returned_after_fetched {x : ℕ} {op : Op Value} {t : Taken} (hij : i < j)
    (hi : FetchedAt serde cfg choice ops i x)
    (hj : RelayStep serde cfg choice ops j st op (.taken t) st') (hq : q ∈ t.rows) : q.id ≠ x := by
  obtain ⟨si, si', now, recipient, limit, t₀, q₀, hstep, hq₀, rfl, hord⟩ := hi
  have hgone : Gone q₀.id st.database := by
    refine hstep.between hj hij (hstep.committed.gone_of_fetched hq₀ hord) ?_
    intro k s o a s' _ _ hk hs
    exact hs.step hk.committed
  obtain ⟨-, -, -, r, hr, hid, -⟩ := hj.committed.returned hq
  intro heq
  exact hgone.2 r hr (hid.trans heq)

theorem deleted_while_leased {op : Op Value} {answer : Reply}
    (hstep : RelayStep serde cfg choice ops i st op answer st')
    (hr : r ∈ st.database.queueEntries) {leaseId : String} (hl : r.leaseId = some leaseId)
    (hgone : ∀ r' ∈ st'.database.queueEntries, r'.id ≠ r.id) : op = .acknowledge r.mailbox leaseId ∨
      (∃ now, op.clock = some now ∧ r.queuedAtMillis < now - cfg.ttlMillis) ∨
      ∃ now limit u, op = .fetch now r.mailbox limit ∧ r.leaseUntilMillis = some u ∧ u ≤ now := by
  have hcolumns := leaseColumns_of_run hstep.before r hr
  rw [hl] at hcolumns
  obtain ⟨hnone, -⟩ | ⟨_, _, -, -, hord, hparse⟩ := hcolumns
  · simp at hnone
  rcases hstep.committed.row_gone hr with ⟨r', hr', hid⟩ | hwhy
  · exact absurd hid (hgone r' hr')
  cases hwhy with
  | expired hclock hold => exact .inr (.inl ⟨_, hclock, hold⟩)
  | acknowledged hop hlease =>
    rw [hl] at hlease
    obtain rfl := some.inj hlease
    exact .inl hop
  | evicted hfree =>
    -- neither an announcement nor unleased
    rcases hfree with hpair | hun
    · rw [hord] at hpair
      simp at hpair
    · rw [QueueEntry.unleased, hl] at hun
      simp at hun
  | taken hop hfree =>
    rcases hfree with hnone | ⟨u, hu, hle⟩
    · rw [hl] at hnone
      simp at hnone
    · exact .inr (.inr ⟨_, _, u, hop, hu, hle⟩)
  | dropped hop hnot =>
    rw [hparse] at hnot
    simp at hnot

theorem stays_after_stale_ack (hids : (ops.filterMap Op.drawn).Nodup) {k x : ℕ}
    {leaseId leaseId' mailbox : String} {u : ℕ} {answer : Reply} (hij : i < j) (hjk : j < k)
    (hi : LeasedAt serde cfg choice ops i x leaseId u)
    (hj : LeasedAt serde cfg choice ops j x leaseId' u')
    (hk : RelayStep serde cfg choice ops k st (.acknowledge mailbox leaseId) answer st')
    (hr : r ∈ st.database.queueEntries) (hid : r.id = x) : r ∈ st'.database.queueEntries := by
  obtain ⟨si, si', now, recipient, limit, leaseMs, t, q, hstep, -, -, -, -⟩ := hi
  obtain ⟨sj, sj', now', recipient', limit', leaseMs', t', q', hstep', hq', rfl, hord', -⟩ := hj
  have hne : leaseId' ≠ leaseId := by
    rintro rfl
    exact absurd (eq_of_drawn hids hstep.act hstep'.act rfl rfl) (Nat.ne_of_lt hij)
  have hnot : NotUnder q'.id leaseId st.database := by
    refine hstep'.between hk hjk ?_ ?_
    · obtain ⟨hlt, hheld⟩ := hstep'.committed.held_of_leased hq' hord'
      refine ⟨hlt, ?_⟩
      intro r₁ hr₁ hid₁
      rw [(hheld r₁ hr₁ hid₁).1]
      exact fun heq => hne (some.inj heq)
    · intro n s o a s' hjn _ hn hs
      refine hs.step hn.committed ?_
      intro hdraw
      have hin := eq_of_drawn hids hstep.act hn.act rfl hdraw
      omega
  have hrl : r.leaseId ≠ some leaseId := hnot.2 r hr hid
  have hcommitted := hk.committed
  generalize st'.database = db' at hcommitted ⊢
  cases hcommitted with
  | refused error hop => exact hr
  | acknowledged _ _ =>
    rw [Database.mem_deleteWhere]
    refine ⟨hr, ?_⟩
    rw [Bool.and_eq_false_iff, beq_eq_false_iff_ne, beq_eq_false_iff_ne]
    exact .inr hrl

end Runs

/-- **Lease exclusivity, and nothing lost**: the laws of leases hold along every run in which the
lease ids drawn are pairwise distinct. -/
theorem lease_exclusivity {Value : Type} (serde : Serde Value) (cfg : RelayConfig)
    (choice : HolderChoice) (ops : List (Op Value))
    (hids : (ops.filterMap Op.drawn).Nodup) : LeaseLaws serde cfg choice ops where
  one_lease := by
    intro n i j x leaseId leaseId' hi hj
    have hij := outstanding_not_lt hi hj
    have hji := outstanding_not_lt hj hi
    omega
  named := by
    intro n st hrun r hr leaseId hl
    obtain ⟨i, u, hleased, -, hin, hno⟩ := outstanding_of_named n hrun hr hl
    exact ⟨i, u, hleased, hin, hno⟩
  leased_again := fun _ _ _ _ _ _ _ hij hi hj => lapsed_of_leased_again hij hi hj
  legacy_last := fun _ _ _ _ _ _ _ hij hi hj _ hq => not_returned_after_fetched hij hi hj hq
  deleted := fun _ _ _ _ _ hstep _ hr _ hl hgone => deleted_while_leased hstep hr hl hgone
  stale_ack := fun _ _ _ _ _ _ _ _ _ _ _ _ hij hjk hi hj hk _ hr hid =>
    stays_after_stale_ack hids hij hjk hi hj hk hr hid

/-- `serde_json` on the value of the text of an empty object. -/
def emptyObject : Serde Unit where
  toVec _ := .ok "\x7b\x7d"
  fromStr text := if text = "\x7b\x7d" then some () else none
  get _ _ := none
  asStr _ := none

/-- The run of `released_entry_goes_to_legacy_fetch`: an entry is stored, leased for thirty seconds
and fetched by a legacy client after that. -/
def releasedRun : List (Op Unit) :=
  [.store { quota := 1000, now := 1000 } "" "box" (),
    .fetchLeased 2000 "box" none none "lease-0123456789",
    .fetch 40000 "box" none]

theorem lease_exclusivity_releasedRun :
    LeaseLaws emptyObject RelayConfig.defaults HolderChoice.first releasedRun :=
  lease_exclusivity emptyObject RelayConfig.defaults HolderChoice.first releasedRun (by decide)

/-- The reading under which an entry that was ever leased goes only by an acknowledgement of the
lease that holds it or by its age. -/
def GoesOnlyByAckOrAge (serde : Serde Value) (cfg : RelayConfig) (choice : HolderChoice)
    (ops : List (Op Value)) : Prop :=
  ∀ i j x leaseId u st op answer st', i < j → LeasedAt serde cfg choice ops i x leaseId u →
    RelayStep serde cfg choice ops j st op answer st' →
    ∀ r ∈ st.database.queueEntries, r.id = x →
      (∀ r' ∈ st'.database.queueEntries, r'.id ≠ x) →
      (∃ holder, r.leaseId = some holder ∧ op = .acknowledge r.mailbox holder) ∨
        ∃ now, op.clock = some now ∧ r.queuedAtMillis < now - cfg.ttlMillis

theorem released_entry_goes_to_legacy_fetch :
    ¬ GoesOnlyByAckOrAge emptyObject RelayConfig.defaults HolderChoice.first releasedRun := by
  intro h
  have hleased : LeasedAt emptyObject RelayConfig.defaults HolderChoice.first releasedRun 1 1
      "lease-0123456789" 32000 :=
    ⟨_, _, 2000, "box", none, none, _, _, ⟨rfl, rfl, rfl⟩, mem_cons_self, rfl, rfl, rfl⟩
  -- at 40 000 the lease has ended, and the legacy fetch deletes the row
  have hgone := h 1 2 1 _ _ _ (.fetch 40000 "box" none) _ _ (by decide) hleased ⟨rfl, rfl, rfl⟩
    _ mem_cons_self rfl (fun _ hr => absurd hr not_mem_nil)
  rcases hgone with ⟨holder, -, hop⟩ | ⟨now, hclock, hold⟩
  · simp at hop
  · obtain rfl := some.inj hclock
    exact absurd hold (by decide)

end Relay
end Conest
