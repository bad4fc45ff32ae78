import Conest.Lib.Sorted
import Conest.Relay.Eviction
import Conest.Relay.Leases

/-!
# Draining a mailbox by fetching it again and again

A legacy fetch returns the oldest unleased rows of a mailbox, as many as its limit, and consumes
the ordinary ones; announcements are returned and stay. So the announcements in front of an entry
stay in front of it, in a window that is counted over both kinds. `returned_iff` is the exact
consequence: an ordinary entry is returned by one of the fetches exactly when fewer announcements
are queued ahead of it than the limit of a fetch.

`Calm` is what the fetches of a run without expiry keep. A fetch of a calm table is read off
`takeQueue_mem` (`fetch_mem`): a row of the table goes exactly when it is an ordinary row of the
window. The progress measure is the set of ordinary entries ahead of the one we wait for: while
the window does not reach that entry, it holds an ordinary entry ahead of it.
-/

open Lib List Option

namespace Conest
namespace Relay

variable {Value : Type} {serde : Serde Value} {cfg : RelayConfig} {choice : HolderChoice}

/-! ### What every reachable table holds -/

variable {ops : List (Op Value)}

/-- `serde_json` reads back what it has printed. -/
def Serde.Prints (serde : Serde Value) : Prop :=
  ∀ envelope text, serde.toVec envelope = .ok text → (serde.fromStr text).isSome = true

/-- Every row is in a valid mailbox, and its envelope parses. -/
def WellStored (serde : Serde Value) (db : Database) : Prop :=
  ∀ r ∈ db.queueEntries,
    validateMailboxId r.mailbox = none ∧ (serde.fromStr r.envelopeJson).isSome = true

theorem prepare_validates {windows windows' : FMap String MailboxByteWindow} {clock : StoreClock}
    {source recipient : String} {envelope : Value} {e : NewEntry}
    (h : prepare serde cfg windows clock source recipient envelope = (windows', .ok e)) :
    validateMailboxId recipient = none := by
  unfold prepare at h
  split at h
  · simp at h
  next hvalid => exact hvalid

theorem WellStored.evicts {Q : QueueEntry → Prop} {db db' : Database}
    (h : WellStored serde db) (he : Evicts Q db db') : WellStored serde db' :=
  fun r hr => h r (he.mem hr)

theorem WellStored.store (hprints : serde.Prints) {st st' : RelayState} {clock : StoreClock}
    {source recipient : String} {envelope : Value} {result : Outcome String Unit}
    (h : WellStored serde st.database)
    (hstore : storeFrom serde cfg choice st clock source recipient envelope = (st', result))
    (hne : result ≠ .diverges) : WellStored serde st'.database := by
  rcases storeFrom_cases hstore with ⟨_, -, hdb⟩ | ⟨_, e, hprep, ⟨-, henq⟩ | ⟨hdiv, -⟩⟩
  · rwa [hdb]
  · obtain ⟨hm, henc, -⟩ := prepare_eq_ok serde cfg hprep
    obtain ⟨room, hev, heq | ⟨-, hins⟩⟩ := enqueue_eq_ok henq
    · rw [heq]
      exact h.evicts hev
    intro r hr
    rw [(Database.insertEntry_eq_ok hins).1] at hr
    rcases mem_append.mp hr with hr | hr
    · exact h.evicts hev r hr
    rw [mem_singleton.mp hr]
    refine ⟨?_, hprints envelope _ henc⟩
    show validateMailboxId e.mailbox = none
    rw [hm]
    exact prepare_validates hprep
  · exact absurd hdiv hne

theorem WellStored.committed {db db' : Database} {op : Op Value} {answer : Reply}
    (h : WellStored serde db) (hc : Committed serde cfg choice db op answer db')
    (hop : ∀ clock source recipient envelope, op ≠ .store clock source recipient envelope) :
    WellStored serde db' := by
  have hmoved : (∀ r' ∈ db'.queueEntries, ∃ r ∈ db.queueEntries, RowMove serde op answer r r') →
      WellStored serde db' := by
    intro hmove r' hr'
    obtain ⟨r, hr, hm⟩ := hmove r' hr'
    have hstored := h r hr
    cases hm <;> exact hstored
  cases hc with
  | refused error _ => exact h
  | stored _ _ => exact absurd rfl (hop _ _ _ _)
  | fetched ht =>
    exact hmoved fun r' hr' =>
      takeQueue_row_after (by simp) rfl (fun l hl => absurd hl (by simp)) ht hr'
  | @leased now recipient limit leaseMs leaseId db' t ht =>
    refine hmoved fun r' hr' => takeQueue_row_after (by simp) rfl ?_ ht hr'
    intro l hl
    obtain rfl := some.inj hl
    exact ⟨limit, leaseMs, rfl, rfl⟩
  | acknowledged _ _ => exact h.evicts (Evicts.deleteWhere db _)
  | stats now => exact h.evicts (stats_evicts cfg db now)
  | restarted =>
    intro r' hr'
    rcases (mem_setLease _ _ _).mp hr' with ⟨hr, -⟩ | ⟨r, hr, -, rfl⟩
    · exact h r' hr
    · exact h r hr

theorem WellStored.exec (hprints : serde.Prints) {st st' : RelayState} {op : Op Value}
    {answer : Reply} (h : WellStored serde st.database)
    (hexec : st.exec serde cfg choice op = (some st', answer)) : WellStored serde st'.database := by
  cases op with
  | store clock source recipient envelope =>
    unfold RelayState.exec at hexec
    dsimp only at hexec
    cases hstore : storeFrom serde cfg choice st clock source recipient envelope with
    | mk s result =>
    rw [hstore] at hexec
    cases result with
    | ok u =>
      obtain rfl := some.inj (Prod.mk.inj hexec).1
      exact h.store hprints hstore (by simp)
    | error error =>
      obtain rfl := some.inj (Prod.mk.inj hexec).1
      exact h.store hprints hstore (by simp)
    | diverges => simp at hexec
  | _ => exact h.committed (exec_committed hexec) (by simp)

theorem onTable_of_run {P : Database → Prop} (hinit : P Database.empty)
    (hstep : ∀ st op answer st', P st.database →
      RelayState.exec serde cfg choice st op = (some st', answer) → P st'.database)
    {st : RelayState} (h : (relay serde cfg choice).run (some RelayState.initial) ops = some st) :
    P st.database := by
  have hon : OnTable P ((relay serde cfg choice).run (some RelayState.initial) ops) := by
    refine Machine.run_induction ?_ ?_
    · intro s op _ hs st' hst'
      cases s with
      | none => exact absurd hst' (by simp [relay])
      | some s => exact hstep s op _ st' (hs s rfl) (Prod.ext hst' rfl)
    · intro s hs
      rwa [← some.inj hs]
  exact hon st h

theorem wellStored_of_run (hprints : serde.Prints) {st : RelayState}
    (h : (relay serde cfg choice).run (some RelayState.initial) ops = some st) :
    WellStored serde st.database :=
  onTable_of_run (fun _ hr => absurd hr (by simp [Database.empty]))
    (fun _ _ _ _ hs hexec => hs.exec hprints hexec) h

theorem columns_of_run {st : RelayState}
    (h : (relay serde cfg choice).run (some RelayState.initial) ops = some st) :
    LeaseColumns serde st.database :=
  onTable_of_run (fun _ hr => absurd hr (by simp [Database.empty]))
    (fun _ _ _ _ hs hexec => hs.step (exec_committed hexec)) h

/-! ### A fetch of a calm table -/

/-- What the fetches of a mailbox keep while nothing expires: rows parse, only ordinary rows are
leased, and no clock reading of the run reaches the time to live of a row. -/
structure Calm (serde : Serde Value) (cfg : RelayConfig) (clock : ℕ → ℕ) (db : Database) :
    Prop where
  parses : ∀ r ∈ db.queueEntries, (serde.fromStr r.envelopeJson).isSome = true
  announcements : Announcements db
  columns : LeaseColumns serde db
  fresh : ∀ i, ∀ r ∈ db.queueEntries, clock i - cfg.ttlMillis ≤ r.queuedAtMillis

section Fetch

variable {clock : ℕ → ℕ} {db db' : Database} {i limit : ℕ} {recipient : String} {t : Taken}

theorem Calm.mem_sweep_of_unleased (h : Calm serde cfg clock db) {r : QueueEntry}
    (hr : r ∈ db.queueEntries) (hfree : r.leaseId = none) :
    r ∈ (db.sweep (clock i - cfg.ttlMillis) (clock i)).queueEntries := by
  refine mem_sweep.mpr ⟨r, hr, h.fresh i r hr, .inl ⟨?_, rfl⟩⟩
  rintro ⟨u, hu, -⟩
  rcases h.columns r hr with ⟨-, hnone⟩ | ⟨leaseId, _, hl, -⟩
  · rw [hnone] at hu
    simp at hu
  · rw [hfree] at hl
    simp at hl

theorem mem_of_mem_sweep {cutoff now : ℕ} {r : QueueEntry}
    (hr : r ∈ (db.sweep cutoff now).queueEntries) :
    ∃ r₀ ∈ db.queueEntries, r = r₀ ∨ r = r₀.released := by
  obtain ⟨r₀, hr₀, -, ⟨-, heq⟩ | ⟨-, heq⟩⟩ := mem_sweep.mp hr
  · exact ⟨r₀, hr₀, .inl heq⟩
  · exact ⟨r₀, hr₀, .inr heq⟩

theorem Calm.sweep_parses (h : Calm serde cfg clock db) {cutoff now : ℕ} {r : QueueEntry}
    (hr : r ∈ (db.sweep cutoff now).queueEntries) : (serde.fromStr r.envelopeJson).isSome = true := by
  obtain ⟨r₀, hr₀, rfl | rfl⟩ := mem_of_mem_sweep hr
  · exact h.parses _ hr₀
  · exact h.parses r₀ hr₀

section

variable (h : Calm serde cfg clock db)
  (ht : takeQueue serde cfg db (clock i) recipient limit none = .ok (db', t))

include h ht

/-- **The table after a legacy fetch**: the swept table without the ordinary rows of the window. -/
theorem Calm.fetch_mem {r : QueueEntry} : r ∈ db'.queueEntries ↔
      r ∈ (db.sweep (clock i - cfg.ttlMillis) (clock i)).queueEntries ∧
        (r ∈ (db.sweep (clock i - cfg.ttlMillis) (clock i)).readyRows recipient limit →
          r.isPairing = true) := by
  rw [takeQueue_mem ht]
  have hact : ∀ q ∈ (db.sweep (clock i - cfg.ttlMillis) (clock i)).readyRows recipient limit,
      ∀ r', takeAct serde (clock i) none q = some r' ↔ q.isPairing = true ∧ q = r' := by
    intro q hq r'
    unfold takeAct
    rw [if_pos (h.sweep_parses (mem_of_mem_readyRows hq))]
    cases hp : q.isPairing <;> simp
  constructor
  · rintro (⟨hr, hout⟩ | ⟨q, hq, hq'⟩)
    · exact ⟨hr, fun hin => absurd rfl (hout r hin)⟩
    · obtain ⟨hp, rfl⟩ := (hact q hq r).mp hq'
      exact ⟨mem_of_mem_readyRows hq, fun _ => hp⟩
  · rintro ⟨hr, hp⟩
    by_cases hin : r ∈ (db.sweep (clock i - cfg.ttlMillis) (clock i)).readyRows recipient limit
    · exact .inr ⟨r, hin, (hact r hin r).mpr ⟨hp hin, rfl⟩⟩
    · refine .inl ⟨hr, fun q hq hid => hin ?_⟩
      rwa [Database.eq_of_id_eq _ hr (mem_of_mem_readyRows hq) hid]

theorem Calm.fetch_rows :
    t.rows = (db.sweep (clock i - cfg.ttlMillis) (clock i)).readyRows recipient limit := by
  rw [(takeQueue_eq_ok ht).2]
  exact filter_eq_self.mpr fun r hr => h.sweep_parses (mem_of_mem_readyRows hr)

theorem Calm.fetch : Calm serde cfg clock db' := by
  have hfrom : ∀ r ∈ db'.queueEntries, ∃ r₀ ∈ db.queueEntries, r = r₀ ∨ r = r₀.released :=
    fun r hr => mem_of_mem_sweep ((h.fetch_mem ht).mp hr).1
  constructor
  · intro r hr
    obtain ⟨r₀, hr₀, rfl | rfl⟩ := hfrom r hr
    · exact h.parses _ hr₀
    · exact h.parses r₀ hr₀
  · intro r hr hp
    obtain ⟨r₀, hr₀, rfl | rfl⟩ := hfrom r hr
    · exact h.announcements _ hr₀ hp
    · rfl
  · intro r hr
    obtain ⟨r₀, hr₀, rfl | rfl⟩ := hfrom r hr
    · exact h.columns _ hr₀
    · exact .inl ⟨rfl, rfl⟩
  · intro j r hr
    obtain ⟨r₀, hr₀, rfl | rfl⟩ := hfrom r hr
    · exact h.fresh j _ hr₀
    · exact h.fresh j r₀ hr₀

end

theorem Calm.later (h : Calm serde cfg clock db) : Calm serde cfg (fun j => clock (j + 1)) db where
  parses := h.parses
  announcements := h.announcements
  columns := h.columns
  fresh := fun j => h.fresh (j + 1)

/-! ### The window -/

/-- An announcement of the mailbox of `r` that is queued ahead of `r`. -/
def announcementAhead (r q : QueueEntry) : Bool :=
  q.mailbox == r.mailbox && q.isPairing && decide (q.id < r.id)

/-- An ordinary entry of the mailbox of `r` that is queued ahead of `r`. -/
def ordinaryAhead (r q : QueueEntry) : Bool :=
  q.mailbox == r.mailbox && !q.isPairing && decide (q.id < r.id)

/-- The ids of the rows that meet `p`. -/
def Database.idsWhere (db : Database) (p : QueueEntry → Bool) : Finset ℕ :=
  ((db.queueEntries.filter p).map QueueEntry.id).toFinset

theorem Database.mem_idsWhere {db : Database} {p : QueueEntry → Bool} {id : ℕ} :
    id ∈ db.idsWhere p ↔ ∃ r ∈ db.queueEntries, p r = true ∧ r.id = id := by
  simp [Database.idsWhere, and_assoc]

theorem card_ids_of_sublist {l : List QueueEntry} (hsub : l.Sublist db.queueEntries) :
    ((l.map QueueEntry.id).toFinset).card = l.length := by
  have hnodup : (l.map QueueEntry.id).Nodup :=
    pairwise_map.mpr ((db.ids_sorted.sublist hsub).imp fun hlt => Nat.ne_of_lt hlt)
  rw [toFinset_card_of_nodup hnodup, length_map]

theorem Database.card_idsWhere (db : Database) (p : QueueEntry → Bool) :
    (db.idsWhere p).card = db.countWhere p := by
  unfold Database.idsWhere Database.countWhere tally
  rw [card_ids_of_sublist filter_sublist]
  simp

theorem QueueEntry.released_of_unleased {r : QueueEntry} (hl : r.leaseId = none)
    (hu : r.leaseUntilMillis = none) : r.released = r := by
  cases r
  cases hl
  cases hu
  rfl

section

variable (h : Calm serde cfg clock db)

include h

theorem Calm.announcement_mem_sweep {q : QueueEntry} (hp : q.isPairing = true) :
    q ∈ (db.sweep (clock i - cfg.ttlMillis) (clock i)).queueEntries ↔ q ∈ db.queueEntries := by
  constructor
  · intro hq
    obtain ⟨r₀, hr₀, rfl | rfl⟩ := mem_of_mem_sweep hq
    · exact hr₀
    · rcases h.columns r₀ hr₀ with ⟨hl, hu⟩ | ⟨_, _, _, -, hord, -⟩
      · rwa [QueueEntry.released_of_unleased hl hu]
      · have hp' : r₀.isPairing = true := hp
        rw [hord] at hp'
        simp at hp'
  · intro hq
    exact h.mem_sweep_of_unleased hq (isNone_iff_eq_none.mp (h.announcements q hq hp))

theorem Calm.countWhere_announcementAhead
    (ht : takeQueue serde cfg db (clock i) recipient limit none = .ok (db', t)) (r : QueueEntry) :
    db'.countWhere (announcementAhead r) = db.countWhere (announcementAhead r) := by
  rw [← Database.card_idsWhere, ← Database.card_idsWhere]
  congr 1
  ext id
  rw [Database.mem_idsWhere, Database.mem_idsWhere]
  have hpair : ∀ q : QueueEntry, announcementAhead r q = true → q.isPairing = true := by
    intro q hq
    simp only [announcementAhead, Bool.and_eq_true] at hq
    exact hq.1.2
  constructor
  · rintro ⟨q, hq, hp, hid⟩
    exact ⟨q, (h.announcement_mem_sweep (hpair q hp)).mp ((h.fetch_mem ht).mp hq).1, hp, hid⟩
  · rintro ⟨q, hq, hp, hid⟩
    have hswept := (h.announcement_mem_sweep (i := i) (hpair q hp)).mpr hq
    exact ⟨q, (h.fetch_mem ht).mpr ⟨hswept, fun _ => hpair q hp⟩, hp, hid⟩

theorem Calm.length_le_announcementAhead {r : QueueEntry} {l : List QueueEntry}
    (hsub : l.Sublist (db.sweep (clock i - cfg.ttlMillis) (clock i)).queueEntries)
    (hl : ∀ q ∈ l, announcementAhead r q = true) :
    l.length ≤ db.countWhere (announcementAhead r) := by
  rw [← card_ids_of_sublist hsub, ← Database.card_idsWhere]
  refine Finset.card_le_card fun id hid => ?_
  obtain ⟨q, hq, rfl⟩ := mem_map.mp (mem_toFinset.mp hid)
  have hahead := hl q hq
  have hp : q.isPairing = true := by
    simp only [announcementAhead, Bool.and_eq_true] at hahead
    exact hahead.1.2
  exact Database.mem_idsWhere.mpr
    ⟨q, (h.announcement_mem_sweep hp).mp (hsub.subset hq), hahead, rfl⟩

end

/-- The rows a fetch of `recipient` chooses its window from. -/
def Database.waiting (db : Database) (recipient : String) : List QueueEntry :=
  db.queueEntries.filter fun r => r.mailbox == recipient && r.unleased

section

variable {recipient : String} {r : QueueEntry}

theorem Database.mem_waiting :
    r ∈ db.waiting recipient ↔ r ∈ db.queueEntries ∧ r.mailbox = recipient ∧ r.leaseId = none := by
  simp [Database.waiting, QueueEntry.unleased]

theorem Database.mem_readyRows_iff (hr : r ∈ db.waiting recipient) :
    r ∈ db.readyRows recipient limit ↔
      ((db.waiting recipient).filter fun q => q.id < r.id).length < limit := by
  have hsorted : Sorted.SortedBy QueueEntry.id (db.waiting recipient) :=
    db.ids_sorted.sublist filter_sublist
  exact hsorted.mem_take_iff hr

end

section

variable (h : Calm serde cfg clock db) {r : QueueEntry} (hr : r ∈ db.queueEntries)
  (hfree : r.leaseId = none)

include h hr hfree

theorem Calm.mem_waiting : r ∈ (db.sweep (clock i - cfg.ttlMillis) (clock i)).waiting r.mailbox :=
  Database.mem_waiting.mpr ⟨h.mem_sweep_of_unleased hr hfree, rfl, hfree⟩

theorem Calm.not_ready_of_many (hmany : limit ≤ db.countWhere (announcementAhead r)) :
    r ∉ (db.sweep (clock i - cfg.ttlMillis) (clock i)).readyRows r.mailbox limit := by
  rw [Database.mem_readyRows_iff (h.mem_waiting hr hfree), not_lt]
  set ahead := ((db.sweep (clock i - cfg.ttlMillis) (clock i)).waiting r.mailbox).filter
    fun q => q.id < r.id
  have hsub : db.idsWhere (announcementAhead r) ⊆ (ahead.map QueueEntry.id).toFinset := by
    intro id hid
    obtain ⟨q, hq, hp, rfl⟩ := Database.mem_idsWhere.mp hid
    simp only [announcementAhead, Bool.and_eq_true, beq_iff_eq, decide_eq_true_eq] at hp
    have hnone := isNone_iff_eq_none.mp (h.announcements q hq hp.1.2)
    rw [List.mem_toFinset, List.mem_map]
    refine ⟨q, mem_filter.mpr ⟨Database.mem_waiting.mpr ?_, decide_eq_true hp.2⟩, rfl⟩
    exact ⟨h.mem_sweep_of_unleased hq hnone, hp.1.1, hnone⟩
  calc limit ≤ db.countWhere (announcementAhead r) := hmany
    _ = (db.idsWhere (announcementAhead r)).card := (db.card_idsWhere _).symm
    _ ≤ (ahead.map QueueEntry.id).toFinset.card := Finset.card_le_card hsub
    _ ≤ (ahead.map QueueEntry.id).length := toFinset_card_le _
    _ = ahead.length := length_map _

/-- A window that announcements do not fill, and that does not reach an entry, holds an ordinary
entry ahead of it: the oldest ordinary one. -/
theorem Calm.exists_ordinary_ready (hfew : db.countWhere (announcementAhead r) < limit)
    (hnot : r ∉ (db.sweep (clock i - cfg.ttlMillis) (clock i)).readyRows r.mailbox limit) :
    ∃ q ∈ (db.sweep (clock i - cfg.ttlMillis) (clock i)).readyRows r.mailbox limit,
      ordinaryAhead r q = true := by
  rw [Database.mem_readyRows_iff (h.mem_waiting hr hfree), not_lt] at hnot
  generalize hS : db.sweep (clock i - cfg.ttlMillis) (clock i) = swept at hnot ⊢
  have hahead : ∀ q ∈ swept.waiting r.mailbox, q.id < r.id → q.isPairing = true →
      announcementAhead r q = true := by
    intro q hq hlt hp
    simp [announcementAhead, (Database.mem_waiting.mp hq).2.1, hp, hlt]
  -- not all of the rows ahead are announcements, for there are too few of these
  obtain ⟨q₀, hq₀, hlt₀, hord₀⟩ :
      ∃ q ∈ swept.waiting r.mailbox, q.id < r.id ∧ q.isPairing = false := by
    by_contra hno
    push Not at hno
    refine absurd (hnot.trans (h.length_le_announcementAhead (i := i) ?_ ?_)) (not_le.mpr hfew)
    · rw [hS]
      exact filter_sublist.trans filter_sublist
    · intro q hq
      obtain ⟨hq, hlt⟩ := mem_filter.mp hq
      have hlt := of_decide_eq_true hlt
      exact hahead q hq hlt (by simpa using hno q hq hlt)
  obtain ⟨q, hq, hleast⟩ := Finset.exists_min_image
    ((swept.waiting r.mailbox).filter fun q => !q.isPairing).toFinset QueueEntry.id
    ⟨q₀, by simp [hq₀, hord₀]⟩
  simp only [List.mem_toFinset, List.mem_filter, Bool.not_eq_true', and_imp] at hq hleast
  have hlt : q.id < r.id := (hleast q₀ hq₀ hord₀).trans_lt hlt₀
  refine ⟨q, (Database.mem_readyRows_iff hq.1).mpr ?_, ?_⟩
  · -- what is ahead of the oldest ordinary row is announcements
    refine (h.length_le_announcementAhead (i := i) ?_ ?_).trans_lt hfew
    · rw [hS]
      exact filter_sublist.trans filter_sublist
    intro a ha
    obtain ⟨ha, halt⟩ := mem_filter.mp ha
    have halt := of_decide_eq_true halt
    refine hahead a ha (halt.trans hlt) ?_
    by_contra hord
    exact absurd (hleast a ha (Bool.eq_false_of_not_eq_true hord)) (not_le.mpr halt)
  · simp [ordinaryAhead, (Database.mem_waiting.mp hq.1).2.1, hq.2, hlt]

/-- **One fetch**: it returns the entry, or consumes one of the ordinary entries ahead of it. -/
theorem Calm.fetch_progress (hfew : db.countWhere (announcementAhead r) < limit)
    (ht : takeQueue serde cfg db (clock i) r.mailbox limit none = .ok (db', t)) :
    r ∈ t.rows ∨ r ∈ db'.queueEntries ∧
      db'.countWhere (ordinaryAhead r) < db.countWhere (ordinaryAhead r) := by
  rw [h.fetch_rows ht]
  by_cases hin : r ∈ (db.sweep (clock i - cfg.ttlMillis) (clock i)).readyRows r.mailbox limit
  · exact .inl hin
  refine .inr ⟨(h.fetch_mem ht).mpr
    ⟨h.mem_sweep_of_unleased hr hfree, fun hready => absurd hready hin⟩, ?_⟩
  obtain ⟨q, hq, hord⟩ := h.exists_ordinary_ready hr hfree hfew hin
  have hback : ∀ q ∈ (db.sweep (clock i - cfg.ttlMillis) (clock i)).queueEntries,
      ordinaryAhead r q = true → q.id ∈ db.idsWhere (ordinaryAhead r) := by
    intro q hq hp
    obtain ⟨r₀, hr₀, rfl | rfl⟩ := mem_of_mem_sweep hq
    · exact Database.mem_idsWhere.mpr ⟨q, hr₀, hp, rfl⟩
    · exact Database.mem_idsWhere.mpr ⟨r₀, hr₀, hp, rfl⟩
  rw [← Database.card_idsWhere, ← Database.card_idsWhere]
  refine Finset.card_lt_card ⟨?_, fun hsub => ?_⟩
  · intro id hid
    obtain ⟨q', hq', hp, rfl⟩ := Database.mem_idsWhere.mp hid
    exact hback q' ((h.fetch_mem ht).mp hq').1 hp
  -- the ordinary row of the window is gone
  obtain ⟨q', hq', hp, hid⟩ :=
    Database.mem_idsWhere.mp (hsub (hback q (mem_of_mem_readyRows hq) hord))
  obtain ⟨hswept, hpair⟩ := (h.fetch_mem ht).mp hq'
  rw [Database.eq_of_id_eq _ hswept (mem_of_mem_readyRows hq) hid] at hpair
  simp only [ordinaryAhead, Bool.and_eq_true, Bool.not_eq_true'] at hord
  rw [hpair hq] at hord
  exact absurd hord.1.2 (by simp)

end

end Fetch

/-! ### Fetching again and again -/

section Runs

variable (serde cfg choice)

/-- The first `n` fetches of `recipient`, at the readings of `clock`. -/
def fetches (clock : ℕ → ℕ) (recipient : String) (limit : Option ℕ) (n : ℕ) : List (Op Value) :=
  (List.range n).map fun i => .fetch (clock i) recipient limit

/-- The fetch after `i` others returns the entry `r`: its envelope is among the messages. -/
def ReturnedAt (st : RelayState) (clock : ℕ → ℕ) (limit : Option ℕ) (r : QueueEntry) (i : ℕ) :
    Prop :=
  ∃ t envelope,
    ((relay serde cfg choice).step
        ((relay serde cfg choice).run (some st) (fetches clock r.mailbox limit i))
        (.fetch (clock i) r.mailbox limit)).2 = .taken t ∧
      r ∈ t.rows ∧ serde.fromStr r.envelopeJson = some envelope ∧ envelope ∈ t.messages serde

variable {serde cfg choice} {clock : ℕ → ℕ} {limit : Option ℕ} {r : QueueEntry} {st : RelayState}

theorem fetches_succ (recipient : String) (n : ℕ) :
    (fetches clock recipient limit (n + 1) : List (Op Value)) =
      .fetch (clock 0) recipient limit :: fetches (fun i => clock (i + 1)) recipient limit n := by
  unfold fetches
  rw [List.range_succ_eq_map, List.map_cons, List.map_map]
  rfl

theorem step_fetch {now : ℕ} {recipient : String} {db' : Database} {t : Taken}
    (hvalid : validateMailboxId recipient = none)
    (ht : takeQueue serde cfg st.database now recipient (fetchLimit cfg limit) none =
      .ok (db', t)) :
    (relay serde cfg choice).step (some st) (.fetch now recipient limit) =
      (some { st with database := db' }, .taken t) := by
  show st.commit (Relay.fetch serde cfg st.database now recipient limit) .taken = _
  unfold Relay.fetch
  rw [hvalid]
  rw [ht]
  rfl

theorem step_fetch_cases (choice : HolderChoice) (now : ℕ) {recipient : String}
    (hvalid : validateMailboxId recipient = none) :
    (∃ db' t, takeQueue serde cfg st.database now recipient (fetchLimit cfg limit) none =
      .ok (db', t)) ∨
      ∃ error, (relay serde cfg choice).step (some st) (.fetch now recipient limit) =
        (some st, .refused error) := by
  cases ht : takeQueue serde cfg st.database now recipient (fetchLimit cfg limit) none with
  | ok p => exact .inl ⟨p.1, p.2, rfl⟩
  | error error =>
    refine .inr ⟨error, ?_⟩
    show st.commit (Relay.fetch serde cfg st.database now recipient limit) .taken = _
    unfold Relay.fetch
    rw [hvalid]
    rw [ht]
    rfl
  | diverges => exact absurd ht (takeQueue_ne_diverges _ _ _ _ _)

theorem takeRows_legacy (serde : Serde Value) (now : ℕ) (rows : List QueueEntry) (db : Database) :
    ∃ db', takeRows serde now none rows db = .ok db' := by
  induction rows generalizing db with
  | nil => exact ⟨db, rfl⟩
  | cons q rows ih =>
  obtain ⟨db₁, hrow⟩ : ∃ db₁, takeRow serde now none db q = .ok db₁ := by
    unfold takeRow
    split
    · exact ⟨_, rfl⟩
    · split
      · exact ⟨_, rfl⟩
      · exact ⟨_, rfl⟩
  obtain ⟨db', hrest⟩ := ih db₁
  refine ⟨db', ?_⟩
  unfold takeRows
  rw [hrow]
  exact hrest

theorem takeQueue_legacy (serde : Serde Value) (cfg : RelayConfig) {now limit : ℕ}
    (recipient : String) (db : Database)
    (hnow : now ≤ i64Max) (hlimit : limit ≤ i64Max) :
    ∃ db' t, takeQueue serde cfg db now recipient limit none = .ok (db', t) := by
  have hint : ∀ context n, n ≤ i64Max → sqlInteger context n = .ok n := fun _ _ hn => if_pos hn
  obtain ⟨db', hrows⟩ := takeRows_legacy serde now
    ((db.sweep (now - cfg.ttlMillis) now).readyRows recipient limit)
    (db.sweep (now - cfg.ttlMillis) now)
  refine ⟨db', ?_⟩
  unfold takeQueue
  rw [hint _ _ ((Nat.sub_le _ _).trans hnow), hint _ _ hnow, hint _ _ hlimit]
  simp only [Outcome.ok_bind, hrows]
  exact ⟨_, rfl⟩

theorem takeQueue_limit {now limit : ℕ} {recipient : String} {db db' : Database} {t : Taken}
    {lease : Option Lease} (h : takeQueue serde cfg db now recipient limit lease = .ok (db', t)) :
    limit ≤ i64Max := by
  obtain ⟨_, -, h₁⟩ := Outcome.bind_eq_ok.mp h
  obtain ⟨_, -, h₂⟩ := Outcome.bind_eq_ok.mp h₁
  obtain ⟨_, hl, -⟩ := Outcome.bind_eq_ok.mp h₂
  exact (sqlInteger_eq_ok hl).2

theorem returnedAt_zero (hvalid : validateMailboxId r.mailbox = none) {db' : Database} {t : Taken}
    (hparses : (serde.fromStr r.envelopeJson).isSome = true)
    (ht : takeQueue serde cfg st.database (clock 0) r.mailbox (fetchLimit cfg limit) none =
      .ok (db', t)) (hr : r ∈ t.rows) : ReturnedAt serde cfg choice st clock limit r 0 := by
  obtain ⟨envelope, henvelope⟩ := isSome_iff_exists.mp hparses
  refine ⟨t, envelope, ?_, hr, henvelope, ?_⟩
  · show ((relay serde cfg choice).step (some st) (.fetch (clock 0) r.mailbox limit)).2 = _
    rw [step_fetch hvalid ht]
  · exact mem_filterMap.mpr ⟨r, hr, henvelope⟩

theorem returnedAt_succ {st' : RelayState} {answer : Reply} {i : ℕ}
    (hstep : (relay serde cfg choice).step (some st) (.fetch (clock 0) r.mailbox limit) =
      (some st', answer)) :
    ReturnedAt serde cfg choice st clock limit r (i + 1) ↔
      ReturnedAt serde cfg choice st' (fun j => clock (j + 1)) limit r i := by
  unfold ReturnedAt
  rw [fetches_succ, Machine.run_cons, hstep]

section

variable (hvalid : validateMailboxId r.mailbox = none)

include hvalid

/-- **Few announcements ahead**: the entry comes, after no more fetches than there are ordinary
entries ahead of it. -/
theorem returned_of_few (hcalm : Calm serde cfg clock st.database)
    (hclock : ∀ i, clock i ≤ i64Max) (hlimit : fetchLimit cfg limit ≤ i64Max)
    (hr : r ∈ st.database.queueEntries) (hfree : r.leaseId = none)
    (hfew : st.database.countWhere (announcementAhead r) < fetchLimit cfg limit) :
    ∃ i ≤ st.database.countWhere (ordinaryAhead r),
      ReturnedAt serde cfg choice st clock limit r i := by
  -- induction on the ordinary entries ahead
  obtain ⟨n, hn⟩ : ∃ n, st.database.countWhere (ordinaryAhead r) = n := ⟨_, rfl⟩
  induction n using Nat.strong_induction_on generalizing st clock with
  | _ n ih =>
  obtain ⟨db', t, ht⟩ := takeQueue_legacy serde cfg r.mailbox st.database
    (hclock 0) hlimit
  rcases hcalm.fetch_progress hr hfree hfew ht with hin | ⟨hr', hlt⟩
  · exact ⟨0, Nat.zero_le _, returnedAt_zero hvalid (hcalm.parses r hr) ht hin⟩
  rw [hn] at hlt
  have hfew' : db'.countWhere (announcementAhead r) < fetchLimit cfg limit := by
    rwa [hcalm.countWhere_announcementAhead ht]
  obtain ⟨i, hi, hreturned⟩ := @ih _ hlt (fun j => clock (j + 1))
    { st with database := db' } (hcalm.fetch ht).later (fun j => hclock (j + 1)) hr' hfew' rfl
  exact ⟨i + 1, (Nat.succ_le_of_lt (hi.trans_lt hlt)).trans hn.ge,
    (returnedAt_succ (step_fetch hvalid ht)).mpr hreturned⟩

theorem not_returned_of_many (hcalm : Calm serde cfg clock st.database)
    (hr : r ∈ st.database.queueEntries) (hfree : r.leaseId = none)
    (hmany : fetchLimit cfg limit ≤ st.database.countWhere (announcementAhead r)) (i : ℕ) :
    ¬ ReturnedAt serde cfg choice st clock limit r i := by
  induction i generalizing st clock with
  | zero =>
    rintro ⟨t, envelope, hstep, hin, -⟩
    have hstep : ((relay serde cfg choice).step (some st)
        (.fetch (clock 0) r.mailbox limit)).2 = .taken t := hstep
    rcases step_fetch_cases choice (clock 0) hvalid with ⟨db', t', ht⟩ | ⟨error, herr⟩
    · rw [step_fetch hvalid ht] at hstep
      obtain rfl := Reply.taken.inj hstep
      rw [hcalm.fetch_rows ht] at hin
      exact hcalm.not_ready_of_many hr hfree hmany hin
    · rw [herr] at hstep
      simp at hstep
  | succ i ih =>
    rcases step_fetch_cases choice (clock 0) hvalid with ⟨db', t, ht⟩ | ⟨error, herr⟩
    · rw [returnedAt_succ (step_fetch hvalid ht)]
      have hnot := hcalm.not_ready_of_many (i := 0) hr hfree hmany
      refine ih (hcalm.fetch ht).later ((hcalm.fetch_mem ht).mpr
        ⟨hcalm.mem_sweep_of_unleased hr hfree, fun hin => absurd hin hnot⟩) ?_
      rwa [hcalm.countWhere_announcementAhead ht]
    · rw [returnedAt_succ herr]
      exact ih hcalm.later hr hmany

theorem not_returned_of_limit (hlimit : ¬ fetchLimit cfg limit ≤ i64Max) (i : ℕ) :
    ¬ ReturnedAt serde cfg choice st clock limit r i := by
  have hrefused : ∀ now, ∃ error, (relay serde cfg choice).step (some st)
      (.fetch now r.mailbox limit) = (some st, .refused error) := by
    intro now
    rcases step_fetch_cases choice now hvalid with ⟨db', t, ht⟩ | herr
    · exact absurd (takeQueue_limit ht) hlimit
    · exact herr
  induction i generalizing clock with
  | zero =>
    rintro ⟨t, envelope, hstep, -⟩
    obtain ⟨error, herr⟩ := hrefused (clock 0)
    have hstep : ((relay serde cfg choice).step (some st)
        (.fetch (clock 0) r.mailbox limit)).2 = .taken t := hstep
    rw [herr] at hstep
    simp at hstep
  | succ i ih =>
    obtain ⟨error, herr⟩ := hrefused (clock 0)
    rw [returnedAt_succ herr]
    exact ih

theorem returned_iff (hcalm : Calm serde cfg clock st.database) (hclock : ∀ i, clock i ≤ i64Max)
    (hr : r ∈ st.database.queueEntries) (hfree : r.leaseId = none) :
    (∃ i, ReturnedAt serde cfg choice st clock limit r i) ↔
      st.database.countWhere (announcementAhead r) < fetchLimit cfg limit ∧
        fetchLimit cfg limit ≤ i64Max := by
  constructor
  · rintro ⟨i, hi⟩
    refine ⟨?_, ?_⟩
    · by_contra hmany
      exact not_returned_of_many hvalid hcalm hr hfree (not_lt.mp hmany) i hi
    · by_contra hlimit
      exact not_returned_of_limit hvalid hlimit i hi
  · rintro ⟨hfew, hlimit⟩
    obtain ⟨i, -, hi⟩ := returned_of_few hvalid hcalm hclock hlimit hr hfree hfew
    exact ⟨i, hi⟩

end

theorem calm_of_run (hprints : serde.Prints)
    (hrun : (relay serde cfg choice).run (some RelayState.initial) ops = some st)
    (hfresh : ∀ i, ∀ q ∈ st.database.queueEntries, clock i - cfg.ttlMillis ≤ q.queuedAtMillis) :
    Calm serde cfg clock st.database where
  parses := fun q hq => (wellStored_of_run hprints hrun q hq).2
  announcements := by
    obtain ⟨st', hst', hinv⟩ :
        Running cfg ((relay serde cfg choice).run (some RelayState.initial) ops) :=
      (Running.initial cfg).run ops
    rw [hrun] at hst'
    rw [some.inj hst']
    exact hinv.announcements
  columns := columns_of_run hrun
  fresh := hfresh

end Runs

/-- **Draining a mailbox.** On every table a relay can have, fetches that see no entry expire
return an ordinary entry exactly when fewer announcements are queued ahead of it than the limit of
a fetch, and then within as many fetches as the mailbox has ordinary entries. -/
theorem fetches_drain {Value : Type} {serde : Serde Value} (hprints : serde.Prints)
    {cfg : RelayConfig} {choice : HolderChoice} {ops : List (Op Value)} {st : RelayState}
    (hrun : (relay serde cfg choice).run (some RelayState.initial) ops = some st)
    {clock : ℕ → ℕ} (hclock : ∀ i, clock i ≤ i64Max)
    (hfresh : ∀ i, ∀ q ∈ st.database.queueEntries, clock i - cfg.ttlMillis ≤ q.queuedAtMillis)
    (limit : Option ℕ) {r : QueueEntry} (hr : r ∈ st.database.queueEntries)
    (hfree : r.leaseId = none) (hord : r.isPairing = false) :
    ((∃ i, ReturnedAt serde cfg choice st clock limit r i) ↔
      st.database.countWhere (announcementAhead r) < fetchLimit cfg limit ∧
        fetchLimit cfg limit ≤ i64Max) ∧
    ((∃ i, ReturnedAt serde cfg choice st clock limit r i) →
      ∃ i < st.database.countWhere (fun q => q.mailbox == r.mailbox && !q.isPairing),
        ReturnedAt serde cfg choice st clock limit r i) := by
  have hcalm := calm_of_run hprints hrun hfresh
  have hvalid := (wellStored_of_run hprints hrun r hr).1
  have hiff : (∃ i, ReturnedAt serde cfg choice st clock limit r i) ↔ _ ∧ _ :=
    returned_iff hvalid hcalm hclock hr hfree
  refine ⟨hiff, fun hsome => ?_⟩
  obtain ⟨hfew, hlimit⟩ := hiff.mp hsome
  obtain ⟨i, hi, hreturned⟩ := returned_of_few hvalid hcalm hclock hlimit hr hfree hfew
  refine ⟨i, hi.trans_lt ?_, hreturned⟩
  -- the entry itself is one of the ordinary entries, and not ahead of itself
  rw [← Database.card_idsWhere, ← Database.card_idsWhere]
  refine Finset.card_lt_card ⟨fun id hid => ?_, fun hsub => ?_⟩
  · obtain ⟨q, hq, hp, hid⟩ := Database.mem_idsWhere.mp hid
    exact Database.mem_idsWhere.mpr ⟨q, hq, (Bool.and_eq_true_iff.mp hp).1, hid⟩
  · obtain ⟨q, hq, hp, hid⟩ := Database.mem_idsWhere.mp
      (hsub (Database.mem_idsWhere.mpr ⟨r, hr, by simp [hord], rfl⟩))
    have hlt := of_decide_eq_true (Bool.and_eq_true_iff.mp hp).2
    rw [hid] at hlt
    exact absurd hlt (lt_irrefl _)

namespace Sample

theorem json_prints : json.Prints := by
  intro envelope text h
  rw [← Except.ok.inj h]
  cases envelope <;> rfl

def fetchClock : ℕ → ℕ := fun _ => 2000

theorem fetchClock_fresh (r : QueueEntry) (i : ℕ) :
    fetchClock i - twoPerMailbox.ttlMillis ≤ r.queuedAtMillis :=
  (show fetchClock i - twoPerMailbox.ttlMillis = 0 from
    Nat.sub_eq_zero_of_le (by decide : 2000 ≤ twoPerMailbox.ttlMillis)).trans_le (Nat.zero_le _)

theorem fetches_drain_two :
    ∃ st, (relay json twoPerMailbox HolderChoice.first).run (some RelayState.initial) fullRun =
        some st ∧
      ∃ i < st.database.countWhere (fun q => q.mailbox == "box" && !q.isPairing),
        ReturnedAt json twoPerMailbox HolderChoice.first st fetchClock (some 2) (kindlessRow 2)
          i := by
  obtain ⟨st, hrun, hrows, -⟩ := run_fullRun
  have hin : kindlessRow 2 ∈ st.database.queueEntries := by
    rw [hrows]
    exact mem_cons_of_mem _ mem_cons_self
  obtain ⟨hiff, hbound⟩ := fetches_drain json_prints hrun (fun _ => (by decide : 2000 ≤ i64Max))
    (fun i q _ => fetchClock_fresh q i) (some 2) hin rfl rfl
  refine ⟨st, hrun, hbound (hiff.mpr ⟨?_, by decide⟩)⟩
  unfold Database.countWhere
  rw [hrows]
  decide

theorem message_behind_announcement_never_comes :
    ∃ st, (relay json twoPerMailbox HolderChoice.first).run (some RelayState.initial) fullRun =
        some st ∧
      kindlessRow 2 ∈ st.database.queueEntries ∧
      (∀ i, ∀ q ∈ st.database.queueEntries,
        fetchClock i - twoPerMailbox.ttlMillis ≤ q.queuedAtMillis) ∧
      ∀ i, ¬ ReturnedAt json twoPerMailbox HolderChoice.first st fetchClock (some 1)
        (kindlessRow 2) i := by
  obtain ⟨st, hrun, hrows, -⟩ := run_fullRun
  have hin : kindlessRow 2 ∈ st.database.queueEntries := by
    rw [hrows]
    exact mem_cons_of_mem _ mem_cons_self
  refine ⟨st, hrun, hin, fun i q _ => fetchClock_fresh q i, ?_⟩
  refine not_returned_of_many rfl (calm_of_run json_prints hrun
    fun i q _ => fetchClock_fresh q i) hin rfl ?_
  unfold Database.countWhere
  rw [hrows]
  decide

end Sample

end Relay
end Conest
