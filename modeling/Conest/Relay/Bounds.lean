import Conest.Relay.Queue

/-!
# Storage bounds of the relay

Five bounds hold after every committed operation of every run from an empty database: rows and
bytes of a mailbox, announcements of a mailbox, bytes of a source, and bytes in all; and the
counter that the triggers keep is the sum it stands for (`relay_storage_bounds`). The clock
readings are arbitrary, and may go back.

Each operation other than a store only deletes rows or moves leases, and every bound is monotone
along an eviction (`Bounds.evicts`) and blind to leases (`Bounds.setLease`). A store is a chain of
evictions that ends in one insert (`enqueue_eq_ok`): the loops establish, one after the other,
room in the mailbox, room in the share and room in all, and since each later loop only evicts, the
room an earlier one made is still there at the insert.

The sums of the loops saturate at `u64::MAX`. That they are exact where it matters follows from the
insert: a database file is far smaller than that.

The run also never hangs. The one loop that could is the announcement loop, which looks for an
unleased announcement and goes on whether or not it finds one; `Announcements` is the invariant
that no announcement is ever leased, so there always is one.
-/

open Lib List

namespace Conest
namespace Relay

/-! ### The invariant -/

variable {fuel : ℕ} {db' : Database} {largest : Option (Option String)}

/-- **The storage bounds** of a relay running under `cfg`. -/
structure Bounds (cfg : RelayConfig) (db : Database) : Prop where
  /-- The counter kept by the triggers is the sum over the table. -/
  counter : db.storedTotal = db.bytesStored
  entries : ∀ mailbox,
    db.countWhere (fun r => r.mailbox == mailbox) ≤ cfg.maxQueuePerMailbox
  mailboxBytes : ∀ mailbox,
    db.bytesWhere (fun r => r.mailbox == mailbox) ≤ cfg.maxMailboxBytes
  pairing : ∀ mailbox,
    db.countWhere (fun r => r.mailbox == mailbox && r.isPairing) ≤ maxPairingPerMailbox
  share : ∀ source,
    db.bytesWhere (fun r => r.source == some source) ≤ cfg.maxStoredBytesPerPeer
  total : db.bytesStored ≤ cfg.maxTotalBytes

/-- No announcement is leased. -/
def Announcements (db : Database) : Prop :=
  ∀ r ∈ db.queueEntries, r.isPairing = true → r.unleased = true

theorem Bounds.empty (cfg : RelayConfig) : Bounds cfg Database.empty where
  counter := rfl
  entries := fun _ => Nat.zero_le _
  mailboxBytes := fun _ => Nat.zero_le _
  pairing := fun _ => Nat.zero_le _
  share := fun _ => Nat.zero_le _
  total := Nat.zero_le _

theorem Bounds.evicts {cfg : RelayConfig} {Q : QueueEntry → Prop} {db : Database}
    (h : Bounds cfg db) (he : Evicts Q db db') : Bounds cfg db' where
  counter := by
    have hd := he.drift
    have hc := h.counter
    omega
  entries := fun mailbox => (he.countWhere_le _).trans (h.entries mailbox)
  mailboxBytes := fun mailbox => (he.bytesWhere_le _).trans (h.mailboxBytes mailbox)
  pairing := fun mailbox => (he.countWhere_le _).trans (h.pairing mailbox)
  share := fun source => (he.bytesWhere_le _).trans (h.share source)
  total := (he.bytesWhere_le _).trans h.total

theorem Announcements.evicts {Q : QueueEntry → Prop} {db : Database} (h : Announcements db)
    (he : Evicts Q db db') : Announcements db' :=
  fun r hr => h r (he.mem hr)

/-! ### Leases do not move a bound -/

section SetLease

variable (db : Database) (p : QueueEntry → Bool) (lease : Option String) (leaseUntil : Option ℕ)

theorem tally_setLease {f : QueueEntry → ℕ} {q : QueueEntry → Bool}
    (hf : ∀ r, f { r with leaseId := lease, leaseUntilMillis := leaseUntil } = f r)
    (hq : ∀ r, q { r with leaseId := lease, leaseUntilMillis := leaseUntil } = q r) :
    tally f q (db.setLease p lease leaseUntil).queueEntries = tally f q db.queueEntries := by
  refine tally_map ?_ ?_ db.queueEntries
  · intro r
    split
    · exact hf r
    · rfl
  · intro r
    split
    · exact hq r
    · rfl

theorem Bounds.setLease {cfg : RelayConfig} {db : Database} (h : Bounds cfg db)
    (p : QueueEntry → Bool) (lease : Option String) (leaseUntil : Option ℕ) :
    Bounds cfg (db.setLease p lease leaseUntil) := by
  have hbytes : ∀ q : QueueEntry → Bool,
      (∀ r, q { r with leaseId := lease, leaseUntilMillis := leaseUntil } = q r) →
      (db.setLease p lease leaseUntil).bytesWhere q = db.bytesWhere q := fun q hq =>
    tally_setLease db p lease leaseUntil (fun _ => rfl) hq
  have hcount : ∀ q : QueueEntry → Bool,
      (∀ r, q { r with leaseId := lease, leaseUntilMillis := leaseUntil } = q r) →
      (db.setLease p lease leaseUntil).countWhere q = db.countWhere q := fun q hq =>
    tally_setLease db p lease leaseUntil (fun _ => rfl) hq
  have hstored : (db.setLease p lease leaseUntil).bytesStored = db.bytesStored :=
    hbytes _ fun _ => rfl
  refine ⟨?_, ?_, ?_, ?_, ?_, ?_⟩
  · rw [hstored]
    exact h.counter
  · intro mailbox
    rw [hcount _ fun _ => rfl]
    exact h.entries mailbox
  · intro mailbox
    rw [hbytes _ fun _ => rfl]
    exact h.mailboxBytes mailbox
  · intro mailbox
    rw [hcount _ fun _ => rfl]
    exact h.pairing mailbox
  · intro source
    rw [hbytes _ fun _ => rfl]
    exact h.share source
  · rw [hstored]
    exact h.total

variable {db}

/-- A row after a lease update comes from a row of the same id: the same row, or one selected and
given the lease. -/
theorem mem_setLease {r : QueueEntry} :
    r ∈ (db.setLease p lease leaseUntil).queueEntries ↔
      (r ∈ db.queueEntries ∧ p r = false) ∨
        ∃ r' ∈ db.queueEntries, p r' = true ∧
          r = { r' with leaseId := lease, leaseUntilMillis := leaseUntil } := by
  change r ∈ db.queueEntries.map _ ↔ _
  rw [mem_map]
  constructor
  · rintro ⟨r', hr', rfl⟩
    cases hp : p r' with
    | true => exact .inr ⟨r', hr', hp, if_pos rfl⟩
    | false =>
      refine .inl ?_
      exact ⟨hr', hp⟩
  · rintro (⟨hr, hp⟩ | ⟨r', hr', hp, rfl⟩)
    · exact ⟨r, hr, by rw [if_neg (by simp [hp])]⟩
    · exact ⟨r', hr', if_pos hp⟩

theorem Announcements.clear (h : Announcements db) (p : QueueEntry → Bool)
    (leaseUntil : Option ℕ) : Announcements (db.setLease p none leaseUntil) := by
  intro r hr hp
  rcases (mem_setLease p none leaseUntil).mp hr with ⟨hr, -⟩ | ⟨r', hr', -, rfl⟩
  · exact h r hr hp
  · rfl

theorem Announcements.setLease (h : Announcements db)
    (hp : ∀ r ∈ db.queueEntries, p r = true → r.isPairing = false) :
    Announcements (db.setLease p lease leaseUntil) := by
  intro r hr hpair
  rcases (mem_setLease p lease leaseUntil).mp hr with ⟨hr, -⟩ | ⟨r', hr', hsel, rfl⟩
  · exact h r hr hpair
  have hfalse : r'.isPairing = false := hp r' hr' hsel
  have htrue : r'.isPairing = true := hpair
  rw [hfalse] at htrue
  simp at htrue

end SetLease

/-! ### The eviction loops -/

section Loops

variable {cfg : RelayConfig} {choice : HolderChoice} {e : NewEntry}

section

variable {db : Database}

theorem Database.deleteById_shorter {id : ℕ} {r : QueueEntry} (hr : r ∈ db.queueEntries)
    (hid : r.id = id) :
    (db.deleteById (some id)).1.queueEntries.length < db.queueEntries.length := by
  have hpos := Database.deleteById_removed_pos hr hid
  have hlen := Database.deleteById_length db (some id)
  omega

theorem Database.deleteById_shorter_of_removed {id : Option ℕ} (h : ¬ (db.deleteById id).2 = 0) :
    (db.deleteById id).1.queueEntries.length < db.queueEntries.length := by
  have hlen := Database.deleteById_length db id
  omega

/-- The announcement loop evicts unleased announcements of the mailbox, and when it ends there
is room for one more. -/
theorem pairingLoop_eq_ok (h : pairingLoop e fuel db = .ok db') :
    Evicts (fun r => r.unleased = true) db db' ∧
      db'.countWhere e.pairingInMailbox < maxPairingPerMailbox := by
  induction fuel generalizing db with
  | zero => exact absurd h (by simp [pairingLoop])
  | succ fuel ih =>
  unfold pairingLoop at h
  split at h
  · next hlt =>
    obtain rfl := Outcome.ok.inj h
    exact ⟨Evicts.refl _ _, hlt⟩
  obtain ⟨hev, hlt⟩ := ih h
  refine ⟨Evicts.trans ?_ hev, hlt⟩
  refine (Evicts.deleteFirst db _).mono ?_
  intro r _ hr
  exact (Bool.and_eq_true_iff.mp hr).2

/-- While no announcement is leased, an iteration of the announcement loop that finds the mailbox
full of them deletes one: it looks for an unleased one, and every one is. -/
theorem pairingLoop_evicts (hann : Announcements db)
    (hfull : ¬ db.countWhere e.pairingInMailbox < maxPairingPerMailbox) : (db.deleteById
        (db.selectFirst fun r => e.pairingInMailbox r && r.unleased)).1.queueEntries.length <
      db.queueEntries.length := by
  -- a full mailbox holds an announcement, which is unleased and hence selected
  have hex : ∃ r ∈ db.queueEntries, (e.pairingInMailbox r && r.unleased) = true := by
    by_contra hno
    push Not at hno
    refine hfull ?_
    have hnil : db.queueEntries.filter e.pairingInMailbox = [] := by
      rw [filter_eq_nil_iff]
      intro r hr hpair
      have hu : r.unleased = true :=
        hann r hr (Bool.and_eq_true_iff.mp hpair).2
      exact hno r hr (Bool.and_eq_true_iff.mpr ⟨hpair, hu⟩)
    change tally _ _ _ < _
    unfold tally
    rw [hnil]
    decide
  cases hsel : db.selectFirst fun r => e.pairingInMailbox r && r.unleased with
  | none =>
    obtain ⟨r, hr, hp⟩ := hex
    exact absurd hp (Database.selectFirst_eq_none.mp hsel r hr)
  | some id =>
    obtain ⟨r, hr, hid, -⟩ := Database.selectFirst_eq_some hsel
    exact Database.deleteById_shorter hr hid

/-- While the mailbox holds an announcement, and announcements are unleased, the announcement
loop finds one to evict: it ends. -/
theorem pairingLoop_ne_diverges (hann : Announcements db) (hfuel : db.queueEntries.length < fuel) :
    pairingLoop e fuel db ≠ .diverges := by
  induction fuel generalizing db with
  | zero => exact absurd hfuel (Nat.not_lt_zero _)
  | succ fuel ih =>
  unfold pairingLoop
  split
  · simp
  next hfull =>
  have hshort := pairingLoop_evicts hann hfull
  refine ih (hann.evicts (Evicts.deleteWhere db _)) ?_
  omega

theorem quotaVictim_eq_some {id : ℕ} (h : e.quotaVictim db = some id) :
    ∃ r ∈ db.queueEntries, r.id = id ∧ r.unleased = true := by
  rcases Option.or_eq_some_iff.mp h with h | ⟨-, h⟩
  · obtain ⟨r, hr, hid, hp⟩ := Database.selectFirst_eq_some h
    simp only [Bool.and_eq_true] at hp
    exact ⟨r, hr, hid, hp.1.2⟩
  · obtain ⟨r, hr, hid, hp⟩ := Database.selectFirst_eq_some h
    simp only [Bool.and_eq_true] at hp
    exact ⟨r, hr, hid, hp.2⟩

end

theorem Evicts.quotaVictim (e : NewEntry) (db : Database) :
    Evicts (fun r => r.unleased = true) db (db.deleteById (e.quotaVictim db)).1 := by
  refine (Evicts.deleteWhere db fun r => e.quotaVictim db == some r.id).mono ?_
  intro r hr hid
  obtain ⟨r', hr', hid', hu⟩ := quotaVictim_eq_some (eq_of_beq hid)
  rwa [db.eq_of_id_eq hr hr' hid'.symm]

theorem mailboxLoop_eq_ok {db : Database} (h : mailboxLoop cfg e fuel db = .ok db') :
    Evicts (fun r => r.unleased = true) db db' ∧
      db'.countWhere e.inMailbox < cfg.maxQueuePerMailbox ∧
      saturatingAdd (db'.bytesWhere e.inMailbox) e.encodedLen ≤ cfg.maxMailboxBytes := by
  induction fuel generalizing db with
  | zero => exact absurd h (by simp [mailboxLoop])
  | succ fuel ih =>
  unfold mailboxLoop at h
  split at h
  · next hroom =>
    obtain rfl := Outcome.ok.inj h
    exact ⟨Evicts.refl _ _, hroom⟩
  split at h
  · simp at h
  · obtain ⟨hev, hroom⟩ := ih h
    exact ⟨(Evicts.quotaVictim e db).trans hev, hroom⟩

theorem mailboxLoop_ne_diverges {db : Database} (hfuel : db.queueEntries.length < fuel) :
    mailboxLoop cfg e fuel db ≠ .diverges := by
  induction fuel generalizing db with
  | zero => exact absurd hfuel (Nat.not_lt_zero _)
  | succ fuel ih =>
  unfold mailboxLoop
  split
  · simp
  split
  · simp
  next hrem =>
  have hshort := Database.deleteById_shorter_of_removed hrem
  exact ih (by omega)

theorem Evicts.oldestOf (db : Database) (holder : Option String) :
    Evicts (fun r => r.unleased = true) db (db.deleteById (db.oldestOf holder)).1 := by
  refine (Evicts.deleteFirst db _).mono ?_
  intro r _ hr
  exact (Bool.and_eq_true_iff.mp hr).2

theorem largestHolder_ne_diverges (db : Database) : largestHolder choice db ≠ .diverges := by
  unfold largestHolder
  split <;> simp

theorem currentHolder_ne_diverges (db : Database) (largest : Option (Option String)) :
    currentHolder choice db largest ≠ .diverges := by
  cases largest with
  | some holder => simp [currentHolder]
  | none => exact largestHolder_ne_diverges db

theorem totalLoop_eq_ok {db : Database} (h : totalLoop cfg choice e fuel db largest = .ok db') :
    Evicts (fun r => r.unleased = true) db db' ∧
      saturatingAdd db'.total e.encodedLen ≤ cfg.maxTotalBytes := by
  induction fuel generalizing db largest with
  | zero => exact absurd h (by simp [totalLoop])
  | succ fuel ih =>
  unfold totalLoop at h
  split at h
  · next hroom =>
    obtain rfl := Outcome.ok.inj h
    exact ⟨Evicts.refl _ _, hroom⟩
  obtain ⟨holder, -, h₁⟩ := Outcome.bind_eq_ok.mp h
  split at h₁
  · obtain ⟨again, -, h₂⟩ := Outcome.bind_eq_ok.mp h₁
    split at h₂
    · simp at h₂
    · obtain ⟨hev, hroom⟩ := ih h₂
      exact ⟨(Evicts.oldestOf db again).trans hev, hroom⟩
  · obtain ⟨hev, hroom⟩ := ih h₁
    exact ⟨(Evicts.oldestOf db holder).trans hev, hroom⟩

theorem totalLoop_ne_diverges {db : Database} (hfuel : db.queueEntries.length < fuel) :
    totalLoop cfg choice e fuel db largest ≠ .diverges := by
  induction fuel generalizing db largest with
  | zero => exact absurd hfuel (Nat.not_lt_zero _)
  | succ fuel ih =>
  unfold totalLoop
  split
  · simp
  refine Outcome.bind_ne_diverges (currentHolder_ne_diverges db largest) fun holder _ => ?_
  split
  · refine Outcome.bind_ne_diverges (largestHolder_ne_diverges db) fun again _ => ?_
    split
    · simp
    next hrem =>
    have hshort := Database.deleteById_shorter_of_removed hrem
    exact ih (by omega)
  next hrem =>
  have hshort := Database.deleteById_shorter_of_removed hrem
  exact ih (by omega)

end Loops

/-! ### A store -/

section StoreBounds

variable {cfg : RelayConfig} {choice : HolderChoice} {e : NewEntry}

/-- The room the loops of a store have made when the insert is reached. -/
structure HasRoom (cfg : RelayConfig) (e : NewEntry) (db : Database) : Prop where
  entries : db.countWhere e.inMailbox < cfg.maxQueuePerMailbox
  mailboxBytes : saturatingAdd (db.bytesWhere e.inMailbox) e.encodedLen ≤ cfg.maxMailboxBytes
  pairing : e.kind = some pairingAnnouncement →
    db.countWhere e.pairingInMailbox < maxPairingPerMailbox
  share : ∀ source, e.source = some source →
    saturatingAdd (db.bytesWhere fun r => r.source == some source) e.encodedLen ≤
      cfg.maxStoredBytesPerPeer
  total : saturatingAdd db.total e.encodedLen ≤ cfg.maxTotalBytes

theorem saturatingAdd_mono {a b c : ℕ} (h : a ≤ b) : saturatingAdd a c ≤ saturatingAdd b c := by
  unfold saturatingAdd
  omega

theorem checkShare_eq_ok {db : Database} {u : Unit} (h : checkShare cfg e db = .ok u) :
    ∀ source, e.source = some source →
      saturatingAdd (db.bytesWhere fun r => r.source == some source) e.encodedLen ≤
        cfg.maxStoredBytesPerPeer := by
  intro source hs
  unfold checkShare at h
  rw [hs] at h
  exact Outcome.require_eq_ok.mp h

theorem checkShare_ne_diverges (db : Database) : checkShare cfg e db ≠ .diverges := by
  unfold checkShare
  split <;> simp

/-- A row a store may delete: it has expired, is an announcement, or holds no lease. -/
def Disposable (cutoff : ℕ) (r : QueueEntry) : Prop :=
  r.queuedAtMillis < cutoff ∨ r.isPairing = true ∨ r.unleased = true

theorem Evicts.dedupPairing (e : NewEntry) (db : Database) :
    Evicts (fun r => r.isPairing = true) db (dedupPairing e db) := by
  unfold Relay.dedupPairing
  split
  · refine (Evicts.deleteWhere db _).mono ?_
    intro r _ hr
    simp only [NewEntry.pairingInMailbox, Bool.and_eq_true] at hr
    exact hr.1.2
  · exact Evicts.refl _ db

section

variable {db : Database}

theorem pairingRoom_eq_ok (h : pairingRoom e db = .ok db') :
    Evicts (fun r => r.isPairing = true ∨ r.unleased = true) db db' ∧
      (e.kind = some pairingAnnouncement →
        db'.countWhere e.pairingInMailbox < maxPairingPerMailbox) := by
  unfold pairingRoom at h
  split at h
  · obtain ⟨hev, hlt⟩ := pairingLoop_eq_ok h
    have hdedup : Evicts (fun r => r.isPairing = true ∨ r.unleased = true) db (dedupPairing e db) :=
      (Evicts.dedupPairing e db).mono fun _ _ hr => .inl hr
    exact ⟨hdedup.trans (hev.mono fun _ _ hr => .inr hr), fun _ => hlt⟩
  next hk =>
  obtain rfl := Outcome.ok.inj h
  exact ⟨Evicts.refl _ _, fun hk' => absurd hk' hk⟩

theorem pairingRoom_ne_diverges (hann : Announcements db) : pairingRoom e db ≠ .diverges := by
  unfold pairingRoom
  split
  · exact pairingLoop_ne_diverges (hann.evicts (Evicts.dedupPairing e db)) (Nat.lt_succ_self _)
  · simp

/-- The loops between deduplication and the insert evict, and leave room: what an earlier one
made, a later one does not take away. -/
theorem makeRoom_eq_ok (h : makeRoom cfg choice e db = .ok db') :
    Evicts (fun r => r.isPairing = true ∨ r.unleased = true) db db' ∧ HasRoom cfg e db' := by
  obtain ⟨db₁, hpair, h₁⟩ := Outcome.bind_eq_ok.mp h
  obtain ⟨db₂, hbox, h₂⟩ := Outcome.bind_eq_ok.mp h₁
  obtain ⟨_, hshare, htot⟩ := Outcome.bind_eq_ok.mp h₂
  obtain ⟨hev₁, hpairing⟩ := pairingRoom_eq_ok hpair
  obtain ⟨hev₂, hcount, hbytes⟩ := mailboxLoop_eq_ok hbox
  obtain ⟨hev₃, htotal⟩ := totalLoop_eq_ok htot
  have hev₂₃ := hev₂.trans hev₃
  refine ⟨hev₁.trans (hev₂₃.mono fun _ _ hr => .inr hr), ?_, ?_, ?_, ?_, htotal⟩
  · exact (hev₃.countWhere_le _).trans_lt hcount
  · exact (saturatingAdd_mono (hev₃.bytesWhere_le _)).trans hbytes
  · intro hk
    exact (hev₂₃.countWhere_le _).trans_lt (hpairing hk)
  · intro source hs
    exact (saturatingAdd_mono (hev₃.bytesWhere_le _)).trans (checkShare_eq_ok hshare source hs)

theorem makeRoom_ne_diverges (hann : Announcements db) : makeRoom cfg choice e db ≠ .diverges := by
  refine Outcome.bind_ne_diverges (pairingRoom_ne_diverges hann) fun db₁ _ => ?_
  refine Outcome.bind_ne_diverges (mailboxLoop_ne_diverges (Nat.lt_succ_self _)) fun db₂ _ => ?_
  refine Outcome.bind_ne_diverges (checkShare_ne_diverges db₂) fun _ _ => ?_
  exact totalLoop_ne_diverges (Nat.lt_succ_self _)

/-- **What a store commits**: evictions of disposable rows, and then either nothing more, when
the dedup key is queued already, or one insert for which there is room. -/
theorem enqueue_eq_ok (h : enqueue cfg choice e db = .ok db') :
    ∃ room, Evicts (Disposable (e.queuedAtMillis - cfg.ttlMillis)) db room ∧
      (db' = room ∨ HasRoom cfg e room ∧ room.insertEntry e = .ok db') := by
  obtain ⟨c, hc, h₁⟩ := Outcome.bind_eq_ok.mp h
  rw [(sqlInteger_eq_ok hc).1] at h₁
  have hexp : Evicts (Disposable (e.queuedAtMillis - cfg.ttlMillis)) db
      (db.deleteExpired (e.queuedAtMillis - cfg.ttlMillis)) :=
    (Evicts.deleteWhere db _).mono fun _ _ hr => .inl (of_decide_eq_true hr)
  dsimp only at h₁
  split at h₁
  · exact ⟨_, hexp, .inl (Outcome.ok.inj h₁).symm⟩
  · obtain ⟨room, hroom, h₂⟩ := Outcome.bind_eq_ok.mp h₁
    obtain ⟨_, -, hins⟩ := Outcome.bind_eq_ok.mp h₂
    obtain ⟨hev, hhas⟩ := makeRoom_eq_ok hroom
    exact ⟨room, hexp.trans (hev.mono fun _ _ hr => .inr hr), .inr ⟨hhas, hins⟩⟩

theorem enqueue_ne_diverges (hann : Announcements db) : enqueue cfg choice e db ≠ .diverges := by
  refine Outcome.bind_ne_diverges (sqlInteger_ne_diverges _ _) fun c _ => ?_
  dsimp only
  split
  · simp
  refine Outcome.bind_ne_diverges
    (makeRoom_ne_diverges (hann.evicts (Evicts.deleteWhere db _))) fun room _ => ?_
  refine Outcome.bind_ne_diverges (sqlInteger_ne_diverges _ _) fun _ _ => ?_
  exact Database.insertEntry_ne_diverges room e

end

section

variable {db : Database} (hrows : db'.queueEntries = db.queueEntries ++ [e.toRow db.nextId])
  (p : QueueEntry → Bool)

include hrows p

theorem bytesWhere_insert :
    db'.bytesWhere p = db.bytesWhere p + if p (e.toRow db.nextId) then e.encodedLen else 0 := by
  unfold Database.bytesWhere
  rw [hrows, tally_concat]
  rfl

theorem countWhere_insert :
    db'.countWhere p = db.countWhere p + if p (e.toRow db.nextId) then 1 else 0 := by
  unfold Database.countWhere
  rw [hrows, tally_concat]

end

theorem Bounds.insert {db : Database} (h : Bounds cfg db) (hroom : HasRoom cfg e db)
    (hins : db.insertEntry e = .ok db') : Bounds cfg db' := by
  obtain ⟨hrows, hcounter, -, hcap⟩ := Database.insertEntry_eq_ok hins
  have hbytes := bytesWhere_insert hrows
  have hcount := countWhere_insert hrows
  -- a saturated sum of the loops is an exact one: the file is smaller than `u64::MAX`
  have hexact : ∀ p : QueueEntry → Bool, db.bytesWhere p + e.encodedLen ≤ u64Max := by
    intro p
    have hle : db.bytesWhere p ≤ db.bytesStored := tally_le_total _ p _
    have hfile : sqliteMaxBytes ≤ u64Max := by decide
    omega
  have hmailbox : ∀ mailbox, (e.toRow db.nextId).mailbox = mailbox → e.mailbox = mailbox :=
    fun _ hm => hm
  refine ⟨?_, ?_, ?_, ?_, ?_, ?_⟩
  · have hall := hbytes fun _ => true
    have hc := h.counter
    unfold Database.bytesStored at hc ⊢
    rw [hall, hcounter, hc]
    simp
  · intro mailbox
    rw [hcount]
    split
    · next hm =>
      obtain rfl := hmailbox mailbox (eq_of_beq hm)
      exact hroom.entries
    · exact h.entries mailbox
  · intro mailbox
    rw [hbytes]
    split
    · next hm =>
      obtain rfl := hmailbox mailbox (eq_of_beq hm)
      exact add_le_of_saturatingAdd_le (hexact _) hroom.mailboxBytes
    · exact h.mailboxBytes mailbox
  · intro mailbox
    rw [hcount]
    split
    · next hm =>
      obtain ⟨hm, hp⟩ := Bool.and_eq_true_iff.mp hm
      obtain rfl := hmailbox mailbox (eq_of_beq hm)
      exact hroom.pairing (eq_of_beq hp)
    · exact h.pairing mailbox
  · intro source
    rw [hbytes]
    split
    · next hs =>
      have hsource : e.source = some source := eq_of_beq hs
      exact add_le_of_saturatingAdd_le (hexact _) (hroom.share source hsource)
    · exact h.share source
  · have htotal : db.total = db.bytesStored := by
      unfold Database.total
      rw [h.counter, Int.toNat_natCast]
    have hle := hroom.total
    rw [htotal] at hle
    have hall := hbytes fun _ => true
    unfold Database.bytesStored at hle ⊢
    rw [hall]
    exact add_le_of_saturatingAdd_le (hexact _) hle

theorem Announcements.insert {db : Database} (h : Announcements db)
    (hins : db.insertEntry e = .ok db') : Announcements db' := by
  obtain ⟨hrows, -, -, -⟩ := Database.insertEntry_eq_ok hins
  intro r hr hp
  rw [hrows] at hr
  rcases mem_append.mp hr with hr | hr
  · exact h r hr hp
  · rw [mem_singleton.mp hr]
    rfl

end StoreBounds

/-! ### The other operations -/

section Operations

variable {Value : Type} {serde : Serde Value} {cfg : RelayConfig} {choice : HolderChoice}

/-- What every operation keeps. -/
structure StorageInv (cfg : RelayConfig) (db : Database) : Prop where
  bounds : Bounds cfg db
  announcements : Announcements db

theorem StorageInv.initial (cfg : RelayConfig) :
    StorageInv cfg RelayState.initial.database where
  bounds := Bounds.empty cfg
  announcements := fun _ hr => absurd hr (by simp [RelayState.initial, Database.empty])

theorem StorageInv.evicts {Q : QueueEntry → Prop} {db : Database} (h : StorageInv cfg db)
    (he : Evicts Q db db') : StorageInv cfg db' where
  bounds := h.bounds.evicts he
  announcements := h.announcements.evicts he

theorem StorageInv.clear {db : Database} (h : StorageInv cfg db) (p : QueueEntry → Bool) :
    StorageInv cfg (db.setLease p none none) where
  bounds := h.bounds.setLease p none none
  announcements := h.announcements.clear p none

theorem StorageInv.enqueue {e : NewEntry} {db : Database} (h : StorageInv cfg db)
    (hs : enqueue cfg choice e db = .ok db') : StorageInv cfg db' := by
  obtain ⟨room, hev, rfl | ⟨hroom, hins⟩⟩ := enqueue_eq_ok hs
  · exact h.evicts hev
  · have hinv := h.evicts hev
    exact ⟨hinv.bounds.insert hroom hins, hinv.announcements.insert hins⟩

/-- The loop of a fetch keeps the invariant; the rows it walks over keep their kind, so that the
row a lease goes to is no announcement. -/
theorem StorageInv.takeRows {now : ℕ} {lease : Option Lease} {rows : List QueueEntry}
    {db : Database} (h : StorageInv cfg db)
    (hkind : ∀ r ∈ rows, ∀ r' ∈ db.queueEntries, r'.id = r.id → r'.isPairing = r.isPairing)
    (ht : takeRows serde now lease rows db = .ok db') : StorageInv cfg db' := by
  induction rows generalizing db with
  | nil =>
    obtain rfl := Outcome.ok.inj ht
    exact h
  | cons r rows ih =>
  obtain ⟨db₁, hrow, hrest⟩ := Outcome.bind_eq_ok.mp ht
  have hkind' := fun r' hr' => hkind r' (mem_cons_of_mem r hr')
  rcases takeRow_eq_ok hrow with ⟨rfl, -, -⟩ | ⟨rfl, -⟩ | ⟨l, -, hord, -, rfl⟩
  · exact ih h hkind' hrest
  · refine ih (h.evicts (Evicts.deleteWhere db _)) ?_ hrest
    intro r₁ hr₁ r₂ hr₂
    exact hkind' r₁ hr₁ r₂ (Database.mem_deleteWhere.mp hr₂).1
  refine ih ⟨h.bounds.setLease _ _ _, h.announcements.setLease _ _ _ ?_⟩ ?_ hrest
  · intro r' hr' hid
    rw [hkind r mem_cons_self r' hr' (eq_of_beq hid), hord]
  · intro r₁ hr₁ r₂ hr₂ hid
    rcases (mem_setLease _ _ _).mp hr₂ with ⟨hr₂, -⟩ | ⟨r₃, hr₃, -, rfl⟩
    · exact hkind' r₁ hr₁ r₂ hr₂ hid
    · exact hkind' r₁ hr₁ r₃ hr₃ hid

theorem StorageInv.takeQueue {db : Database} {now limit : ℕ} {recipient : String}
    {lease : Option Lease} {t : Taken} (h : StorageInv cfg db)
    (ht : takeQueue serde cfg db now recipient limit lease = .ok (db', t)) :
    StorageInv cfg db' := by
  obtain ⟨hrows, -⟩ := takeQueue_eq_ok ht
  have hsweep : StorageInv cfg (db.sweep (now - cfg.ttlMillis) now) :=
    (h.evicts (Evicts.deleteWhere db _)).clear _
  refine hsweep.takeRows ?_ hrows
  intro r hr r' hr' hid
  have hmem := (mem_filter.mp (mem_of_mem_take hr)).1
  rw [Database.eq_of_id_eq _ hr' hmem hid]

theorem takeRows_ne_diverges {now : ℕ} {lease : Option Lease} (rows : List QueueEntry)
    (db : Database) : takeRows serde now lease rows db ≠ .diverges := by
  induction rows generalizing db with
  | nil => simp [takeRows]
  | cons r rows ih =>
  refine Outcome.bind_ne_diverges ?_ fun db₁ _ => ih db₁
  unfold takeRow
  split
  · simp
  split
  · simp
  · split
    · exact Outcome.bind_ne_diverges (sqlInteger_ne_diverges _ _) fun _ _ => by simp
    · simp

theorem takeQueue_ne_diverges (db : Database) (now limit : ℕ) (recipient : String)
    (lease : Option Lease) :
    takeQueue serde cfg db now recipient limit lease ≠ .diverges := by
  refine Outcome.bind_ne_diverges (sqlInteger_ne_diverges _ _) fun _ _ => ?_
  refine Outcome.bind_ne_diverges (sqlInteger_ne_diverges _ _) fun _ _ => ?_
  refine Outcome.bind_ne_diverges (sqlInteger_ne_diverges _ _) fun _ _ => ?_
  exact Outcome.bind_ne_diverges (takeRows_ne_diverges _ _) fun _ _ => by simp

theorem stats_evicts (cfg : RelayConfig) (db : Database) (now : ℕ) :
    Evicts (fun r => r.queuedAtMillis < now - cfg.ttlMillis) db (stats cfg db now).1 := by
  unfold stats
  split
  · exact (Evicts.deleteWhere db _).mono fun _ _ hr => of_decide_eq_true hr
  · exact Evicts.refl _ db

theorem StorageInv.committed {op : Op Value} {answer : Reply} {db : Database}
    (h : StorageInv cfg db) (hc : Committed serde cfg choice db op answer db') :
    StorageInv cfg db' := by
  cases hc with
  | refused error hop => exact h
  | stored hnow henq => exact h.enqueue henq
  | fetched ht => exact h.takeQueue ht
  | leased ht => exact h.takeQueue ht
  | acknowledged recipient leaseId => exact h.evicts (Evicts.deleteWhere db _)
  | stats now => exact h.evicts (stats_evicts cfg db now)
  | restarted => exact h.clear _

theorem exec_answers {state : RelayState} (h : StorageInv cfg state.database) (op : Op Value) :
    ∃ state', (state.exec serde cfg choice op).1 = some state' := by
  have hcommit : ∀ {α : Type} (result : Outcome String (Database × α)) (reply : α → Reply),
      result ≠ .diverges → ∃ state', (state.commit result reply).1 = some state' := by
    intro α result reply hne
    cases result with
    | ok p => exact ⟨_, rfl⟩
    | error error => exact ⟨_, rfl⟩
    | diverges => exact absurd rfl hne
  cases op with
  | store clock source recipient envelope =>
    unfold RelayState.exec
    dsimp only
    cases hstore : storeFrom serde cfg choice state clock source recipient envelope with
    | mk s result =>
    rcases storeFrom_committed hstore with
      ⟨error, rfl, -⟩ | ⟨e, -, ⟨rfl, -⟩ | ⟨-, hdiv⟩⟩
    · exact ⟨s, rfl⟩
    · exact ⟨s, rfl⟩
    · exact absurd hdiv (enqueue_ne_diverges h.announcements)
  | fetch now recipient limit =>
    refine hcommit _ _ ?_
    unfold Relay.fetch
    split
    · simp
    · exact takeQueue_ne_diverges _ _ _ _ _
  | fetchLeased now recipient limit leaseMs leaseId =>
    refine hcommit _ _ ?_
    unfold Relay.fetchLeased
    split
    · simp
    · exact takeQueue_ne_diverges _ _ _ _ _
  | acknowledge recipient leaseId =>
    refine hcommit _ _ (Outcome.bind_ne_diverges ?_ fun _ _ => by simp)
    unfold acknowledgeLease
    split
    · simp
    · split <;> simp
  | stats now => exact ⟨_, rfl⟩
  | restart => exact ⟨_, rfl⟩

end Operations

/-! ### Every run -/

section Runs

variable {Value : Type} {serde : Serde Value} {cfg : RelayConfig} {choice : HolderChoice}

/-- What holds of the machine's state: it answers, and its table keeps the invariant. -/
def Running (cfg : RelayConfig) (state : Option RelayState) : Prop :=
  ∃ st, state = some st ∧ StorageInv cfg st.database

theorem Running.initial (cfg : RelayConfig) : Running cfg (some RelayState.initial) :=
  ⟨_, rfl, StorageInv.initial cfg⟩

section

variable {state : Option RelayState} (h : Running cfg state)

include h

theorem Running.step (op : Op Value) : Running cfg ((relay serde cfg choice).step state op).1 := by
  obtain ⟨st, rfl, hinv⟩ := h
  obtain ⟨st', hst'⟩ : ∃ st', (st.exec serde cfg choice op).1 = some st' := exec_answers hinv op
  have hc := exec_committed (Prod.ext hst' rfl :
    st.exec serde cfg choice op = (some st', (st.exec serde cfg choice op).2))
  exact ⟨st', hst', hinv.committed hc⟩

theorem Running.run (ops : List (Op Value)) :
    Running cfg ((relay serde cfg choice).run state ops) :=
  Machine.run_induction (fun _ op _ hs => hs.step op) h

end

end Runs

/-- **Relay storage bounds.** From an empty database, whatever operations run, in whatever order
and under whatever clock readings, the relay still answers and its table keeps every bound. -/
theorem relay_storage_bounds {Value : Type} (serde : Serde Value) (cfg : RelayConfig)
    (choice : HolderChoice) (ops : List (Op Value)) :
    ∃ st, (relay serde cfg choice).run (some RelayState.initial) ops = some st ∧
      Bounds cfg st.database := by
  have hrunning : Running cfg ((relay serde cfg choice).run (some RelayState.initial) ops) :=
    (Running.initial cfg).run ops
  obtain ⟨st, hrun, hinv⟩ := hrunning
  exact ⟨st, hrun, hinv.bounds⟩

end Relay
end Conest
