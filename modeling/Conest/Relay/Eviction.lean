import Conest.Relay.Transaction

/-!
# Whom a full mailbox evicts

The mailbox loop of a store deletes the row that a `COALESCE` of two subqueries names: the oldest
unleased row whose kind differs from a pairing announcement, else the oldest unleased row. The
comparison `kind != 'pairing_announcement'` is `NULL` on a row without a kind, so such a row is
passed over by the first subquery, although it is an ordinary envelope everywhere else in the
relay (`take_queue` leases it and consumes it like any other).

`EvictedInOrder` is the order an eviction should keep. `evicted_in_order_iff` says when it does:
exactly when no row without a kind is passed over, `KindlessInTurn`. The proof turns on
`selectFirst_least`: the table is in id order, so the first row that meets a condition is the
oldest one, and the oldest ordinary row is the pivot of each of the four cases.
-/

open Lib List Option

namespace Conest
namespace Relay

/-! ### The oldest row -/

variable {r : QueueEntry}

theorem Database.selectFirst_least {db : Database} {p : QueueEntry → Bool} {id : ℕ}
    (h : db.selectFirst p = some id) (hr : r ∈ db.queueEntries) (hp : p r = true) : id ≤ r.id := by
  obtain ⟨first, hfirst, rfl⟩ := map_eq_some_iff.mp h
  obtain ⟨-, pre, post, heq, hpre⟩ := find?_eq_some_iff_append.mp hfirst
  rw [heq] at hr
  have hsorted := db.ids_sorted
  rw [heq, pairwise_append] at hsorted
  rcases mem_append.mp hr with hr | hr
  · -- a row before the first one does not meet the condition
    have hnot := hpre r hr
    rw [hp] at hnot
    simp at hnot
  · rcases mem_cons.mp hr with rfl | hr
    · exact le_rfl
    · exact (pairwise_cons.mp hsorted.2.1).1 r hr |>.le

section Order

variable (e : NewEntry) (db : Database)

/-- An unleased row of the mailbox stored into. -/
def NewEntry.Free (r : QueueEntry) : Prop :=
  r ∈ db.queueEntries ∧ r.mailbox = e.mailbox ∧ r.leaseId = none

/-- **The order of evictions**, for a row `r` that the mailbox loop deletes from the table `db`. -/
structure EvictedInOrder (r : QueueEntry) : Prop where
  unleased : r.leaseId = none
  /-- An announcement goes only when no ordinary row is left to go. -/
  announcement : r.isPairing = true → ∀ r', e.Free db r' → r'.isPairing = true
  /-- Of the ordinary rows the oldest goes, whatever its kind. -/
  oldest : r.isPairing = false → ∀ r', e.Free db r' → r'.isPairing = false → r.id ≤ r'.id

/-- No row without a kind is passed over: where the oldest ordinary row of the mailbox has no
kind, it is the oldest row of all, and no other row has an ordinary kind of its own. -/
def KindlessInTurn : Prop :=
  ∀ r, e.Free db r → r.kind = none →
    (∀ r', e.Free db r' → r'.isPairing = false → r.id ≤ r'.id) →
      ∀ r', e.Free db r' → r.id ≤ r'.id ∧ r'.kindDiffersFromPairing = false

end Order

section Victim

variable {e : NewEntry} {db : Database}

theorem QueueEntry.isPairing_of_kind_none (h : r.kind = none) : r.isPairing = false := by
  simp [QueueEntry.isPairing, h]

theorem QueueEntry.kind_none_or_differs (h : r.isPairing = false) :
    r.kind = none ∨ r.kindDiffersFromPairing = true := by
  unfold QueueEntry.isPairing at h
  unfold QueueEntry.kindDiffersFromPairing
  cases hk : r.kind with
  | none => exact .inl rfl
  | some k =>
    rw [hk] at h
    simpa using h

theorem QueueEntry.isPairing_of_differs (h : r.kindDiffersFromPairing = true) :
    r.isPairing = false := by
  unfold QueueEntry.kindDiffersFromPairing at h
  unfold QueueEntry.isPairing
  cases hk : r.kind with
  | none => rfl
  | some k =>
    rw [hk] at h
    simpa using h

theorem QueueEntry.not_differs_of_kind_none (h : r.kind = none) :
    r.kindDiffersFromPairing = false := by
  simp [QueueEntry.kindDiffersFromPairing, h]

theorem free_iff : e.Free db r ↔ r ∈ db.queueEntries ∧ (e.inMailbox r && r.unleased) = true := by
  simp [NewEntry.Free, NewEntry.inMailbox, QueueEntry.unleased]

theorem exists_oldest_ordinary (hr : e.Free db r) (hord : r.isPairing = false) :
    ∃ r₀, e.Free db r₀ ∧ r₀.isPairing = false ∧
      ∀ r', e.Free db r' → r'.isPairing = false → r₀.id ≤ r'.id := by
  have hiff : ∀ q : QueueEntry,
      q ∈ db.queueEntries ∧ (e.inMailbox q && q.unleased && !q.isPairing) = true ↔
        e.Free db q ∧ q.isPairing = false := by
    intro q
    rw [free_iff, Bool.and_eq_true, Bool.not_eq_true', and_assoc]
  have hsel : db.selectFirst (fun q => e.inMailbox q && q.unleased && !q.isPairing) ≠ none := by
    intro hnone
    have hin := (hiff r).mpr ⟨hr, hord⟩
    exact Database.selectFirst_eq_none.mp hnone r hin.1 hin.2
  obtain ⟨id, hid⟩ := ne_none_iff_exists'.mp hsel
  obtain ⟨r₀, hr₀, hid₀, hp₀⟩ := Database.selectFirst_eq_some hid
  obtain ⟨hfree, hord₀⟩ := (hiff r₀).mp ⟨hr₀, hp₀⟩
  refine ⟨r₀, hfree, hord₀, ?_⟩
  intro r' hr' hord'
  have hin := (hiff r').mpr ⟨hr', hord'⟩
  rw [hid₀]
  exact Database.selectFirst_least hid hin.1 hin.2

/-- **The victim of the quota**: the oldest row with an ordinary kind of its own; where there is
none, the oldest row. -/
theorem quotaVictim_cases (hr : r ∈ db.queueEntries) (hvictim : e.quotaVictim db = some r.id) :
    e.Free db r ∧
      (r.kindDiffersFromPairing = true ∧
          (∀ r', e.Free db r' → r'.kindDiffersFromPairing = true → r.id ≤ r'.id) ∨
        (∀ r', e.Free db r' → r'.kindDiffersFromPairing = false) ∧
          ∀ r', e.Free db r' → r.id ≤ r'.id) := by
  rcases or_eq_some_iff.mp hvictim with hsel | ⟨hnone, hsel⟩
  · obtain ⟨r', hr', hid, hp⟩ := Database.selectFirst_eq_some hsel
    rw [db.eq_of_id_eq hr' hr hid] at hp
    obtain ⟨hp, hdiffers⟩ := Bool.and_eq_true_iff.mp hp
    refine ⟨free_iff.mpr ⟨hr, hp⟩, .inl ⟨hdiffers, ?_⟩⟩
    intro q hq hqd
    obtain ⟨hq, hqp⟩ := free_iff.mp hq
    exact Database.selectFirst_least hsel hq (Bool.and_eq_true_iff.mpr ⟨hqp, hqd⟩)
  obtain ⟨r', hr', hid, hp⟩ := Database.selectFirst_eq_some hsel
  rw [db.eq_of_id_eq hr' hr hid] at hp
  refine ⟨free_iff.mpr ⟨hr, hp⟩, .inr ⟨?_, ?_⟩⟩
  · intro q hq
    obtain ⟨hq, hqp⟩ := free_iff.mp hq
    have hno := Database.selectFirst_eq_none.mp hnone q hq
    rw [hqp] at hno
    simpa using hno
  · intro q hq
    obtain ⟨hq, hqp⟩ := free_iff.mp hq
    exact Database.selectFirst_least hsel hq hqp

theorem quotaVictim_in_order_iff (hr : r ∈ db.queueEntries)
    (hvictim : e.quotaVictim db = some r.id) : EvictedInOrder e db r ↔ KindlessInTurn e db := by
  obtain ⟨hfree, ⟨hdiffers, hleast⟩ | ⟨hnone, hleast⟩⟩ := quotaVictim_cases hr hvictim
  · have hord := QueueEntry.isPairing_of_differs hdiffers
    constructor
    · -- the victim is the oldest ordinary row and has a kind, so that row has one
      intro h r₀ hr₀ hk hold
      have hle := h.oldest hord r₀ hr₀ (QueueEntry.isPairing_of_kind_none hk)
      have hge := hold r hfree hord
      rw [db.eq_of_id_eq hr₀.1 hr (le_antisymm hge hle)] at hk
      rw [QueueEntry.not_differs_of_kind_none hk] at hdiffers
      simp at hdiffers
    intro h
    refine ⟨hfree.2.2, fun hp => absurd hp (by simp [hord]), fun _ r' hr' hord' => ?_⟩
    obtain ⟨r₀, hr₀, hord₀, hold⟩ := exists_oldest_ordinary hr' hord'
    rcases QueueEntry.kind_none_or_differs hord₀ with hk | hd
    · -- a kindless row in turn leaves no row with a kind beside it, and here is one
      have hnot := (h r₀ hr₀ hk hold r hfree).2
      rw [hdiffers] at hnot
      simp at hnot
    · exact (hleast r₀ hr₀ hd).trans (hold r' hr' hord')
  · constructor
    · intro h r₀ hr₀ hk hold r' hr'
      refine ⟨?_, hnone r' hr'⟩
      have hord₀ := QueueEntry.isPairing_of_kind_none hk
      cases hp : r.isPairing with
      | true =>
        -- an announcement went, so no ordinary row was there: but `r₀` is
        rw [h.announcement hp r₀ hr₀] at hord₀
        simp at hord₀
      | false => exact (hold r hfree hp).trans (hleast r' hr')
    · intro h
      refine ⟨hfree.2.2, fun hp r' hr' => ?_, fun _ r' hr' _ => hleast r' hr'⟩
      by_contra hord'
      obtain ⟨r₀, hr₀, hord₀, hold⟩ :=
        exists_oldest_ordinary hr' (Bool.eq_false_of_not_eq_true hord')
      rcases QueueEntry.kind_none_or_differs hord₀ with hk | hd
      · have hle := (h r₀ hr₀ hk hold r hfree).1
        rw [db.eq_of_id_eq hr₀.1 hr (le_antisymm hle (hleast r₀ hr₀)), hp] at hord₀
        simp at hord₀
      · rw [hnone r₀ hr₀] at hd
        simp at hd

end Victim

/-! ### The iterations of the loop -/

section Iterations

variable {cfg : RelayConfig} {choice : HolderChoice} {e : NewEntry}

theorem Step.quota_evicts {a a' : Attempt} (h : Step cfg choice e a a')
    (ha : a.stage = .mailboxQuota) (ha' : a'.stage = .mailboxQuota) :
    a'.working = (a.working.deleteById (e.quotaVictim a.working)).1 ∧
      ¬ (a.working.deleteById (e.quotaVictim a.working)).2 = 0 := by
  cases h with
  | fault hrun error => cases ha'
  | statement h => cases h with
    | quotaEvict hfull hrem => exact ⟨rfl, hrem⟩
    | quotaMet _ => cases ha'
    | refuse _ => cases ha'
    | _ => cases ha

theorem Database.id_of_deleted {db : Database} {id : Option ℕ} (hr : r ∈ db.queueEntries)
    (hgone : r ∉ (db.deleteById id).1.queueEntries) : id = some r.id := by
  by_contra hne
  exact hgone (Database.mem_deleteWhere.mpr ⟨hr, beq_eq_false_iff_ne.mpr hne⟩)

end Iterations

/-- Every row that the mailbox loop of this store evicts goes in order. -/
def StoreEvictsInOrder {Value : Type} (serde : Serde Value) (cfg : RelayConfig)
    (choice : HolderChoice) (st : RelayState) (clock : StoreClock) (source recipient : String)
    (envelope : Value) : Prop :=
  ∀ windows e,
    prepare serde cfg st.mailboxBytes clock source recipient envelope = (windows, .ok e) →
      ∀ a a', Relation.ReflTransGen (Step cfg choice e) (Attempt.begin st.database) a →
        Step cfg choice e a a' → a.stage = .mailboxQuota → a'.stage = .mailboxQuota →
          ∀ r ∈ a.working.queueEntries, r ∉ a'.working.queueEntries →
            EvictedInOrder e a.working r

/-- **Evictions from a full mailbox.** In every state a relay can be in and for every store, each
eviction of the mailbox loop keeps the order exactly when no row without a kind is passed over. -/
theorem evicted_in_order_iff {Value : Type} (serde : Serde Value) (cfg : RelayConfig)
    (choice : HolderChoice) (ops : List (Op Value)) (clock : StoreClock)
    (source recipient : String) (envelope : Value) :
    ∃ st, (relay serde cfg choice).run (some RelayState.initial) ops = some st ∧
      ∀ windows e,
        prepare serde cfg st.mailboxBytes clock source recipient envelope = (windows, .ok e) →
          ∀ a a', Relation.ReflTransGen (Step cfg choice e) (Attempt.begin st.database) a →
            Step cfg choice e a a' → a.stage = .mailboxQuota → a'.stage = .mailboxQuota →
              ((∀ r ∈ a.working.queueEntries, r ∉ a'.working.queueEntries →
                  EvictedInOrder e a.working r) ↔
                KindlessInTurn e a.working) := by
  obtain ⟨st, hrun, -⟩ :
      Running cfg ((relay serde cfg choice).run (some RelayState.initial) ops) :=
    (Running.initial cfg).run ops
  refine ⟨st, hrun, ?_⟩
  intro windows e _ a a' _ hstep ha ha'
  obtain ⟨hdel, hrem⟩ := hstep.quota_evicts ha ha'
  obtain ⟨id, hid⟩ : ∃ id, e.quotaVictim a.working = some id := by
    refine ne_none_iff_exists'.mp fun hnone => hrem ?_
    rw [hnone]
    simp [Database.deleteById]
  obtain ⟨victim, hvictim, rfl, -⟩ := quotaVictim_eq_some hid
  constructor
  · intro h
    refine (quotaVictim_in_order_iff hvictim hid).mp (h victim hvictim ?_)
    rw [hdel, hid]
    simp [Database.deleteById]
  · intro h r hr hgone
    rw [hdel] at hgone
    exact (quotaVictim_in_order_iff hr (Database.id_of_deleted hr hgone)).mpr h

/-! ### A message without a kind passed over -/

namespace Sample

/-- The envelopes of the sample runs, an object without members and an announcement, and the
string that names the kind of the latter. -/
inductive Json where
  | empty
  | announcement
  | kind
deriving DecidableEq, Repr

namespace Json

def text : Json → String
  | .empty => "\x7b\x7d"
  | .announcement => "\x7b\"kind\":\"pairing_announcement\"\x7d"
  | .kind => "\"pairing_announcement\""

end Json

def json : Serde Json where
  toVec value := .ok value.text
  fromStr text := [Json.empty, Json.announcement, Json.kind].find? fun value => value.text == text
  get
    | .announcement, key => if key = "kind" then some .kind else none
    | _, _ => none
  asStr
    | .kind => some pairingAnnouncement
    | _ => none

theorem two_pos : 0 < 2 := Nat.succ_pos 1

def twoPerMailbox : RelayConfig :=
  { RelayConfig.defaults with maxQueuePerMailbox := 2, maxQueuePerMailbox_pos := two_pos }

def clock : StoreClock where
  quota := 1000
  now := 1000

def fullRun : List (Op Json) :=
  [.store clock "" "box" .announcement, .store clock "" "box" .empty]

def announcementRow : QueueEntry where
  id := 1
  mailbox := "box"
  queuedAtMillis := 1000
  envelopeJson := Json.announcement.text
  envelopeBytes := 31
  kind := some pairingAnnouncement
  senderDeviceId := none
  dedupKey := none
  leaseId := none
  leaseUntilMillis := none
  source := none

def kindlessRow (id : ℕ) : QueueEntry where
  id := id
  mailbox := "box"
  queuedAtMillis := 1000
  envelopeJson := Json.empty.text
  envelopeBytes := 2
  kind := none
  senderDeviceId := none
  dedupKey := none
  leaseId := none
  leaseUntilMillis := none
  source := none

def kindlessEntry : NewEntry where
  mailbox := "box"
  queuedAtMillis := 1000
  envelopeJson := Json.empty.text
  kind := none
  senderDeviceId := none
  dedupKey := none
  source := none

theorem run_fullRun :
    ∃ st, (relay json twoPerMailbox HolderChoice.first).run (some RelayState.initial) fullRun =
        some st ∧
      st.database.queueEntries = [announcementRow, kindlessRow 2] ∧
      ∃ windows, prepare json twoPerMailbox st.mailboxBytes clock "" "box" .empty =
        (windows, .ok kindlessEntry) :=
  ⟨_, rfl, rfl, _, rfl⟩

/-- The mailbox loop of the third store deletes the announcement: the message beside it has no
kind, and so the first subquery does not see it. -/
theorem announcement_evicted_before_kindless :
    ∃ st, (relay json twoPerMailbox HolderChoice.first).run (some RelayState.initial) fullRun =
        some st ∧
      ¬ StoreEvictsInOrder json twoPerMailbox HolderChoice.first st clock "" "box" .empty := by
  obtain ⟨st, hrun, hrows, windows, hprep⟩ := run_fullRun
  refine ⟨st, hrun, fun h => ?_⟩
  have hcutoff : sqlInteger "cleaning relay queue"
      (kindlessEntry.queuedAtMillis - twoPerMailbox.ttlMillis) = .ok 0 :=
    if_pos (Nat.zero_le i64Max)
  have hswept : (st.database.deleteExpired 0).queueEntries = [announcementRow, kindlessRow 2] := by
    simp [Database.deleteExpired, Database.deleteWhere, hrows]
  have hvictim : kindlessEntry.quotaVictim (st.database.deleteExpired 0) = some 1 := by
    unfold NewEntry.quotaVictim Database.selectFirst
    rw [hswept]
    rfl
  have hfull : ¬ MailboxHasRoom twoPerMailbox kindlessEntry (st.database.deleteExpired 0) := by
    unfold MailboxHasRoom Database.countWhere
    rw [hswept]
    exact fun hroom => absurd hroom.1 (by decide)
  have hin : announcementRow ∈ (st.database.deleteExpired 0).queueEntries := by
    rw [hswept]
    exact mem_cons_self
  -- the transaction reaches the loop and evicts
  have hsteps : Relation.ReflTransGen (Step twoPerMailbox HolderChoice.first kindlessEntry)
      (Attempt.begin st.database)
      ⟨.mailboxQuota, st.database.deleteExpired 0, st.database⟩ :=
    (Relation.ReflTransGen.single (.statement (.clean hcutoff))).tail
      (.statement (.ordinary rfl (by simp [kindlessEntry])))
  have hrem : ¬ ((st.database.deleteExpired 0).deleteById
      (kindlessEntry.quotaVictim (st.database.deleteExpired 0))).2 = 0 := by
    rw [hvictim]
    exact Nat.ne_of_gt (Database.deleteById_removed_pos hin rfl)
  have hstep : Step twoPerMailbox HolderChoice.first kindlessEntry
      ⟨.mailboxQuota, st.database.deleteExpired 0, st.database⟩ _ :=
    Step.statement (Statement.quotaEvict hfull hrem)
  have horder := h windows kindlessEntry hprep _ _ hsteps hstep rfl rfl announcementRow hin (by
    rw [hvictim]
    simp [Database.deleteById, announcementRow])
  refine absurd (horder.announcement rfl (kindlessRow 2) ⟨?_, rfl, rfl⟩) (by decide)
  show kindlessRow 2 ∈ (st.database.deleteExpired 0).queueEntries
  rw [hswept]
  exact mem_cons_of_mem _ mem_cons_self

end Sample

end Relay
end Conest
