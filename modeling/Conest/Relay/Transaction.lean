import Conest.Lib.Steps
import Conest.Relay.Bounds

/-!
# The transaction of a store, statement by statement

`enqueue` says what the transaction of `store_from` comes to. Here the transaction is taken apart:
an `Attempt` is a call between two of its statements, with the table as the transaction has it
(`working`) and the table that is committed (`committed`), and `Statement` is one statement, check
or loop iteration. Two statements commit, the early exit on a duplicate and the one after the
insert; every refusal drops the transaction, and so rolls `working` back to `committed`.

`Step` adds the failures that no check of the relay foresees: any statement may come back with an
error of the storage (`map_err` on every one of them), and the transaction is dropped there too.

`enqueue_reaches` connects the two: the run of statements ends in what `enqueue` gives. Over it
stand the two results of this module. `refused_store_changes_nothing` reads off the steps that
nothing but the two commits writes `committed`. `store_terminates` is about the three eviction
loops: each iteration leaves its loop or deletes a row, the announcement loop only because no
announcement is ever leased.
-/

open Lib

namespace Conest
namespace Relay

/-! ### The statements -/

variable {db db' : Database}

/-- Where a store stands in its transaction. -/
inductive Stage where
  | cleaning
  | deduplicating
  | pairingCap
  | mailboxQuota
  | share
  | totalBytes (largest : Option (Option String))
  | inserting
  | answered (result : Except String Unit)

/-- The three eviction loops. -/
inductive EvictionLoop where
  | pairingCap
  | mailboxQuota
  | totalBytes
deriving DecidableEq, Repr

/-- The loop whose next iteration is about to begin. -/
def Stage.loop : Stage → Option EvictionLoop
  | .pairingCap => some .pairingCap
  | .mailboxQuota => some .mailboxQuota
  | .totalBytes _ => some .totalBytes
  | _ => none

/-- Whether the call has returned. -/
def Stage.isAnswered : Stage → Bool
  | .answered _ => true
  | _ => false

/-- A store inside its transaction. -/
structure Attempt where
  stage : Stage
  working : Database
  committed : Database

/-- `database.transaction()`. -/
def Attempt.begin (db : Database) : Attempt where
  stage := .cleaning
  working := db
  committed := db

/-- `transaction.commit()`, and the answer of the call. -/
def Attempt.commit (working : Database) : Attempt where
  stage := .answered (.ok ())
  working := working
  committed := working

/-- The transaction dropped without a commit, and the error the call answers. -/
def Attempt.rollback (committed : Database) (error : String) : Attempt where
  stage := .answered (.error error)
  working := committed
  committed := committed

section Statements

variable (cfg : RelayConfig) (choice : HolderChoice) (e : NewEntry)

/-- What ends the mailbox loop: room for one more row and for the bytes of this one. -/
def MailboxHasRoom (db : Database) : Prop :=
  db.countWhere e.inMailbox < cfg.maxQueuePerMailbox ∧
    saturatingAdd (db.bytesWhere e.inMailbox) e.encodedLen ≤ cfg.maxMailboxBytes

/-- What ends the loop over the whole relay. -/
def TotalHasRoom (db : Database) : Prop :=
  saturatingAdd db.total e.encodedLen ≤ cfg.maxTotalBytes

/-- The refusals of the transaction, by where they are raised. -/
inductive Refuses : Stage → Database → String → Prop
  | cutoff {db : Database} {error : String}
      (h : sqlInteger "cleaning relay queue" (e.queuedAtMillis - cfg.ttlMillis) = .error error) :
      Refuses .cleaning db error
  | mailbox {db : Database} (hfull : ¬ MailboxHasRoom cfg e db)
      (h : (db.deleteById (e.quotaVictim db)).2 = 0) :
      Refuses .mailboxQuota db "envelope exceeds mailbox byte quota"
  | share {db : Database} {error : String} (h : checkShare cfg e db = .error error) :
      Refuses .share db error
  | holder {db : Database} {largest : Option (Option String)} {error : String}
      (hfull : ¬ TotalHasRoom cfg e db) (h : currentHolder choice db largest = .error error) :
      Refuses (.totalBytes largest) db error
  | again {db : Database} {largest : Option (Option String)} {holder : Option String}
      {error : String} (hfull : ¬ TotalHasRoom cfg e db)
      (hholder : currentHolder choice db largest = .ok holder)
      (hnone : (db.deleteById (db.oldestOf holder)).2 = 0)
      (h : largestHolder choice db = .error error) : Refuses (.totalBytes largest) db error
  | total {db : Database} {largest : Option (Option String)} {holder again : Option String}
      (hfull : ¬ TotalHasRoom cfg e db) (hholder : currentHolder choice db largest = .ok holder)
      (hnone : (db.deleteById (db.oldestOf holder)).2 = 0)
      (hagain : largestHolder choice db = .ok again)
      (h : (db.deleteById (db.oldestOf again)).2 = 0) :
      Refuses (.totalBytes largest) db "relay storage is full"
  | clock {db : Database} {error : String}
      (h : sqlInteger "persisting relay envelope" e.queuedAtMillis = .error error) :
      Refuses .inserting db error
  | insert {db : Database} {error : String} (h : db.insertEntry e = .error error) :
      Refuses .inserting db error

/-- One statement, check or loop iteration of the transaction. -/
inductive Statement : Attempt → Attempt → Prop
  | clean {db c : Database} {cutoff : ℕ}
      (h : sqlInteger "cleaning relay queue" (e.queuedAtMillis - cfg.ttlMillis) = .ok cutoff) :
      Statement ⟨.cleaning, db, c⟩ ⟨.deduplicating, db.deleteExpired cutoff, c⟩
  | duplicate {db c : Database} (h : e.alreadyPresent db = true) :
      Statement ⟨.deduplicating, db, c⟩ (Attempt.commit db)
  | announcement {db c : Database} (h : e.alreadyPresent db = false)
      (hk : e.kind = some pairingAnnouncement) :
      Statement ⟨.deduplicating, db, c⟩ ⟨.pairingCap, dedupPairing e db, c⟩
  | ordinary {db c : Database} (h : e.alreadyPresent db = false)
      (hk : e.kind ≠ some pairingAnnouncement) :
      Statement ⟨.deduplicating, db, c⟩ ⟨.mailboxQuota, db, c⟩
  | capMet {db c : Database} (h : db.countWhere e.pairingInMailbox < maxPairingPerMailbox) :
      Statement ⟨.pairingCap, db, c⟩ ⟨.mailboxQuota, db, c⟩
  | capEvict {db c : Database} (h : ¬ db.countWhere e.pairingInMailbox < maxPairingPerMailbox) :
      Statement ⟨.pairingCap, db, c⟩
        ⟨.pairingCap,
          (db.deleteById (db.selectFirst fun r => e.pairingInMailbox r && r.unleased)).1, c⟩
  | quotaMet {db c : Database} (h : MailboxHasRoom cfg e db) :
      Statement ⟨.mailboxQuota, db, c⟩ ⟨.share, db, c⟩
  | quotaEvict {db c : Database} (hfull : ¬ MailboxHasRoom cfg e db)
      (h : ¬ (db.deleteById (e.quotaVictim db)).2 = 0) :
      Statement ⟨.mailboxQuota, db, c⟩ ⟨.mailboxQuota, (db.deleteById (e.quotaVictim db)).1, c⟩
  | shareHeld {db c : Database} (h : checkShare cfg e db = .ok ()) :
      Statement ⟨.share, db, c⟩ ⟨.totalBytes none, db, c⟩
  | totalMet {db c : Database} {largest : Option (Option String)} (h : TotalHasRoom cfg e db) :
      Statement ⟨.totalBytes largest, db, c⟩ ⟨.inserting, db, c⟩
  | totalEvict {db c : Database} {largest : Option (Option String)} {holder : Option String}
      (hfull : ¬ TotalHasRoom cfg e db) (hholder : currentHolder choice db largest = .ok holder)
      (h : ¬ (db.deleteById (db.oldestOf holder)).2 = 0) :
      Statement ⟨.totalBytes largest, db, c⟩
        ⟨.totalBytes (some holder), (db.deleteById (db.oldestOf holder)).1, c⟩
  | totalAgain {db c : Database} {largest : Option (Option String)} {holder again : Option String}
      (hfull : ¬ TotalHasRoom cfg e db) (hholder : currentHolder choice db largest = .ok holder)
      (hnone : (db.deleteById (db.oldestOf holder)).2 = 0)
      (hagain : largestHolder choice db = .ok again)
      (h : ¬ (db.deleteById (db.oldestOf again)).2 = 0) :
      Statement ⟨.totalBytes largest, db, c⟩
        ⟨.totalBytes none, (db.deleteById (db.oldestOf again)).1, c⟩
  | insert {db db' c : Database} {now : ℕ}
      (hnow : sqlInteger "persisting relay envelope" e.queuedAtMillis = .ok now)
      (h : db.insertEntry e = .ok db') :
      Statement ⟨.inserting, db, c⟩ (Attempt.commit db')
  | refuse {stage : Stage} {db c : Database} {error : String}
      (h : Refuses cfg choice e stage db error) :
      Statement ⟨stage, db, c⟩ (Attempt.rollback c error)

/-- A statement of the transaction, or a failure of the storage under it. -/
inductive Step : Attempt → Attempt → Prop
  | statement {a a' : Attempt} (h : Statement cfg choice e a a') : Step a a'
  | fault {a : Attempt} (h : a.stage.isAnswered = false) (error : String) :
      Step a (Attempt.rollback a.committed error)

end Statements

/-! ### The statements give what `enqueue` gives -/

section Connected

variable {cfg : RelayConfig} {choice : HolderChoice} {e : NewEntry}

open Relation

/-- The statements from `a` on give what `r` says: its value is taken to the attempt `next` of it,
its error to a rollback. -/
structure Reaches (cfg : RelayConfig) (choice : HolderChoice) (e : NewEntry) (c : Database)
    {α : Type} (a : Attempt) (r : Outcome String α) (next : α → Attempt) : Prop where
  ok : ∀ x, r = .ok x → ReflTransGen (Statement cfg choice e) a (next x)
  error : ∀ error, r = .error error →
    ReflTransGen (Statement cfg choice e) a (Attempt.rollback c error)

namespace Reaches

variable {c : Database} {α β : Type} {a a' : Attempt} {next : α → Attempt}

theorem pure (next : α → Attempt) (x : α) :
    Reaches cfg choice e c (next x) (.ok x) next where
  ok := by
    intro y hy
    rw [Outcome.ok.inj hy]
  error := fun _ h => absurd h (by simp)

theorem refuse {error : String} (h : Statement cfg choice e a (Attempt.rollback c error)) :
    Reaches cfg choice e c a (.error error) next where
  ok := fun _ h => absurd h (by simp)
  error := by
    intro error' herr
    rw [← Outcome.error.inj herr]
    exact ReflTransGen.single h

theorem diverges : Reaches cfg choice e c a .diverges next where
  ok := fun _ h => absurd h (by simp)
  error := fun _ h => absurd h (by simp)

theorem step {r : Outcome String α} (h : Statement cfg choice e a a')
    (hr : Reaches cfg choice e c a' r next) : Reaches cfg choice e c a r next where
  ok := fun x hx => ReflTransGen.head h (hr.ok x hx)
  error := fun error herr => ReflTransGen.head h (hr.error error herr)

theorem bind {r : Outcome String α} {f : α → Outcome String β} {next' : β → Attempt}
    (hr : Reaches cfg choice e c a r next)
    (hf : ∀ x, r = .ok x → Reaches cfg choice e c (next x) (f x) next') :
    Reaches cfg choice e c a (r >>= f) next' := by
  cases r with
  | ok x =>
    exact ⟨fun y hy => (hr.ok x rfl).trans ((hf x rfl).ok y hy),
      fun error herr => (hr.ok x rfl).trans ((hf x rfl).error error herr)⟩
  | error error =>
    refine ⟨fun _ h => absurd h (by simp), fun error' herr => hr.error error' ?_⟩
    rw [Outcome.error.inj herr]
  | diverges => exact diverges

end Reaches

section

variable {c : Database}

theorem pairingLoop_reaches (fuel : ℕ) (db : Database) :
    Reaches cfg choice e c ⟨.pairingCap, db, c⟩ (pairingLoop e fuel db)
      fun db' => ⟨.mailboxQuota, db', c⟩ := by
  induction fuel generalizing db with
  | zero => exact Reaches.diverges
  | succ fuel ih =>
  unfold pairingLoop
  split
  · next hlt =>
    apply Reaches.step (Statement.capMet hlt)
    exact Reaches.pure (fun db' => ⟨.mailboxQuota, db', c⟩) db
  next hfull => exact Reaches.step (Statement.capEvict hfull) (ih _)

theorem pairingRoom_reaches (h : e.alreadyPresent db = false) :
    Reaches cfg choice e c ⟨.deduplicating, db, c⟩ (pairingRoom e db)
      fun db' => ⟨.mailboxQuota, db', c⟩ := by
  unfold pairingRoom
  split
  next hk => exact Reaches.step (Statement.announcement h hk) (pairingLoop_reaches _ _)
  next hk =>
  apply Reaches.step (Statement.ordinary h hk)
  exact Reaches.pure (fun db' => ⟨.mailboxQuota, db', c⟩) db

theorem mailboxLoop_reaches (fuel : ℕ) (db : Database) :
    Reaches cfg choice e c ⟨.mailboxQuota, db, c⟩ (mailboxLoop cfg e fuel db)
      fun db' => ⟨.share, db', c⟩ := by
  induction fuel generalizing db with
  | zero => exact Reaches.diverges
  | succ fuel ih =>
  unfold mailboxLoop
  split
  · next hroom =>
    apply Reaches.step (Statement.quotaMet hroom)
    exact Reaches.pure (fun db' => ⟨.share, db', c⟩) db
  next hfull =>
  split
  next hnone => exact Reaches.refuse (Statement.refuse (Refuses.mailbox hfull hnone))
  next hrem => exact Reaches.step (Statement.quotaEvict hfull hrem) (ih _)

theorem checkShare_reaches : Reaches cfg choice e c ⟨.share, db, c⟩ (checkShare cfg e db)
      fun _ => ⟨.totalBytes none, db, c⟩ := by
  cases h : checkShare cfg e db with
  | ok u =>
    apply Reaches.step (Statement.shareHeld h)
    exact Reaches.pure (fun _ => ⟨.totalBytes none, db, c⟩) u
  | error error => exact Reaches.refuse (Statement.refuse (Refuses.share h))
  | diverges => exact Reaches.diverges

theorem totalLoop_reaches (fuel : ℕ) (db : Database) (largest : Option (Option String)) :
    Reaches cfg choice e c ⟨.totalBytes largest, db, c⟩ (totalLoop cfg choice e fuel db largest)
      fun db' => ⟨.inserting, db', c⟩ := by
  induction fuel generalizing db largest with
  | zero => exact Reaches.diverges
  | succ fuel ih =>
  unfold totalLoop
  split
  · next hroom =>
    apply Reaches.step (Statement.totalMet hroom)
    exact Reaches.pure (fun db' => ⟨.inserting, db', c⟩) db
  next hfull =>
  cases hholder : currentHolder choice db largest with
  | diverges => exact Reaches.diverges
  | error error =>
    exact Reaches.refuse (Statement.refuse (Refuses.holder hfull hholder))
  | ok holder =>
  simp only [Outcome.ok_bind]
  split
  · next hnone =>
    -- that holder has nothing left: the largest is looked up again
    cases hagain : largestHolder choice db with
    | diverges => exact Reaches.diverges
    | error error =>
      exact Reaches.refuse (Statement.refuse (Refuses.again hfull hholder hnone hagain))
    | ok again =>
    simp only [Outcome.ok_bind]
    split
    · next hnone' =>
      exact Reaches.refuse
        (Statement.refuse (Refuses.total hfull hholder hnone hagain hnone'))
    next hrem =>
    exact Reaches.step (Statement.totalAgain hfull hholder hnone hagain hrem) (ih _ _)
  next hrem =>
  exact Reaches.step (Statement.totalEvict hfull hholder hrem) (ih _ _)

theorem insert_reaches : Reaches cfg choice e c ⟨.inserting, db, c⟩
      (do let _ ← sqlInteger "persisting relay envelope" e.queuedAtMillis; db.insertEntry e)
      Attempt.commit := by
  cases hnow : sqlInteger "persisting relay envelope" e.queuedAtMillis with
  | diverges => exact Reaches.diverges
  | error error => exact Reaches.refuse (Statement.refuse (Refuses.clock hnow))
  | ok now =>
  show Reaches cfg choice e c _ (db.insertEntry e) Attempt.commit
  cases hins : db.insertEntry e with
  | diverges => exact Reaches.diverges
  | error error => exact Reaches.refuse (Statement.refuse (Refuses.insert hins))
  | ok db' => exact Reaches.step (Statement.insert hnow hins) (Reaches.pure Attempt.commit db')

theorem makeRoom_reaches (h : e.alreadyPresent db = false) :
    Reaches cfg choice e c ⟨.deduplicating, db, c⟩ (makeRoom cfg choice e db)
      fun db' => ⟨.inserting, db', c⟩ := by
  refine (pairingRoom_reaches h).bind fun db₁ _ => ?_
  refine (mailboxLoop_reaches _ db₁).bind fun db₂ _ => ?_
  exact checkShare_reaches.bind fun _ _ => totalLoop_reaches _ db₂ none

end

/-- **The statements refine `enqueue`**: where it commits a table they commit that table, and
where it refuses they roll back to the table before the call. -/
theorem enqueue_reaches (db : Database) :
    Reaches cfg choice e db (Attempt.begin db) (enqueue cfg choice e db) Attempt.commit := by
  unfold enqueue
  cases hcut : sqlInteger "cleaning relay queue" (e.queuedAtMillis - cfg.ttlMillis) with
  | diverges => exact Reaches.diverges
  | error error => exact Reaches.refuse (Statement.refuse (Refuses.cutoff hcut))
  | ok cutoff =>
  apply Reaches.step (Statement.clean hcut)
  simp only [Outcome.ok_bind]
  split
  · next hpresent =>
    exact Reaches.step (Statement.duplicate hpresent) (Reaches.pure Attempt.commit (db.deleteExpired cutoff))
  next habsent =>
  refine (makeRoom_reaches (Bool.eq_false_of_not_eq_true habsent)).bind fun room _ => ?_
  exact insert_reaches

end Connected

/-! ### What a step writes -/

section Written

variable {cfg : RelayConfig} {choice : HolderChoice} {e : NewEntry}

/-- The dedup key of the entry is in its mailbox. -/
def NewEntry.AlreadyQueued (e : NewEntry) (db : Database) : Prop :=
  ∃ key, e.dedupKey = some key ∧
    ∃ r ∈ db.queueEntries, r.mailbox = e.mailbox ∧ r.dedupKey = some key

/-- The entry is in the table, under a fresh id, and the counter is the sum over the table. -/
def NewEntry.QueuedIn (e : NewEntry) (db db' : Database) : Prop :=
  e.toRow db.nextId ∈ db'.queueEntries ∧ (∀ r ∈ db.queueEntries, r.id < db.nextId) ∧
    db'.storedTotal = db'.bytesStored

/-- **What is true between two statements** of a store that began on `db`: until the call answers
the committed table is `db` and the working one is what deletions made of it; an error leaves
`db`, and a success has the entry queued, by this call or before it. -/
def Attempt.Sound (e : NewEntry) (db : Database) (a : Attempt) : Prop :=
  match a.stage with
  | .answered (.ok ()) => e.AlreadyQueued db ∨ e.QueuedIn db a.committed
  | .answered (.error _) => a.committed = db
  | _ => a.committed = db ∧ Evicts (fun _ => True) db a.working

theorem NewEntry.alreadyQueued_of_evicts {Q : QueueEntry → Prop} (hev : Evicts Q db db')
    (h : e.alreadyPresent db' = true) : e.AlreadyQueued db := by
  unfold NewEntry.alreadyPresent at h
  cases hk : e.dedupKey with
  | none => simp [hk] at h
  | some key =>
    rw [hk] at h
    obtain ⟨r, hr, hp⟩ := List.any_eq_true.mp h
    obtain ⟨hm, hkey⟩ := Bool.and_eq_true_iff.mp hp
    exact ⟨key, hk, r, hev.mem hr, eq_of_beq hm, eq_of_beq hkey⟩

theorem NewEntry.queuedIn_of_insert {room : Database} {Q : QueueEntry → Prop}
    (hcounter : db.storedTotal = db.bytesStored) (hev : Evicts Q db room)
    (h : room.insertEntry e = .ok db') : e.QueuedIn db db' := by
  obtain ⟨hrows, htotal, -, -⟩ := Database.insertEntry_eq_ok h
  refine ⟨?_, db.ids_lt, ?_⟩
  · rw [hrows, ← hev.nextId_eq]
    exact List.mem_append_right _ (List.mem_singleton.mpr rfl)
  · -- the counter was the sum, evictions moved both alike, and so did the insert
    have hdrift := hev.drift
    have hsum : db'.bytesStored = room.bytesStored + e.encodedLen :=
      bytesWhere_insert hrows fun _ => true
    omega

theorem Attempt.Sound.deletes {w w' c : Database} {Q : QueueEntry → Prop}
    (h : c = db ∧ Evicts (fun _ => True) db w) (hev : Evicts Q w w') :
    c = db ∧ Evicts (fun _ => True) db w' :=
  ⟨h.1, h.2.trans (hev.mono fun _ _ _ => trivial)⟩

section

variable (hcounter : db.storedTotal = db.bytesStored)

include hcounter

theorem Statement.sound {a a' : Attempt} (h : Statement cfg choice e a a') (ha : a.Sound e db) :
    a'.Sound e db := by
  cases h with
  | clean _ => exact Attempt.Sound.deletes ha (Evicts.deleteWhere _ _)
  | duplicate hp => exact .inl (NewEntry.alreadyQueued_of_evicts ha.2 hp)
  | announcement _ _ => exact Attempt.Sound.deletes ha (Evicts.dedupPairing e _)
  | ordinary _ _ => exact ha
  | capMet _ => exact ha
  | capEvict _ => exact Attempt.Sound.deletes ha (Evicts.deleteWhere _ _)
  | quotaMet _ => exact ha
  | quotaEvict _ _ => exact Attempt.Sound.deletes ha (Evicts.deleteWhere _ _)
  | shareHeld _ => exact ha
  | totalMet _ => exact ha
  | totalEvict _ _ _ => exact Attempt.Sound.deletes ha (Evicts.deleteWhere _ _)
  | totalAgain _ _ _ _ _ => exact Attempt.Sound.deletes ha (Evicts.deleteWhere _ _)
  | insert _ hins => exact .inr (NewEntry.queuedIn_of_insert hcounter ha.2 hins)
  | refuse hr => cases hr with
    | cutoff _ => exact ha.1
    | mailbox _ _ => exact ha.1
    | share _ => exact ha.1
    | holder _ _ => exact ha.1
    | again _ _ _ _ => exact ha.1
    | total _ _ _ _ _ => exact ha.1
    | clock _ => exact ha.1
    | insert _ => exact ha.1

theorem Step.sound {a a' : Attempt} (h : Step cfg choice e a a') (ha : a.Sound e db) :
    a'.Sound e db := by
  cases h with
  | statement h => exact h.sound hcounter ha
  | fault hrun error =>
  -- a failing statement drops the transaction: what was committed stays
  obtain ⟨stage, w, c⟩ := a
  cases stage with
  | answered result => exact absurd hrun (by simp [Stage.isAnswered])
  | _ => exact ha.1

theorem sound_of_steps {a : Attempt}
    (h : Relation.ReflTransGen (Step cfg choice e) (Attempt.begin db) a) : a.Sound e db := by
  refine Steps.invariant (fun _ _ hstep => hstep.sound hcounter) h ?_
  exact ⟨rfl, Evicts.refl _ db⟩

end

theorem steps_of_statements {a a' : Attempt}
    (h : Relation.ReflTransGen (Statement cfg choice e) a a') :
    Relation.ReflTransGen (Step cfg choice e) a a' :=
  Relation.ReflTransGen.mono (fun _ _ => Step.statement) _ _ h

end Written

/-! ### Each iteration of a loop ends it or deletes a row -/

section Terminates

variable {cfg : RelayConfig} {choice : HolderChoice} {e : NewEntry}

/-- How many stages are still ahead. -/
def Stage.rank : Stage → ℕ
  | .cleaning => 7
  | .deduplicating => 6
  | .pairingCap => 5
  | .mailboxQuota => 4
  | .share => 3
  | .totalBytes _ => 2
  | .inserting => 1
  | .answered _ => 0

/-- How many stages are still ahead in a loop. -/
def EvictionLoop.rank : EvictionLoop → ℕ
  | .pairingCap => 5
  | .mailboxQuota => 4
  | .totalBytes => 2

theorem Stage.rank_of_loop {s : Stage} {l : EvictionLoop} (h : s.loop = some l) :
    s.rank = l.rank := by
  cases s <;> cases h <;> rfl

/-- What every step decreases: the stages ahead, and within a stage the rows of the table. -/
def Attempt.weight (a : Attempt) : ℕ ×ₗ ℕ := toLex (a.stage.rank, a.working.queueEntries.length)

theorem Attempt.weight_lt_of_rank {a a' : Attempt} (h : a'.stage.rank < a.stage.rank) :
    a'.weight < a.weight :=
  Prod.Lex.toLex_lt_toLex.mpr (.inl h)

theorem Attempt.weight_lt_of_length {a a' : Attempt} (h : a'.stage.rank = a.stage.rank)
    (hlen : a'.working.queueEntries.length < a.working.queueEntries.length) :
    a'.weight < a.weight :=
  Prod.Lex.toLex_lt_toLex.mpr (.inr ⟨h, hlen⟩)

theorem Refuses.rank_pos {stage : Stage} {error : String}
    (h : Refuses cfg choice e stage db error) : 0 < stage.rank := by
  cases h <;> exact Nat.succ_pos _

section

variable {a a' : Attempt} (h : Step cfg choice e a a') (hann : Announcements a.working)

include h hann

/-- **One step**: it goes on to a later stage, or it is an iteration of a loop that deleted a
row. -/
theorem Step.progress : a'.stage.rank < a.stage.rank ∨ a'.stage.rank = a.stage.rank ∧
      a'.working.queueEntries.length < a.working.queueEntries.length := by
  cases h with
  | fault hrun error =>
    obtain ⟨stage, w, c⟩ := a
    cases stage with
    | answered result => exact absurd hrun (by simp [Stage.isAnswered])
    | _ => exact .inl (Nat.succ_pos _)
  | statement h => cases h with
    | clean _ => exact .inl (Nat.lt_succ_self 6)
    | duplicate _ => exact .inl (Nat.succ_pos 5)
    | announcement _ _ => exact .inl (Nat.lt_succ_self 5)
    | ordinary _ _ => exact .inl (Nat.lt_add_of_pos_right (Nat.succ_pos 1))
    | capMet _ => exact .inl (Nat.lt_succ_self 4)
    | capEvict hfull => exact .inr ⟨rfl, pairingLoop_evicts hann hfull⟩
    | quotaMet _ => exact .inl (Nat.lt_succ_self 3)
    | quotaEvict _ hrem => exact .inr ⟨rfl, Database.deleteById_shorter_of_removed hrem⟩
    | shareHeld _ => exact .inl (Nat.lt_succ_self 2)
    | totalMet _ => exact .inl (Nat.lt_succ_self 1)
    | totalEvict _ _ hrem => exact .inr ⟨rfl, Database.deleteById_shorter_of_removed hrem⟩
    | totalAgain _ _ _ _ hrem => exact .inr ⟨rfl, Database.deleteById_shorter_of_removed hrem⟩
    | insert _ _ => exact .inl (Nat.lt_succ_self 0)
    | refuse hr => exact .inl hr.rank_pos

theorem Step.loop_progress {l : EvictionLoop} (hl : a.stage.loop = some l) :
    a'.stage.loop ≠ some l ∨ a'.working.queueEntries.length < a.working.queueEntries.length := by
  rcases h.progress hann with hlt | ⟨-, hlen⟩
  · -- inside one loop the rank stays
    refine .inl fun hl' => ?_
    rw [Stage.rank_of_loop hl, Stage.rank_of_loop hl'] at hlt
    exact lt_irrefl _ hlt
  · exact .inr hlen

end

theorem Attempt.Sound.announcements (hann : Announcements db) {a : Attempt} (ha : a.Sound e db)
    (hrun : a.stage.isAnswered = false) : Announcements a.working := by
  obtain ⟨stage, w, c⟩ := a
  cases stage with
  | answered result => exact absurd hrun (by simp [Stage.isAnswered])
  | _ => exact hann.evicts ha.2

theorem Step.isAnswered {a a' : Attempt} (h : Step cfg choice e a a') :
    a.stage.isAnswered = false := by
  cases h with
  | fault hrun _ => exact hrun
  | statement h => cases h with
    | refuse hr => cases hr <;> rfl
    | _ => rfl

theorem Step.weight_lt (hann : Announcements db) {a a' : Attempt} (h : Step cfg choice e a a')
    (ha : a.Sound e db) : a'.weight < a.weight := by
  rcases h.progress (ha.announcements hann h.isAnswered) with hlt | ⟨heq, hlen⟩
  · exact Attempt.weight_lt_of_rank hlt
  · exact Attempt.weight_lt_of_length heq hlen

theorem acc_begin (hcounter : db.storedTotal = db.bytesStored) (hann : Announcements db) :
    Acc (fun a' a => Step cfg choice e a a') (Attempt.begin db) :=
  Steps.acc_of_decreasing Attempt.weight (fun _ _ hstep => hstep.sound hcounter)
    (fun _ _ hstep ha => hstep.weight_lt hann ha)
    (show (Attempt.begin db).Sound e db from ⟨rfl, Evicts.refl _ db⟩)

end Terminates

/-! ### The two results -/

section Results

variable {Value : Type} (serde : Serde Value) (cfg : RelayConfig) (choice : HolderChoice)

theorem prepare_eq_ok {windows windows' : FMap String MailboxByteWindow} {clock : StoreClock}
    {source recipient : String} {envelope : Value} {e : NewEntry}
    (h : prepare serde cfg windows clock source recipient envelope = (windows', .ok e)) :
    e.mailbox = recipient ∧ serde.toVec envelope = .ok e.envelopeJson ∧
      e.dedupKey = serde.dedupKey envelope := by
  unfold prepare at h
  split at h
  · simp at h
  split at h
  · simp at h
  next henc =>
  split at h
  · simp at h
  split at h
  · rw [← Except.ok.inj (Prod.mk.inj h).2]
    exact ⟨rfl, henc, rfl⟩
  · simp at h

variable {serde cfg choice}

theorem storeFrom_queued {state state' : RelayState} {clock : StoreClock}
    {source recipient : String} {envelope : Value}
    (hcounter : state.database.storedTotal = state.database.bytesStored)
    (h : storeFrom serde cfg choice state clock source recipient envelope = (state', .ok ())) :
    ∃ windows e, prepare serde cfg state.mailboxBytes clock source recipient envelope =
        (windows, .ok e) ∧
      (e.AlreadyQueued state.database ∨ e.QueuedIn state.database state'.database) := by
  rcases storeFrom_cases h with ⟨error, herr, -⟩ | ⟨windows, e, hprep, ⟨-, henq⟩ | ⟨hdiv, -⟩⟩
  · simp at herr
  · have hsteps := (enqueue_reaches state.database).ok _ henq
    exact ⟨windows, e, hprep, sound_of_steps hcounter (steps_of_statements hsteps)⟩
  · simp at hdiv

end Results

/-- What a store does to a table, when it is refused and when it is not. -/
structure StoreIsAtomic {Value : Type} (serde : Serde Value) (cfg : RelayConfig)
    (choice : HolderChoice) (st : RelayState) (clock : StoreClock) (source recipient : String)
    (envelope : Value) : Prop where
  /-- A refused call leaves both tables as they were. -/
  refused : ∀ st' error,
    storeFrom serde cfg choice st clock source recipient envelope = (st', .error error) →
      st'.database.queueEntries = st.database.queueEntries ∧
        st'.database.storedTotal = st.database.storedTotal
  /-- An accepted envelope was queued before, or is queued now and counted. -/
  accepted : ∀ st',
    storeFrom serde cfg choice st clock source recipient envelope = (st', .ok ()) →
      ∃ e : NewEntry, e.mailbox = recipient ∧ serde.toVec envelope = .ok e.envelopeJson ∧
        e.dedupKey = serde.dedupKey envelope ∧
        (e.AlreadyQueued st.database ∨ e.QueuedIn st.database st'.database)
  /-- A storage failure at any statement leaves both tables as they were, too. -/
  failed : ∀ windows e,
    prepare serde cfg st.mailboxBytes clock source recipient envelope = (windows, .ok e) →
      ∀ a, Relation.ReflTransGen (Step cfg choice e) (Attempt.begin st.database) a →
        ∀ error, a.stage = .answered (.error error) →
          a.committed.queueEntries = st.database.queueEntries ∧
            a.committed.storedTotal = st.database.storedTotal

/-- **A refused store changes nothing**, and an accepted one has the envelope queued, in every
state a relay can be in and wherever inside the transaction the refusal comes. -/
theorem refused_store_changes_nothing {Value : Type} (serde : Serde Value) (cfg : RelayConfig)
    (choice : HolderChoice) (ops : List (Op Value)) (clock : StoreClock)
    (source recipient : String) (envelope : Value) :
    ∃ st, (relay serde cfg choice).run (some RelayState.initial) ops = some st ∧
      StoreIsAtomic serde cfg choice st clock source recipient envelope := by
  obtain ⟨st, hrun, hinv⟩ :
      Running cfg ((relay serde cfg choice).run (some RelayState.initial) ops) :=
    (Running.initial cfg).run ops
  refine ⟨st, hrun, ?_, ?_, ?_⟩
  · intro st' error h
    rcases storeFrom_cases h with ⟨_, -, hdb⟩ | ⟨_, _, _, ⟨hok, -⟩ | ⟨hdiv, -⟩⟩
    · rw [hdb]
      exact ⟨rfl, rfl⟩
    · simp at hok
    · simp at hdiv
  · intro st' h
    obtain ⟨windows, e, hprep, hqueued⟩ := storeFrom_queued hinv.bounds.counter h
    obtain ⟨hm, henc, hkey⟩ := prepare_eq_ok serde cfg hprep
    exact ⟨e, hm, henc, hkey, hqueued⟩
  · intro windows e hprep a hsteps error hstage
    have hsound := sound_of_steps hinv.bounds.counter hsteps
    unfold Attempt.Sound at hsound
    rw [hstage] at hsound
    have hsame : a.committed = st.database := hsound
    rw [hsame]
    exact ⟨rfl, rfl⟩

/-- What makes a store end: announcements are never leased, every iteration of a loop leaves it
or deletes a row, and so no store goes on for ever. -/
structure StoreEnds {Value : Type} (serde : Serde Value) (cfg : RelayConfig)
    (choice : HolderChoice) (st : RelayState) (clock : StoreClock) (source recipient : String)
    (envelope : Value) : Prop where
  /-- No announcement is leased. -/
  unleased : ∀ r ∈ st.database.queueEntries, r.isPairing = true → r.leaseId = none
  /-- Each iteration of each loop exits, returns an error or deletes a row. -/
  iteration : ∀ windows e,
    prepare serde cfg st.mailboxBytes clock source recipient envelope = (windows, .ok e) →
      ∀ a a' l, Relation.ReflTransGen (Step cfg choice e) (Attempt.begin st.database) a →
        a.stage.loop = some l → Step cfg choice e a a' →
        a'.stage.loop ≠ some l ∨
          a'.working.queueEntries.length < a.working.queueEntries.length
  /-- There is no infinite sequence of statements. -/
  finite : ∀ windows e,
    prepare serde cfg st.mailboxBytes clock source recipient envelope = (windows, .ok e) →
      Acc (fun a' a => Step cfg choice e a a') (Attempt.begin st.database)
  /-- The call returns. -/
  returns : (storeFrom serde cfg choice st clock source recipient envelope).2 ≠ .diverges

/-- **A store terminates** in every state a relay can be in, whatever is stored. -/
theorem store_terminates {Value : Type} (serde : Serde Value) (cfg : RelayConfig)
    (choice : HolderChoice) (ops : List (Op Value)) (clock : StoreClock)
    (source recipient : String) (envelope : Value) :
    ∃ st, (relay serde cfg choice).run (some RelayState.initial) ops = some st ∧
      StoreEnds serde cfg choice st clock source recipient envelope := by
  obtain ⟨st, hrun, hinv⟩ :
      Running cfg ((relay serde cfg choice).run (some RelayState.initial) ops) :=
    (Running.initial cfg).run ops
  have hann := hinv.announcements
  refine ⟨st, hrun, ?_, ?_, ?_, ?_⟩
  · intro r hr hp
    exact Option.isNone_iff_eq_none.mp (hann r hr hp)
  · intro windows e _ a a' l hsteps hl hstep
    have hsound := sound_of_steps hinv.bounds.counter hsteps
    exact hstep.loop_progress (hsound.announcements hann hstep.isAnswered) hl
  · intro windows e _
    exact acc_begin hinv.bounds.counter hann
  cases hstore : storeFrom serde cfg choice st clock source recipient envelope with
  | mk st' result =>
    rintro rfl
    rcases storeFrom_cases hstore with ⟨_, herr, -⟩ | ⟨_, e, -, ⟨hok, -⟩ | ⟨-, hdiv⟩⟩
    · simp at herr
    · simp at hok
    · exact absurd hdiv (enqueue_ne_diverges hann)

end Relay
end Conest
