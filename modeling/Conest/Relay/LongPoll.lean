import Conest.Relay.Eviction
import Conest.Relay.Leases

/-!
# Long polls

A fetch that may wait registers at the notifier of its mailbox, reads the notifier's generation,
drains the mailbox, and sleeps on the generation it read when there was nothing. A store commits its
entry, looks the notifier up and counts its generation on. These are sections of their own, under
three locks (the database's, that of the map of notifiers, each notifier's), and between them other
threads run. `pool` is that system: one act is one section of one thread.

No wake-up is lost (`no_lost_wakeup`). The invariant `Sound` carries it: a notifier that a fetch
listens to is the one in the map (`listed`), because pruning counts the references to it, and a
generation never wraps (`room`), because each time it is counted on an entry was committed, and the
row ids of the database are used up long before.
-/

open Lib List Option

namespace Conest
namespace Relay

/-! ### The notifiers -/

/-- `MailboxSignal`. -/
structure MailboxSignal where
  generation : UInt64
  waiters : ℕ
deriving DecidableEq, Repr

/-- `MailboxSignal::default`. -/
def MailboxSignal.default : MailboxSignal where
  generation := 0
  waiters := 0

/-- What the threads share: the storage (`none` when a call hangs with its lock), the map of
notifiers, and the notifiers made so far, by number, with the signal under the mutex of each. -/
structure Shared where
  storage : Option RelayState
  notifiers : FMap String ℕ
  made : ℕ
  signals : ℕ → MailboxSignal

namespace Shared

variable (sh : Shared)

/-- The signal of a notifier becomes another one. -/
def setSignal (n : ℕ) (signal : MailboxSignal) : Shared :=
  { sh with signals := Function.update sh.signals n signal }

/-- The map with a new notifier for `mailbox`. -/
def makeNotifier (mailbox : String) : Shared where
  storage := sh.storage
  notifiers := sh.notifiers.insert mailbox sh.made
  made := sh.made + 1
  signals := Function.update sh.signals sh.made MailboxSignal.default

/-- `RelayState::notifier_for`. -/
def notifierFor (mailbox : String) : Shared × ℕ :=
  match sh.notifiers.get mailbox with
  | some n => (sh, n)
  | none => (sh.makeNotifier mailbox, sh.made)

/-- `RelayState::existing_notifier`. -/
def existingNotifier (mailbox : String) : Option ℕ := sh.notifiers.get mailbox

/-- `Arc::strong_count`: the entries of the map, and the threads that hold the notifier. -/
def strongCount (held : ℕ → ℕ) (n : ℕ) : ℕ :=
  (sh.notifiers.keys.filter fun mailbox => sh.notifiers.get mailbox = some n).card + held n

/-- `RelayState::prune_notifier`. -/
def pruneNotifier (held : ℕ → ℕ) (mailbox : String) (n : ℕ) : Shared :=
  if sh.notifiers.get mailbox = some n ∧ (sh.signals n).waiters = 0 ∧ sh.strongCount held n ≤ 2 then
    { sh with notifiers := sh.notifiers.retain fun m _ => m != mailbox }
  else sh

end Shared

/-! ### Calls and the sections they go through -/

/-- The arguments of a fetch. `lease` is the client's `lease_ms`, and `none` for the legacy
`fetch`. -/
structure PollRequest where
  recipient : String
  limit : Option ℕ
  waitMs : Option ℕ
  lease : Option (Option ℕ)
deriving DecidableEq, Repr

/-- The calls that run side by side. -/
inductive Request (Value : Type) where
  | poll (request : PollRequest)
  | store (source recipient : String) (envelope : Value)

/-- The mailbox a call is about. -/
def Request.recipient {Value : Type} : Request Value → String
  | .poll request => request.recipient
  | .store _ recipient _ => recipient

/-- What a section draws from outside: clock readings, a lease id, and whether the time of a wait
is over. -/
structure Tick where
  clock : StoreClock
  leaseId : String
  timedOut : Bool
deriving DecidableEq, Repr

/-- How far a call is. `n` is the notifier it holds and `generation` the one it has observed. -/
inductive CallStage where
  | entered
  | registered (n : ℕ)
  | observed (n : ℕ) (generation : UInt64)
  | drained (n : ℕ) (generation : UInt64)
  | waiting (n : ℕ) (generation : UInt64)
  | woken (n : ℕ)
  | pruning (n : ℕ) (reply : Reply)
  | committed
  | notifying (n : ℕ)
  | leaving (n : ℕ) (reply : Reply)
  | returned (reply : Reply)

namespace CallStage

/-- The notifier a thread has a reference to. -/
def holds : CallStage → Option ℕ
  | registered n | observed n _ | drained n _ | waiting n _ | woken n | pruning n _ | notifying n
  | leaving n _ => some n
  | entered | committed | returned _ => none

/-- The notifier of a fetch between its registration and its second drain. -/
def listens : CallStage → Option ℕ
  | registered n | observed n _ | drained n _ | waiting n _ | woken n => some n
  | _ => none

/-- The notifier and the generation a fetch compares it with. -/
def watches : CallStage → Option (ℕ × UInt64)
  | observed n generation | drained n generation | waiting n generation => some (n, generation)
  | _ => none

/-- A fetch that is about to wait, or waits. -/
def sleeps : CallStage → Option (ℕ × UInt64)
  | drained n generation | waiting n generation => some (n, generation)
  | _ => none

/-- The first drain is over. -/
def pastFirstDrain : CallStage → Bool
  | drained _ _ | waiting _ _ | woken _ | pruning _ _ | leaving _ _ | returned _ => true
  | _ => false

/-- A store that has committed and not counted a generation on yet. -/
def owesSignal : CallStage → Bool
  | committed | notifying _ => true
  | _ => false

/-- A store that has nothing left to do but to return. -/
def isOver : CallStage → Bool
  | leaving _ _ | returned _ => true
  | _ => false

end CallStage

section Sections

variable {Value : Type} (serde : Serde Value) (cfg : RelayConfig) (choice : HolderChoice)

/-- One transaction, under the lock of the database. -/
def Shared.execute (sh : Shared) (op : Op Value) : Shared × Reply :=
  ({ sh with storage := ((relay serde cfg choice).step sh.storage op).1 },
    ((relay serde cfg choice).step sh.storage op).2)

/-- The transaction of a drain. -/
def PollRequest.drain (request : PollRequest) (tick : Tick) : Op Value :=
  match request.lease with
  | none => .fetch tick.clock.now request.recipient request.limit
  | some leaseMs =>
    .fetchLeased tick.clock.now request.recipient request.limit leaseMs tick.leaseId

/-- `wait_ms` is there and not zero. -/
def PollRequest.waits (request : PollRequest) : Bool :=
  request.waitMs.any fun value => decide (0 < value)

/-- After the drain of a fetch that does not wait. -/
def CallStage.afterOnly : Reply → CallStage
  | .hangs => .entered
  | reply => .returned reply

/-- After the first drain: an error leaves at once, messages are returned after pruning. -/
def CallStage.afterFirst (n : ℕ) (generation : UInt64) : Reply → CallStage
  | .hangs => .observed n generation
  | .taken t => if (t.messages serde).isEmpty then .drained n generation else .pruning n (.taken t)
  | reply => .leaving n reply

/-- After the second drain: `fetch_leased` prunes whatever came of it, `fetch` leaves at once with
an error. -/
def CallStage.afterSecond (leased : Bool) (n : ℕ) : Reply → CallStage
  | .hangs => .woken n
  | .refused error => if leased then .pruning n (.refused error) else .leaving n (.refused error)
  | reply => .pruning n reply

/-- The sections of `RelayState::fetch` and `RelayState::fetch_leased`. -/
def Shared.poll (sh : Shared) (held : ℕ → ℕ) (tick : Tick) (request : PollRequest) :
    CallStage → Shared × CallStage
  | .entered =>
    match validateMailboxId request.recipient with
    | some error => (sh, .returned (.refused error))
    | none =>
      if request.waits then
        ((sh.notifierFor request.recipient).1, .registered (sh.notifierFor request.recipient).2)
      else
        ((sh.execute serde cfg choice (request.drain tick)).1,
          CallStage.afterOnly (sh.execute serde cfg choice (request.drain tick)).2)
  | .registered n => (sh, .observed n (sh.signals n).generation)
  | .observed n generation =>
    ((sh.execute serde cfg choice (request.drain tick)).1,
      CallStage.afterFirst serde n generation (sh.execute serde cfg choice (request.drain tick)).2)
  | .drained n generation =>
    if (sh.signals n).generation = generation then
      (sh.setSignal n { sh.signals n with waiters := (sh.signals n).waiters + 1 },
        .waiting n generation)
    else (sh, .woken n)
  | .waiting n generation =>
    if (sh.signals n).generation ≠ generation ∨ tick.timedOut = true then
      (sh.setSignal n { sh.signals n with waiters := (sh.signals n).waiters - 1 }, .woken n)
    else (sh, .waiting n generation)
  | .woken n =>
    ((sh.execute serde cfg choice (request.drain tick)).1,
      CallStage.afterSecond request.lease.isSome n
        (sh.execute serde cfg choice (request.drain tick)).2)
  | .pruning n reply => (sh.pruneNotifier held request.recipient n, .leaving n reply)
  | .leaving _ reply => (sh, .returned reply)
  | .committed => (sh, .committed)
  | .notifying n => (sh, .notifying n)
  | .returned reply => (sh, .returned reply)

/-- Whether a store that is accepted gets past `already_present`, where it would return without a
signal. -/
def RelayState.inserts (state : RelayState) (clock : StoreClock) (source recipient : String)
    (envelope : Value) : Bool :=
  match (prepare serde cfg state.mailboxBytes clock source recipient envelope).2 with
  | .ok e => !e.alreadyPresent (state.database.deleteExpired (e.queuedAtMillis - cfg.ttlMillis))
  | .error _ => false

/-- After the transaction of a store. -/
def CallStage.afterStore (inserts : Bool) : Reply → CallStage
  | .hangs => .entered
  | .stored => if inserts then .committed else .returned .stored
  | reply => .returned reply

/-- After the lookup of a store. -/
def CallStage.afterLookup : Option ℕ → CallStage
  | some n => .notifying n
  | none => .returned .stored

/-- The sections of `RelayState::store_from`. -/
def Shared.store (sh : Shared) (tick : Tick) (source recipient : String) (envelope : Value) :
    CallStage → Shared × CallStage
  | .entered =>
    ((sh.execute serde cfg choice (.store tick.clock source recipient envelope)).1,
      CallStage.afterStore
        (sh.storage.any fun state => state.inserts serde cfg tick.clock source recipient envelope)
        (sh.execute serde cfg choice (.store tick.clock source recipient envelope)).2)
  | .committed => (sh, CallStage.afterLookup (sh.existingNotifier recipient))
  | .notifying n =>
    (sh.setSignal n { sh.signals n with generation := (sh.signals n).generation + 1 },
      .leaving n .stored)
  | .leaving _ reply => (sh, .returned reply)
  | stage => (sh, stage)

/-- One section of a call. -/
def Shared.runSection (sh : Shared) (held : ℕ → ℕ) (tick : Tick) :
    Request Value → CallStage → Shared × CallStage
  | .poll request, stage => sh.poll serde cfg choice held tick request stage
  | .store source recipient envelope, stage =>
    sh.store serde cfg choice tick source recipient envelope stage

end Sections

/-! ### The machine -/

/-- A call in flight. -/
structure Thread (Value : Type) where
  request : Request Value
  stage : CallStage

/-- The relay's threads and what they share. -/
structure Pool (Value : Type) extends Shared where
  threads : List (Thread Value)

/-- One act: a call comes in, a thread runs its next section, or one of the calls that notify
nobody is made. -/
inductive PoolAct (Value : Type) where
  | enter (request : Request Value)
  | advance (thread : ℕ) (tick : Tick)
  | acknowledge (recipient leaseId : String)
  | stats (now : ℕ)

section Machine

variable {Value : Type} (serde : Serde Value) (cfg : RelayConfig) (choice : HolderChoice)

/-- How many threads hold each notifier. -/
def Pool.held (p : Pool Value) (n : ℕ) : ℕ := p.threads.countP fun t => t.stage.holds == some n

/-- Thread `i` runs its next section. -/
def Pool.advance (p : Pool Value) (i : ℕ) (tick : Tick) : Pool Value :=
  match p.threads[i]? with
  | none => p
  | some t =>
    { p.toShared.runSection serde cfg choice p.held tick t.request t.stage |>.1 with
      threads := p.threads.set i
        { t with
          stage := (p.toShared.runSection serde cfg choice p.held tick t.request t.stage).2 } }

/-- The pool after a call that notifies nobody. -/
def Pool.serve (p : Pool Value) (op : Op Value) : Pool Value :=
  { p.toShared.execute serde cfg choice op |>.1 with threads := p.threads }

/-- The threads of a relay. -/
def pool : Machine (Pool Value) (PoolAct Value) Unit where
  step p act :=
    match act with
    | .enter request => ({ p with threads := p.threads ++ [⟨request, .entered⟩] }, ())
    | .advance i tick => (p.advance serde cfg choice i tick, ())
    | .acknowledge recipient leaseId =>
      (p.serve serde cfg choice (.acknowledge recipient leaseId), ())
    | .stats now => (p.serve serde cfg choice (.stats now), ())

/-- A relay process that has just started, on the storage that `ops` left. -/
def Pool.starting (ops : List (Op Value)) : Pool Value where
  storage := (relay serde cfg choice).run (some RelayState.initial) ops
  notifiers := FMap.empty
  made := 0
  signals := fun _ => MailboxSignal.default
  threads := []

end Machine

/-! ### The ids that are left -/

/-- An upper bound for the generations: the ids the database has handed out. A storage that hangs
hands out none any more. -/
def idsDrawn : Option RelayState → ℕ
  | some state => state.database.nextId
  | none => i64Max + 1

section Ids

variable {Value : Type} {serde : Serde Value} {cfg : RelayConfig} {choice : HolderChoice}

theorem Database.insertEntry_nextId {db db' : Database} {e : NewEntry}
    (h : db.insertEntry e = .ok db') : db'.nextId = db.nextId + 1 ∧ db'.nextId ≤ i64Max + 1 := by
  have hnext := (Database.insertEntry_eq_ok h).2.2.1
  obtain ⟨_, -, h⟩ := Outcome.bind_eq_ok.mp h
  obtain ⟨_, hcap, -⟩ := Outcome.bind_eq_ok.mp h
  rw [Outcome.require_eq_ok] at hcap
  refine ⟨hnext, ?_⟩
  rw [hnext]
  exact Nat.succ_le_succ hcap.2

theorem Committed.nextId_le_max {db db' : Database} {op : Op Value} {answer : Reply}
    (h : Committed serde cfg choice db op answer db') (hle : db.nextId ≤ i64Max + 1) :
    db'.nextId ≤ i64Max + 1 := by
  cases h with
  | refused error hop => exact hle
  | stored hnow henq =>
    obtain ⟨room, hev, rfl | ⟨-, hins⟩⟩ := enqueue_eq_ok henq
    · exact hev.nextId_eq.trans_le hle
    · exact (Database.insertEntry_nextId hins).2
  | fetched ht => exact (takeQueue_nextId ht).trans_le hle
  | leased ht => exact (takeQueue_nextId ht).trans_le hle
  | acknowledged recipient leaseId => exact hle
  | stats now => exact (stats_evicts cfg db now).nextId_eq.trans_le hle
  | restarted => exact hle

theorem idsDrawn_step (storage : Option RelayState) (op : Op Value)
    (hle : idsDrawn storage ≤ i64Max + 1) :
    idsDrawn storage ≤ idsDrawn ((relay serde cfg choice).step storage op).1 ∧
      idsDrawn ((relay serde cfg choice).step storage op).1 ≤ i64Max + 1 := by
  cases storage with
  | none => exact ⟨le_rfl, le_rfl⟩
  | some state =>
  show idsDrawn (some state) ≤ idsDrawn (state.exec serde cfg choice op).1 ∧
    idsDrawn (state.exec serde cfg choice op).1 ≤ i64Max + 1
  cases hexec : state.exec serde cfg choice op with
  | mk after answer =>
  cases after with
  | none => exact ⟨hle, le_rfl⟩
  | some state' =>
    have hcommitted := exec_committed hexec
    exact ⟨hcommitted.nextId_le, hcommitted.nextId_le_max hle⟩

theorem idsDrawn_inserts {state : RelayState} {clock : StoreClock} {source recipient : String}
    {envelope : Value} (hinserts : state.inserts serde cfg clock source recipient envelope = true)
    (hstored : (state.exec serde cfg choice (.store clock source recipient envelope)).2 = .stored) :
    idsDrawn (state.exec serde cfg choice (.store clock source recipient envelope)).1 =
      state.database.nextId + 1 := by
  cases hstore : storeFrom serde cfg choice state clock source recipient envelope with
  | mk state' result =>
  rcases storeFrom_cases hstore with
    ⟨error, rfl, -⟩ | ⟨windows, e, hprep, ⟨rfl, henq⟩ | ⟨rfl, -⟩⟩
  · simp [RelayState.exec, hstore] at hstored
  · have habsent : e.alreadyPresent (state.database.deleteExpired
        (e.queuedAtMillis - cfg.ttlMillis)) = false := by
      simpa [RelayState.inserts, hprep] using hinserts
    obtain ⟨c, hc, henq⟩ := Outcome.bind_eq_ok.mp henq
    dsimp only at henq
    rw [(sqlInteger_eq_ok hc).1, habsent] at henq
    obtain ⟨room, hroom, henq⟩ := Outcome.bind_eq_ok.mp henq
    obtain ⟨_, -, hins⟩ := Outcome.bind_eq_ok.mp henq
    have hnext : room.nextId = state.database.nextId := (makeRoom_eq_ok hroom).1.nextId_eq
    rw [RelayState.exec, hstore]
    show state'.database.nextId = state.database.nextId + 1
    rw [(Database.insertEntry_nextId hins).1, hnext]
  · simp [RelayState.exec, hstore] at hstored

end Ids

/-! ### What a section does -/

namespace Shared

variable (sh : Shared)

@[simp] theorem setSignal_self (n : ℕ) (signal : MailboxSignal) :
    (sh.setSignal n signal).signals n = signal := Function.update_self ..

theorem setSignal_of_ne {m : ℕ} (n : ℕ) (signal : MailboxSignal) (h : m ≠ n) :
    (sh.setSignal n signal).signals m = sh.signals m := Function.update_of_ne h ..

theorem generation_setWaiters (m n waiters : ℕ) :
    ((sh.setSignal m { sh.signals m with waiters := waiters }).signals n).generation =
      (sh.signals n).generation := by
  by_cases heq : n = m
  · subst heq
    rw [setSignal_self]
  · rw [setSignal_of_ne _ _ _ heq]

end Shared

/-- A transaction of a fetch takes it further, or leaves it where it is. -/
structure CallStage.AfterDrain (stage stage' : CallStage) : Prop where
  holds : ∀ n, stage'.holds = some n → stage.holds = some n
  listens : ∀ n, stage'.listens = some n → stage.listens = some n
  watches : ∀ x, stage'.watches = some x → stage.watches = some x
  owesSignal : stage'.owesSignal = false
  past : stage.pastFirstDrain = true → stage'.pastFirstDrain = true
  sleeps : stage.pastFirstDrain = true → stage'.sleeps = none
  notNotifying : stage.owesSignal = false

section

variable {stage : CallStage} (howes : stage.owesSignal = false)

include howes

theorem CallStage.AfterDrain.refl (hsleeps : stage.pastFirstDrain = true → stage.sleeps = none) :
    stage.AfterDrain stage where
  holds := fun _ h => h
  listens := fun _ h => h
  watches := fun _ h => h
  owesSignal := howes
  past := fun h => h
  sleeps := hsleeps
  notNotifying := howes

theorem CallStage.AfterDrain.returned (reply : Reply) : stage.AfterDrain (.returned reply) where
  holds := fun _ h => nomatch h
  listens := fun _ h => nomatch h
  watches := fun _ h => nomatch h
  owesSignal := rfl
  past := fun _ => rfl
  sleeps := fun _ => rfl
  notNotifying := howes

end

section Moves

variable {Value : Type} (serde : Serde Value) (cfg : RelayConfig) (choice : HolderChoice)

/-- **What one section of a call does**: the stage before it, what the threads share after it, the
stage after it. -/
inductive Moves (sh : Shared) (held : ℕ → ℕ) (request : Request Value) :
    CallStage → Shared → CallStage → Prop
  | stays (stage : CallStage) : Moves sh held request stage sh stage
  | refused (reply : Reply) : Moves sh held request .entered sh (.returned reply)
  | finds {n : ℕ} (h : sh.notifiers.get request.recipient = some n) :
      Moves sh held request .entered sh (.registered n)
  | makes (h : sh.notifiers.get request.recipient = none) :
      Moves sh held request .entered (sh.makeNotifier request.recipient) (.registered sh.made)
  | observes (n : ℕ) :
      Moves sh held request (.registered n) sh (.observed n (sh.signals n).generation)
  | waits (n : ℕ) (generation : UInt64) (waiters : ℕ) :
      Moves sh held request (.drained n generation)
        (sh.setSignal n { sh.signals n with waiters := waiters }) (.waiting n generation)
  | skips (n : ℕ) (generation : UInt64) :
      Moves sh held request (.drained n generation) sh (.woken n)
  | wakes (n : ℕ) (generation : UInt64) (waiters : ℕ) :
      Moves sh held request (.waiting n generation)
        (sh.setSignal n { sh.signals n with waiters := waiters }) (.woken n)
  | prunes (n : ℕ) (reply : Reply) :
      Moves sh held request (.pruning n reply) (sh.pruneNotifier held request.recipient n)
        (.leaving n reply)
  | leaves (n : ℕ) (reply : Reply) : Moves sh held request (.leaving n reply) sh (.returned reply)
  | transacts {stage stage' : CallStage} (op : Op Value) (h : stage.AfterDrain stage') :
      Moves sh held request stage (sh.execute serde cfg choice op).1 stage'
  | commits (op : Op Value)
      (h : idsDrawn (sh.execute serde cfg choice op).1.storage = idsDrawn sh.storage + 1) :
      Moves sh held request .entered (sh.execute serde cfg choice op).1 .committed
  | hears {n : ℕ} (h : sh.notifiers.get request.recipient = some n) :
      Moves sh held request .committed sh (.notifying n)
  | unheard (h : sh.notifiers.get request.recipient = none) :
      Moves sh held request .committed sh (.returned .stored)
  | signals (n : ℕ) :
      Moves sh held request (.notifying n)
        (sh.setSignal n { sh.signals n with generation := (sh.signals n).generation + 1 })
        (.leaving n .stored)

variable {serde cfg choice}

theorem CallStage.afterOnly_spec (reply : Reply) :
    CallStage.AfterDrain .entered (CallStage.afterOnly reply) := by
  unfold CallStage.afterOnly
  split
  · exact CallStage.AfterDrain.refl rfl fun _ => rfl
  · exact CallStage.AfterDrain.returned rfl _

theorem CallStage.afterFirst_spec (n : ℕ) (generation : UInt64) (reply : Reply) :
    CallStage.AfterDrain (.observed n generation)
      (CallStage.afterFirst serde n generation reply) := by
  unfold CallStage.afterFirst
  split
  · exact CallStage.AfterDrain.refl rfl fun h => absurd h Bool.false_ne_true
  · split <;> constructor <;> simp [CallStage.holds, CallStage.listens, CallStage.watches,
      CallStage.owesSignal, CallStage.pastFirstDrain]
  · constructor <;> simp [CallStage.holds, CallStage.listens, CallStage.watches,
      CallStage.owesSignal, CallStage.pastFirstDrain]

theorem CallStage.afterSecond_spec (leased : Bool) (n : ℕ) (reply : Reply) :
    CallStage.AfterDrain (.woken n) (CallStage.afterSecond leased n reply) := by
  unfold CallStage.afterSecond
  split
  · exact CallStage.AfterDrain.refl rfl fun _ => rfl
  · split <;> constructor <;> simp [CallStage.holds, CallStage.listens, CallStage.watches,
      CallStage.owesSignal, CallStage.pastFirstDrain, CallStage.sleeps]
  · constructor <;> simp [CallStage.holds, CallStage.listens, CallStage.watches,
      CallStage.owesSignal, CallStage.pastFirstDrain, CallStage.sleeps]

theorem CallStage.afterStore_cases (inserts : Bool) (reply : Reply) :
    CallStage.AfterDrain .entered (CallStage.afterStore inserts reply) ∨
      inserts = true ∧ reply = .stored ∧ CallStage.afterStore inserts reply = .committed := by
  unfold CallStage.afterStore
  split
  · exact .inl (CallStage.AfterDrain.refl rfl fun _ => rfl)
  · split
    next hinserts => exact .inr ⟨hinserts, rfl, rfl⟩
    · exact .inl (CallStage.AfterDrain.returned rfl _)
  · exact .inl (CallStage.AfterDrain.returned rfl _)

section

variable (sh : Shared) (held : ℕ → ℕ) (tick : Tick)

include sh held tick

theorem poll_moves (request : PollRequest) (stage : CallStage) :
    Moves serde cfg choice sh held (.poll request) stage
      (sh.poll serde cfg choice held tick request stage).1
      (sh.poll serde cfg choice held tick request stage).2 := by
  cases stage with
  | entered =>
    rw [Shared.poll]
    split
    · exact Moves.refused _
    split
    · unfold Shared.notifierFor
      split
      next h => exact Moves.finds h
      next h => exact Moves.makes h
    · exact Moves.transacts _ (CallStage.afterOnly_spec _)
  | registered n => exact Moves.observes n
  | observed n generation => exact Moves.transacts _ (CallStage.afterFirst_spec n generation _)
  | drained n generation =>
    rw [Shared.poll]
    split
    · exact Moves.waits n generation _
    · exact Moves.skips n generation
  | waiting n generation =>
    rw [Shared.poll]
    split
    · exact Moves.wakes n generation _
    · exact Moves.stays _
  | woken n => exact Moves.transacts _ (CallStage.afterSecond_spec _ n _)
  | pruning n reply => exact Moves.prunes n reply
  | leaving n reply => exact Moves.leaves n reply
  | committed => exact Moves.stays _
  | notifying n => exact Moves.stays _
  | returned reply => exact Moves.stays _

theorem store_moves (source recipient : String) (envelope : Value) (stage : CallStage) :
    Moves serde cfg choice sh held (.store source recipient envelope) stage
      (sh.store serde cfg choice tick source recipient envelope stage).1
      (sh.store serde cfg choice tick source recipient envelope stage).2 := by
  cases stage with
  | entered =>
    rw [Shared.store]
    rcases CallStage.afterStore_cases
        (sh.storage.any fun state => state.inserts serde cfg tick.clock source recipient envelope)
        (sh.execute serde cfg choice (.store tick.clock source recipient envelope)).2 with
      hend | ⟨hinserts, hstored, hstage⟩
    · exact Moves.transacts _ hend
    · rw [hstage]
      refine Moves.commits _ ?_
      obtain ⟨relay, notifiers, made, signals⟩ := sh
      cases relay with
      | none => exact absurd hinserts Bool.false_ne_true
      | some state => exact idsDrawn_inserts hinserts hstored
  | committed =>
    rw [Shared.store, Shared.existingNotifier]
    cases hget : sh.notifiers.get recipient with
    | none => exact Moves.unheard hget
    | some n => exact Moves.hears hget
  | notifying n => exact Moves.signals n
  | leaving n reply => exact Moves.leaves n reply
  | _ => exact Moves.stays _

theorem runSection_moves (request : Request Value) (stage : CallStage) :
    Moves serde cfg choice sh held request stage
      (sh.runSection serde cfg choice held tick request stage).1
      (sh.runSection serde cfg choice held tick request stage).2 := by
  cases request with
  | poll request => exact poll_moves sh held tick request stage
  | store source recipient envelope =>
    exact store_moves sh held tick source recipient envelope stage

end

namespace Moves

variable {sh sh' : Shared} {held : ℕ → ℕ} {request : Request Value} {stage stage' : CallStage}

section

variable (h : Moves serde cfg choice sh held request stage sh' stage')

include h

theorem made_le : sh.made ≤ sh'.made := by
  cases h with
  | makes _ => exact Nat.le_succ _
  | prunes n reply =>
    unfold Shared.pruneNotifier
    split <;> exact le_rfl
  | _ => exact le_rfl

theorem get_kept {mailbox : String} {n : ℕ} (hget : sh.notifiers.get mailbox = some n) :
    sh'.notifiers.get mailbox = some n ∨
      mailbox = request.recipient ∧ stage.holds = some n ∧ stage.listens = none ∧
        sh.strongCount held n ≤ 2 := by
  cases h with
  | makes hnone =>
    left
    show (if mailbox = request.recipient then some sh.made else sh.notifiers.get mailbox) = some n
    rw [if_neg (fun heq => by rw [heq, hnone] at hget; cases hget), hget]
  | prunes n' reply =>
    unfold Shared.pruneNotifier
    split
    · next hprune =>
      by_cases heq : mailbox = request.recipient
      · subst heq
        obtain rfl := some.inj (hget.symm.trans hprune.1)
        exact .inr ⟨rfl, rfl, rfl, hprune.2.2⟩
      · left
        show (sh.notifiers.get mailbox).filter (fun _ => mailbox != request.recipient) = some n
        rw [hget, filter_some, if_pos (bne_iff_ne.mpr heq)]
    · exact .inl hget
  | _ => exact .inl hget

theorem get_cases {mailbox : String} {n : ℕ} (hget : sh'.notifiers.get mailbox = some n) :
    sh.notifiers.get mailbox = some n ∨ n = sh.made ∧ n < sh'.made := by
  cases h with
  | makes hnone =>
    have hget' : (if mailbox = request.recipient then some sh.made else
      sh.notifiers.get mailbox) = some n := hget
    split at hget'
    · obtain rfl := some.inj hget'
      exact .inr ⟨rfl, Nat.lt_succ_self _⟩
    · exact .inl hget'
  | prunes n' reply =>
    unfold Shared.pruneNotifier at hget
    split at hget
    · left
      have hget' : (sh.notifiers.get mailbox).filter (fun _ => mailbox != request.recipient) =
        some n := hget
      exact (filter_eq_some_iff.mp hget').1
    · exact .inl hget
  | _ => exact .inl hget

theorem holds_cases {n : ℕ} (hholds : stage'.holds = some n) :
    stage.holds = some n ∨ sh'.notifiers.get request.recipient = some n := by
  cases h with
  | refused => cases hholds
  | finds hget => exact .inr (hget.trans hholds)
  | makes hnone =>
    right
    show (if request.recipient = request.recipient then some sh.made else _) = some n
    rw [if_pos rfl]
    exact hholds
  | hears hget => exact .inr (hget.trans hholds)
  | leaves => cases hholds
  | commits => cases hholds
  | unheard => cases hholds
  | transacts op hdrain => exact .inl (hdrain.holds n hholds)
  | _ => exact .inl hholds

theorem listens_cases {n : ℕ} (hlistens : stage'.listens = some n) :
    stage.listens = some n ∨ sh'.notifiers.get request.recipient = some n := by
  cases h with
  | refused => cases hlistens
  | finds hget => exact .inr (hget.trans hlistens)
  | makes hnone =>
    right
    show (if request.recipient = request.recipient then some sh.made else _) = some n
    rw [if_pos rfl]
    exact hlistens
  | hears hget => cases hlistens
  | leaves => cases hlistens
  | commits => cases hlistens
  | unheard => cases hlistens
  | signals => cases hlistens
  | prunes => cases hlistens
  | transacts op hdrain => exact .inl (hdrain.listens n hlistens)
  | _ => exact .inl hlistens

theorem watches_cases {n : ℕ} {generation : UInt64}
    (hwatches : stage'.watches = some (n, generation)) :
    stage.watches = some (n, generation) ∨ sh' = sh ∧ generation = (sh.signals n).generation := by
  cases h with
  | observes n' =>
    obtain ⟨rfl, rfl⟩ := Prod.mk.inj (some.inj hwatches)
    exact .inr ⟨rfl, rfl⟩
  | transacts op hdrain => exact .inl (hdrain.watches _ hwatches)
  | stays => exact .inl hwatches
  | waits => exact .inl hwatches
  | _ => cases hwatches

theorem generation_cases {n : ℕ} (hn : n < sh.made) :
    (sh'.signals n).generation = (sh.signals n).generation ∨
      stage = .notifying n ∧ stage' = .leaving n .stored ∧
        (sh'.signals n).generation = (sh.signals n).generation + 1 := by
  cases h with
  | makes _ =>
    left
    show (Function.update sh.signals sh.made MailboxSignal.default n).generation = _
    rw [Function.update_of_ne (Nat.ne_of_lt hn)]
  | waits m generation waiters => exact .inl (sh.generation_setWaiters m n waiters)
  | wakes m generation waiters => exact .inl (sh.generation_setWaiters m n waiters)
  | prunes m reply =>
    left
    unfold Shared.pruneNotifier
    split <;> rfl
  | signals m =>
    by_cases heq : n = m
    · subst heq
      right
      exact ⟨rfl, rfl, by rw [Shared.setSignal_self]⟩
    · left
      rw [Shared.setSignal_of_ne _ _ _ heq]
  | _ => exact .inl rfl

/-- A generation counted on is paid for by a store that owed the signal, and a store that begins to
owe one has drawn an id. -/
theorem room (hmax : idsDrawn sh.storage ≤ i64Max + 1) (n : ℕ) :
    (sh'.signals n).generation.toNat + (if stage'.owesSignal then 1 else 0) +
        idsDrawn sh.storage ≤
      (sh.signals n).generation.toNat + (if stage.owesSignal then 1 else 0) +
        idsDrawn sh'.storage := by
  cases h with
  | makes _ =>
    show (Function.update sh.signals sh.made MailboxSignal.default n).generation.toNat + 0 +
      idsDrawn sh.storage ≤ (sh.signals n).generation.toNat + 0 + idsDrawn sh.storage
    by_cases heq : n = sh.made
    · subst heq
      rw [Function.update_self]
      show 0 + 0 + _ ≤ _
      omega
    · rw [Function.update_of_ne heq]
  | waits m generation waiters =>
    rw [sh.generation_setWaiters m n waiters]
    exact le_rfl
  | wakes m generation waiters =>
    rw [sh.generation_setWaiters m n waiters]
    exact le_rfl
  | prunes m reply =>
    unfold Shared.pruneNotifier
    split <;> exact le_rfl
  | transacts op hdrain =>
    have hgrows := (@idsDrawn_step _ serde cfg choice sh.storage op hmax).1
    rw [hdrain.owesSignal, hdrain.notNotifying]
    exact Nat.add_le_add_left hgrows _
  | commits op hids =>
    show (sh.signals n).generation.toNat + 1 + _ ≤ (sh.signals n).generation.toNat + 0 + _
    omega
  | unheard hget =>
    show (sh.signals n).generation.toNat + 0 + _ ≤ (sh.signals n).generation.toNat + 1 + _
    omega
  | signals m =>
    show ((sh.setSignal m _).signals n).generation.toNat + 0 + idsDrawn sh.storage ≤
      (sh.signals n).generation.toNat + 1 + idsDrawn sh.storage
    by_cases heq : n = m
    · subst heq
      rw [Shared.setSignal_self]
      have hadd : ((sh.signals n).generation + 1).toNat ≤ (sh.signals n).generation.toNat + 1 := by
        exact Nat.mod_le _ _
      exact Nat.add_le_add_right hadd _
    · rw [Shared.setSignal_of_ne _ _ _ heq]
      omega
  | _ => exact le_rfl

theorem past (hpast : stage.pastFirstDrain = true) :
    stage'.pastFirstDrain = true ∧ ∀ x, stage'.sleeps = some x → stage.sleeps = some x := by
  cases h with
  | stays => exact ⟨hpast, fun _ h => h⟩
  | waits => exact ⟨rfl, fun _ h => h⟩
  | transacts op hdrain =>
    refine ⟨hdrain.past hpast, fun x h => ?_⟩
    rw [hdrain.sleeps hpast] at h
    cases h
  | skips => exact ⟨rfl, fun _ h => nomatch h⟩
  | wakes => exact ⟨rfl, fun _ h => nomatch h⟩
  | prunes => exact ⟨rfl, fun _ h => nomatch h⟩
  | leaves => exact ⟨rfl, fun _ h => nomatch h⟩
  | _ => exact absurd hpast Bool.false_ne_true

theorem of_committed (hstage : stage = .committed) :
    stage' = .committed ∨ sh.notifiers.get request.recipient = none ∨
      ∃ n, sh.notifiers.get request.recipient = some n ∧ stage' = .notifying n := by
  subst hstage
  cases h with
  | stays => exact .inl rfl
  | hears hget => exact .inr (.inr ⟨_, hget, rfl⟩)
  | unheard hget => exact .inr (.inl hget)
  | transacts op hdrain => cases hdrain.notNotifying

theorem of_notifying {n : ℕ} (hstage : stage = .notifying n) :
    stage' = .notifying n ∨ (sh'.signals n).generation = (sh.signals n).generation + 1 := by
  subst hstage
  cases h with
  | stays => exact .inl rfl
  | signals => exact .inr (by rw [Shared.setSignal_self])
  | transacts op hdrain => cases hdrain.notNotifying

theorem storage_le (hmax : idsDrawn sh.storage ≤ i64Max + 1) :
    idsDrawn sh'.storage ≤ i64Max + 1 := by
  cases h with
  | prunes m reply =>
    unfold Shared.pruneNotifier
    split <;> exact hmax
  | transacts op hdrain => exact (idsDrawn_step sh.storage op hmax).2
  | commits op hids => exact (idsDrawn_step sh.storage op hmax).2
  | _ => exact hmax

end

end Moves

end Moves

/-! ### What an act does -/

section Pool

variable {Value : Type} {serde : Serde Value} {cfg : RelayConfig} {choice : HolderChoice}

/-- **What one act does to the pool.** -/
inductive PoolStep (serde : Serde Value) (cfg : RelayConfig) (choice : HolderChoice)
    (p : Pool Value) : Pool Value → Prop
  | same : PoolStep serde cfg choice p p
  | enters (request : Request Value) :
      PoolStep serde cfg choice p { p with threads := p.threads ++ [⟨request, .entered⟩] }
  | serves (op : Op Value) : PoolStep serde cfg choice p (p.serve serde cfg choice op)
  | moves {i : ℕ} {t : Thread Value} {sh : Shared} {stage : CallStage} (ht : p.threads[i]? = some t)
      (h : Moves serde cfg choice p.toShared p.held t.request t.stage sh stage) :
      PoolStep serde cfg choice p
        { sh with threads := p.threads.set i { t with stage } }

theorem pool_step (p : Pool Value) (act : PoolAct Value) :
    PoolStep serde cfg choice p ((pool serde cfg choice).step p act).1 := by
  cases act with
  | enter request => exact PoolStep.enters request
  | acknowledge recipient leaseId => exact PoolStep.serves _
  | stats now => exact PoolStep.serves _
  | advance i tick =>
  show PoolStep serde cfg choice p (p.advance serde cfg choice i tick)
  unfold Pool.advance
  split
  · exact PoolStep.same
  next t ht => exact PoolStep.moves ht (runSection_moves _ _ _ _ _)

section

variable {α : Type} {l : List α}

theorem getElem?_set_cases {i j : ℕ} {a x : α} (h : (l.set i a)[j]? = some x) :
    (j = i ∧ x = a) ∨ j ≠ i ∧ l[j]? = some x := by
  by_cases heq : i = j
  · subst heq
    rw [getElem?_set, if_pos rfl] at h
    split at h
    · exact .inl ⟨rfl, (some.inj h).symm⟩
    · cases h
  · rw [getElem?_set_ne heq] at h
    exact .inr ⟨Ne.symm heq, h⟩

theorem getElem?_concat_cases {j : ℕ} {a x : α} (h : (l ++ [a])[j]? = some x) :
    l[j]? = some x ∨ x = a := by
  rw [getElem?_append] at h
  split at h
  · exact .inl h
  · exact .inr (mem_singleton.mp (mem_of_getElem? h))

theorem countP_set_add {i : ℕ} {a : α} (q : α → Bool) (b : α) (hi : l[i]? = some a) :
    (l.set i b).countP q + (if q a then 1 else 0) = l.countP q + (if q b then 1 else 0) := by
  obtain ⟨hlt, rfl⟩ := List.getElem?_eq_some_iff.mp hi
  have hone : (if q l[i] then 1 else 0) ≤ l.countP q := by
    split
    next hq => exact List.countP_pos_iff.mpr ⟨_, List.getElem_mem hlt, hq⟩
    · exact Nat.zero_le _
  rw [List.countP_set hlt]
  omega

theorem two_le_countP {i j : ℕ} {a b : α} {q : α → Bool} (hi : l[i]? = some a)
    (hj : l[j]? = some b) (hne : i ≠ j) (ha : q a = true) (hb : q b = true) : 2 ≤ l.countP q := by
  induction l generalizing i j with
  | nil => cases hi
  | cons x l ih =>
  have hpos : ∀ {k : ℕ} {c : α}, l[k]? = some c → q c = true → 1 ≤ l.countP q := fun hk hc =>
    countP_pos_iff.mpr ⟨_, mem_of_getElem? hk, hc⟩
  cases i with
  | zero =>
    cases j with
    | zero => exact absurd rfl hne
    | succ j =>
      obtain rfl := some.inj hi
      rw [countP_cons_of_pos ha]
      exact Nat.succ_le_succ (hpos hj hb)
  | succ i =>
  cases j with
  | zero =>
    obtain rfl := some.inj hj
    rw [countP_cons_of_pos hb]
    exact Nat.succ_le_succ (hpos hi ha)
  | succ j =>
    rw [countP_cons]
    exact (ih hi hj (fun h => hne (congrArg Nat.succ h))).trans (Nat.le_add_right _ _)

end

theorem Pool.three_le_strongCount {p : Pool Value} {mailbox : String} {i j n : ℕ}
    {t u : Thread Value}
    (hget : p.notifiers.get mailbox = some n) (hi : p.threads[i]? = some t)
    (hj : p.threads[j]? = some u) (hne : i ≠ j) (ht : t.stage.holds = some n)
    (hu : u.stage.holds = some n) : 3 ≤ p.toShared.strongCount p.held n := by
  have hmap : 1 ≤ (p.notifiers.keys.filter fun m => p.notifiers.get m = some n).card := by
    refine Finset.card_pos.mpr ⟨mailbox, ?_⟩
    exact Finset.mem_filter.mpr ⟨FMap.mem_keys_iff.mpr ⟨n, hget⟩, hget⟩
  have hheld : 2 ≤ p.held n := two_le_countP hi hj hne (by rw [ht, beq_self_eq_true])
    (by rw [hu, beq_self_eq_true])
  exact Nat.add_le_add hmap hheld

section

variable {stage : CallStage} {n : ℕ}

theorem CallStage.holds_of_listens (h : stage.listens = some n) : stage.holds = some n := by
  cases stage <;> first | exact h | cases h

theorem CallStage.holds_of_watches {generation : UInt64}
    (h : stage.watches = some (n, generation)) : stage.holds = some n := by
  cases stage <;> first | exact congrArg (Option.map Prod.fst) h | cases h

theorem CallStage.listens_of_sleeps {generation : UInt64}
    (h : stage.sleeps = some (n, generation)) :
    stage.listens = some n ∧ stage.watches = some (n, generation) := by
  cases stage with
  | drained m g =>
    obtain ⟨rfl, rfl⟩ := Prod.mk.inj (some.inj h)
    exact ⟨rfl, rfl⟩
  | waiting m g =>
    obtain ⟨rfl, rfl⟩ := Prod.mk.inj (some.inj h)
    exact ⟨rfl, rfl⟩
  | _ => cases h

end

/-! ### The invariant -/

/-- **What holds of the threads and the notifiers at any time.** -/
structure Pool.Sound (p : Pool Value) : Prop where
  /-- References are to notifiers that were made. -/
  held_lt : ∀ (i : ℕ) (t : Thread Value) (n : ℕ), p.threads[i]? = some t →
    t.stage.holds = some n → n < p.made
  map_lt : ∀ mailbox n, p.notifiers.get mailbox = some n → n < p.made
  /-- The notifier a fetch listens to is the one that stores look up. -/
  listed : ∀ (i : ℕ) (t : Thread Value) (n : ℕ), p.threads[i]? = some t →
    t.stage.listens = some n → p.notifiers.get t.request.recipient = some n
  /-- What a fetch has observed is not ahead of the notifier. -/
  seen : ∀ (i : ℕ) (t : Thread Value) (n : ℕ) (generation : UInt64), p.threads[i]? = some t →
    t.stage.watches = some (n, generation) →
    generation.toNat ≤ (p.signals n).generation.toNat
  /-- Each generation, and each one still owed, has an id of its own. -/
  room : ∀ n, (p.signals n).generation.toNat + p.threads.countP (fun t => t.stage.owesSignal) ≤
    idsDrawn p.storage
  ids_left : idsDrawn p.storage ≤ i64Max + 1

namespace Pool.Sound

variable {p p' : Pool Value}

section

variable (hp : p.Sound)

include hp

theorem succ_generation {i n : ℕ} {t : Thread Value} (ht : p.threads[i]? = some t)
    (howes : t.stage.owesSignal = true) :
    ((p.signals n).generation + 1).toNat = (p.signals n).generation.toNat + 1 := by
  have hcount : 1 ≤ p.threads.countP fun t => t.stage.owesSignal :=
    countP_pos_iff.mpr ⟨t, mem_of_getElem? ht, howes⟩
  have hroom := hp.room n
  have hleft := hp.ids_left
  have hsmall : (p.signals n).generation.toNat + 1 ≤ i64Max + 1 := by omega
  exact Nat.mod_eq_of_lt (hsmall.trans_lt (by decide))

theorem generation_le {i n : ℕ} {t : Thread Value} {sh : Shared} {stage : CallStage}
    (ht : p.threads[i]? = some t)
    (h : Moves serde cfg choice p.toShared p.held t.request t.stage sh stage) (hn : n < p.made) :
    (p.signals n).generation.toNat ≤ (sh.signals n).generation.toNat := by
  rcases h.generation_cases hn with heq | ⟨hstage, -, heq⟩
  · rw [heq]
  have howes : t.stage.owesSignal = true := by
    rw [hstage]
    rfl
  rw [heq, hp.succ_generation ht howes]
  exact Nat.le_succ _

theorem listed_kept {i j n : ℕ} {t u : Thread Value} {sh : Shared} {stage : CallStage}
    (ht : p.threads[i]? = some t)
    (h : Moves serde cfg choice p.toShared p.held t.request t.stage sh stage)
    (hu : p.threads[j]? = some u) (hlistens : u.stage.listens = some n) :
    sh.notifiers.get u.request.recipient = some n := by
  have hget := hp.listed j u n hu hlistens
  rcases h.get_kept hget with hkept | ⟨-, hholds, hnone, hcount⟩
  · exact hkept
  exfalso
  by_cases heq : i = j
  · subst heq
    obtain rfl := some.inj (ht.symm.trans hu)
    rw [hnone] at hlistens
    cases hlistens
  · have hthree := Pool.three_le_strongCount hget ht hu heq hholds
      (CallStage.holds_of_listens hlistens)
    omega

theorem map_lt_after {t : Thread Value} {sh : Shared} {stage : CallStage}
    (h : Moves serde cfg choice p.toShared p.held t.request t.stage sh stage) {mailbox : String}
    {n : ℕ} (hget : sh.notifiers.get mailbox = some n) : n < sh.made := by
  rcases h.get_cases hget with hbefore | ⟨-, hlt⟩
  · exact (hp.map_lt mailbox n hbefore).trans_le h.made_le
  · exact hlt

theorem moves {i : ℕ} {t : Thread Value} {sh : Shared} {stage : CallStage}
    (ht : p.threads[i]? = some t)
    (h : Moves serde cfg choice p.toShared p.held t.request t.stage sh stage) :
    Pool.Sound { sh with threads := p.threads.set i { t with stage } } where
  held_lt := by
    intro j u n hu hholds
    rcases getElem?_set_cases hu with ⟨-, rfl⟩ | ⟨-, hu⟩
    · rcases h.holds_cases hholds with hbefore | hget
      · exact (hp.held_lt i t n ht hbefore).trans_le h.made_le
      · exact hp.map_lt_after h hget
    · exact (hp.held_lt j u n hu hholds).trans_le h.made_le
  map_lt := fun mailbox n hget => hp.map_lt_after h hget
  listed := by
    intro j u n hu hlistens
    rcases getElem?_set_cases hu with ⟨-, rfl⟩ | ⟨-, hu⟩
    · show sh.notifiers.get t.request.recipient = some n
      rcases h.listens_cases hlistens with hbefore | hget
      · exact hp.listed_kept ht h ht hbefore
      · exact hget
    · exact hp.listed_kept ht h hu hlistens
  seen := by
    intro j u n generation hu hwatches
    have hkept : ∀ {j : ℕ} {u : Thread Value}, p.threads[j]? = some u →
        u.stage.watches = some (n, generation) →
        generation.toNat ≤ (sh.signals n).generation.toNat := by
      intro j u hu hwatches
      have hn := hp.held_lt j u n hu (CallStage.holds_of_watches hwatches)
      exact (hp.seen j u n generation hu hwatches).trans (hp.generation_le ht h hn)
    rcases getElem?_set_cases hu with ⟨-, rfl⟩ | ⟨-, hu⟩
    · rcases h.watches_cases hwatches with hbefore | ⟨rfl, rfl⟩
      · exact hkept ht hbefore
      · exact le_rfl
    · exact hkept hu hwatches
  room := by
    intro n
    have hroom := hp.room n
    have hmove := h.room hp.ids_left n
    have hcount : (p.threads.set i { t with stage }).countP (fun t => t.stage.owesSignal) +
          (if t.stage.owesSignal then 1 else 0) =
        p.threads.countP (fun t => t.stage.owesSignal) + (if stage.owesSignal then 1 else 0) :=
      countP_set_add (fun t : Thread Value => t.stage.owesSignal) _ ht
    show (sh.signals n).generation.toNat +
      (p.threads.set i { t with stage }).countP (fun t => t.stage.owesSignal) ≤ idsDrawn sh.storage
    omega
  ids_left := h.storage_le hp.ids_left

theorem step (h : PoolStep serde cfg choice p p') : p'.Sound := by
  cases h with
  | same => exact hp
  | enters request =>
    refine ⟨?_, hp.map_lt, ?_, ?_, ?_, hp.ids_left⟩
    · intro j u n hu hholds
      rcases getElem?_concat_cases hu with hu | rfl
      · exact hp.held_lt j u n hu hholds
      · cases hholds
    · intro j u n hu hlistens
      rcases getElem?_concat_cases hu with hu | rfl
      · exact hp.listed j u n hu hlistens
      · cases hlistens
    · intro j u n generation hu hwatches
      rcases getElem?_concat_cases hu with hu | rfl
      · exact hp.seen j u n generation hu hwatches
      · cases hwatches
    · intro n
      rw [countP_append]
      exact hp.room n
  | serves op =>
    obtain ⟨hgrows, hleft⟩ := @idsDrawn_step _ serde cfg choice p.storage op hp.ids_left
    exact ⟨hp.held_lt, hp.map_lt, hp.listed, hp.seen, fun n => (hp.room n).trans hgrows, hleft⟩
  | moves ht h => exact hp.moves ht h

end

theorem starting (ops : List (Op Value)) : (Pool.starting serde cfg choice ops).Sound where
  held_lt := fun _ _ _ ht => nomatch ht
  map_lt := fun _ _ hget => nomatch hget
  listed := fun _ _ _ ht => nomatch ht
  seen := fun _ _ _ _ ht => nomatch ht
  room := fun _ => Nat.zero_le _
  ids_left := by
    refine Machine.run_induction (I := fun storage => idsDrawn storage ≤ i64Max + 1) ?_ ?_
    · intro storage op _ hle
      exact (idsDrawn_step storage op hle).2
    · show Database.empty.nextId ≤ i64Max + 1
      decide

theorem run {m : List (PoolAct Value)} (hp : p.Sound) :
    ((pool serde cfg choice).run p m).Sound :=
  Machine.run_induction (fun _ act _ hq => hq.step (pool_step _ act)) hp

end Pool.Sound

/-! ### Waking -/

/-- **The store of thread `s` wakes the fetch of thread `f`**: while the fetch sleeps, the store
still owes its signal, or the notifier has moved on. -/
def Pool.Wakes (s f : ℕ) (store poll : Request Value) (p : Pool Value) : Prop :=
  ∃ storeStage pollStage, p.threads[s]? = some ⟨store, storeStage⟩ ∧
    p.threads[f]? = some ⟨poll, pollStage⟩ ∧ pollStage.pastFirstDrain = true ∧
      ∀ n generation, pollStage.sleeps = some (n, generation) →
        storeStage = .committed ∨ storeStage = .notifying n ∨
          generation.toNat < (p.signals n).generation.toNat

/-- **Every act keeps a wake-up.** The store finds the notifier the fetch listens to, counts it on,
and from then on the generation only grows. -/
theorem Pool.Wakes.step {s f : ℕ} {store poll : Request Value} {p p' : Pool Value}
    (hwakes : p.Wakes s f store poll) (hp : p.Sound) (hne : s ≠ f)
    (hmailbox : store.recipient = poll.recipient) (h : PoolStep serde cfg choice p p') :
    p'.Wakes s f store poll := by
  obtain ⟨storeStage, pollStage, hs, hf, hpast, hsignal⟩ := hwakes
  cases h with
  | same => exact ⟨storeStage, pollStage, hs, hf, hpast, hsignal⟩
  | enters request =>
    refine ⟨storeStage, pollStage, ?_, ?_, hpast, hsignal⟩
    · exact List.getElem?_append_left (List.getElem?_eq_some_iff.mp hs).1 |>.trans hs
    · exact List.getElem?_append_left (List.getElem?_eq_some_iff.mp hf).1 |>.trans hf
  | serves op => exact ⟨storeStage, pollStage, hs, hf, hpast, hsignal⟩
  | @moves i t sh stage ht h =>
  have hlater : ∀ n generation, pollStage.sleeps = some (n, generation) →
      generation.toNat < (p.signals n).generation.toNat →
      generation.toNat < (sh.signals n).generation.toNat := by
    intro n generation hsleeps hlt
    have hlistens := (CallStage.listens_of_sleeps hsleeps).1
    have hn := hp.held_lt f _ n hf (CallStage.holds_of_listens hlistens)
    exact hlt.trans_le (hp.generation_le ht h hn)
  have hlength := (List.getElem?_eq_some_iff.mp ht).1
  by_cases his : i = s
  · -- the store runs: it finds the notifier in the map, and counts its generation on
    subst his
    obtain rfl := some.inj (ht.symm.trans hs)
    refine ⟨stage, pollStage, ?_, ?_, hpast, ?_⟩
    · rw [getElem?_set_self hlength]
    · rw [getElem?_set_ne hne, hf]
    intro n generation hsleeps
    obtain ⟨hlistens, hwatches⟩ := CallStage.listens_of_sleeps hsleeps
    have hlisted : p.notifiers.get poll.recipient = some n := hp.listed f _ n hf hlistens
    rcases hsignal n generation hsleeps with hcommitted | hnotifying | hlt
    · rcases h.of_committed hcommitted with hstage | hnone | ⟨n', hget, hstage⟩
      · exact .inl hstage
      · rw [hmailbox, hlisted] at hnone
        cases hnone
      · rw [hmailbox, hlisted] at hget
        obtain rfl := some.inj hget
        exact .inr (.inl hstage)
    · rcases h.of_notifying hnotifying with hstage | hgeneration
      · exact .inr (.inl hstage)
      · right; right
        have howes : CallStage.owesSignal storeStage = true := by
          rw [hnotifying]
          rfl
        show generation.toNat < (sh.signals n).generation.toNat
        rw [hgeneration, hp.succ_generation ht howes]
        exact Nat.lt_succ_of_le (hp.seen f _ n generation hf hwatches)
    · exact .inr (.inr (hlater n generation hsleeps hlt))
  · have hs' : (p.threads.set i { t with stage })[s]? = some ⟨store, storeStage⟩ := by
      rw [getElem?_set_ne his, hs]
    by_cases hif : i = f
    · -- the fetch runs: it does not fall asleep again
      subst hif
      obtain rfl := some.inj (ht.symm.trans hf)
      obtain ⟨hpast', hsleeps'⟩ := h.past hpast
      refine ⟨storeStage, stage, hs', ?_, hpast', ?_⟩
      · rw [getElem?_set_self hlength]
      · intro n generation hsleeps
        have hsleeps := hsleeps' _ hsleeps
        exact (hsignal n generation hsleeps).imp_right
          (Or.imp_right (hlater n generation hsleeps))
    · refine ⟨storeStage, pollStage, hs', ?_, hpast, ?_⟩
      · rw [getElem?_set_ne hif, hf]
      · intro n generation hsleeps
        exact (hsignal n generation hsleeps).imp_right
          (Or.imp_right (hlater n generation hsleeps))

/-- Where the fetch of thread `f` is about to wait, or waits, its notifier has moved on from the
generation it observed, and its next section takes it to the second drain. -/
def Pool.Roused (serde : Serde Value) (cfg : RelayConfig) (choice : HolderChoice) (f : ℕ)
    (request : PollRequest) (stage : CallStage) (p : Pool Value) : Prop :=
  ∀ n generation, stage.sleeps = some (n, generation) →
    (p.signals n).generation ≠ generation ∧
      ∀ tick, (p.advance serde cfg choice f tick).threads[f]? = some ⟨.poll request, .woken n⟩

theorem Pool.Wakes.over {s f : ℕ} {store : Request Value} {request : PollRequest} {p : Pool Value}
    (hwakes : p.Wakes s f store (.poll request)) :
    ∃ storeStage pollStage, p.threads[s]? = some ⟨store, storeStage⟩ ∧
      p.threads[f]? = some ⟨.poll request, pollStage⟩ ∧
        (storeStage.isOver = true → p.Roused serde cfg choice f request pollStage) := by
  obtain ⟨storeStage, pollStage, hs, hf, -, hsignal⟩ := hwakes
  refine ⟨storeStage, pollStage, hs, hf, ?_⟩
  intro hover n generation hsleeps
  have hmoved : (p.signals n).generation ≠ generation := by
    rintro rfl
    rcases hsignal n _ hsleeps with rfl | rfl | hlt
    · cases hover
    · cases hover
    · exact absurd hlt (Nat.lt_irrefl _)
  refine ⟨hmoved, fun tick => ?_⟩
  have hlength := (List.getElem?_eq_some_iff.mp hf).1
  rw [Pool.advance, hf]
  show (p.threads.set f _)[f]? = _
  rw [List.getElem?_set_self hlength]
  cases pollStage with
  | drained m g =>
    obtain ⟨rfl, rfl⟩ := Prod.mk.inj (Option.some.inj hsleeps)
    rw [Shared.runSection, Shared.poll, if_neg hmoved]
  | waiting m g =>
    obtain ⟨rfl, rfl⟩ := Prod.mk.inj (Option.some.inj hsleeps)
    rw [Shared.runSection, Shared.poll, if_pos (Or.inl hmoved)]
  | _ => cases hsleeps

/-- **Long polls lose no wake-up.** Say a store commits an entry at position `i` of a run, and a
fetch on that mailbox is past its first drain by then. Whenever the store is over, the fetch is not
waiting, nor about to wait, on the generation its notifier has. And no act takes out of the map a
notifier that a fetch holds between its registration and its second drain. -/
theorem no_lost_wakeup (ops : List (Op Value)) (acts : List (PoolAct Value)) :
    (∀ (i k s f : ℕ) (tick : Tick) (p p' q : Pool Value) (source recipient : String)
        (envelope : Value) (request : PollRequest) (stage : CallStage),
      (pool serde cfg choice).StepAt (Pool.starting serde cfg choice ops) acts i p
        (.advance s tick) () p' →
      p.threads[s]? = some ⟨.store source recipient envelope, .entered⟩ →
      p'.threads[s]? = some ⟨.store source recipient envelope, .committed⟩ →
      p.threads[f]? = some ⟨.poll request, stage⟩ → request.recipient = recipient →
      stage.pastFirstDrain = true → i < k →
      (pool serde cfg choice).run (Pool.starting serde cfg choice ops) (acts.take k) = q →
      ∃ storeStage pollStage,
        q.threads[s]? = some ⟨.store source recipient envelope, storeStage⟩ ∧
          q.threads[f]? = some ⟨.poll request, pollStage⟩ ∧
            (storeStage.isOver = true → q.Roused serde cfg choice f request pollStage)) ∧
    ∀ (i f n : ℕ) (p p' : Pool Value) (act : PoolAct Value) (t : Thread Value),
      (pool serde cfg choice).StepAt (Pool.starting serde cfg choice ops) acts i p act () p' →
      p.threads[f]? = some t → t.stage.listens = some n →
      p.notifiers.get t.request.recipient = some n ∧
        p'.notifiers.get t.request.recipient = some n := by
  constructor
  · rintro i k s f tick p p' q source recipient envelope request stage hat hs hs' hf hmailbox hpast
      hik rfl
    have hp : p.Sound := hat.before ▸ (Pool.Sound.starting ops).run
    have hp' : p'.Sound := hat.after ▸ (Pool.Sound.starting ops).run
    have hne : s ≠ f := by
      rintro rfl
      cases hs.symm.trans hf
    -- the fetch is where it was, and the store owes its signal
    have hf' : p'.threads[f]? = some ⟨.poll request, stage⟩ := by
      have hstep : p' = p.advance serde cfg choice s tick := (congrArg Prod.fst hat.step).symm
      rw [hstep, Pool.advance, hs]
      exact (getElem?_set_ne hne).trans hf
    have hwakes : p'.Wakes s f (.store source recipient envelope) (.poll request) :=
      ⟨.committed, stage, hs', hf', hpast, fun _ _ _ => .inl rfl⟩
    have hsplit : acts.take k = acts.take (i + 1) ++ (acts.take k).drop (i + 1) := by
      calc acts.take k = (acts.take k).take (i + 1) ++ (acts.take k).drop (i + 1) :=
            (take_append_drop _ _).symm
        _ = acts.take (i + 1) ++ (acts.take k).drop (i + 1) := by
            rw [take_take, min_eq_left hik]
    rw [hsplit, Machine.run_append, hat.after]
    refine Pool.Wakes.over (Machine.run_induction
      (I := fun q => Pool.Sound q ∧ q.Wakes s f (.store source recipient envelope) (.poll request))
      ?_ ⟨hp', hwakes⟩).2
    intro q act _ hq
    have hstep := @pool_step _ serde cfg choice q act
    exact ⟨hq.1.step hstep, hq.2.step hq.1 hne hmailbox.symm hstep⟩
  · intro i f n p p' act t hat hf hlistens
    have hp : p.Sound := hat.before ▸ (Pool.Sound.starting ops).run
    have hstep : PoolStep serde cfg choice p p' := by
      have h := @pool_step _ serde cfg choice p act
      rwa [hat.step] at h
    refine ⟨hp.listed f t n hf hlistens, ?_⟩
    cases hstep with
    | same => exact hp.listed f t n hf hlistens
    | enters request => exact hp.listed f t n hf hlistens
    | serves op => exact hp.listed f t n hf hlistens
    | moves ht h => exact hp.listed_kept ht h hf hlistens

end Pool

/-! ### A fetch that is woken -/

namespace Sample

def waitingFetch : PollRequest where
  recipient := "box"
  limit := none
  waitMs := some 1000
  lease := none

def tick : Tick where
  clock := clock
  leaseId := "lease"
  timedOut := false

def wakingRun : List (PoolAct Json) :=
  [.enter (.poll waitingFetch), .advance 0 tick, .advance 0 tick, .advance 0 tick, .advance 0 tick,
    .enter (.store "" "box" .empty), .advance 1 tick, .advance 1 tick, .advance 1 tick]

theorem wakingRun_roused :
    ∃ q, (pool json twoPerMailbox HolderChoice.first).run
        (Pool.starting json twoPerMailbox HolderChoice.first []) wakingRun = q ∧
      q.threads[0]? = some ⟨.poll waitingFetch, .waiting 0 0⟩ ∧
        q.Roused json twoPerMailbox HolderChoice.first 0 waitingFetch (.waiting 0 0) ∧
          q.notifiers.get "box" = some 0 := by
  have hat : ∀ i (hi : i < wakingRun.length), (pool json twoPerMailbox HolderChoice.first).StepAt
      (Pool.starting json twoPerMailbox HolderChoice.first []) wakingRun i _ _ () _ :=
    fun i hi => Machine.stepAt_run hi
  obtain ⟨hwake, hkeep⟩ := @no_lost_wakeup _ json twoPerMailbox HolderChoice.first [] wakingRun
  obtain ⟨storeStage, pollStage, hs, hf, hroused⟩ := hwake 6 9 1 0 tick _ _ _ "" "box" .empty
    waitingFetch (.waiting 0 0) (hat 6 (by decide)) rfl rfl rfl rfl rfl (by decide) rfl
  have hstage : CallStage.leaving 0 Reply.stored = storeStage :=
    congrArg Thread.stage (some.inj hs)
  have hpoll : CallStage.waiting 0 0 = pollStage := congrArg Thread.stage (some.inj hf)
  subst hstage hpoll
  exact ⟨_, rfl, rfl, hroused rfl, (hkeep 8 0 0 _ _ _ _ (hat 8 (by decide)) rfl rfl).2⟩

end Sample

end Relay
end Conest
