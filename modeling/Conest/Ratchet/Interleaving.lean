import Conest.Lib.FMap
import Conest.Lib.Machine
import Conest.Ratchet.Sessions

/-!
# Operations in flight

The calls of one peer wait for each other (`_withPeer`), and so do the sections that use the account
(`_withAccount`). Calls of different peers interleave at their awaits, a store call may fail, and the
process may stop at any point and start again on what is stored. `machine` is that system. Its
inputs choose the interleaving: which call is made, which awaited future completes and how, and when
the process crashes. Between two awaits Dart runs a piece
of code without interruption; here other calls may get in between, so there are more runs, not
fewer.
-/

namespace Conest
namespace Ratchet

open Lib

/-- The calls on a peer. -/
inductive PeerCall where
  | encrypt (plaintext : Bytes)
  | decrypt (message : RatchetMessage) (peerIdentityKey : Option DartString)
  | startSession (bundle : RatchetBundle)
  | rememberPeerIdentity (identityKey : DartString)
  | hasSession
  | confirmedAt
  | sendBulkKey
  | rememberReceivedBulkKey (key : RatchetBulkKey)
  | receivedBulkKey (id : DartString)
  | forget
deriving DecidableEq

/-- The calls on the account alone. -/
inductive AccountCall where
  | identityKey
  | createBundle (oneTimeKey : Bool)
  | rotateFallbackKey
deriving DecidableEq

inductive AccountValue where
  | key (key : DartString)
  | bundle (bundle : RatchetBundle)
deriving DecidableEq

section Calls

variable {Account Session : Type} (olm : Vodozemac Account Session) (cipher : BulkCipher)

def PeerCall.prog (peerDeviceId : DartString) : PeerCall → Prog Account Session
  | .encrypt plaintext => Ratchet.encrypt olm peerDeviceId plaintext
  | .decrypt message peerIdentityKey => Ratchet.decrypt olm message peerIdentityKey
  | .startSession bundle => Ratchet.startSession olm bundle
  | .rememberPeerIdentity identityKey => Ratchet.rememberPeerIdentity identityKey
  | .hasSession => Ratchet.hasSession
  | .confirmedAt => Ratchet.confirmedAt
  | .sendBulkKey => Ratchet.sendBulkKey cipher peerDeviceId
  | .rememberReceivedBulkKey key => Ratchet.rememberReceivedBulkKey cipher peerDeviceId key
  | .receivedBulkKey id => Ratchet.receivedBulkKey cipher peerDeviceId id
  | .forget => Ratchet.forget

def engineResult {α : Type} : Except String α → Except Failure α
  | .ok value => .ok value
  | .error message => .error (.engine message)

def AccountCall.act (env : Ambient) (account : Account) :
    AccountCall → Except Failure (Account × AccountValue)
  | .identityKey =>
    engineResult ((olm.bundle env.entropy account false).map fun result =>
      (result.1, .key result.2.identityKey))
  | .createBundle oneTimeKey =>
    engineResult ((olm.bundle env.entropy account oneTimeKey).map fun result =>
      (result.1, .bundle result.2))
  | .rotateFallbackKey =>
    engineResult ((olm.rotateFallback env.entropy account).map fun result =>
      (result.1, .key result.2))

end Calls

/-! ### The account's section -/

/-- How an awaited store call completes: it fails with or without its effect on the disk. A crash
during a write that has reached the disk is a late failure and then a crash. -/
inductive Completion where
  | succeeds
  | fails
  | failsLate
deriving DecidableEq

/-- Where a section on the account stands: its read, the write of a new account or the write of the
updated one is awaited. -/
inductive Phase (Account α : Type) where
  | reading
  | creating (account : Account)
  | updating (account : Account) (value : α)

/-- How a section goes on when what it awaited has come. -/
inductive Progress (Account α : Type) where
  | waits (phase : Phase Account α)
  | fails (failure : Failure)
  | passes (value : α)

section Sections

variable {Account Session α : Type} [DecidableEq Account] (olm : Vodozemac Account Session)

/-- The account is written only if the action changed it. -/
def runAction (act : Ambient → Account → Except Failure (Account × α)) (env : Ambient)
    (account : Account) : Progress Account α :=
  match act env account with
  | .error failure => .fails failure
  | .ok (updated, value) =>
    if updated = account then .passes value else .waits (.updating updated value)

/-- The next phase of a section, and the account that is stored then. -/
def proceed (act : Ambient → Account → Except Failure (Account × α)) (env : Ambient)
    (completion : Completion) (stored : Option Account) (phase : Phase Account α) :
    Progress Account α × Option Account :=
  match phase, completion with
  | .reading, .succeeds =>
    match stored with
    | some account => (runAction act env account, stored)
    | none => (.waits (.creating (olm.newAccount env.entropy)), stored)
  | .creating account, .succeeds => (runAction act env account, some account)
  | .creating account, .failsLate => (.fails .store, some account)
  | .updating account value, .succeeds => (.passes value, some account)
  | .updating account _, .failsLate => (.fails .store, some account)
  | _, _ => (.fails .store, stored)

end Sections

/-! ### The state -/

/-- What the running call of a peer awaits. -/
inductive Running (Account Session : Type) where
  | at (prog : Prog Account Session)
  | reading (k : Option (RatchetPeerState Session) → Prog Account Session)
  | onAccount (act : Ambient → Account → Except Failure (Account × Prog Account Session))
      (phase : Phase Account (Prog Account Session))
  | writing (state : RatchetPeerState Session) (opened : Option DartString) (result : Value Session)
  | deleting

structure Task (Account Session : Type) where
  call : PeerCall
  running : Running Account Session

/-- Who waits for the account. -/
inductive Section (Account : Type) where
  | peer (peerDeviceId : DartString)
  | direct (call : AccountCall) (phase : Phase Account AccountValue)

structure RatchetStore (Account Session : Type) where
  account : Option Account
  peers : FMap DartString (RatchetPeerState Session)

/-- The store, which survives a crash, and the memory of the process. The calls of a peer stand in
the order in which they were made, the running one first. -/
structure World (Account Session : Type) where
  store : RatchetStore Account Session
  peerCache : DartString → Option (Option (RatchetPeerState Session))
  peerTails : DartString → List (Task Account Session)
  accountTail : List (Section Account)

inductive Input where
  | call (peerDeviceId : DartString) (call : PeerCall)
  | callAccount (call : AccountCall)
  | resume (peerDeviceId : DartString) (env : Ambient) (completion : Completion)
  | resumeAccount (env : Ambient) (completion : Completion)
  | crash

inductive Output (Session : Type) where
  | peer (peerDeviceId : DartString) (call : PeerCall) (result : Except Failure (Value Session))
  | account (call : AccountCall) (result : Except Failure AccountValue)
deriving DecidableEq

namespace World

variable {Account Session : Type}

def initial : World Account Session where
  store := ⟨none, FMap.empty⟩
  peerCache _ := none
  peerTails _ := []
  accountTail := []

section Update

variable (w : World Account Session) (peer : DartString)

def setTail (tasks : List (Task Account Session)) : World Account Session :=
  { w with peerTails := fun p => if p = peer then tasks else w.peerTails p }

def setCache (entry : Option (Option (RatchetPeerState Session))) : World Account Session :=
  { w with peerCache := fun p => if p = peer then entry else w.peerCache p }

/-- Store a peer's state, or nothing. -/
def setStored (state : Option (RatchetPeerState Session)) : World Account Session :=
  { w with store := { w.store with
      peers := match state with
        | some state => w.store.peers.insert peer state
        | none => w.store.peers.retain fun p _ => decide (p ≠ peer) } }

end Update

variable [DecidableEq Account] (olm : Vodozemac Account Session) (cipher : BulkCipher)

/-- The call at the head of a peer's queue goes on. -/
def goOn (w : World Account Session) (peer : DartString) (task : Task Account Session)
    (rest : List (Task Account Session)) (running : Running Account Session) :
    World Account Session × Option (Output Session) :=
  (w.setTail peer ({ task with running := running } :: rest), none)

/-- It returns, and the next one may start. -/
def finish (w : World Account Session) (peer : DartString) (task : Task Account Session)
    (rest : List (Task Account Session)) (result : Except Failure (Value Session)) :
    World Account Session × Option (Output Session) :=
  (w.setTail peer rest, some (.peer peer task.call result))

/-- Run the code up to its next await. A write or a deletion takes the peer out of the cache
first. -/
def start (w : World Account Session) (peer : DartString) (task : Task Account Session)
    (rest : List (Task Account Session)) (env : Ambient) :
    Prog Account Session → World Account Session × Option (Output Session)
  | .done result => w.finish peer task rest result
  | .ambient k => w.goOn peer task rest (.at (k env))
  | .pause k => w.goOn peer task rest (.at k)
  | .readPeer k =>
    match w.peerCache peer with
    | some state => w.goOn peer task rest (.at (k state))
    | none => w.goOn peer task rest (.reading k)
  | .withAccount act =>
    World.goOn { w with accountTail := w.accountTail ++ [.peer peer] } peer task rest
      (.onAccount act .reading)
  | .writePeer state opened result =>
    (w.setCache peer none).goOn peer task rest (.writing state opened result)
  | .deletePeer => (w.setCache peer none).goOn peer task rest .deleting

/-- What the running call of a peer awaits has come, or failed. A section on the account does not
move here. -/
def resume (w : World Account Session) (peer : DartString) (env : Ambient)
    (completion : Completion) : World Account Session × Option (Output Session) :=
  match w.peerTails peer with
  | [] => (w, none)
  | task :: rest =>
    match task.running, completion with
    | .at prog, _ => w.start peer task rest env prog
    | .onAccount _ _, _ => (w, none)
    | .reading k, .succeeds =>
      let state := w.store.peers.get peer
      (w.setCache peer (some state)).goOn peer task rest (.at (k state))
    | .writing state _ result, .succeeds =>
      ((w.setStored peer (some state)).setCache peer (some (some state))).finish peer task rest
        (.ok result)
    | .writing state _ _, .failsLate =>
      (w.setStored peer (some state)).finish peer task rest (.error .store)
    | .deleting, .succeeds =>
      ((w.setStored peer none).setCache peer (some none)).finish peer task rest (.ok .nothing)
    | .deleting, .failsLate =>
      (w.setStored peer none).finish peer task rest (.error .store)
    | _, _ => w.finish peer task rest (.error .store)

/-- The section at the head of the account's queue goes on. -/
def resumeAccount (w : World Account Session) (env : Ambient) (completion : Completion) :
    World Account Session × Option (Output Session) :=
  match w.accountTail with
  | [] => (w, none)
  | .direct call phase :: waiting =>
    let (progress, account) := proceed olm (fun env account => call.act olm env account) env
      completion w.store.account phase
    let w := { w with store := { w.store with account := account } }
    match progress with
    | .waits phase => ({ w with accountTail := .direct call phase :: waiting }, none)
    | .fails failure => ({ w with accountTail := waiting }, some (.account call (.error failure)))
    | .passes value => ({ w with accountTail := waiting }, some (.account call (.ok value)))
  | .peer peer :: waiting =>
    match w.peerTails peer with
    | ⟨call, .onAccount act phase⟩ :: rest =>
      let (progress, account) := proceed olm act env completion w.store.account phase
      let w := { w with store := { w.store with account := account } }
      match progress with
      | .waits phase => w.goOn peer ⟨call, .onAccount act phase⟩ rest (.onAccount act phase)
      | .fails failure =>
        World.finish { w with accountTail := waiting } peer ⟨call, .onAccount act phase⟩ rest
          (.error failure)
      | .passes prog =>
        World.goOn { w with accountTail := waiting } peer ⟨call, .onAccount act phase⟩ rest
          (.at prog)
    | _ => ({ w with accountTail := waiting }, none)

/-- The process stops and starts again: only the store is left. -/
def crash (w : World Account Session) : World Account Session :=
  { World.initial with store := w.store }

end World

/-- The system of the calls, the store and the crashes. -/
def machine {Account Session : Type} [DecidableEq Account] (olm : Vodozemac Account Session)
    (cipher : BulkCipher) : Machine (World Account Session) Input (Option (Output Session)) where
  step w
    | .call peer call =>
      (w.setTail peer (w.peerTails peer ++ [⟨call, .at (call.prog olm cipher peer)⟩]), none)
    | .callAccount call =>
      ({ w with accountTail := w.accountTail ++ [.direct call .reading] }, none)
    | .resume peer env completion => w.resume peer env completion
    | .resumeAccount env completion => w.resumeAccount olm env completion
    | .crash => (w.crash, none)

end Ratchet
end Conest
