import Conest.Ratchet.Olm

/-!
# The operations of `RatchetSessions`

An operation reads the state of a peer, takes a step of the ratchet and writes the successor before
it returns. `Prog` is such an operation up to its awaits: what it does next is a function of what
comes back. Every operation returns right after its only write, so a write carries the result, and a
store call that fails ends the operation.

`Value` and `RatchetStep` are what the operations return. The `RatchetStep` of a ciphertext or a
plaintext is not part of the source's result: it names the session, the pickle that the step was
taken from and its successor. Likewise `Prog.writePeer` notes the session that a write opens.
-/

namespace Conest
namespace Ratchet

open Lib

structure RatchetSessionState (Session : Type) where
  sessionId : DartString
  pickle : Session
  createdAtMs : ℤ
  lastUsedAtMs : ℤ
deriving DecidableEq

def RatchetSessionState.used {Session : Type} (state : RatchetSessionState Session)
    (pickle : Session) (nowMs : ℤ) : RatchetSessionState Session :=
  { state with pickle := pickle, lastUsedAtMs := nowMs }

/-- A symmetric key for frames to or from one peer. -/
structure RatchetBulkKey where
  id : DartString
  key : Bytes
  createdAtMs : ℤ
deriving DecidableEq

structure BulkRing where
  sent : List RatchetBulkKey
  received : List RatchetBulkKey
deriving DecidableEq

/-- Everything stored for one peer device, the most recently used session first. `bulkKeys` is the
sealed ring. -/
structure RatchetPeerState (Session : Type) where
  peerIdentityKey : Option DartString
  sessions : List (RatchetSessionState Session)
  confirmedAtMs : Option ℤ
  bulkKeys : Option DartString
deriving DecidableEq

/-- ChaCha20-Poly1305 under the pickle key, with the ring as its plaintext. -/
structure BulkCipher where
  encryptRing : Entropy → DartString → BulkRing → DartString
  decryptRing : DartString → DartString → Except String BulkRing

/-- What a call can throw. -/
inductive Failure where
  | noSession (peerDeviceId : DartString)
  | engine (message : String)
  | decrypt (message : String)
  | cipher (message : String)
  | store
deriving DecidableEq

/-- The clock and the random bytes of one piece of synchronous code. -/
structure Ambient where
  nowMs : ℤ
  entropy : Entropy

/-- A step of the ratchet: from a pickle, or as a new session, to its successor. -/
structure RatchetStep (Session : Type) where
  sessionId : DartString
  source : Option Session
  next : Session
deriving DecidableEq

inductive Value (Session : Type) where
  | nothing
  | flag (value : Bool)
  | time (ms : Option ℤ)
  | message (message : RatchetMessage) (step : RatchetStep Session)
  | plaintext (bytes : Bytes) (step : RatchetStep Session)
  | bulkKey (key : RatchetBulkKey) (created : Bool)
  | key (bytes : Option Bytes)
deriving DecidableEq

def Value.step {Session : Type} : Value Session → Option (RatchetStep Session)
  | .message _ step => some step
  | .plaintext _ step => some step
  | _ => none

/-- An operation on one peer, up to its awaits. -/
inductive Prog (Account Session : Type) where
  | done (result : Except Failure (Value Session))
  | ambient (k : Ambient → Prog Account Session)
  | pause (k : Prog Account Session)
  | readPeer (k : Option (RatchetPeerState Session) → Prog Account Session)
  | withAccount (act : Ambient → Account → Except Failure (Account × Prog Account Session))
  | writePeer (state : RatchetPeerState Session) (opened : Option DartString)
      (result : Value Session)
  | deletePeer

/-! ### The state of a peer -/

section PeerState

variable {Session : Type}

/-- Old sessions are kept only to decrypt messages in flight. -/
def maxSessionsPerPeer : ℕ := 4

def sessionsOf (state : Option (RatchetPeerState Session)) : List (RatchetSessionState Session) :=
  (state.map RatchetPeerState.sessions).getD []

/-- Put a session first, and drop what it replaces or what no longer fits. -/
def withSession (state : Option (RatchetPeerState Session)) (session : RatchetSessionState Session)
    (peerIdentityKey : Option DartString) (confirmed : Bool) : RatchetPeerState Session :=
  let others := (sessionsOf state).filter fun existing =>
    decide (existing.sessionId ≠ session.sessionId)
  { peerIdentityKey := peerIdentityKey.or (state.bind RatchetPeerState.peerIdentityKey)
    sessions := (session :: others).take maxSessionsPerPeer
    confirmedAtMs := (state.bind RatchetPeerState.confirmedAtMs).or
      (if confirmed then some session.lastUsedAtMs else none)
    bulkKeys := state.bind RatchetPeerState.bulkKeys }

end PeerState

/-! ### The operations -/

section Operations

variable {Account Session : Type} (olm : Vodozemac Account Session)

def hasSession : Prog Account Session :=
  .readPeer fun state => .done (.ok (.flag !(sessionsOf state).isEmpty))

def confirmedAt : Prog Account Session :=
  .readPeer fun state => .done (.ok (.time (state.bind RatchetPeerState.confirmedAtMs)))

/-- A changed identity drops every session with the peer. -/
def rememberPeerIdentity (identityKey : DartString) : Prog Account Session :=
  .readPeer fun state =>
    match state.bind RatchetPeerState.peerIdentityKey, state with
    | some known, _ =>
      if known = identityKey then .done (.ok .nothing)
      else .writePeer ⟨some identityKey, [], none, none⟩ none .nothing
    | none, some state =>
      .writePeer { state with peerIdentityKey := some identityKey } none .nothing
    | none, none => .writePeer ⟨some identityKey, [], none, none⟩ none .nothing

/-- The account is read under its own lock, which is released before the session is made. -/
def startSession (bundle : RatchetBundle) : Prog Account Session :=
  .withAccount fun _ account => .ok (account, .ambient fun env =>
    match olm.outbound env.entropy account bundle.identityKey bundle.sessionKey with
    | .error e => .done (.error (.engine e))
    | .ok session => .readPeer fun state => .ambient fun env =>
      .writePeer (withSession state ⟨olm.sessionId session, session, env.nowMs, env.nowMs⟩
        (some bundle.identityKey) false) (some (olm.sessionId session)) .nothing)

def encrypt (peerDeviceId : DartString) (plaintext : Bytes) : Prog Account Session :=
  .readPeer fun state =>
    match sessionsOf state with
    | [] => .done (.error (.noSession peerDeviceId))
    | session :: _ => .ambient fun env =>
      match olm.encryptWith env.entropy session.pickle plaintext with
      | .error e => .done (.error (.engine e))
      | .ok (next, message) =>
        .writePeer (withSession state (session.used next env.nowMs) none false) none
          (.message message ⟨session.sessionId, some session.pickle, next⟩)

/-- The first stored session that decrypts a message. -/
def tryDecrypt (message : RatchetMessage) : List (RatchetSessionState Session) →
    Option (RatchetSessionState Session × Session × Bytes)
  | [] => none
  | session :: rest =>
    match olm.decryptWith session.pickle message with
    | .ok (next, plaintext) => some (session, next, plaintext)
    | .error _ => tryDecrypt message rest

/-- Open an inbound session, with the account's lock held: the account is stored first. -/
def openInbound (state : Option (RatchetPeerState Session)) (message : RatchetMessage)
    (identity : DartString) (env : Ambient) (account : Account) :
    Except Failure (Account × Prog Account Session) :=
  match olm.inbound account identity message with
  | .error e => .error (.decrypt e)
  | .ok (updated, session, plaintext) =>
    if (sessionsOf state).any fun known => decide (known.sessionId = olm.sessionId session) then
      .error (.decrypt "Replayed session opening.")
    else
      .ok (updated, .writePeer
        (withSession state ⟨olm.sessionId session, session, env.nowMs, env.nowMs⟩ (some identity)
          true)
        (some (olm.sessionId session)) (.plaintext plaintext ⟨olm.sessionId session, none, session⟩))

def decrypt (message : RatchetMessage) (peerIdentityKey : Option DartString) :
    Prog Account Session :=
  .readPeer fun state =>
    match tryDecrypt olm message (sessionsOf state) with
    | some (session, next, plaintext) => .ambient fun env =>
      .writePeer (withSession state (session.used next env.nowMs) none true) none
        (.plaintext plaintext ⟨session.sessionId, some session.pickle, next⟩)
    | none =>
      match message.opensSession, peerIdentityKey.or (state.bind RatchetPeerState.peerIdentityKey) with
      | true, some identity => .withAccount (openInbound olm state message identity)
      | _, _ => .done (.error (.decrypt "No ratchet session can decrypt this message."))

def forget : Prog Account Session := .deletePeer

end Operations

/-! ### Bulk keys -/

section BulkKeys

variable {Account Session : Type} (cipher : BulkCipher)

/-- How long one bulk key is used, in milliseconds. -/
def bulkKeyRotation : ℤ := 24 * 60 * 60 * 1000

/-- How long a received bulk key is kept, in milliseconds. -/
def receivedBulkKeyRetention : ℤ := 3 * bulkKeyRotation

def readBulkRing (peerDeviceId : DartString) (state : Option (RatchetPeerState Session))
    (k : BulkRing → Prog Account Session) : Prog Account Session :=
  match state.bind RatchetPeerState.bulkKeys with
  | none => k ⟨[], []⟩
  | some sealed => .pause
    (match cipher.decryptRing peerDeviceId sealed with
    | .error e => .done (.error (.cipher e))
    | .ok ring => k ring)

def writeBulkRing (peerDeviceId : DartString) (state : Option (RatchetPeerState Session))
    (ring : BulkRing) (result : Value Session) : Prog Account Session :=
  .ambient fun env => .pause (.writePeer
    { peerIdentityKey := state.bind RatchetPeerState.peerIdentityKey
      sessions := sessionsOf state
      confirmedAtMs := state.bind RatchetPeerState.confirmedAtMs
      bulkKeys := some (cipher.encryptRing env.entropy peerDeviceId ring) } none result)

/-- The last entries of a list, `count` at most. -/
def lastEntries {α : Type} (count : ℕ) (entries : List α) : List α :=
  entries.drop (entries.length - count)

/-- The two digits of a byte, in hexadecimal. -/
def hexByte (byte : UInt8) : DartString := DartString.hex [byte.toNat]

/-- A new bulk key from the next random bytes. -/
def newBulkKey (env : Ambient) : RatchetBulkKey where
  id := (List.range 16).flatMap fun n => hexByte (env.entropy n)
  key := (List.range 32).map fun n => env.entropy (n + 16)
  createdAtMs := env.nowMs

/-- The bulk key toward a peer, a new one where none is fresh. -/
def sendBulkKey (peerDeviceId : DartString) : Prog Account Session :=
  .readPeer fun state => readBulkRing cipher peerDeviceId state fun ring => .ambient fun env =>
    if let some current := ring.sent.getLast?.filter fun key =>
        decide (env.nowMs - key.createdAtMs < bulkKeyRotation) then
      .done (.ok (.bulkKey current false))
    else
      let created := newBulkKey env
      let sent := (ring.sent.filter fun key =>
        decide (env.nowMs - key.createdAtMs < 2 * bulkKeyRotation)) ++ [created]
      writeBulkRing cipher peerDeviceId state ⟨lastEntries 2 sent, ring.received⟩
        (.bulkKey created true)

def rememberReceivedBulkKey (peerDeviceId : DartString) (key : RatchetBulkKey) :
    Prog Account Session :=
  .readPeer fun state => readBulkRing cipher peerDeviceId state fun ring => .ambient fun env =>
    let received := (ring.received.filter fun existing => decide (existing.id ≠ key.id) &&
      decide (env.nowMs - existing.createdAtMs < receivedBulkKeyRetention)) ++ [key]
    writeBulkRing cipher peerDeviceId state ⟨ring.sent, lastEntries 8 received⟩ .nothing

def receivedBulkKey (peerDeviceId id : DartString) : Prog Account Session :=
  .readPeer fun state => readBulkRing cipher peerDeviceId state fun ring => .ambient fun env =>
    .done (.ok (.key ((ring.received.find? fun key => decide (key.id = id) &&
      decide (env.nowMs - key.createdAtMs < receivedBulkKeyRetention)).map RatchetBulkKey.key)))

end BulkKeys

end Ratchet
end Conest
