import Conest.Call.Room
import Conest.Lib.Base64
import Conest.Lib.DateTime

/-!
# The group call service

`receiveSignal` is the handler for the signals of other devices, with its seven actions. A signal
is taken, refused for a reason, or its handler throws what is caught outside and refused there
(`conclude`). What the user and the clock do to the rooms are further functions: starting, joining
and leaving calls, and what a tick does to a room.

Every piece of work of `_serial` is one step. A tick is taken apart into what it does to one room,
each with the clock and the members of its own moment; whom it finds silent is left open.
-/

namespace Conest
namespace Call

open Lib Lib.DartString
open Lib.Json (valueAt)

structure GroupCallService where
  rooms : LinkedMap DartString GroupCallRoom
  terminal : List (DartString × DartString)
  activeGroup : Option DartString
  disposed : Bool
  startRate : GroupCallRateLimit
  /-- How many keys were drawn. -/
  draws : ℕ
  lastRefusal : Option String

/-- How the handler for a signal ends. -/
inductive Verdict where
  | taken
  | refused (why : String)
  | thrown (what : Thrown)

/-! ### What a room does -/

namespace GroupCallRoom

variable (device : Device) (m : Moment) (room : GroupCallRoom)

/-- The admission that goes with a key is kept. -/
def sendKey (recipient : DartString) : GroupCallRoom :=
  match room.distributionKey, (room.admissions.get recipient).or
      ((room.joinIntents.get recipient).map Prod.fst) with
  | some _, some admission =>
    if room.has recipient then
      { room with admissions := room.admissions.put recipient admission }
    else room
  | _, _ => room

/-- The keys that go to those who may join. -/
def sendKeys : GroupCallRoom :=
  room.participants.foldl
    (fun room p =>
      if p.deviceId = device.localDeviceId ∨ m.canJoin room.groupId p.deviceId = false then room
      else room.sendKey p.deviceId)
    room

/-- A new version, a new epoch and a new key, if this device leads. -/
def rotate (key : Bytes) : GroupCallRoom × Option Thrown :=
  if room.coordinator ≠ device.localDeviceId then (room, none)
  else
    let raised := { room with version := room.version + 1, epoch := room.epoch + 1 }
    match raised.cipher.install m.now raised.epoch key raised.participants with
    | none => (raised, some .state)
    | some cipher =>
      (sendKeys device m
        { raised with
          cipher
          distributionKey := some key
          needsAdmission := false
          allParticipants := addedTo raised.allParticipants
            (raised.participants.map GroupCallParticipant.deviceId) }, none)

/-- Announce the elected forwarder, on a change and every five seconds. -/
def updateTopology : GroupCallRoom :=
  if room.coordinator ≠ device.localDeviceId ∨ room.connected = false then room
  else if room.forwarder ≠ m.selected ∨
      room.lastTopologySent.all fun last => decide (seconds 5 ≤ m.now - last) then
    { room with
      forwarder := m.selected
      topologyVersion := room.topologyVersion + 1
      lastTopologySent := some m.now }
  else room

/-- The room without a participant. -/
def without (sender : DartString) : GroupCallRoom :=
  { room with
    participants := room.participants.filter fun p => decide (p.deviceId ≠ sender)
    seen := room.seen.remove sender
    signalRates := room.signalRates.remove sender
    admissions := room.admissions.remove sender }

/-- The least of the ids on the roster. -/
def leastId : DartString :=
  ((room.participants.map GroupCallParticipant.deviceId).min?).getD []

end GroupCallRoom

/-! ### What the service does to a room -/

namespace GroupCallService

variable (device : Device) (m : Moment) (s : GroupCallService)

def initial : GroupCallService :=
  ⟨LinkedMap.empty, [], none, false, GroupCallRateLimit.initial, 0, none⟩

def put (room : GroupCallRoom) : GroupCallService :=
  { s with rooms := s.rooms.put room.groupId room }

def roomFor (groupId : DartString) : Option GroupCallRoom :=
  (s.rooms.get groupId).filter fun room => !room.ended

def refuse (why : String) : GroupCallService × Bool := ({ s with lastRefusal := some why }, false)

/-- The next key. -/
def key : Bytes := device.randomKey s.draws

/-- Of the calls that are over, the last 128 are remembered. -/
def endCall (room : GroupCallRoom) : List (DartString × DartString) :=
  let all := if (room.groupId, room.callId) ∈ s.terminal then s.terminal
    else s.terminal ++ [(room.groupId, room.callId)]
  all.drop (all.length - 128)

/-- End the part of this device in a call, and the call itself if `terminal`. -/
def finish (room : GroupCallRoom) (terminal : Bool) : GroupCallService :=
  if room.ended then s
  else
    { s.put { room with
        ended := true
        joined := false
        cipher := room.cipher.close
        distributionKey := none } with
      terminal := if terminal then s.endCall room else s.terminal
      activeGroup := if s.activeGroup = some room.groupId then none else s.activeGroup }

/-- Lead a room with a new key, if this device is the one to lead it. -/
def lead (room : GroupCallRoom) : GroupCallService × Option Thrown :=
  if room.coordinator = device.localDeviceId then
    let rotated := room.rotate device m (s.key device)
    let drawn := { s with draws := s.draws + 1 }
    match rotated.2 with
    | none => (drawn.put (rotated.1.updateTopology device m), none)
    | some thrown => (drawn.put rotated.1, some thrown)
  else (s.put room, none)

/-- Take a participant out of a call. If it led, the least of the others does, in the next term. -/
def remove (room : GroupCallRoom) (sender : DartString) : GroupCallService × Option Thrown :=
  let left := room.without sender
  if left.participants.isEmpty then (s.finish left true, none)
  else if room.coordinator = sender then
    if GroupCallSignal.maxTerm ≤ room.term then (s.finish left true, none)
    else s.lead device m (left.adoptAuthority device (room.term + 1) left.leastId)
  else s.lead device m left

/-- Make place for a room, `none` where a `StateError` is thrown. -/
def reserveRoom (room : GroupCallRoom) : Option GroupCallService :=
  let live := s.rooms.filter fun _ room => !room.ended
  if 8 ≤ live.size then
    match live.entries.find? fun entry => !entry.2.joined with
    | none => none
    | some idle => some { s with rooms := (live.remove idle.1).put room.groupId room }
  else some { s with rooms := live.put room.groupId room }

/-! ### Signals -/

/-- What is refused before anything is looked at, with the reason. -/
def refusal (signal : GroupCallSignal) (authenticatedSender : DartString) : Option String :=
  let age := m.now - signal.issuedAt
  if s.disposed then some "disposed"
  else if signal.senderDeviceId ≠ authenticatedSender then some "not its sender"
  else if authenticatedSender = device.localDeviceId then some "own"
  else if m.canJoin signal.groupId device.localDeviceId = false then some "this device cannot join"
  else if m.canJoin signal.groupId authenticatedSender = false then some "sender cannot join"
  else if seconds 15 < |age| then some s!"too old ({age.tdiv 1000000} s)"
  else if m.now + seconds 2 < signal.issuedAt then some "from the future"
  else if (signal.groupId, signal.callId) ∈ s.terminal then some "call over"
  else none

/-- How a handler ends for its caller: what it throws is caught and refused. -/
def conclude : Verdict → GroupCallService × Bool
  | .taken => (s, true)
  | .refused why => s.refuse why
  | .thrown .format => s.refuse "L856"
  | .thrown .type => s.refuse "L858"
  | .thrown .state => s.refuse "L860"

/-- The room that a start signal announces. -/
def startedRoom (signal : GroupCallSignal) (startedBy signature : DartString) (startedAt term : ℤ) :
    GroupCallRoom where
  groupId := signal.groupId
  callId := signal.callId
  startedBy
  startedAt
  startSignature := signature
  coordinator := signal.senderDeviceId
  cipher := freshCipher device signal.groupId signal.callId term signal.senderDeviceId
  term
  distributionKey := none
  admission := none
  admissions := LinkedMap.empty
  joinIntents := LinkedMap.empty
  needsAdmission := false
  leaving := false
  participants := []
  allParticipants := []
  seen := LinkedMap.empty
  signalRates := LinkedMap.empty
  version := 0
  epoch := 0
  joined := false
  ended := false
  forwarder := none
  topologyVersion := 0
  lastStartSent := none
  lastJoinSent := none
  lastTopologySent := none

/-- A start signal for a call that is not known here. -/
def receiveNew (room : GroupCallRoom) (payload : List (DartString × Json)) :
    GroupCallService × Verdict :=
  match base64Decode room.startSignature with
  | none => (s, .thrown .format)
  | some proof =>
    if proof.length ≠ 64 ∨ m.verified = false then (s, .refused "L622")
    else
      match room.applyRoster m payload false with
      | .error what => (s, .thrown what)
      | .ok none => (s, .refused "L647")
      | .ok (some room) =>
        match s.reserveRoom room with
        | none => ({ s with rooms := s.rooms.filter fun _ room => !room.ended }, .thrown .state)
        | some reserved =>
          (reserved.put { room with seen := room.seen.put room.coordinator m.now }, .taken)

/-- A start signal for a call that is known. -/
def receiveAgain (room : GroupCallRoom) (signal : GroupCallSignal) : GroupCallService × Verdict :=
  match room.considerAuthority device m signal with
  | .error what => (s, .thrown what)
  | .ok none => (s, .refused "L648")
  | .ok (some room) =>
    match room.applyRoster m signal.payload true with
    | .error what => (s.put room, .thrown what)
    | .ok none => (s.put room, .refused "L648")
    | .ok (some room) =>
      (s.put { room with
        seen := room.seen.put signal.senderDeviceId m.now
        lastJoinSent := if room.joined ∧ room.connected = false then none
          else room.lastJoinSent }, .taken)

/-- `as String? ?? ''` -/
def textOf : Json → Except Thrown DartString
  | .str s => .ok s
  | .null => .ok []
  | _ => .error .type

def receiveStart (signal : GroupCallSignal) : GroupCallService × Verdict :=
  let rated := s.startRate.accept m.now 8
  let s := { s with startRate := rated.1 }
  let known := s.roomFor signal.groupId
  if rated.2 = false then (s, .refused "L594")
  else if known.any fun room => decide (room.callId ≠ signal.callId) then (s, .refused "L595")
  else
    match textOf (valueAt signal.payload "startedAt") with
    | .error what => (s, .thrown what)
    | .ok startedAt =>
      match DateTime.tryParse device.localTime startedAt, valueAt signal.payload "startedBy",
          valueAt signal.payload "startSignature", GroupCallSignal.term signal.payload with
      | some started, .str startedBy, .str signature, .int term =>
        if seconds (24 * 60 * 60) < m.now - started ∨ m.now + seconds 2 < started ∨
            validGroupCallId (.str startedBy) = false ∨ signature.length ≠ 88 ∨ term < 0 ∨
            GroupCallSignal.maxTerm < term ∨
            valueAt signal.payload "coordinator" ≠ .str signal.senderDeviceId ∨
            (known.any fun room => decide (room.startedBy ≠ startedBy ∨ room.startedAt ≠ started ∨
              room.startSignature ≠ signature)) = true then (s, .refused "L608")
        else
          match known with
          | none =>
            s.receiveNew m (startedRoom device signal startedBy signature started term)
              signal.payload
          | some room => s.receiveAgain device m room signal
      | _, _, _, _ => (s, .refused "L608")

/-- `[A-Za-z0-9_-]{22}` -/
def isAdmission (s : DartString) : Bool := decide (s.length = 22) && s.all isIdUnit

/-- The intents with a new one; the oldest of 128 makes place. -/
def withIntent (intents : LinkedMap DartString (DartString × ℤ)) (sender admission : DartString)
    (issuedAt : ℤ) : LinkedMap DartString (DartString × ℤ) :=
  let kept :=
    match intents.entries with
    | [] => intents
    | first :: rest =>
      if (intents.get sender).isNone ∧ 128 ≤ intents.size then
        intents.remove (rest.foldl (fun (a b : DartString × DartString × ℤ) =>
          if a.2.2 < b.2.2 then a else b) first).1
      else intents
  kept.put sender (admission, issuedAt)

/-- The first index that is free. -/
def freeIndex (participants : List GroupCallParticipant) : Option ℕ :=
  (List.range groupCallMaxParticipants).find? fun index =>
    !participants.any fun p => decide (p.index = index)

/-- The roster with a sender admitted, or admitted again, and why not. -/
def rosterWith (participants : List GroupCallParticipant) (sender : DartString) :
    Except Verdict (List GroupCallParticipant) :=
  match participants.find? fun p => decide (p.deviceId = sender) with
  | none =>
    if groupCallMaxParticipants ≤ participants.length then .error (.refused "L718")
    else
      match freeIndex participants with
      | none => .error (.thrown .state)
      | some index => .ok (participants ++ [⟨sender, index, 1⟩])
  | some existing =>
    if GroupCallParticipant.maxVersion ≤ existing.version then .error (.refused "L737")
    else .ok (participants.map fun p =>
      if p.deviceId = sender then { p with version := p.version + 1 } else p)

/-- What a join leaves in a room: the intent, and the admission of one who takes part or is to be
admitted here. -/
def intend (room : GroupCallRoom) (sender admission : DartString) (issuedAt : ℤ) : GroupCallRoom :=
  { room with
    joinIntents := withIntent room.joinIntents sender admission issuedAt
    admissions :=
      if room.has sender = true ∨ room.coordinator = device.localDeviceId then
        room.admissions.put sender admission
      else room.admissions }

/-- Admit a sender with a new roster and a new key. -/
def admitInto (room : GroupCallRoom) (sender : DartString) : GroupCallService × Verdict :=
  match rosterWith room.participants sender with
  | .error verdict => (s.put room, verdict)
  | .ok participants =>
    let rotated := { room with
      participants
      seen := room.seen.put sender m.now }.rotate device m (s.key device)
    ({ s with draws := s.draws + 1 }.put rotated.1,
      match rotated.2 with
      | none => .taken
      | some what => .thrown what)

def receiveJoin (room : GroupCallRoom) (signal : GroupCallSignal) : GroupCallService × Verdict :=
  let sender := signal.senderDeviceId
  match valueAt signal.payload "admission", GroupCallSignal.term signal.payload with
  | .str admission, .int term =>
    if isAdmission admission = false ∨ term < 0 ∨ GroupCallSignal.maxTerm < term then
      (s, .refused "L679")
    else if (room.joinIntents.get sender).any fun intent =>
        decide (signal.issuedAt < intent.2 ∨ signal.issuedAt = intent.2 ∧ admission ≠ intent.1) then
      (s, .refused "L685")
    else
      let intended := intend device room sender admission signal.issuedAt
      if room.coordinator ≠ device.localDeviceId ∨ room.joined = false then (s.put intended, .taken)
      -- the roster and the key go out again if the sender's are old
      else if room.has sender = true ∧ room.admissions.get sender = some admission then
        (s.put (if term = room.term ∧ valueAt signal.payload "rosterVersion" = .int room.version ∧
            valueAt signal.payload "epoch" = .int room.epoch then intended
          else intended.sendKey sender), .taken)
      else s.admitInto device m intended sender
  | _, _ => (s, .refused "L679")

def receiveLeave (room : GroupCallRoom) (signal : GroupCallSignal) : GroupCallService × Verdict :=
  if room.has signal.senderDeviceId = false then (s, .refused "L745")
  else if valueAt signal.payload "epoch" ≠ .int room.epoch then (s, .refused "L755")
  else
    let removed := s.remove device m room signal.senderDeviceId
    (removed.1,
      match removed.2 with
      | none => .taken
      | some what => .thrown what)

def receiveRoster (room : GroupCallRoom) (signal : GroupCallSignal) : GroupCallRoom × Verdict :=
  match room.considerAuthority device m signal with
  | .error what => (room, .thrown what)
  | .ok none => (room, .refused "L796")
  | .ok (some room) =>
    match room.applyRoster m signal.payload false with
    | .error what => (room, .thrown what)
    | .ok none => (room, .refused "L797")
    | .ok (some room) =>
      if room.joined = true ∧ room.has device.localDeviceId = false then
        ({ room with needsAdmission := true, lastJoinSent := none }, .taken)
      else (room, .taken)

/-- The 44 units of a key, if a key signal is for this device and for its present admission. -/
def keyText (room : GroupCallRoom) (payload : List (DartString × Json)) : Option DartString :=
  match room.admission, valueAt payload "key" with
  | some admission, .str key =>
    if room.joined = true ∧ valueAt payload "recipient" = .str device.localDeviceId ∧
        valueAt payload "admission" = .str admission ∧ key.length = 44 then some key
    else none
  | _, _ => none

/-- Whether the epoch of a payload is over already, under the authority that the room has. -/
def isPast (room : GroupCallRoom) (signal : GroupCallSignal) : Bool :=
  match valueAt signal.payload "epoch" with
  | .int epoch =>
    decide (GroupCallSignal.term signal.payload = .int room.term ∧
      signal.senderDeviceId = room.coordinator ∧ epoch ≤ room.cipher.epoch)
  | _ => true

/-- The conditions on a key and its roster that are checked before anything changes. -/
def keyAllowed (room : GroupCallRoom) (signal : GroupCallSignal) (key : List ℕ) :
    Except Thrown Bool :=
  if key.length ≠ 32 then .ok false
  else do
    if ← room.validRoster m signal.payload signal.senderDeviceId then
      match GroupCallParticipant.parse (valueAt signal.payload "participants") with
      | none => .error .format
      | some roster =>
        .ok (!isPast room signal &&
          roster.any fun p => decide (p.deviceId = device.localDeviceId))
    else .ok false

/-- Take the roster of a key signal, and install the key for it. -/
def installKey (room : GroupCallRoom) (signal : GroupCallSignal) (key : List ℕ) :
    GroupCallRoom × Verdict :=
  match room.considerAuthority device m signal with
  | .error what => (room, .thrown what)
  | .ok none => (room, .refused "L786")
  | .ok (some room) =>
    match room.applyRoster m signal.payload true with
    | .error what => (room, .thrown what)
    | .ok none => (room, .refused "L780")
    | .ok (some room) =>
      match room.cipher.install m.now room.epoch (key.map UInt8.ofNat) room.participants with
      | none => (room, .thrown .state)
      | some cipher => ({ room with cipher, needsAdmission := false }, .taken)

def receiveKey (room : GroupCallRoom) (signal : GroupCallSignal) : GroupCallRoom × Verdict :=
  match keyText device room signal.payload with
  | none => (room, .refused "L758")
  | some text =>
    match base64Decode text with
    | none => (room, .thrown .format)
    | some key =>
      match keyAllowed device m room signal key with
      | .error what => (room, .thrown what)
      | .ok false => (room, .refused "L774")
      | .ok true => installKey device m room signal key

def receiveStats (room : GroupCallRoom) (signal : GroupCallSignal) : Verdict :=
  if room.has signal.senderDeviceId = false then .refused "L800"
  else if m.measured then .taken
  else .refused "L805"

def receiveTopology (room : GroupCallRoom) (signal : GroupCallSignal) : GroupCallRoom × Verdict :=
  if signal.senderDeviceId ≠ room.coordinator ∨
      valueAt signal.payload "rosterVersion" ≠ .int room.version then (room, .refused "L818")
  else
    match valueAt signal.payload "version" with
    | .int revision =>
      if revision ≤ room.topologyVersion ∨ 0x7fffffff < revision then (room, .refused "L824")
      else if m.measured = false then (room, .refused "L841")
      else
        match valueAt signal.payload "forwarder" with
        | .null =>
          if device.meshLimit < room.participants.length then (room, .refused "L845")
          else ({ room with topologyVersion := revision, forwarder := none }, .taken)
        | .str forwarder =>
          ({ room with topologyVersion := revision, forwarder := some forwarder }, .taken)
        | _ => (room, .refused "L841")
    | _ => (room, .refused "L824")

/-- A signal for a call that is known, by its action. -/
def receiveIn (room : GroupCallRoom) (signal : GroupCallSignal) : GroupCallService × Verdict :=
  let keep := fun found : GroupCallRoom × Verdict => (s.put found.1, found.2)
  match signal.action with
  | .start => (s, .refused "L851")
  | .join => s.receiveJoin device m room signal
  | .leave => s.receiveLeave device m room signal
  | .roster => keep (receiveRoster device m room signal)
  | .key => keep (receiveKey device m room signal)
  | .stats => (s, receiveStats m room signal)
  | .topology => keep (receiveTopology device m room signal)

/-- Count a signal of a sender; the coordinator may send more than others. -/
def rate (room : GroupCallRoom) (sender : DartString) : GroupCallRoom × Bool :=
  let rated := ((room.signalRates.get sender).getD GroupCallRateLimit.initial).accept m.now
    (if sender = room.coordinator then 48 else 12)
  ({ room with signalRates := room.signalRates.put sender rated.1 }, rated.2)

/-- A participant that sent something was seen. -/
def note (room : GroupCallRoom) (sender : DartString) : GroupCallRoom :=
  if room.has sender then { room with seen := room.seen.put sender m.now } else room

/-- `_receiveSignal`: whether the signal is taken. -/
def receiveSignal (signal : GroupCallSignal) (authenticatedSender : DartString) :
    GroupCallService × Bool :=
  match s.refusal device m signal authenticatedSender with
  | some why => s.refuse why
  | none =>
    if signal.action = .start then
      let received := s.receiveStart device m signal
      received.1.conclude received.2
    else
      match (s.roomFor signal.groupId).filter fun room => decide (room.callId = signal.callId) with
      | none => s.refuse "L663"
      | some room =>
        let rated := rate m room authenticatedSender
        if rated.2 = false then (s.put rated.1).refuse "L659"
        else if signal.action ≠ .join ∧ signal.action ≠ .roster ∧ signal.action ≠ .key ∧
            GroupCallSignal.term signal.payload ≠ .int room.term then (s.put rated.1).refuse "L665"
        else
          let noted := note m rated.1 authenticatedSender
          let received := (s.put noted).receiveIn device m noted signal
          received.1.conclude received.2

/-! ### What the user and the clock do -/

/-- 16 random bytes as text, without padding. -/
def randomText : DartString :=
  ((base64Encode ((s.key device).take 16)).filter fun u => decide (u ≠ 61)).map fun u =>
    if u = 43 then 45 else if u = 47 then 95 else u

/-- Open the media for a room; whether the call is joined then. -/
def openRoom (room : GroupCallRoom) : GroupCallService × GroupCallRoom × Bool :=
  if s.activeGroup.isSome ∨ m.opening = .unavailable then (s, room, false)
  else
    let waiting := { room with
      admission := some (s.randomText device)
      needsAdmission := true
      leaving := false }
    let joined := { waiting with joined := true }
    let drawn := { s with draws := s.draws + 1 }
    match m.opening with
    | .opened => ({ drawn.put joined with activeGroup := some room.groupId }, joined, true)
    | .failedJoined => ({ drawn.put joined with activeGroup := none }, joined, false)
    | _ => ({ drawn.put waiting with activeGroup := none }, waiting, false)

/-- `_join` -/
def join (groupId : DartString) : GroupCallService :=
  match s.roomFor groupId with
  | none => s
  | some room =>
    if s.disposed = true ∨ m.canJoin groupId device.localDeviceId = false ∨ room.joined = true then s
    else
      let opened := s.openRoom device m room
      if opened.2.2 then opened.1.put { opened.2.1 with lastJoinSent := some m.now } else opened.1

/-- The room of a call that is started here. -/
def ownRoom (groupId : DartString) : GroupCallRoom where
  groupId
  callId := ofString "gcall_" ++ s.randomText device
  startedBy := device.localDeviceId
  startedAt := m.now
  startSignature := m.signature
  coordinator := device.localDeviceId
  cipher := freshCipher device groupId (ofString "gcall_" ++ s.randomText device) 0 []
  term := 0
  distributionKey := none
  admission := none
  admissions := LinkedMap.empty
  joinIntents := LinkedMap.empty
  needsAdmission := false
  leaving := false
  participants := []
  allParticipants := []
  seen := LinkedMap.empty
  signalRates := LinkedMap.empty
  version := 0
  epoch := 0
  joined := false
  ended := false
  forwarder := none
  topologyVersion := 0
  lastStartSent := none
  lastJoinSent := none
  lastTopologySent := none

/-- A room with this device as its only participant. -/
def alone (room : GroupCallRoom) : GroupCallRoom :=
  { room with
    participants := [⟨device.localDeviceId, 0, 1⟩]
    admissions := match room.admission with
      | none => room.admissions
      | some admission => room.admissions.put device.localDeviceId admission
    seen := room.seen.put device.localDeviceId m.now }

/-- Take part in a room that was opened, and announce it. -/
def begin_ (room : GroupCallRoom) : GroupCallService :=
  let rotated := (alone device m room).rotate device m (s.key device)
  let drawn := { s with draws := s.draws + 1 }
  match rotated.2 with
  | some _ => drawn.finish rotated.1 true
  | none =>
    drawn.put (if rotated.1.connected then { rotated.1 with lastStartSent := some m.now }
      else rotated.1)

/-- `start` -/
def start (groupId : DartString) : GroupCallService :=
  if s.disposed = true ∨ m.canJoin groupId device.localDeviceId = false ∨
      m.opening = .unavailable ∨ (s.activeGroup.bind s.roomFor).isSome then s
  else if (s.roomFor groupId).isSome then s.join device m groupId
  else
    let drawn := { s with draws := s.draws + 1 }
    match drawn.reserveRoom (s.ownRoom device m groupId) with
    | none => { drawn with rooms := s.rooms.filter fun _ room => !room.ended }
    | some reserved =>
      let opened := reserved.openRoom device m (s.ownRoom device m groupId)
      if opened.2.2 then opened.1.begin_ device m opened.2.1 else opened.1.finish opened.2.1 true

/-- What stays of a call when this device leaves it: the others, under the authority that follows. -/
def idleRoom (room : GroupCallRoom) (remaining : List GroupCallParticipant) : GroupCallRoom :=
  let led := room.coordinator = device.localDeviceId
  let coordinator := if led then ({ room with participants := remaining }).leastId
    else room.coordinator
  let term := room.term + if led then 1 else 0
  { room with
    coordinator
    term
    cipher := freshCipher device room.groupId room.callId term coordinator
    distributionKey := none
    admission := none
    admissions := room.admissions.remove device.localDeviceId
    needsAdmission := false
    leaving := false
    participants := remaining
    signalRates := LinkedMap.empty
    version := if led then 0 else room.version
    epoch := if led then 0 else room.epoch
    joined := false
    ended := false
    forwarder := none
    topologyVersion := 0
    lastStartSent := none
    lastJoinSent := none
    lastTopologySent := none }

/-- `leave`, once its turn has come. -/
def leave (room : GroupCallRoom) : GroupCallService :=
  let remaining := room.participants.filter fun p => decide (p.deviceId ≠ device.localDeviceId)
  if remaining.isEmpty then s.finish room true
  else (s.finish room false).put (idleRoom device room remaining)

/-- What a tick does to the rooms of members that may no longer join, and to rooms that are only
known here and of whose coordinator nothing was heard. -/
def forget (room : GroupCallRoom) : GroupCallService :=
  if m.canJoin room.groupId device.localDeviceId = false then
    s.finish room (room.participants.all fun p => decide (p.deviceId = device.localDeviceId))
  else if room.joined = false ∧
      seconds 15 < m.now - (room.seen.get room.coordinator).getD room.startedAt then
    s.finish room false
  else s

/-- Ask to be admitted, every two seconds. -/
def ask (room : GroupCallRoom) : GroupCallRoom :=
  if room.lastJoinSent.all fun last => decide (seconds 2 ≤ m.now - last) then
    { room with lastJoinSent := some m.now }
  else room

/-- What a tick does to a room whose call is joined, once the silent are removed. -/
def upkeep (room : GroupCallRoom) : GroupCallService :=
  let asked := ask m room
  let led := { asked with
    seen := asked.seen.put device.localDeviceId m.now }.updateTopology device m
  s.put (if led.lastStartSent.all (fun last => decide (seconds 5 ≤ m.now - last)) ∧
      led.coordinator = device.localDeviceId ∧ led.connected = true then
    { led with lastStartSent := some m.now } else led)

/-- A frame of the media is sent. -/
def sent (room : GroupCallRoom) : GroupCallService :=
  s.put { room with cipher := { room.cipher with sequence := room.cipher.sequence + 1 } }

/-- A frame of the media arrives, and from whom, if that can be told. -/
def heard (room : GroupCallRoom) (sender : Option DartString) : GroupCallService :=
  s.put { room with
    cipher := room.cipher.expire m.now
    seen := match sender with
      | none => room.seen
      | some sender => room.seen.put sender m.now }

/-- What is left of `dispose` after leaving. -/
def dispose : GroupCallService := { s with rooms := LinkedMap.empty, disposed := true }

end GroupCallService

/-! ### Steps -/

open GroupCallService

/-- One piece of work. -/
inductive Step (device : Device) (s : GroupCallService) : GroupCallService → Prop where
  | signal (m : Moment) (signal : GroupCallSignal) (authenticatedSender : DartString) :
    Step device s (s.receiveSignal device m signal authenticatedSender).1
  | start (m : Moment) (groupId : DartString) : Step device s (s.start device m groupId)
  | join (m : Moment) (groupId : DartString) : Step device s (s.join device m groupId)
  | leaving {groupId : DartString} {room : GroupCallRoom} (h : s.roomFor groupId = some room) :
    Step device s (s.put { room with leaving := true })
  | leave {groupId : DartString} {room : GroupCallRoom} (h : s.roomFor groupId = some room) :
    Step device s (s.leave device room)
  | forget (m : Moment) {groupId : DartString} {room : GroupCallRoom}
      (h : s.roomFor groupId = some room) : Step device s (s.forget device m room)
  | drop (m : Moment) {groupId : DartString} {room : GroupCallRoom}
      (h : s.roomFor groupId = some room) (hjoined : room.joined = true)
      {p : GroupCallParticipant} (hp : p ∈ room.participants) :
    Step device s (s.remove device m room p.deviceId).1
  | upkeep (m : Moment) {groupId : DartString} {room : GroupCallRoom}
      (h : s.roomFor groupId = some room) (hjoined : room.joined = true) :
    Step device s (s.upkeep device m room)
  | sent {groupId : DartString} {room : GroupCallRoom} (h : s.roomFor groupId = some room) :
    Step device s (s.sent room)
  | heard (m : Moment) {groupId : DartString} {room : GroupCallRoom}
      (h : s.roomFor groupId = some room) (sender : Option DartString) :
    Step device s (s.heard m room sender)
  | dispose : Step device s s.dispose

/-- What a service can come to, from any list of calls that were over when it was made. -/
def Reachable (device : Device) (s : GroupCallService) : Prop :=
  ∃ terminal, Relation.ReflTransGen (Step device) { initial with terminal } s

end Call
end Conest
