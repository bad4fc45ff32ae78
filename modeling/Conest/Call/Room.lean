import Conest.Call.Models
import Conest.Lib.LinkedMap

/-!
# Group call rooms

What a device keeps for one call: who takes part, under which authority (a term and a coordinator),
and the keys for the media. Rosters of an authority come with growing versions and epochs. A signal
of a higher authority makes the room adopt it, which closes the cipher and starts the counters
again; `considerAuthority` does so only for a roster that is valid under that authority.

What is kept of measurements and of the media (statistics, loss, sequence numbers, muting) is left
out, and so is what is sent. A key for the media is drawn from `Device.randomKey`.
-/

namespace Conest
namespace Call

open Lib Lib.DartString
open Lib.Json (valueAt)

/-! ### The cipher -/

/-- A key and the roster it was installed for; `expires` is set when the next one takes its place. -/
structure Epoch where
  number : ℤ
  bytes : Bytes
  roster : List GroupCallParticipant
  expires : Option ℤ
deriving DecidableEq

structure GroupCallCipher where
  groupId : DartString
  callId : DartString
  localDeviceId : DartString
  authority : DartString
  current : Option Epoch
  previous : Option Epoch
  sequence : ℕ
  closed : Bool
deriving DecidableEq

namespace GroupCallCipher

def maxEpoch : ℤ := 0xffffffff

def epochGrace : ℤ := 250000

variable (cipher : GroupCallCipher)

def epoch : ℤ := (cipher.current.map Epoch.number).getD 0

/-- Install a key, `none` where a `StateError` is thrown. -/
def install (now : ℤ) (number : ℤ) (key : Bytes) (roster : List GroupCallParticipant) :
    Option GroupCallCipher :=
  if cipher.closed = true ∨ number ≤ cipher.epoch ∨ maxEpoch < number ∨ key.length ≠ 32 ∨
      roster.isEmpty ∨ groupCallMaxParticipants < roster.length then none
  else
    some { cipher with
      previous := cipher.current.map fun epoch => { epoch with expires := some (now + epochGrace) }
      current := some ⟨number, key, roster, none⟩
      sequence := 0 }

def close : GroupCallCipher := { cipher with current := none, previous := none, closed := true }

/-- The previous key is given up when its time is over; frames that arrive bring this about. -/
def expire (now : ℤ) : GroupCallCipher :=
  if cipher.previous.any fun epoch => epoch.expires.any fun expires => decide (expires < now) then
    { cipher with previous := none }
  else cipher

end GroupCallCipher

/-! ### Rooms -/

/-- This device. Keys are drawn one after the other. -/
structure Device where
  localDeviceId : DartString
  localTime : ℤ → ℤ
  meshLimit : ℕ
  randomKey : ℕ → Bytes
  length_randomKey : ∀ n, (randomKey n).length = 32

structure GroupCallRoom where
  groupId : DartString
  callId : DartString
  startedBy : DartString
  startedAt : ℤ
  startSignature : DartString
  coordinator : DartString
  cipher : GroupCallCipher
  term : ℤ
  distributionKey : Option Bytes
  admission : Option DartString
  admissions : LinkedMap DartString DartString
  joinIntents : LinkedMap DartString (DartString × ℤ)
  needsAdmission : Bool
  leaving : Bool
  participants : List GroupCallParticipant
  allParticipants : List DartString
  seen : LinkedMap DartString ℤ
  signalRates : LinkedMap DartString GroupCallRateLimit
  version : ℤ
  epoch : ℤ
  joined : Bool
  ended : Bool
  forwarder : Option DartString
  topologyVersion : ℤ
  lastStartSent : Option ℤ
  lastJoinSent : Option ℤ
  lastTopologySent : Option ℤ

/-- How opening the media ends: some failures come when the call counts as joined already. -/
inductive Opening where
  | opened
  | unavailable
  | failed
  | failedJoined
deriving DecidableEq

/-- What a piece of work finds. The members are looked up once for each stretch of work without a
pause (`_memberCache`), so a check and what follows it see the same list. -/
structure Moment where
  now : ℤ
  members : DartString → List GroupCallMember
  /-- Whether the signature of a start signal holds. -/
  verified : Bool
  /-- Whether the measurements in a signal are in order and elect the forwarder it names. What is
  refused for them is refused with one label. -/
  measured : Bool
  /-- The forwarder that the measurements of this device elect. -/
  selected : Option DartString
  /-- Whether the media can be opened. -/
  opening : Opening
  /-- The signature of a call that is started here. -/
  signature : DartString

namespace Moment

variable (m : Moment)

def member (groupId id : DartString) : Option GroupCallMember :=
  ((m.members groupId).take groupCallMaxParticipants).find? fun member =>
    decide (member.deviceId = id)

/-- `_member(groupId, id)?.canJoin == true` -/
def canJoin (groupId id : DartString) : Bool := (m.member groupId id).any GroupCallMember.canJoin

end Moment

/-- What is thrown and caught: a `FormatException`, a `TypeError` or a `StateError`. -/
inductive Thrown where
  | format
  | type
  | state
deriving DecidableEq

/-- The cipher of an authority. -/
def freshCipher (device : Device) (groupId callId : DartString) (term : ℤ)
    (coordinator : DartString) : GroupCallCipher where
  groupId
  callId
  localDeviceId := device.localDeviceId
  authority := if term = 0 then [] else Json.jsonText (.list [.int term, .str coordinator])
  current := none
  previous := none
  sequence := 0
  closed := false

/-- The ids, of those given, of which no more than 128 are kept. -/
def addedTo (all ids : List DartString) : List DartString :=
  all ++ (ids.filter fun id => decide (id ∉ all)).take (128 - all.length)

namespace GroupCallRoom

variable (device : Device) (m : Moment) (room : GroupCallRoom)

def has (id : DartString) : Bool := room.participants.any fun p => decide (p.deviceId = id)

/-- `room.connected` -/
def connected : Bool :=
  room.joined && !room.leaving && !room.needsAdmission &&
    decide (room.cipher.epoch = room.epoch) && room.has room.cipher.localDeviceId

/-! ### Authority and rosters -/

/-- Whether a payload is a roster of a coordinator, all of whose participants may join. -/
def validRoster (payload : List (DartString × Json)) (coordinator : DartString) :
    Except Thrown Bool :=
  match valueAt payload "version", valueAt payload "epoch" with
  | .int version, .int epoch =>
    if version < 1 ∨ 0x7fffffff < version ∨ epoch < 1 ∨ 0xffffffff < epoch ∨
        valueAt payload "coordinator" ≠ .str coordinator then .ok false
    else
      match GroupCallParticipant.parse (valueAt payload "participants") with
      | none => .error .format
      | some roster =>
        .ok ((roster.all fun p => m.canJoin room.groupId p.deviceId) &&
          roster.any fun p => decide (p.deviceId = coordinator))
  | _, _ => .ok false

/-- Begin again under another authority. -/
def adoptAuthority (term : ℤ) (coordinator : DartString) : GroupCallRoom :=
  { room with
    distributionKey := none
    term
    coordinator
    cipher := freshCipher device room.groupId room.callId term coordinator
    version := 0
    epoch := 0
    topologyVersion := 0
    needsAdmission := room.joined && decide (coordinator ≠ device.localDeviceId)
    lastJoinSent := none
    lastTopologySent := none
    lastStartSent := none
    forwarder := none }

/-- The room under the authority of a signal, `none` where the signal has none. -/
def considerAuthority (signal : GroupCallSignal) : Except Thrown (Option GroupCallRoom) :=
  match GroupCallSignal.term signal.payload with
  | .int term =>
    if term < 0 ∨ GroupCallSignal.maxTerm < term then .ok none
    else
      let sender := signal.senderDeviceId
      if term = room.term ∧ sender = room.coordinator then .ok (some room)
      else if ¬ (room.term < term ∨ term = room.term ∧ 0 < term ∧ sender < room.coordinator) ∨
          room.term + 128 < term ∨
          ¬ (room.has sender = true ∨ sender ∈ room.allParticipants ∨
            room.joinIntents.contains sender = true) then .ok none
      else do
        if ← room.validRoster m signal.payload sender then
          return some (room.adoptAuthority device term sender)
        else return none
  | _ => .ok none

/-- The room with another roster, and without what was kept of those who are not on it. -/
def withRoster (version epoch : ℤ) (roster : List GroupCallParticipant) : GroupCallRoom :=
  let there := fun id => roster.any fun p => decide (p.deviceId = id)
  { room with
    participants := roster
    version
    epoch
    allParticipants := addedTo room.allParticipants (roster.map GroupCallParticipant.deviceId)
    seen := roster.foldl
      (fun seen p => if seen.contains p.deviceId then seen else seen.put p.deviceId m.now)
      (room.seen.filter fun id _ => there id)
    signalRates := room.signalRates.filter fun id _ => there id
    admissions := room.admissions.filter fun id _ => there id }

def rosterText (roster : List GroupCallParticipant) : DartString :=
  Json.jsonText (.list (roster.map GroupCallParticipant.toJson))

/-- The room with the roster of a payload, `none` where it is not taken: an older one, one of the
same version with other participants, or a new version without a new epoch. -/
def applyRoster (payload : List (DartString × Json)) (allowSame : Bool) :
    Except Thrown (Option GroupCallRoom) := do
  if ← room.validRoster m payload room.coordinator then
    match valueAt payload "version", valueAt payload "epoch",
        GroupCallParticipant.parse (valueAt payload "participants") with
    | .int version, .int epoch, some roster =>
      if version < room.version ∨ epoch < room.epoch ∨
          allowSame = false ∧ version = room.version then .ok none
      else if version = room.version ∧ rosterText roster ≠ rosterText room.participants then .ok none
      else if room.version < version ∧ epoch ≤ room.epoch then .ok none
      else .ok (some (room.withRoster m version epoch roster))
    | .int _, .int _, none => .error .format
    | _, _, _ => .error .type
  else .ok none

end GroupCallRoom

end Call
end Conest
