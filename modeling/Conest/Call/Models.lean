import Conest.Lib.JsonPrinting

/-!
# Group calls: members, participants and signals

The values that devices in a group call exchange. A roster is a list of participants, read from JSON
and checked as a whole: ids and indexes are in range and different. Times are instants, in
microseconds. A signal's action is one of seven, since decoding refuses every other.
-/

namespace Conest
namespace Call

open Lib Lib.DartString List Option
open Lib.Json (valueAt)

def groupCallMaxParticipants : ℕ := 16

def groupCallMeshLimit : ℕ := 5

/-- Seconds, as microseconds. -/
def seconds (n : ℤ) : ℤ := n * 1000000

structure GroupCallMember where
  deviceId : DartString
  name : DartString
  canJoin : Bool
  directRoute : Bool
deriving DecidableEq

/-- `[a-zA-Z0-9_-]` -/
def isIdUnit (u : Fin 65536) : Bool :=
  isDigit u || decide (65 ≤ u.val ∧ u.val ≤ 90) || decide (97 ≤ u.val ∧ u.val ≤ 122) || u == 95 ||
    u == 45

def validGroupCallId : Json → Bool
  | .str id => !id.isEmpty && decide (id.length ≤ 160) && id.all isIdUnit
  | _ => false

/-! ### Participants -/

structure GroupCallParticipant where
  deviceId : DartString
  index : ℤ
  version : ℤ
deriving DecidableEq

namespace GroupCallParticipant

def maxVersion : ℤ := 0x7fffffff

def toJson (p : GroupCallParticipant) : Json :=
  .obj [(ofString "deviceId", .str p.deviceId), (ofString "index", .int p.index),
    (ofString "version", .int p.version)]

/-- The version of an entry, 1 where there is none. -/
def parseVersion : Json → Option ℤ
  | .null => some 1
  | .int version => if version < 1 ∨ maxVersion < version then none else some version
  | _ => none

/-- One entry of a roster. -/
def parseEntry : Json → Option GroupCallParticipant
  | .obj entry =>
    match valueAt entry "deviceId", valueAt entry "index", parseVersion (valueAt entry "version") with
    | .str id, .int index, some version =>
      if validGroupCallId (.str id) = true ∧ 0 ≤ index ∧ index < groupCallMaxParticipants then
        some ⟨id, index, version⟩
      else none
    | _, _, _ => none
  | _ => none

/-- The entries in order, after those whose ids and indexes were met. -/
def parseEntries (ids : List DartString) (indices : List ℤ) :
    List Json → Option (List GroupCallParticipant)
  | [] => some []
  | entry :: entries =>
    match parseEntry entry with
    | none => none
    | some p =>
      if p.deviceId ∈ ids ∨ p.index ∈ indices then none
      else (parseEntries (p.deviceId :: ids) (p.index :: indices) entries).map (p :: ·)

/-- A roster, `none` where a `FormatException` is thrown. -/
def parse : Json → Option (List GroupCallParticipant)
  | .list entries =>
    if entries.isEmpty ∨ groupCallMaxParticipants < entries.length then none
    else parseEntries [] [] entries
  | _ => none

theorem length_parseEntries {ids : List DartString} {indices : List ℤ} {entries : List Json}
    {roster : List GroupCallParticipant} (h : parseEntries ids indices entries = some roster) :
    roster.length = entries.length := by
  induction entries generalizing ids indices roster with
  | nil =>
    obtain rfl := some.inj h
    rfl
  | cons entry entries ih =>
  rw [parseEntries] at h
  split at h
  case h_1 => exact nomatch h
  case h_2 p _ =>
    split at h
    case isTrue => exact nomatch h
    case isFalse =>
      obtain ⟨rest, hrest, rfl⟩ := map_eq_some_iff.mp h
      rw [length_cons, length_cons, ih hrest]

theorem length_parse {json : Json} {roster : List GroupCallParticipant}
    (h : parse json = some roster) :
    0 < roster.length ∧ roster.length ≤ groupCallMaxParticipants := by
  cases json with
  | list entries =>
    change (if entries.isEmpty ∨ groupCallMaxParticipants < entries.length then none
      else parseEntries [] [] entries) = some roster at h
    split at h
    case isTrue => exact nomatch h
    case isFalse hbounds =>
      rw [not_or, List.isEmpty_iff, Nat.not_lt] at hbounds
      rw [length_parseEntries h]
      exact ⟨length_pos_iff.mpr hbounds.1, hbounds.2⟩
  | null => exact nomatch h
  | bool => exact nomatch h
  | int => exact nomatch h
  | str => exact nomatch h
  | obj => exact nomatch h

end GroupCallParticipant

/-! ### Signals -/

inductive Action where
  | start
  | join
  | leave
  | roster
  | key
  | topology
  | stats
deriving DecidableEq

structure GroupCallSignal where
  groupId : DartString
  callId : DartString
  senderDeviceId : DartString
  action : Action
  issuedAt : ℤ
  payload : List (DartString × Json)

namespace GroupCallSignal

/-- The highest term that is taken. -/
def maxTerm : ℤ := 0x7fffffff

/-- `payload['term'] ?? 0` -/
def term (payload : List (DartString × Json)) : Json :=
  match valueAt payload "term" with
  | .null => .int 0
  | value => value

end GroupCallSignal

/-! ### Rates -/

/-- How many signals came in the present second. -/
structure GroupCallRateLimit where
  since : Option ℤ
  count : ℕ
deriving DecidableEq

namespace GroupCallRateLimit

def initial : GroupCallRateLimit := ⟨none, 0⟩

/-- Count one more, in a new second if the last one is over. -/
def counted (limit : GroupCallRateLimit) (now : ℤ) : GroupCallRateLimit :=
  if limit.since.all fun since => decide (seconds 1 ≤ now - since) then ⟨some now, 1⟩
  else ⟨limit.since, limit.count + 1⟩

def accept (limit : GroupCallRateLimit) (now : ℤ) (maximum : ℕ) : GroupCallRateLimit × Bool :=
  (limit.counted now, decide ((limit.counted now).count ≤ maximum))

end GroupCallRateLimit

end Call
end Conest
