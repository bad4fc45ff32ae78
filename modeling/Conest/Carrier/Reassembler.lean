import Conest.Lib.FMap
import Conest.Lib.Machine
import Conest.Lib.LinkedMap
import Conest.Lib.Base64

/-!
# Frames of a carrier network

A sealed envelope is cut into chunks and sent as frames, in JSON where the network carries events
and in bytes elsewhere. `CarrierReassembler` puts the chunks together again: it keeps the partial
envelopes of contacts in one map and those of strangers in another, both in the order in which they
were started, drops what has expired on every frame it buffers, and makes room by dropping the
oldest when a pool is full.

A frame that is the whole envelope is returned at once and touches nothing. The clock is read once
for each frame; times are whole numbers of its unit.
-/

namespace Conest
namespace Carrier

open Lib

/-! ### Framing -/

/-- The size limits of one carrier network. -/
structure CarrierFraming where
  maxSealedBytes : ℕ
  chunkBytes : ℕ
  chunkBytes_pos : 0 < chunkBytes
  chunkBytes_le : chunkBytes ≤ maxSealedBytes

namespace CarrierFraming

variable (framing : CarrierFraming)

/-- The most frames that one envelope may need. -/
def maxFrames : ℕ := (framing.maxSealedBytes + framing.chunkBytes - 1) / framing.chunkBytes

def frameCount (sealedLength : ℕ) : ℕ :=
  (sealedLength + framing.chunkBytes - 1) / framing.chunkBytes

def checkSealed (sealed : Bytes) : Except String Unit :=
  if sealed.isEmpty ∨ framing.maxSealedBytes < sealed.length then
    .error "Sealed envelope size is outside the carrier limit."
  else .ok ()

/-- The bytes of one frame. -/
def chunk (sealed : Bytes) (index : ℕ) : Bytes :=
  (sealed.drop (index * framing.chunkBytes)).take
    (min ((index + 1) * framing.chunkBytes) sealed.length - index * framing.chunkBytes)

end CarrierFraming

/-- The fields of a frame's JSON content. -/
abbrev Content := List (DartString × Json)

def field (name : String) : DartString := DartString.ofString name

/-- The JSON frames of a sealed envelope. -/
def carrierJsonFrames (framing : CarrierFraming) (id : DartString) (sealed : Bytes) :
    Except String (List Content) := do
  framing.checkSealed sealed
  let count := framing.frameCount sealed.length
  return (List.range count).map fun (index : ℕ) =>
    [(field "v", .int 1), (field "id", .str id), (field "i", .int index), (field "n", .int count),
      (field "d", .str (DartString.base64Encode (framing.chunk sealed index)))]

def carrierBinaryFrameVersion : UInt8 := 1

/-- Version, eight bytes of the envelope's id, index and count. -/
def carrierBinaryFrameHeaderBytes : ℕ := 1 + 8 + 1 + 1

/-- The binary frames of a sealed envelope, with the id drawn from `random`. -/
def carrierBinaryFrames (framing : CarrierFraming) (sealed : Bytes) (random : ℕ → UInt8) :
    Except String (List Bytes) := do
  framing.checkSealed sealed
  let count := framing.frameCount sealed.length
  if 255 < count then throw "A binary carrier envelope has at most 255 frames."
  let id := (List.range 8).map random
  return (List.range count).map fun index =>
    carrierBinaryFrameVersion :: (id ++ UInt8.ofNat index :: UInt8.ofNat count ::
      framing.chunk sealed index)

/-! ### Reassembly -/

/-- A partial envelope. -/
structure PendingEnvelope where
  count : ℤ
  startedAt : ℤ
  chunks : FMap ℤ Bytes

/-- The settings of a reassembler. -/
structure Config where
  framing : CarrierFraming
  expiry : ℤ
  maxPending : ℤ
  maxPendingPerSender : ℤ
  strangerPrefix : Option DartString
  maxStrangerPending : ℤ

/-- The two pools of partial envelopes. -/
structure CarrierReassembler where
  pending : LinkedMap DartString PendingEnvelope
  strangers : LinkedMap DartString PendingEnvelope

/-- `Iterable.first` throws on an empty map or list. -/
def noElement : String := "Bad state: No element"

def bar : DartString := DartString.ofString "|"

/-- The decimal digits of a count, as string interpolation writes them. -/
def digits (count : ℤ) : DartString := DartString.ofString (toString count)

/-- The parts of an envelope in order, once every index has its chunk. -/
def assemble (entry : PendingEnvelope) (count : ℤ) : Bytes :=
  (List.range count.toNat).flatMap fun (part : ℕ) => (entry.chunks.get part).getD []

namespace CarrierReassembler

variable (config : Config)

def initial : CarrierReassembler := ⟨LinkedMap.empty, LinkedMap.empty⟩

def isStranger (sender : DartString) : Bool :=
  config.strangerPrefix.any fun start => start.isPrefixOf sender

/-- Drop the partial envelopes that have expired. -/
def sweep (now : ℤ) (pool : LinkedMap DartString PendingEnvelope) :
    LinkedMap DartString PendingEnvelope :=
  pool.filter fun _ entry => !decide (config.expiry < now - entry.startedAt)

/-- Drop the first of some keys; there is none to drop in an empty list. -/
def removeFirst (pool : LinkedMap DartString PendingEnvelope) (keys : List DartString) :
    Except String (LinkedMap DartString PendingEnvelope) :=
  match keys with
  | [] => .error noElement
  | key :: _ => .ok (pool.remove key)

/-- Make room for a contact's new partial envelope. -/
def makeRoom (sender : DartString) (pool : LinkedMap DartString PendingEnvelope) :
    Except String (LinkedMap DartString PendingEnvelope) :=
  let own := pool.keys.filter fun existing => (sender ++ bar).isPrefixOf existing
  if config.maxPendingPerSender ≤ own.length then removeFirst pool own
  else if config.maxPending ≤ pool.size then removeFirst pool pool.keys
  else .ok pool

/-- Make room for a stranger's. -/
def makeStrangerRoom (pool : LinkedMap DartString PendingEnvelope) :
    Except String (LinkedMap DartString PendingEnvelope) :=
  if config.maxStrangerPending ≤ pool.size then removeFirst pool pool.keys else .ok pool

/-- A frame of a stranger: the first chunk for an index stays, and the count is part of the key. -/
def acceptStranger (r : CarrierReassembler) (now : ℤ) (sender id : DartString) (index count : ℤ)
    (chunk : Bytes) : CarrierReassembler × Except String (Option Bytes) :=
  let pool := sweep config now r.strangers
  let key := sender ++ bar ++ id ++ bar ++ digits count
  let room :=
    match pool.get key with
    | some entry => Except.ok (pool, entry)
    | none => (makeStrangerRoom config pool).map fun pool =>
      (pool, ⟨count, now, FMap.empty⟩)
  match room with
  | .error e => (⟨r.pending, pool⟩, .error e)
  | .ok (pool, entry) =>
    let entry := if entry.chunks.contains index then entry
      else { entry with chunks := entry.chunks.insert index chunk }
    if (entry.chunks.size : ℤ) < count then (⟨r.pending, pool.put key entry⟩, .ok none)
    else (⟨r.pending, pool.remove key⟩, .ok (some (assemble entry count)))

/-- A frame of a contact. A frame with another count drops the partial envelope. -/
def acceptContact (r : CarrierReassembler) (now : ℤ) (sender id : DartString) (index count : ℤ)
    (chunk : Bytes) : CarrierReassembler × Except String (Option Bytes) :=
  let key := sender ++ bar ++ id
  let room :=
    match r.pending.get key with
    | some entry => Except.ok (r.pending, entry)
    | none => (makeRoom config sender r.pending).map fun pool => (pool, ⟨count, now, FMap.empty⟩)
  match room with
  | .error e => (r, .error e)
  | .ok (pool, entry) =>
    if entry.count ≠ count then (⟨pool.remove key, r.strangers⟩, .ok none)
    else
      let entry := { entry with chunks := entry.chunks.insert index chunk }
      if (entry.chunks.size : ℤ) < count then (⟨pool.put key entry, r.strangers⟩, .ok none)
      else (⟨pool.remove key, r.strangers⟩, .ok (some (assemble entry count)))

def accept (r : CarrierReassembler) (now : ℤ) (sender id : DartString) (index count : ℤ)
    (chunk : Bytes) : CarrierReassembler × Except String (Option Bytes) :=
  if count < 1 ∨ config.framing.maxFrames < count ∨ index < 0 ∨ count ≤ index ∨ chunk.isEmpty ∨
      config.framing.chunkBytes < chunk.length then (r, .ok none)
  else if count = 1 then (r, .ok (some chunk))
  else
    let r := { r with pending := sweep config now r.pending }
    if isStranger config sender then acceptStranger config r now sender id index count chunk
    else acceptContact config r now sender id index count chunk

end CarrierReassembler

/-- What a frame says: the envelope's id, the index and the count of frames, and the chunk. -/
structure Part where
  id : DartString
  index : ℤ
  count : ℤ
  chunk : Bytes
deriving DecidableEq

/-- The value of a field; a later entry of a JSON object replaces an earlier one. -/
def lookup (content : Content) (name : String) : Option Json :=
  (content.reverse.find? fun entry => decide (entry.1 = field name)).map Prod.snd

/-- The part that a JSON frame holds, if its fields have the right types. -/
def readJson (content : Content) : Option Part :=
  match lookup content "v", lookup content "id", lookup content "i", lookup content "n",
    lookup content "d" with
  | some (.int 1), some (.str id), some (.int index), some (.int count), some (.str data) =>
    if id.isEmpty ∨ 128 < id.length then none
    else (DartString.base64Decode data).map fun bytes =>
      ⟨id, index, count, bytes.map UInt8.ofNat⟩
  | _, _, _, _, _ => none

/-- The part that a binary frame holds. -/
def readBinary (frame : Bytes) : Option Part :=
  if frame.length ≤ carrierBinaryFrameHeaderBytes ∨ frame[0]? ≠ some carrierBinaryFrameVersion then
    none
  else some
    ⟨DartString.base64Encode ((frame.drop 1).take 8), (frame[9]?.getD 0).toNat,
      (frame[10]?.getD 0).toNat, frame.drop carrierBinaryFrameHeaderBytes⟩

namespace CarrierReassembler

variable (config : Config)

def acceptPart (r : CarrierReassembler) (now : ℤ) (sender : DartString) :
    Option Part → CarrierReassembler × Except String (Option Bytes)
  | none => (r, .ok none)
  | some part => r.accept config now sender part.id part.index part.count part.chunk

/-- Add a JSON frame. -/
def add (r : CarrierReassembler) (now : ℤ) (sender : DartString) (content : Content) :
    CarrierReassembler × Except String (Option Bytes) :=
  r.acceptPart config now sender (readJson content)

/-- Add a binary frame. -/
def addBinary (r : CarrierReassembler) (now : ℤ) (sender : DartString) (frame : Bytes) :
    CarrierReassembler × Except String (Option Bytes) :=
  r.acceptPart config now sender (readBinary frame)

end CarrierReassembler

/-- A frame as it arrives. -/
inductive Frame where
  | json (content : Content)
  | binary (bytes : Bytes)
deriving DecidableEq

/-- A frame with its sender and the time at which it is added. -/
structure Arrival where
  now : ℤ
  sender : DartString
  frame : Frame
deriving DecidableEq

/-- The part that a frame holds. -/
def Frame.read : Frame → Option Part
  | .json content => readJson content
  | .binary bytes => readBinary bytes

/-- The reassembler, frame by frame. -/
def machine (config : Config) :
    Machine CarrierReassembler Arrival (Except String (Option Bytes)) where
  step r arrival :=
    match arrival.frame with
    | .json content => r.add config arrival.now arrival.sender content
    | .binary bytes => r.addBinary config arrival.now arrival.sender bytes

theorem machine_step (config : Config) (r : CarrierReassembler) (arrival : Arrival) :
    (machine config).step r arrival =
      r.acceptPart config arrival.now arrival.sender arrival.frame.read := by
  obtain ⟨now, sender, frame⟩ := arrival
  cases frame with
  | json content => rfl
  | binary bytes => rfl

end Carrier
end Conest
