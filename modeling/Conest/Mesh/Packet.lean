import Conest.Lib.BigEndian

/-!
# The bitchat packet format

A packet has a fixed header, the sender's id, an optional recipient and source route, the payload and
an optional signature. On the air it may be padded to a block size, every byte of the padding being
the padding's length.

`decode` tries the bytes as they are and then without what looks like padding. A packet says how long
it is, so what is padded is never read as it is, and what is not padded always is.
-/

namespace Conest
namespace Mesh

open Lib

/-! ### Packets -/

namespace BitchatType

def announce : UInt8 := 0x01
def message : UInt8 := 0x02
def leave : UInt8 := 0x03
def noiseHandshake : UInt8 := 0x10
def noiseEncrypted : UInt8 := 0x11
def fragment : UInt8 := 0x20

end BitchatType

namespace Flags

def hasRecipient : UInt8 := 0x01
def hasSignature : UInt8 := 0x02
def isCompressed : UInt8 := 0x04
def hasRoute : UInt8 := 0x08

end Flags

/-- A packet. The timestamp is the bits of the integer. -/
structure BitchatPacket where
  version : UInt8
  type : UInt8
  ttl : UInt8
  timestamp : UInt64
  senderId : Bytes
  recipientId : Option Bytes
  route : Option (List Bytes)
  payload : Bytes
  compressed : Bool
  signature : Option Bytes
deriving DecidableEq

def senderBytes : ℕ := 8

def signatureBytes : ℕ := 64

/-- An id in eight bytes. -/
def fixed (id : Bytes) : Bytes :=
  id.take senderBytes ++ List.replicate (senderBytes - id.length) 0

/-- The flags byte of four conditions. -/
def flagsOf (recipient signature compressed route : Bool) : UInt8 :=
  (if recipient then Flags.hasRecipient else 0) ||| (if signature then Flags.hasSignature else 0) |||
    (if compressed then Flags.isCompressed else 0) ||| (if route then Flags.hasRoute else 0)

/-- The width of the payload's length. -/
def lengthBytes (version : UInt8) : ℕ := if 2 ≤ version then 4 else 2

/-! ### Padding -/

/-- Pads to the next block size when the padding fits in a byte. -/
def bitchatPad (data : Bytes) : Bytes :=
  let target := ([256, 512, 1024, 2048].find? fun block => decide (data.length + 16 ≤ block)).getD
    data.length
  let needed := target - data.length
  if needed = 0 ∨ 255 < needed then data else data ++ List.replicate needed (UInt8.ofNat needed)

def bitchatUnpad (data : Bytes) : Bytes :=
  match data.getLast? with
  | none => data
  | some length =>
    if length = 0 ∨ data.length < length.toNat then data
    else if (data.drop (data.length - length.toNat)).all fun byte => decide (byte = length) then
      data.take (data.length - length.toNat)
    else data

namespace BitchatPacket

variable (p : BitchatPacket)

def hops : List Bytes := p.route.getD []

/-- Everything after the header. -/
def body : Bytes :=
  fixed p.senderId ++ ((p.recipientId.map fixed).getD [] ++
    ((if 2 ≤ p.version ∧ p.hops ≠ [] then UInt8.ofNat p.hops.length :: p.hops.flatMap fixed else []) ++
      (p.payload ++ p.signature.getD [])))

/-- The wire form without padding. -/
def raw : Bytes :=
  p.version :: p.type :: p.ttl :: (bigEndian 8 p.timestamp.toNat ++
    flagsOf p.recipientId.isSome p.signature.isSome p.compressed
      (decide (2 ≤ p.version ∧ p.hops ≠ [])) ::
    (bigEndian (lengthBytes p.version) p.payload.length ++ p.body))

/-- The wire form; packets of the Noise types are padded unless asked otherwise. -/
def encode (pad : Option Bool) : Bytes :=
  if pad.getD (decide (p.type = BitchatType.noiseHandshake ∨ p.type = BitchatType.noiseEncrypted))
  then bitchatPad p.raw else p.raw

/-- What the sender signs: the packet without its signature and with no hops to go, padded. -/
def bytesToSign : Bytes := encode { p with ttl := 0, signature := none } (some true)

/-- The flags that the key for duplicates has. -/
def dedupFlags : UInt8 :=
  flagsOf p.recipientId.isSome p.signature.isSome p.compressed (decide (p.hops ≠ []))

/-- The bytes whose hash is the key for duplicates. -/
def dedupBytes : Bytes :=
  p.version :: p.type :: p.dedupFlags :: (p.senderId ++ (bigEndian 8 p.timestamp.toNat ++
    (p.recipientId.getD [] ++ p.payload)))

/-- The key for duplicate suppression, `sha256` giving the hash as a string. -/
def dedupKey (sha256 : Bytes → DartString) : DartString := sha256 p.dedupBytes

end BitchatPacket

/-! ### Reading -/

/-- The next bytes, if they are there at all. -/
def takeIf (present : Bool) (count : ℕ) (rest : Bytes) : Option (Option Bytes × Bytes) :=
  if present then (take? rest count).map fun (part, rest) => (some part, rest)
  else some (none, rest)

def takeHops : ℕ → Bytes → Option (List Bytes × Bytes)
  | 0, rest => some ([], rest)
  | count + 1, rest => do
    let (hop, rest) ← take? rest senderBytes
    let (hops, rest) ← takeHops count rest
    return (hop :: hops, rest)

def takeRoute (present : Bool) (rest : Bytes) : Option (Option (List Bytes) × Bytes) :=
  if present then do
    let (count, rest) ← take? rest 1
    if count.headD 0 = 0 then return (none, rest)
    let (hops, rest) ← takeHops (count.headD 0).toNat rest
    return (some hops, rest)
  else some (none, rest)

/-- What follows the header. -/
def decodeBody (version type ttl : UInt8) (timestamp : UInt64) (flags : UInt8) (payloadLength : ℕ)
    (rest : Bytes) : Option BitchatPacket := do
  let (senderId, rest) ← take? rest senderBytes
  let (recipientId, rest) ← takeIf (decide (flags &&& Flags.hasRecipient ≠ 0)) senderBytes rest
  let (route, rest) ← takeRoute (decide (2 ≤ version ∧ flags &&& Flags.hasRoute ≠ 0)) rest
  let (payload, rest) ← take? rest payloadLength
  let (signature, rest) ← takeIf (decide (flags &&& Flags.hasSignature ≠ 0)) signatureBytes rest
  -- anything left must be padding, which the caller strips first
  if rest ≠ [] then none
  return { version, type, ttl, timestamp, senderId, recipientId, route, payload, signature,
           compressed := decide (flags &&& Flags.isCompressed ≠ 0) }

/-- A packet without padding. -/
def decodeRaw (raw : Bytes) : Option BitchatPacket :=
  if raw.length < 14 + senderBytes then none
  else
    let version := raw.getD 0 0
    if version ≠ 1 ∧ version ≠ 2 then none
    else
      let payloadLength := ofBigEndian ((raw.drop 12).take (lengthBytes version))
      if 1024 * 1024 < payloadLength then none
      else decodeBody version (raw.getD 1 0) (raw.getD 2 0)
        (UInt64.ofNat (ofBigEndian ((raw.drop 3).take 8))) (raw.getD 11 0) payloadLength
        (raw.drop (12 + lengthBytes version))

/-- Parses a packet, removing padding if needed. -/
def decode (data : Bytes) : Option BitchatPacket :=
  (decodeRaw data).or (decodeRaw (bitchatUnpad data))

end Mesh
end Conest
