import Conest.Lib.BigEndian
import Conest.Lib.Deframer

/-!
# Splitting what arrives over BLE

The notifications of a BLE link have no framing of their own. The `Reassembler` collects their bytes
and reads the length fields of the bitchat packets in them (`packetSize`), so that it gives back
packet after packet. Between two packets it drops the padding that the first one may have.
-/

namespace Conest
namespace Ble

open Lib

def maxPacket : ℕ := 4096

/-- The size of the packet that starts the bytes, once they say it. -/
def packetSize (bytes : Bytes) : Except Unit (Option ℕ) :=
  let version := bytes.getD 0 0
  if version ≠ 1 ∧ version ≠ 2 then .error ()
  else
    let header := if version = 1 then 14 else 16
    if bytes.length < header then .ok none
    else
      let flags := bytes.getD 11 0
      if flags &&& ~~~15 ≠ 0 ∨ (version = 1 ∧ flags &&& 8 ≠ 0) then .error ()
      else
        let payload := ofBigEndian ((bytes.drop 12).take (header - 12))
        if maxPacket < payload then .error ()
        else
          let size := header + 8 + if flags &&& 1 ≠ 0 then 8 else 0
          if flags &&& 8 ≠ 0 ∧ bytes.length ≤ size then .ok none
          else
            let size := if flags &&& 8 ≠ 0 then size + (1 + (bytes.getD size 0).toNat * 8) else size
            let size := size + (payload + if flags &&& 2 ≠ 0 then 64 else 0)
            if maxPacket < size then .error () else .ok (some size)

/-- What the loop of `push` reads and writes: the bytes of the unfinished packet, and the padding
that may still follow the last one, as its byte and how many of them. -/
structure Buffer where
  bytes : Bytes
  padding : UInt8 × ℕ
deriving DecidableEq

def Buffer.empty : Buffer := ⟨[], (0, 0)⟩

/-- The padding that a packet of this size would have. -/
def paddingAfter (raw : Bytes) : UInt8 × ℕ :=
  let padding :=
    match [256, 512, 1024, 2048].find? fun block => decide (raw.length + 16 ≤ block) with
    | some block => block - raw.length
    | none => 0
  if padding ≤ 255 then (UInt8.ofNat padding, padding) else (0, 0)

/-- One byte of the loop. -/
def Buffer.accept (s : Buffer) (byte : UInt8) : Except Unit (List Bytes × Buffer) :=
  if s.bytes = [] ∧ 0 < s.padding.2 ∧ byte = s.padding.1 then
    .ok ([], { s with padding := (s.padding.1, s.padding.2 - 1) })
  else
    let padding := if s.bytes = [] ∧ 0 < s.padding.2 then (0, 0) else s.padding
    let bytes := s.bytes ++ [byte]
    match packetSize bytes with
    | .error e => .error e
    | .ok size =>
      if size = some bytes.length then .ok ([bytes], ⟨[], paddingAfter bytes⟩)
      else .ok ([], ⟨bytes, padding⟩)

def Buffer.feed (s : Buffer) (chunk : Bytes) : Except Unit (List Bytes × Buffer) :=
  Deframer.trySteps Buffer.accept s chunk

structure Reassembler extends Buffer where
  last : ℕ
deriving DecidableEq

namespace Reassembler

def empty : Reassembler := ⟨Buffer.empty, 0⟩

/-- `push`. Five seconds of silence, too many bytes and a malformed packet each drop what was
collected; the last two are errors. -/
def push (r : Reassembler) (chunk : Bytes) (now : ℕ) : Except Unit (List Bytes) × Reassembler :=
  let buffer := if 5000 < now - r.last then Buffer.empty else r.toBuffer
  if maxPacket < chunk.length ∨ maxPacket < buffer.bytes.length + chunk.length then
    (.error (), empty)
  else
    match buffer.feed chunk with
    | .error e => (.error e, empty)
    | .ok (packets, buffer) => (.ok packets, ⟨buffer, now⟩)

/-- The results of pushing chunk after chunk, each at its time. -/
def pushes (r : Reassembler) : List (Bytes × ℕ) → List (Except Unit (List Bytes))
  | [] => []
  | (chunk, now) :: chunks => (r.push chunk now).1 :: pushes (r.push chunk now).2 chunks

end Reassembler

end Ble
end Conest
