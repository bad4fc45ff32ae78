import Conest.Lib.LinkedMap
import Conest.Mesh.Packet

/-!
# Fragments of bitchat packets

A packet that is too large for a link goes as fragments: packets of their own, whose payloads are
slices of the whole encoded packet. The reassembler keeps the slices of a few packets at a time and
gives the bytes of a packet once all of its slices are there.

What the reassembler holds has a weight, the bytes of the slices. A packet that is put together leaves
the reassembler, so its bytes are those that were held and those that came last (`add_weight`).
-/

namespace Conest
namespace Mesh

open Lib List

/-! ### One fragment -/

def bitchatMinFragmentChunk : ℕ := 64

def bitchatMinLinkLimit : ℤ := 110

def fragmentHeaderBytes : ℕ := 8 + 2 + 2 + 1

/-- A slice of an encoded packet. -/
structure BitchatFragment where
  fragmentId : Bytes
  index : ℕ
  total : ℕ
  originalType : UInt8
  chunk : Bytes

namespace BitchatFragment

def encode (f : BitchatFragment) : Bytes :=
  f.fragmentId ++ (bigEndian 2 f.index ++ (bigEndian 2 f.total ++ f.originalType :: f.chunk))

def decode (payload : Bytes) : Option BitchatFragment :=
  if payload.length ≤ fragmentHeaderBytes then none
  else
    let index := ofBigEndian ((payload.drop 8).take 2)
    let total := ofBigEndian ((payload.drop 10).take 2)
    if total = 0 ∨ total ≤ index then none
    else some ⟨payload.take 8, index, total, payload.getD 12 0, payload.drop fragmentHeaderBytes⟩

theorem chunk_length {payload : Bytes} {f : BitchatFragment} (h : decode payload = some f) :
    f.chunk.length + fragmentHeaderBytes = payload.length := by
  unfold decode at h
  split at h
  · cases h
  next hlong =>
  simp only at h
  split at h
  · cases h
  · cases h
    rw [length_drop]
    omega

end BitchatFragment

/-- One of the packets that carry a packet in slices. -/
def fragmentOf (original : BitchatPacket) (id : Bytes) (index total : ℕ) (chunk : Bytes) :
    BitchatPacket where
  version := original.version
  type := BitchatType.fragment
  ttl := original.ttl
  timestamp := original.timestamp
  senderId := original.senderId
  recipientId := original.recipientId
  route := original.route
  payload := BitchatFragment.encode ⟨id, index, total, original.type, chunk⟩
  compressed := false
  signature := none

/-- Splits a packet into packets of at most `maxPacketBytes`; `none` is the error that is thrown. -/
def bitchatFragmentsFor (original : BitchatPacket) (maxPacketBytes : ℤ) (id : Bytes) :
    Option (List BitchatPacket) :=
  let encoded := original.encode none
  let overhead := ((fragmentOf original id 0 1 []).encode none).length
  let size := maxPacketBytes - overhead
  if size < bitchatMinFragmentChunk then none
  else
    let total := (encoded.length + size.toNat - 1) / size.toNat
    if 0xffff < total then none
    else some ((List.range total).map fun index =>
      fragmentOf original id index total ((encoded.drop (index * size.toNat)).take size.toNat))

/-! ### Putting fragments together -/

/-- The slices of a packet that have arrived. -/
structure Pending where
  total : ℕ
  originalType : UInt8
  startedAt : Int64
  chunks : LinkedMap ℕ Bytes
  bytes : ℕ

def maxPending : ℕ := 32

def maxBytes : ℕ := 64 * 1024

/-- In milliseconds. -/
def lifetime : ℤ := 30 * 1000

namespace Pending

/-- The slice is kept unless it is there already; `none` when the packet becomes too large. -/
def place (entry : Pending) (fragment : BitchatFragment) : Option Pending :=
  if entry.chunks.contains fragment.index then some entry
  else
    let bytes := entry.bytes + fragment.chunk.length
    if maxBytes < bytes then none
    else some { entry with bytes, chunks := entry.chunks.put fragment.index fragment.chunk }

/-- The slices one after the other; when there are as many as there should be, none is missing. -/
def whole (entry : Pending) : Bytes :=
  (List.range entry.total).flatMap fun index => (entry.chunks.get index).getD []

/-- The bytes of the slices. -/
def weight (entry : Pending) : ℕ := entry.chunks.total List.length

end Pending

/-- The packets of which fragments have arrived, by sender and fragment id (written in hex in the
source), in the order in which their first fragments came. -/
structure BitchatReassembler where
  pending : LinkedMap (Bytes × Bytes) Pending

namespace BitchatReassembler

def initial : BitchatReassembler := ⟨LinkedMap.empty⟩

/-- Makes room for one more packet. -/
def makeRoom (pending : LinkedMap (Bytes × Bytes) Pending) : LinkedMap (Bytes × Bytes) Pending :=
  if maxPending ≤ pending.size then
    match pending.keys.head? with
    | some oldest => pending.remove oldest
    | none => pending
  else pending

/-- The entry that a fragment belongs to, which is new if there is none. -/
def entryFor (pending : LinkedMap (Bytes × Bytes) Pending) (key : Bytes × Bytes) (now : Int64)
    (fragment : BitchatFragment) : LinkedMap (Bytes × Bytes) Pending × Pending :=
  match pending.get key with
  | some entry => (pending, entry)
  | none =>
    let entry : Pending := ⟨fragment.total, fragment.originalType, now, LinkedMap.empty, 0⟩
    ((makeRoom pending).put key entry, entry)

/-- Adds the fragment that a packet carries: the bytes of the whole packet and the type it claimed,
once every fragment has arrived. -/
def add (r : BitchatReassembler) (now : Int64) (packet : BitchatPacket) :
    BitchatReassembler × Option (Bytes × UInt8) :=
  match BitchatFragment.decode packet.payload with
  | none => (r, none)
  | some fragment =>
    if maxBytes * 2 < fragment.total * fragment.chunk.length then (r, none)
    else
      let alive := r.pending.filter fun _ entry =>
        decide (now.toInt - entry.startedAt.toInt ≤ lifetime)
      let key := (packet.senderId, fragment.fragmentId)
      let (pending, entry) := entryFor alive key now fragment
      -- a fragment that disagrees is ignored
      if entry.total ≠ fragment.total ∨ entry.originalType ≠ fragment.originalType then
        (⟨pending⟩, none)
      else
        match entry.place fragment with
        | none => (⟨pending.remove key⟩, none)
        | some entry =>
          if entry.chunks.size < entry.total then (⟨pending.put key entry⟩, none)
          else (⟨pending.remove key⟩, some (entry.whole, entry.originalType))

/-! ### The weight -/

/-- The bytes that the reassembler holds. -/
def weight (r : BitchatReassembler) : ℕ := r.pending.total Pending.weight

end BitchatReassembler

variable {pending : LinkedMap (Bytes × Bytes) Pending} {key : Bytes × Bytes} {now : Int64}
  {fragment : BitchatFragment} {entry entry' : Pending}

theorem Pending.length_whole (entry : Pending) : entry.whole.length ≤ entry.weight := by
  unfold whole weight
  rw [length_flatMap]
  have hle := entry.chunks.sum_get_le length (nodup_range (n := entry.total))
  have hsame : (fun index => ((entry.chunks.get index).getD []).length) =
      fun index => ((entry.chunks.get index).map length).getD 0 := by
    ext index
    cases entry.chunks.get index <;> rfl
  rw [hsame]
  exact hle

theorem Pending.weight_place (h : entry.place fragment = some entry') :
    entry'.weight ≤ entry.weight + fragment.chunk.length := by
  unfold place at h
  split at h
  · cases h
    exact Nat.le_add_right _ _
  next hnew =>
  simp only at h
  split at h
  · cases h
  cases h
  have hnot : fragment.index ∉ entry.chunks.keys := fun hmem =>
    hnew (LinkedMap.contains_iff.mpr hmem)
  apply le_of_eq
  exact LinkedMap.total_put_of_not_mem length hnot

namespace BitchatReassembler

theorem makeRoom_total : (makeRoom pending).total Pending.weight ≤ pending.total Pending.weight := by
  unfold makeRoom
  split
  · split
    · exact LinkedMap.total_remove_le _
    · exact le_rfl
  · exact le_rfl

theorem get_makeRoom (h : pending.get key = none) : (makeRoom pending).get key = none := by
  unfold makeRoom
  split
  · split
    · rw [LinkedMap.get_remove, h, ite_self]
    · exact h
  · exact h

theorem entryFor_spec {pending' : LinkedMap (Bytes × Bytes) Pending}
    (h : entryFor pending key now fragment = (pending', entry)) :
    pending'.get key = some entry ∧
      pending'.total Pending.weight ≤ pending.total Pending.weight := by
  unfold entryFor at h
  split at h
  · next entry₀ hget =>
    cases h
    exact ⟨hget, le_rfl⟩
  next hnone =>
  cases h
  refine ⟨by rw [LinkedMap.get_put, if_pos rfl], ?_⟩
  have hnot : key ∉ (makeRoom pending).keys := LinkedMap.get_eq_none.mp (get_makeRoom hnone)
  calc _ = (makeRoom pending).total Pending.weight + Pending.weight
          ⟨fragment.total, fragment.originalType, now, LinkedMap.empty, 0⟩ :=
        LinkedMap.total_put_of_not_mem _ hnot
    _ = (makeRoom pending).total Pending.weight := rfl
    _ ≤ pending.total Pending.weight := makeRoom_total

/-- **A packet put together** weighs no more than the reassembler has given up for it, the payload of
the last fragment included. -/
theorem add_weight {r r' : BitchatReassembler} {packet : BitchatPacket} {whole : Bytes}
    {type : UInt8} (h : r.add now packet = (r', some (whole, type))) :
    r'.weight + whole.length < r.weight + packet.payload.length := by
  unfold add at h
  split at h
  · cases h
  next fragment hdecode =>
  have hchunk := BitchatFragment.chunk_length hdecode
  split at h
  · cases h
  have halive := LinkedMap.total_filter_le (m := r.pending) Pending.weight fun _ entry =>
    decide (now.toInt - entry.startedAt.toInt ≤ lifetime)
  simp only at h
  rcases hentry : entryFor (r.pending.filter fun _ entry =>
    decide (now.toInt - entry.startedAt.toInt ≤ lifetime)) (packet.senderId, fragment.fragmentId)
    now fragment with ⟨pending, entry⟩
  rw [hentry] at h
  simp only at h
  split at h
  · cases h
  split at h
  · cases h
  next entry' hplace =>
  split at h
  · cases h
  cases h
  obtain ⟨hget, htotal⟩ := entryFor_spec hentry
  have hremove := LinkedMap.total_remove Pending.weight hget
  have hplaced := Pending.weight_place hplace
  have hwhole := entry'.length_whole
  have hheader : fragmentHeaderBytes = 13 := rfl
  show (pending.remove (packet.senderId, fragment.fragmentId)).total Pending.weight +
    entry'.whole.length < r.pending.total Pending.weight + packet.payload.length
  omega

end BitchatReassembler

end Mesh
end Conest
