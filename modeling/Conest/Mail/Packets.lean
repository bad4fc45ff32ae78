import Conest.Lib.BigEndian

/-!
# OpenPGP packets

`packet` writes a packet in the new format, with one of three forms of its length; `readPackets` reads
the old format, the new one and partial lengths. What a length is written as decides how the reader
goes on (`readLength_packetLength`): each of the three forms is told by its first byte and is whole, so
the reader takes one chunk and stops.
-/

open Lib List Option

namespace Conest
namespace Mail
namespace OpenPgp

variable {packets : List (ℕ × Bytes)} {limit length tag : ℕ}

def maxPackets : ℕ := 4096
def maxPartialChunks : ℕ := 65536

/-- The length of a packet in the new format. -/
def packetLength (length : ℕ) : Bytes :=
  if length < 192 then [UInt8.ofNat length]
  else if length < 8384 then
    [UInt8.ofNat ((length - 192) >>> 8 + 192), UInt8.ofNat ((length - 192) &&& 0xff)]
  else 0xff :: bigEndian 4 length

/-- A new-format packet. -/
def packet (tag : ℕ) (body : Bytes) : Bytes :=
  UInt8.ofNat (0xc0 ||| tag) :: (packetLength body.length ++ body)

/-- The length at the front of a chunk, whether another chunk follows it, and the rest. -/
def readLength : Bytes → Option ((ℕ × Bool) × Bytes)
  | [] => none
  | l1 :: rest =>
    if l1 < 192 then some ((l1.toNat, false), rest)
    else if l1 < 224 then
      rest.head?.map fun l2 => (((l1.toNat - 192) <<< 8 + l2.toNat + 192, false), rest.tail)
    else if l1 = 255 then (take? rest 4).map fun split => ((ofBigEndian split.1, false), split.2)
    else some ((1 <<< (l1.toNat &&& 0x1f), true), rest)

/-- The chunks of a new-format packet, put together. -/
def readChunks : ℕ → Bytes → Option (Bytes × Bytes)
  | 0, _ => none
  | chunks + 1, bytes =>
    match readLength bytes with
    | none => none
    | some ((length, more), rest) =>
      match take? rest length with
      | none => none
      | some (chunk, rest) =>
        if more then (readChunks chunks rest).map fun body => (chunk ++ body.1, body.2)
        else some (chunk, rest)

/-- The body of an old-format packet. -/
def readOldBody (type : ℕ) (rest : Bytes) : Option (Bytes × Bytes) :=
  if type = 3 then some (rest, [])
  else (take? rest (1 <<< type)).bind fun size => take? size.2 (ofBigEndian size.1)

/-- One packet, with its tag. -/
def readPacket : Bytes → Option ((ℕ × Bytes) × Bytes)
  | [] => none
  | first :: rest =>
    if first &&& 0x80 = 0 then none
    else if first &&& 0x40 ≠ 0 then
      (readChunks maxPartialChunks rest).map fun body => (((first &&& 0x3f).toNat, body.1), body.2)
    else
      (readOldBody (first &&& 3).toNat rest).map fun body =>
        ((((first >>> 2) &&& 0x0f).toNat, body.1), body.2)

/-- The loop of `readPackets`, which may read `packets` more. -/
def readLoop : ℕ → Bytes → Option (List (ℕ × Bytes))
  | _, [] => some []
  | 0, _ :: _ => none
  | packets + 1, first :: rest =>
    (readPacket (first :: rest)).bind fun packet =>
      (readLoop packets packet.2).map fun packets => packet.1 :: packets

/-- `readPackets`: `none` where it throws. -/
def readPackets (data : Bytes) : Option (List (ℕ × Bytes)) := readLoop maxPackets data

/-! ### What is read is no longer than the data -/

theorem length_readLength {bytes rest : Bytes} {length : ℕ × Bool}
    (h : readLength bytes = some (length, rest)) : rest.length ≤ bytes.length := by
  cases bytes with
  | nil => cases h
  | cons l1 tail =>
  rw [readLength] at h
  split at h
  · cases h
    exact Nat.le_succ _
  split at h
  · obtain ⟨l2, _, hl2⟩ := map_eq_some_iff.mp h
    cases hl2
    rw [length_tail, length_cons]
    omega
  split at h
  · obtain ⟨⟨front, back⟩, hsplit, hlength⟩ := map_eq_some_iff.mp h
    cases hlength
    obtain ⟨rfl, -⟩ := take?_eq_some hsplit
    calc back.length ≤ (front ++ back).length := by
          rw [length_append]
          exact Nat.le_add_left _ _
      _ ≤ (l1 :: (front ++ back)).length := Nat.le_succ _
  · cases h
    exact Nat.le_succ _

theorem length_readChunks {chunks : ℕ} {bytes body rest : Bytes}
    (h : readChunks chunks bytes = some (body, rest)) :
    body.length + rest.length ≤ bytes.length := by
  induction chunks generalizing bytes body rest with
  | zero => cases h
  | succ chunks ih =>
  rw [readChunks] at h
  split at h
  · cases h
  case h_2 length more after hlength =>
    have hafter := length_readLength hlength
    split at h
    · cases h
    case h_2 chunk back hsplit =>
      obtain ⟨rfl, -⟩ := take?_eq_some hsplit
      rw [length_append] at hafter
      split at h
      · -- a partial length: the rest of the body is in the chunks that follow
        obtain ⟨⟨body', rest'⟩, hbody, hrest⟩ := map_eq_some_iff.mp h
        cases hrest
        have hrest := ih hbody
        simp only [length_append]
        omega
      · cases h
        omega

theorem length_readOldBody {type : ℕ} {bytes body rest : Bytes}
    (h : readOldBody type bytes = some (body, rest)) : body.length + rest.length ≤ bytes.length := by
  unfold readOldBody at h
  split at h
  · cases h
    exact Nat.le_refl _
  obtain ⟨⟨size, back⟩, hsize, hbody⟩ := bind_eq_some_iff.mp h
  obtain ⟨rfl, -⟩ := take?_eq_some hsize
  obtain ⟨hback, -⟩ := take?_eq_some hbody
  simp only at hback
  rw [hback, length_append, length_append]
  omega

theorem length_readPacket {bytes rest : Bytes} {packet : ℕ × Bytes}
    (h : readPacket bytes = some (packet, rest)) :
    packet.2.length + rest.length ≤ bytes.length := by
  cases bytes with
  | nil => cases h
  | cons first tail =>
  rw [readPacket] at h
  split at h
  · cases h
  split at h
  · obtain ⟨body, hbody, hpacket⟩ := map_eq_some_iff.mp h
    cases hpacket
    exact (length_readChunks hbody).trans (Nat.le_succ _)
  · obtain ⟨body, hbody, hpacket⟩ := map_eq_some_iff.mp h
    cases hpacket
    exact (length_readOldBody hbody).trans (Nat.le_succ _)

theorem length_of_readLoop {data : Bytes} (h : readLoop limit data = some packets) :
    ∀ p ∈ packets, p.2.length ≤ data.length := by
  induction limit generalizing data packets with
  | zero =>
    cases data with
    | nil =>
      cases h
      exact fun p hp => absurd hp not_mem_nil
    | cons first rest => cases h
  | succ limit ih =>
  cases data with
  | nil =>
    cases h
    exact fun p hp => absurd hp not_mem_nil
  | cons first rest =>
  obtain ⟨⟨packet, back⟩, hpacket, hmore⟩ := bind_eq_some_iff.mp h
  obtain ⟨more, hback, rfl⟩ := map_eq_some_iff.mp hmore
  have hlength := length_readPacket hpacket
  intro p hp
  rcases mem_cons.mp hp with rfl | hin
  · omega
  · have := ih hback p hin
    simp only at this
    omega

theorem length_of_readPackets {data : Bytes} (h : readPackets data = some packets) :
    ∀ p ∈ packets, p.2.length ≤ data.length :=
  length_of_readLoop h

/-! ### What is written is read back -/

theorem length_packetLength_le (length : ℕ) : (packetLength length).length ≤ 5 := by
  unfold packetLength
  split
  · exact Nat.le_add_left 1 4
  · split
    · exact Nat.le_add_left 2 3
    · rw [length_cons, bigEndian_length]

theorem two_bytes (h192 : ¬ length < 192) (h8384 : length < 8384) :
    (UInt8.ofNat ((length - 192) >>> 8 + 192)).toNat = (length - 192) / 256 + 192 ∧
      (UInt8.ofNat ((length - 192) &&& 0xff)).toNat = (length - 192) % 256 := by
  have hlow : (length - 192) &&& 0xff = (length - 192) % 256 := Nat.and_two_pow_sub_one_eq_mod _ 8
  rw [UInt8.toNat_ofNat', UInt8.toNat_ofNat']
  omega

/-- **A length is read as it was written**, whichever of the three forms it has. -/
theorem readLength_packetLength (h : length < 2 ^ 32) (rest : Bytes) :
    readLength (packetLength length ++ rest) = some ((length, false), rest) := by
  unfold packetLength
  split
  case isTrue h192 =>
    have hbyte : (UInt8.ofNat length).toNat = length := by
      exact Nat.mod_eq_of_lt (by omega)
    have hlt : UInt8.ofNat length < 192 := by
      rw [UInt8.lt_iff_toNat_lt, hbyte]
      exact h192
    rw [singleton_append, readLength, if_pos hlt, hbyte]
  case isFalse h192 =>
    split
    case isTrue h8384 =>
      obtain ⟨hhigh, hlow⟩ := two_bytes h192 h8384
      have hnot : ¬ UInt8.ofNat ((length - 192) >>> 8 + 192) < 192 := by
        rw [UInt8.lt_iff_toNat_lt, hhigh]
        exact Nat.not_lt.mpr (Nat.le_add_left _ _)
      have hlt : UInt8.ofNat ((length - 192) >>> 8 + 192) < 224 := by
        rw [UInt8.lt_iff_toNat_lt]
        show _ < 224
        omega
      rw [cons_append, singleton_append, readLength, if_neg hnot, if_pos hlt,
        head?_cons, map_some, tail_cons]
      -- the high byte counts from 192, and the whole again from 192
      have hsum : ((length - 192) / 256 + 192 - 192) <<< 8 + (length - 192) % 256 + 192 = length := by
        omega
      rw [hhigh, hlow, hsum]
    case isFalse h8384 =>
      have hwidth : length % 256 ^ 4 = length := Nat.mod_eq_of_lt h
      rw [cons_append, readLength, if_neg (by decide), if_neg (by decide), if_pos rfl,
        take?_append (bigEndian_length 4 length), map_some, ofBigEndian_bigEndian, hwidth]

theorem readChunks_packet {body : Bytes} (h : body.length < 2 ^ 32) (chunks : ℕ) (rest : Bytes) :
    readChunks (chunks + 1) (packetLength body.length ++ (body ++ rest)) = some (body, rest) := by
  rw [readChunks, readLength_packetLength h]
  simp only [take?_append rfl rest]
  rfl

theorem first_byte (h : tag < 64) :
    UInt8.ofNat (0xc0 ||| tag) &&& 0x80 ≠ 0 ∧ UInt8.ofNat (0xc0 ||| tag) &&& 0x40 ≠ 0 ∧
      (UInt8.ofNat (0xc0 ||| tag) &&& 0x3f).toNat = tag := by
  revert tag
  decide

theorem readPacket_packet (htag : tag < 64) {body : Bytes} (hbody : body.length < 2 ^ 32)
    (rest : Bytes) : readPacket (packet tag body ++ rest) = some ((tag, body), rest) := by
  obtain ⟨h80, h40, h3f⟩ := first_byte htag
  rw [packet, cons_append, append_assoc, readPacket, if_neg h80, if_pos h40,
    show maxPartialChunks = 65535 + 1 from rfl, readChunks_packet hbody, map_some, h3f]

/-- Packets one after the other. -/
def writePackets (packets : List (ℕ × Bytes)) : Bytes :=
  packets.flatMap fun p => packet p.1 p.2

/-- What `packet` can write so that it is read back. -/
def Writable (p : ℕ × Bytes) : Prop := p.1 < 64 ∧ p.2.length < 2 ^ 32

theorem readLoop_writePackets (h : ∀ p ∈ packets, Writable p) (hlimit : packets.length ≤ limit) :
    readLoop limit (writePackets packets) = some packets := by
  induction packets generalizing limit with
  | nil => cases limit <;> rfl
  | cons p packets ih =>
  obtain ⟨limit, rfl⟩ : ∃ n, limit = n + 1 :=
    Nat.exists_eq_succ_of_ne_zero (Nat.ne_of_gt (Nat.lt_of_lt_of_le (Nat.succ_pos _) hlimit))
  have hp := h p mem_cons_self
  have hrest := ih (fun q hq => h q (mem_cons_of_mem p hq)) (Nat.le_of_succ_le_succ hlimit)
  have hread := readPacket_packet hp.1 hp.2 (writePackets packets)
  have hcons : writePackets (p :: packets) = packet p.1 p.2 ++ writePackets packets :=
    flatMap_cons
  rw [hcons]
  -- the loop sees that there is another byte before it reads the packet
  rw [packet, cons_append] at hread ⊢
  rw [readLoop, hread, bind_some, hrest]
  rfl

/-- **Any concatenation of at most 4096 packets** is read as the packets that were written. -/
theorem readPackets_writePackets (h : ∀ p ∈ packets, Writable p)
    (hcount : packets.length ≤ maxPackets) : readPackets (writePackets packets) = some packets :=
  readLoop_writePackets h hcount

end OpenPgp
end Mail
end Conest
