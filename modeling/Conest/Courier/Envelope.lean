import Conest.Lib.BigEndian
import Conest.Lib.Utf8

/-!
# Compact envelopes

A courier carries an envelope as one block of bytes: a header of 32 bytes, three ids, the encrypted
payload, and a CRC-32C over all of that. `encode` and `decode` are the two directions as the source
has them, `Frame` is what lies between: the fields of a block as they stand in it, before anything
is asked of them. Every block that `decode` gets as far as reading is a frame (`exists_frame`), and
what it makes of a frame is `Frame.read`.

Encoder and decoder do not ask the same. The encoder compares times in microseconds and writes
milliseconds, which are what the decoder compares. The decoder drops a byte order mark in front of
an id, leaves seven bits of the flags and a reserved byte unread, and turns times that no `DateTime`
can hold into an error of another kind. `codec_exact` says for which envelopes and for which blocks
none of this matters.
-/

open Lib Lib.DartString List Option

namespace Conest
namespace Courier

/-! ### Times -/

/-- A hundred million days. -/
def maxMicroseconds : ℤ := 8640000000000000000

/-- A point in time, in microseconds since the epoch. -/
@[ext] structure DateTime where
  micros : ℤ
  inRange : -maxMicroseconds ≤ micros ∧ micros ≤ maxMicroseconds
deriving DecidableEq

namespace DateTime

def isAfter (t u : DateTime) : Bool := decide (u.micros < t.micros)

/-- Division rounds toward the epoch. -/
def millisecondsSinceEpoch (t : DateTime) : ℤ := t.micros.tdiv 1000

/-- `DateTime.fromMillisecondsSinceEpoch`, `none` where it throws a `RangeError`. -/
def ofMilliseconds (ms : ℤ) : Option DateTime :=
  if h : -maxMicroseconds ≤ ms * 1000 ∧ ms * 1000 ≤ maxMicroseconds then some ⟨ms * 1000, h⟩
  else none

end DateTime

/-! ### The checksum -/

/-- One bit of the table's index. -/
def crc32cBit (value : ℕ) : ℕ :=
  if value &&& 1 = 1 then (value >>> 1) ^^^ 0x82f63b78 else value >>> 1

/-- `_crc32cTable[index]`. -/
def crc32cTable (index : ℕ) : ℕ := Nat.iterate crc32cBit 8 index &&& 0xffffffff

/-- `_crc32c`. -/
def crc32c (bytes : Bytes) : ℕ :=
  (bytes.foldl (fun crc byte => crc32cTable ((crc ^^^ byte.toNat) &&& 0xff) ^^^ (crc >>> 8))
    0xffffffff ^^^ 0xffffffff) &&& 0xffffffff

theorem crc32c_lt (bytes : Bytes) : crc32c bytes < 256 ^ 4 :=
  Nat.lt_succ_of_le Nat.and_le_right

/-! ### Encoding and decoding -/

def compactEnvelopeMaximumPayloadBytes : ℕ := 1024 * 1024

structure CompactStoreForwardEnvelope where
  messageId : DartString
  senderDeviceId : DartString
  recipientDeviceId : DartString
  createdAt : DateTime
  expiresAt : DateTime
  payload : Bytes
  hopCount : ℤ
  maximumHops : ℤ
  receiptRequested : Bool
deriving DecidableEq

/-- `CSF1`. -/
def magic : Bytes := [0x43, 0x53, 0x46, 0x31]

/-- The exceptions of `decode`: a `FormatException`, or the `RangeError` of a time that no
`DateTime` can hold. -/
inductive DecodeError where
  | format (message : String)
  | range
deriving DecidableEq

/-- `setUint64` keeps the low 64 bits. -/
def toUint64 (n : ℤ) : ℕ := (n % 2 ^ 64).toNat

/-- `getUint64`, whose value is an `int` of 64 bits. -/
def ofUint64 (n : ℕ) : ℤ := if n < 2 ^ 63 then n else n - 2 ^ 64

namespace CompactStoreForwardEnvelope

/-- What the encoder asks of the fields. -/
def Encodable (e : CompactStoreForwardEnvelope) : Prop :=
  (1 ≤ (utf8Encode e.messageId).length ∧ (utf8Encode e.messageId).length ≤ 255) ∧
    (1 ≤ (utf8Encode e.senderDeviceId).length ∧ (utf8Encode e.senderDeviceId).length ≤ 255) ∧
    (1 ≤ (utf8Encode e.recipientDeviceId).length ∧
      (utf8Encode e.recipientDeviceId).length ≤ 255) ∧
    (1 ≤ e.payload.length ∧ e.payload.length ≤ compactEnvelopeMaximumPayloadBytes) ∧
    0 ≤ e.hopCount ∧ e.hopCount ≤ 255 ∧ 0 ≤ e.maximumHops ∧ e.maximumHops ≤ 255 ∧
    e.hopCount ≤ e.maximumHops ∧
    e.expiresAt.isAfter e.createdAt = true

instance (e : CompactStoreForwardEnvelope) : Decidable e.Encodable := by
  unfold Encodable
  infer_instance

/-- The block without its checksum. -/
def content (e : CompactStoreForwardEnvelope) : Bytes :=
  let id := utf8Encode e.messageId
  let sender := utf8Encode e.senderDeviceId
  let recipient := utf8Encode e.recipientDeviceId
  magic ++ [1, if e.receiptRequested then 1 else 0, UInt8.ofNat e.hopCount.toNat,
      UInt8.ofNat e.maximumHops.toNat] ++
    bigEndian 8 (toUint64 e.createdAt.millisecondsSinceEpoch) ++
    bigEndian 8 (toUint64 e.expiresAt.millisecondsSinceEpoch) ++
    [UInt8.ofNat id.length, UInt8.ofNat sender.length, UInt8.ofNat recipient.length, 0] ++
    bigEndian 4 e.payload.length ++ id ++ sender ++ recipient ++ e.payload

/-- `encode`; `none` is the `ArgumentError`. -/
def encode (e : CompactStoreForwardEnvelope) : Option Bytes :=
  if e.Encodable then some (e.content ++ bigEndian 4 (crc32c e.content)) else none

/-- The time in a field of eight bytes. -/
def readTime (bytes : Bytes) : Except DecodeError DateTime :=
  match DateTime.ofMilliseconds (ofUint64 (ofBigEndian bytes)) with
  | some t => .ok t
  | none => .error .range

/-- `utf8.decode` on an id. -/
def readString (bytes : Bytes) : Except DecodeError DartString :=
  match utf8Decode bytes with
  | some s => .ok s
  | none => .error (.format "Invalid UTF-8 byte")

/-- `decode`. -/
def decode (bytes : Bytes) : Except DecodeError CompactStoreForwardEnvelope := do
  if bytes.length < 32 + 4 ∨ bytes.take 4 ≠ magic then
    throw (.format "Compact envelope header is invalid.")
  let contentLength := bytes.length - 4
  if crc32c (bytes.take contentLength) ≠ ofBigEndian (bytes.drop contentLength) then
    throw (.format "Compact envelope CRC32C mismatch.")
  if bytes.getD 4 0 ≠ 1 then throw (.format "Unsupported compact envelope version.")
  let idLength := (bytes.getD 24 0).toNat
  let senderLength := (bytes.getD 25 0).toNat
  let recipientLength := (bytes.getD 26 0).toNat
  let payloadLength := ofBigEndian ((bytes.drop 28).take 4)
  if idLength = 0 ∨ senderLength = 0 ∨ recipientLength = 0 ∨ payloadLength = 0 ∨
      compactEnvelopeMaximumPayloadBytes < payloadLength ∨
      32 + idLength + senderLength + recipientLength + payloadLength ≠ contentLength then
    throw (.format "Compact envelope dimensions are invalid.")
  let messageId ← readString ((bytes.drop 32).take idLength)
  let sender ← readString ((bytes.drop (32 + idLength)).take senderLength)
  let recipient ← readString ((bytes.drop (32 + idLength + senderLength)).take recipientLength)
  let payload := (bytes.drop (32 + idLength + senderLength + recipientLength)).take payloadLength
  let hopCount := bytes.getD 6 0
  let maximumHops := bytes.getD 7 0
  let createdAt ← readTime ((bytes.drop 8).take 8)
  let expiresAt ← readTime ((bytes.drop 16).take 8)
  if messageId = [] ∨ sender = [] ∨ recipient = [] ∨ maximumHops < hopCount ∨
      expiresAt.isAfter createdAt = false then
    throw (.format "Compact envelope fields are invalid.")
  return {
    messageId
    senderDeviceId := sender
    recipientDeviceId := recipient
    createdAt
    expiresAt
    payload
    hopCount := hopCount.toNat
    maximumHops := maximumHops.toNat
    receiptRequested := decide (bytes.getD 5 0 &&& 1 = 1) }

end CompactStoreForwardEnvelope

/-! ### Frames -/

/-- A block, by its fields. -/
@[ext] structure Frame where
  flags : UInt8
  hopCount : UInt8
  maximumHops : UInt8
  reserved : UInt8
  created : Bytes
  expires : Bytes
  id : Bytes
  sender : Bytes
  recipient : Bytes
  payload : Bytes
  created_length : created.length = 8
  expires_length : expires.length = 8
  id_length : 1 ≤ id.length ∧ id.length ≤ 255
  sender_length : 1 ≤ sender.length ∧ sender.length ≤ 255
  recipient_length : 1 ≤ recipient.length ∧ recipient.length ≤ 255
  payload_length : 1 ≤ payload.length ∧ payload.length ≤ compactEnvelopeMaximumPayloadBytes

namespace Frame

variable (f : Frame)

/-- The first 32 bytes. -/
def header : Bytes :=
  magic ++ [1, f.flags, f.hopCount, f.maximumHops] ++ f.created ++ f.expires ++
    [UInt8.ofNat f.id.length, UInt8.ofNat f.sender.length, UInt8.ofNat f.recipient.length,
      f.reserved] ++ bigEndian 4 f.payload.length

/-- What the checksum is over. -/
def content : Bytes := f.header ++ (f.id ++ (f.sender ++ (f.recipient ++ f.payload)))

def bytes : Bytes := f.content ++ bigEndian 4 (crc32c f.content)

/-- What `decode` makes of the fields. -/
def read : Except DecodeError CompactStoreForwardEnvelope := do
  let messageId ← CompactStoreForwardEnvelope.readString f.id
  let sender ← CompactStoreForwardEnvelope.readString f.sender
  let recipient ← CompactStoreForwardEnvelope.readString f.recipient
  let createdAt ← CompactStoreForwardEnvelope.readTime f.created
  let expiresAt ← CompactStoreForwardEnvelope.readTime f.expires
  if messageId = [] ∨ sender = [] ∨ recipient = [] ∨ f.maximumHops < f.hopCount ∨
      expiresAt.isAfter createdAt = false then
    throw (.format "Compact envelope fields are invalid.")
  return {
    messageId
    senderDeviceId := sender
    recipientDeviceId := recipient
    createdAt
    expiresAt
    payload := f.payload
    hopCount := f.hopCount.toNat
    maximumHops := f.maximumHops.toNat
    receiptRequested := decide (f.flags &&& 1 = 1) }

theorem exists_eight {l : Bytes} (h : l.length = 8) :
    ∃ a b c d a' b' c' d', l = [a, b, c, d, a', b', c', d'] := by
  match l, h with
  | [a, b, c, d, a', b', c', d'], _ => exact ⟨a, b, c, d, a', b', c', d', rfl⟩

theorem header_length : f.header.length = 32 := by
  unfold header magic
  simp only [length_append, length_cons, length_nil, bigEndian_length,
    f.created_length, f.expires_length]

/-- The fields stand where they are read. -/
structure HeaderReads (header : Bytes) : Prop where
  magic : header.take 4 = magic
  version : header.getD 4 0 = 1
  flags : header.getD 5 0 = f.flags
  hopCount : header.getD 6 0 = f.hopCount
  maximumHops : header.getD 7 0 = f.maximumHops
  created : (header.drop 8).take 8 = f.created
  expires : (header.drop 16).take 8 = f.expires
  id : header.getD 24 0 = UInt8.ofNat f.id.length
  sender : header.getD 25 0 = UInt8.ofNat f.sender.length
  recipient : header.getD 26 0 = UInt8.ofNat f.recipient.length
  reserved : header.getD 27 0 = f.reserved
  payload : (header.drop 28).take 4 = bigEndian 4 f.payload.length

theorem header_reads : f.HeaderReads f.header := by
  obtain ⟨a, b, c, d, a', b', c', d', hcreated⟩ := exists_eight f.created_length
  obtain ⟨x, y, z, w, x', y', z', w', hexpires⟩ := exists_eight f.expires_length
  unfold header
  rw [hcreated, hexpires]
  exact ⟨rfl, rfl, rfl, rfl, rfl, hcreated.symm, hexpires.symm, rfl, rfl, rfl, rfl, rfl⟩

theorem content_length : f.content.length =
    32 + f.id.length + f.sender.length + f.recipient.length + f.payload.length := by
  unfold content
  rw [length_append, length_append, length_append, length_append,
    header_length]
  omega

theorem bytes_length : f.bytes.length = f.content.length + 4 := by
  unfold bytes
  rw [length_append, bigEndian_length]

theorem bytes_eq : f.bytes = f.header ++ (f.id ++ (f.sender ++ (f.recipient ++ (f.payload ++
    bigEndian 4 (crc32c f.content))))) := by
  unfold bytes content
  simp

theorem getD_bytes {k : ℕ} (h : k < 32) : f.bytes.getD k 0 = f.header.getD k 0 := by
  rw [bytes_eq, getD_append]
  rw [header_length]
  exact h

theorem slice_bytes {k n : ℕ} (h : k + n ≤ 32) :
    (f.bytes.drop k).take n = (f.header.drop k).take n := by
  rw [bytes_eq, drop_append_of_le_length (by rw [header_length]; omega),
    take_append_of_le_length (by rw [length_drop, header_length]; omega)]

theorem toNat_ofNat_length {l : Bytes} (h : l.length ≤ 255) :
    (UInt8.ofNat l.length).toNat = l.length :=
  UInt8.toNat_ofNat_of_lt' (Nat.lt_of_le_of_lt h (by decide))

theorem parts_bytes :
    (f.bytes.drop 32).take f.id.length = f.id ∧
      (f.bytes.drop (32 + f.id.length)).take f.sender.length = f.sender ∧
      (f.bytes.drop (32 + f.id.length + f.sender.length)).take f.recipient.length = f.recipient ∧
      (f.bytes.drop (32 + f.id.length + f.sender.length + f.recipient.length)).take
        f.payload.length = f.payload := by
  have h32 : f.bytes.drop 32 = f.id ++ (f.sender ++ (f.recipient ++ (f.payload ++
      bigEndian 4 (crc32c f.content)))) := by
    rw [bytes_eq]
    exact drop_left' f.header_length
  have hid : f.bytes.drop (32 + f.id.length) = f.sender ++ (f.recipient ++ (f.payload ++
      bigEndian 4 (crc32c f.content))) := by
    rw [← drop_drop, h32]
    exact drop_left' rfl
  have hsender : f.bytes.drop (32 + f.id.length + f.sender.length) = f.recipient ++ (f.payload ++
      bigEndian 4 (crc32c f.content)) := by
    rw [← drop_drop, hid]
    exact drop_left' rfl
  have hrecipient : f.bytes.drop (32 + f.id.length + f.sender.length + f.recipient.length) =
      f.payload ++ bigEndian 4 (crc32c f.content) := by
    rw [← drop_drop, hsender]
    exact drop_left' rfl
  rw [h32, hid, hsender, hrecipient]
  exact ⟨take_left' rfl, take_left' rfl, take_left' rfl, take_left' rfl⟩

theorem length_eq_of_ofNat {l l' : Bytes} (h : l.length ≤ 255) (h' : l'.length ≤ 255)
    (heq : UInt8.ofNat l.length = UInt8.ofNat l'.length) : l.length = l'.length := by
  have hnat := congrArg UInt8.toNat heq
  rwa [toNat_ofNat_length h, toNat_ofNat_length h'] at hnat

theorem ofBigEndian_payload : ofBigEndian (bigEndian 4 f.payload.length) = f.payload.length := by
  rw [ofBigEndian_bigEndian, Nat.mod_eq_of_lt]
  exact Nat.lt_of_le_of_lt f.payload_length.2 (by decide)

theorem bytes_injective {f g : Frame} (h : f.bytes = g.bytes) : f = g := by
  rw [bytes_eq, bytes_eq] at h
  obtain ⟨hheader, hrest⟩ := append_inj h (by rw [header_length, header_length])
  have hf := f.header_reads
  have hg := g.header_reads
  rw [← hheader] at hg
  have hid := length_eq_of_ofNat f.id_length.2 g.id_length.2 (hf.id.symm.trans hg.id)
  have hsender :=
    length_eq_of_ofNat f.sender_length.2 g.sender_length.2 (hf.sender.symm.trans hg.sender)
  have hrecipient := length_eq_of_ofNat f.recipient_length.2 g.recipient_length.2
    (hf.recipient.symm.trans hg.recipient)
  have hpayload : f.payload.length = g.payload.length := by
    rw [← f.ofBigEndian_payload, ← g.ofBigEndian_payload, ← hf.payload, ← hg.payload]
  obtain ⟨hid', hrest⟩ := append_inj hrest hid
  obtain ⟨hsender', hrest⟩ := append_inj hrest hsender
  obtain ⟨hrecipient', hrest⟩ := append_inj hrest hrecipient
  obtain ⟨hpayload', -⟩ := append_inj hrest hpayload
  ext1
  · exact hf.flags.symm.trans hg.flags
  · exact hf.hopCount.symm.trans hg.hopCount
  · exact hf.maximumHops.symm.trans hg.maximumHops
  · exact hf.reserved.symm.trans hg.reserved
  · exact hf.created.symm.trans hg.created
  · exact hf.expires.symm.trans hg.expires
  · exact hid'
  · exact hsender'
  · exact hrecipient'
  · exact hpayload'

theorem decode_bytes : CompactStoreForwardEnvelope.decode f.bytes = f.read := by
  have hreads := f.header_reads
  obtain ⟨hid, hsender, hrecipient, hpayload⟩ := f.parts_bytes
  have hcount : f.bytes.length - 4 = f.content.length := by
    rw [bytes_length]
    omega
  have hcontent := f.content_length
  have htake : f.bytes.take f.content.length = f.content := take_left' rfl
  have hdrop : f.bytes.drop f.content.length = bigEndian 4 (crc32c f.content) := drop_left' rfl
  have hcrc : ofBigEndian (bigEndian 4 (crc32c f.content)) = crc32c f.content := by
    rw [ofBigEndian_bigEndian, Nat.mod_eq_of_lt (crc32c_lt _)]
  have hlength := f.ofBigEndian_payload
  have hstart : (f.bytes.drop 0).take 4 = magic := by
    rw [f.slice_bytes (by decide)]
    exact hreads.magic
  have hheader : ¬ (f.bytes.length < 32 + 4 ∨ f.bytes.take 4 ≠ magic) := by
    rintro (h | h)
    · omega
    · exact h hstart
  have hdims : ¬ (f.id.length = 0 ∨ f.sender.length = 0 ∨ f.recipient.length = 0 ∨
      f.payload.length = 0 ∨ compactEnvelopeMaximumPayloadBytes < f.payload.length ∨
      32 + f.id.length + f.sender.length + f.recipient.length + f.payload.length ≠
        f.content.length) := by
    have h1 := f.id_length
    have h2 := f.sender_length
    have h3 := f.recipient_length
    have h4 := f.payload_length
    omega
  have hflags := (f.getD_bytes (by decide)).trans hreads.flags
  have hhops := (f.getD_bytes (by decide)).trans hreads.hopCount
  have hmaximum := (f.getD_bytes (by decide)).trans hreads.maximumHops
  have hversion := (f.getD_bytes (by decide)).trans hreads.version
  have hcreated := (f.slice_bytes (by decide)).trans hreads.created
  have hexpires := (f.slice_bytes (by decide)).trans hreads.expires
  have hidlen := (f.getD_bytes (by decide)).trans hreads.id
  have hsenderlen := (f.getD_bytes (by decide)).trans hreads.sender
  have hrecipientlen := (f.getD_bytes (by decide)).trans hreads.recipient
  have hpayloadlen := (f.slice_bytes (by decide)).trans hreads.payload
  unfold CompactStoreForwardEnvelope.decode read
  rw [if_neg hheader]
  dsimp only
  rw [hcount, htake, hdrop, hcrc, if_neg (not_not_intro rfl), hversion,
    if_neg (not_not_intro rfl), hidlen, hsenderlen, hrecipientlen, hpayloadlen,
    toNat_ofNat_length f.id_length.2, toNat_ofNat_length f.sender_length.2,
    toNat_ofNat_length f.recipient_length.2, hlength, if_neg hdims, hid, hsender, hrecipient,
    hpayload, hflags, hhops, hmaximum, hcreated, hexpires]

end Frame

theorem drop_eq_take_drop (l : Bytes) (i n : ℕ) :
    l.drop i = (l.drop i).take n ++ l.drop (i + n) := by
  rw [← drop_drop, take_append_drop]

theorem exists_parts (rest : Bytes) {i j k l m : ℕ} (h : rest.length = i + j + k + l + m) :
    ∃ a b c d e : Bytes, rest = a ++ (b ++ (c ++ (d ++ e))) ∧ a.length = i ∧ b.length = j ∧
      c.length = k ∧ d.length = l ∧ e.length = m := by
  refine ⟨rest.take i, (rest.drop i).take j, (rest.drop (i + j)).take k,
    (rest.drop (i + j + k)).take l, rest.drop (i + j + k + l), ?_, ?_, ?_, ?_, ?_, ?_⟩
  · rw [← drop_eq_take_drop rest (i + j + k) l, ← drop_eq_take_drop rest (i + j) k,
      ← drop_eq_take_drop rest i j, take_append_drop]
  all_goals
    simp only [length_take, length_drop]
    omega

/-- What `decode` asks of a block before it reads it. -/
structure Shaped (bytes : Bytes) : Prop where
  header : ¬ (bytes.length < 32 + 4 ∨ bytes.take 4 ≠ magic)
  checksum : crc32c (bytes.take (bytes.length - 4)) = ofBigEndian (bytes.drop (bytes.length - 4))
  version : bytes.getD 4 0 = 1
  dimensions : ¬ ((bytes.getD 24 0).toNat = 0 ∨ (bytes.getD 25 0).toNat = 0 ∨
    (bytes.getD 26 0).toNat = 0 ∨ ofBigEndian ((bytes.drop 28).take 4) = 0 ∨
    compactEnvelopeMaximumPayloadBytes < ofBigEndian ((bytes.drop 28).take 4) ∨
    32 + (bytes.getD 24 0).toNat + (bytes.getD 25 0).toNat + (bytes.getD 26 0).toNat +
      ofBigEndian ((bytes.drop 28).take 4) ≠ bytes.length - 4)

theorem decode_not_shaped {bytes : Bytes} (h : ¬ Shaped bytes) :
    ∃ message, CompactStoreForwardEnvelope.decode bytes = .error (.format message) := by
  unfold CompactStoreForwardEnvelope.decode
  by_cases hheader : bytes.length < 32 + 4 ∨ bytes.take 4 ≠ magic
  · exact ⟨_, if_pos hheader⟩
  rw [if_neg hheader]
  by_cases hcrc : crc32c (bytes.take (bytes.length - 4)) =
      ofBigEndian (bytes.drop (bytes.length - 4))
  · rw [if_neg (not_not_intro hcrc)]
    by_cases hversion : bytes.getD 4 0 = 1
    · rw [if_neg (not_not_intro hversion)]
      exact ⟨_, if_pos (by_contra fun hdims => h ⟨hheader, hcrc, hversion, hdims⟩)⟩
    · exact ⟨_, if_pos hversion⟩
  · exact ⟨_, if_pos hcrc⟩

theorem Shaped.exists_frame {bytes : Bytes} (h : Shaped bytes) : ∃ f : Frame, bytes = f.bytes := by
  obtain ⟨hheader, hcrc, hversion, hdims⟩ := h
  obtain ⟨hlength, hmagic⟩ := not_or.mp hheader
  obtain ⟨a, c, x, d, rest, rfl, ha, hc, hx, hd, -⟩ :=
    exists_parts bytes (i := 8) (j := 8) (k := 8) (l := 8) (m := bytes.length - 32)
      (by omega)
  obtain ⟨m₀, m₁, m₂, m₃, version, flags, hopCount, maximumHops, rfl⟩ := Frame.exists_eight ha
  obtain ⟨idLength, senderLength, recipientLength, reserved, p₀, p₁, p₂, p₃, rfl⟩ :=
    Frame.exists_eight hd
  obtain ⟨c₀, c₁, c₂, c₃, c₄, c₅, c₆, c₇, rfl⟩ := Frame.exists_eight hc
  obtain ⟨x₀, x₁, x₂, x₃, x₄, x₅, x₆, x₇, rfl⟩ := Frame.exists_eight hx
  obtain rfl : version = 1 := hversion
  have hmagic' : [m₀, m₁, m₂, m₃] = magic := not_not.mp hmagic
  obtain ⟨rfl, rfl, rfl, rfl⟩ : m₀ = 0x43 ∧ m₁ = 0x53 ∧ m₂ = 0x46 ∧ m₃ = 0x31 := by
    simpa [magic] using hmagic'
  -- what follows the header is as long as the header says
  have hdims' : ¬ (idLength.toNat = 0 ∨ senderLength.toNat = 0 ∨ recipientLength.toNat = 0 ∨
      ofBigEndian [p₀, p₁, p₂, p₃] = 0 ∨
      compactEnvelopeMaximumPayloadBytes < ofBigEndian [p₀, p₁, p₂, p₃] ∨
      32 + idLength.toNat + senderLength.toNat + recipientLength.toNat +
        ofBigEndian [p₀, p₁, p₂, p₃] ≠ 32 + rest.length - 4) := by
    have hcount : 32 + rest.length - 4 = length ([0x43, 0x53, 0x46, 0x31, 1, flags, hopCount,
        maximumHops] ++ ([c₀, c₁, c₂, c₃, c₄, c₅, c₆, c₇] ++ ([x₀, x₁, x₂, x₃, x₄, x₅, x₆, x₇] ++
        ([idLength, senderLength, recipientLength, reserved, p₀, p₁, p₂, p₃] ++ rest)))) - 4 := by
      simp only [length_append, length_cons, length_nil]
      omega
    rw [hcount]
    exact hdims
  have hpayload : bigEndian 4 (ofBigEndian [p₀, p₁, p₂, p₃]) = [p₀, p₁, p₂, p₃] :=
    bigEndian_ofBigEndian [p₀, p₁, p₂, p₃]
  generalize ofBigEndian [p₀, p₁, p₂, p₃] = n at hdims' hpayload
  have hrest : rest.length =
      idLength.toNat + senderLength.toNat + recipientLength.toNat + n + 4 := by
    omega
  obtain ⟨id, sender, recipient, payload, sum, rfl, hid, hsender, hrecipient, rfl, hsum⟩ :=
    exists_parts _ hrest
  have hbyte : ∀ n : UInt8, n.toNat ≤ 255 := fun n => Nat.le_of_lt_succ n.toNat_lt
  let f : Frame := {
    flags, hopCount, maximumHops, reserved
    created := [c₀, c₁, c₂, c₃, c₄, c₅, c₆, c₇]
    expires := [x₀, x₁, x₂, x₃, x₄, x₅, x₆, x₇]
    id, sender, recipient, payload
    created_length := rfl
    expires_length := rfl
    id_length := ⟨by omega, hid ▸ hbyte _⟩
    sender_length := ⟨by omega, hsender ▸ hbyte _⟩
    recipient_length := ⟨by omega, hrecipient ▸ hbyte _⟩
    payload_length := ⟨by omega, by omega⟩ }
  have hheader : f.header = [0x43, 0x53, 0x46, 0x31, 1, flags, hopCount, maximumHops] ++
      ([c₀, c₁, c₂, c₃, c₄, c₅, c₆, c₇] ++ ([x₀, x₁, x₂, x₃, x₄, x₅, x₆, x₇] ++
        [idLength, senderLength, recipientLength, reserved, p₀, p₁, p₂, p₃])) := by
    show magic ++ [1, flags, hopCount, maximumHops] ++ _ ++ _ ++ [UInt8.ofNat id.length,
      UInt8.ofNat sender.length, UInt8.ofNat recipient.length, reserved] ++
      bigEndian 4 payload.length = _
    rw [hid, hsender, hrecipient, hpayload, UInt8.ofNat_toNat, UInt8.ofNat_toNat,
      UInt8.ofNat_toNat]
    rfl
  have hbytes : [0x43, 0x53, 0x46, 0x31, 1, flags, hopCount, maximumHops] ++
      ([c₀, c₁, c₂, c₃, c₄, c₅, c₆, c₇] ++ ([x₀, x₁, x₂, x₃, x₄, x₅, x₆, x₇] ++
        ([idLength, senderLength, recipientLength, reserved, p₀, p₁, p₂, p₃] ++
          (id ++ (sender ++ (recipient ++ (payload ++ sum))))))) = f.content ++ sum := by
    unfold Frame.content
    rw [hheader]
    simp only [append_assoc]
    rfl
  have hcount : (f.content ++ sum).length - 4 = f.content.length := by
    rw [length_append, hsum, Nat.add_sub_cancel]
  rw [hbytes, hcount, take_left' rfl, drop_left' rfl] at hcrc
  refine ⟨f, hbytes.trans ?_⟩
  unfold Frame.bytes
  rw [hcrc, ← hsum, bigEndian_ofBigEndian]

/-! ### The frame of an envelope -/

theorem ofUint64_toUint64 {n : ℤ} (h : -2 ^ 63 ≤ n ∧ n < 2 ^ 63) : ofUint64 (toUint64 n) = n := by
  unfold ofUint64 toUint64
  split
  · omega
  · omega

theorem toUint64_lt (n : ℤ) : toUint64 n < 256 ^ 8 := by
  unfold toUint64
  omega

theorem toUint64_ofUint64 {n : ℕ} (h : n < 2 ^ 64) : toUint64 (ofUint64 n) = n := by
  unfold ofUint64 toUint64
  split
  · omega
  · omega

namespace DateTime

theorem millisecondsSinceEpoch_mul (t : DateTime) :
    -maxMicroseconds ≤ t.millisecondsSinceEpoch * 1000 ∧
      t.millisecondsSinceEpoch * 1000 ≤ maxMicroseconds := by
  have h := t.inRange
  unfold millisecondsSinceEpoch maxMicroseconds at *
  rcases le_total 0 t.micros with hsign | hsign
  · rw [Int.tdiv_eq_ediv_of_nonneg hsign]
    omega
  · have hneg : t.micros.tdiv 1000 = -(-t.micros / 1000) := by
      rw [← Int.tdiv_eq_ediv_of_nonneg (by omega), Int.neg_tdiv, neg_neg]
    omega

/-- Without the microseconds. -/
def truncated (t : DateTime) : DateTime :=
  ⟨t.millisecondsSinceEpoch * 1000, t.millisecondsSinceEpoch_mul⟩

theorem ofMilliseconds_millisecondsSinceEpoch (t : DateTime) :
    ofMilliseconds t.millisecondsSinceEpoch = some t.truncated :=
  dif_pos t.millisecondsSinceEpoch_mul

theorem millisecondsSinceEpoch_of_ofMilliseconds {ms : ℤ} {t : DateTime}
    (h : ofMilliseconds ms = some t) : t.millisecondsSinceEpoch = ms := by
  unfold ofMilliseconds at h
  split at h
  · cases h
    exact Int.mul_tdiv_cancel _ (by decide)
  · cases h

theorem isAfter_truncated (t u : DateTime) : t.truncated.isAfter u.truncated = true ↔
    u.millisecondsSinceEpoch < t.millisecondsSinceEpoch := by
  unfold isAfter truncated
  rw [decide_eq_true_eq]
  dsimp only
  omega

end DateTime

namespace CompactStoreForwardEnvelope

/-- The frame that the encoder writes. -/
def frame (e : CompactStoreForwardEnvelope) (h : e.Encodable) : Frame where
  flags := if e.receiptRequested then 1 else 0
  hopCount := UInt8.ofNat e.hopCount.toNat
  maximumHops := UInt8.ofNat e.maximumHops.toNat
  reserved := 0
  created := bigEndian 8 (toUint64 e.createdAt.millisecondsSinceEpoch)
  expires := bigEndian 8 (toUint64 e.expiresAt.millisecondsSinceEpoch)
  id := utf8Encode e.messageId
  sender := utf8Encode e.senderDeviceId
  recipient := utf8Encode e.recipientDeviceId
  payload := e.payload
  created_length := bigEndian_length _ _
  expires_length := bigEndian_length _ _
  id_length := h.1
  sender_length := h.2.1
  recipient_length := h.2.2.1
  payload_length := h.2.2.2.1

theorem encode_frame {e : CompactStoreForwardEnvelope} (h : e.Encodable) :
    e.encode = some (e.frame h).bytes := by
  have hcontent : e.content = (e.frame h).content := by
    unfold content Frame.content Frame.header frame
    simp only [append_assoc]
  unfold encode Frame.bytes
  rw [if_pos h, hcontent]

theorem readTime_of {bytes : Bytes} {t : DateTime}
    (h : DateTime.ofMilliseconds (ofUint64 (ofBigEndian bytes)) = some t) :
    readTime bytes = .ok t := by
  unfold readTime
  rw [h]

theorem readTime_bigEndian (t : DateTime) :
    readTime (bigEndian 8 (toUint64 t.millisecondsSinceEpoch)) = .ok t.truncated := by
  have hrange : -2 ^ 63 ≤ t.millisecondsSinceEpoch ∧ t.millisecondsSinceEpoch < 2 ^ 63 := by
    have h := t.millisecondsSinceEpoch_mul
    unfold maxMicroseconds at h
    omega
  refine readTime_of ?_
  rw [ofBigEndian_bigEndian, Nat.mod_eq_of_lt (toUint64_lt _), ofUint64_toUint64 hrange,
    t.ofMilliseconds_millisecondsSinceEpoch]

theorem readString_utf8Encode {s : DartString} (h : WellFormed s) :
    readString (utf8Encode s) = .ok (dropMark s) := by
  unfold readString
  rw [utf8Decode_utf8Encode h]

/-- With both times in whole milliseconds. -/
def truncated (e : CompactStoreForwardEnvelope) : CompactStoreForwardEnvelope :=
  { e with createdAt := e.createdAt.truncated, expiresAt := e.expiresAt.truncated }

end CompactStoreForwardEnvelope

/-! ### Reading a frame -/

namespace Frame

variable (f : Frame)

/-- What is asked of the fields at last. -/
def Refused (messageId sender recipient : DartString) (createdAt expiresAt : DateTime) : Prop :=
  messageId = [] ∨ sender = [] ∨ recipient = [] ∨ f.maximumHops < f.hopCount ∨
    expiresAt.isAfter createdAt = false

/-- The envelope of a frame and of what its ids and times were read as. -/
def envelope (messageId sender recipient : DartString) (createdAt expiresAt : DateTime) :
    CompactStoreForwardEnvelope where
  messageId
  senderDeviceId := sender
  recipientDeviceId := recipient
  createdAt
  expiresAt
  payload := f.payload
  hopCount := f.hopCount.toNat
  maximumHops := f.maximumHops.toNat
  receiptRequested := decide (f.flags &&& 1 = 1)

/-- The ids and times of a frame can be read, as these. -/
structure Reads (messageId sender recipient : DartString) (createdAt expiresAt : DateTime) :
    Prop where
  id : CompactStoreForwardEnvelope.readString f.id = .ok messageId
  sender : CompactStoreForwardEnvelope.readString f.sender = .ok sender
  recipient : CompactStoreForwardEnvelope.readString f.recipient = .ok recipient
  created : CompactStoreForwardEnvelope.readTime f.created = .ok createdAt
  expires : CompactStoreForwardEnvelope.readTime f.expires = .ok expiresAt

section Reading

variable {f} {messageId sender recipient : DartString} {createdAt expiresAt : DateTime}
variable (hreads : f.Reads messageId sender recipient createdAt expiresAt)

include hreads

theorem read_refused (h : f.Refused messageId sender recipient createdAt expiresAt) :
    f.read = .error (.format "Compact envelope fields are invalid.") := by
  unfold read
  rw [hreads.id, hreads.sender, hreads.recipient, hreads.created, hreads.expires]
  exact if_pos h

theorem read_ok (h : ¬ f.Refused messageId sender recipient createdAt expiresAt) :
    f.read = .ok (f.envelope messageId sender recipient createdAt expiresAt) := by
  unfold read
  rw [hreads.id, hreads.sender, hreads.recipient, hreads.created, hreads.expires]
  exact if_neg h

end Reading

end Frame

/-! ### Where the codec is exact -/

namespace CompactStoreForwardEnvelope

variable {e : CompactStoreForwardEnvelope}

def WellFormedIds (e : CompactStoreForwardEnvelope) : Prop :=
  WellFormed e.messageId ∧ WellFormed e.senderDeviceId ∧ WellFormed e.recipientDeviceId

/-- What the encoder accepts is read back, up to the microseconds of its times. -/
def RoundTrips (e : CompactStoreForwardEnvelope) : Prop :=
  e.WellFormedIds → ∀ bytes, e.encode = some bytes → decode bytes = .ok e.truncated

/-- What is read is written as it stood; everything else is a `FormatException`. -/
def ExactOrRefused (bytes : Bytes) : Prop :=
  (∃ e, decode bytes = .ok e ∧ e.encode = some bytes) ∨
    ∃ message, decode bytes = .error (.format message)

/-- No id begins with a byte order mark. -/
def Unmarked (e : CompactStoreForwardEnvelope) : Prop :=
  e.messageId.head? ≠ some byteOrderMark ∧ e.senderDeviceId.head? ≠ some byteOrderMark ∧
    e.recipientDeviceId.head? ≠ some byteOrderMark

theorem ne_nil_of_encode {s : DartString} (h : 1 ≤ (utf8Encode s).length) : s ≠ [] := by
  rintro rfl
  exact absurd h (by decide)

theorem decode_encode (h : e.Encodable) : decode (e.frame h).bytes = (e.frame h).read :=
  Frame.decode_bytes _

theorem encodable_of_encode {bytes : Bytes} (h : e.encode = some bytes) :
    ∃ henc : e.Encodable, bytes = (e.frame henc).bytes := by
  by_cases henc : e.Encodable
  · rw [encode_frame henc, some.injEq] at h
    exact ⟨henc, h.symm⟩
  · unfold encode at h
    rw [if_neg henc] at h
    cases h

theorem length_encode {bytes : Bytes} (h : e.encode = some bytes) :
    bytes.length = 36 + (utf8Encode e.messageId).length + (utf8Encode e.senderDeviceId).length +
      (utf8Encode e.recipientDeviceId).length + e.payload.length := by
  obtain ⟨henc, rfl⟩ := encodable_of_encode h
  have hlength : (e.frame henc).content.length = 32 + (utf8Encode e.messageId).length +
      (utf8Encode e.senderDeviceId).length + (utf8Encode e.recipientDeviceId).length +
      e.payload.length := (e.frame henc).content_length
  rw [Frame.bytes_length]
  omega

theorem toNat_ofNat_toNat {n : ℤ} (h : 0 ≤ n) (h' : n ≤ 255) :
    ((UInt8.ofNat n.toNat).toNat : ℤ) = n := by
  rw [UInt8.toNat_ofNat_of_lt' (by omega : n.toNat < 2 ^ 8), Int.toNat_of_nonneg h]

theorem envelope_frame (h : e.Encodable) :
    (e.frame h).envelope e.messageId e.senderDeviceId e.recipientDeviceId e.createdAt.truncated
      e.expiresAt.truncated = e.truncated := by
  obtain ⟨-, -, -, -, hhop, hhop', hmax, hmax', -, -⟩ := h
  have hflags : decide ((if e.receiptRequested then (1 : UInt8) else 0) &&& 1 = 1) =
      e.receiptRequested := by
    cases e.receiptRequested
    · rfl
    · rfl
  unfold Frame.envelope frame truncated
  rw [toNat_ofNat_toNat hhop hhop', toNat_ofNat_toNat hmax hmax', hflags]

theorem reads_frame (hids : e.WellFormedIds) (h : e.Encodable) :
    (e.frame h).Reads (dropMark e.messageId) (dropMark e.senderDeviceId)
      (dropMark e.recipientDeviceId) e.createdAt.truncated e.expiresAt.truncated where
  id := readString_utf8Encode hids.1
  sender := readString_utf8Encode hids.2.1
  recipient := readString_utf8Encode hids.2.2
  created := readTime_bigEndian _
  expires := readTime_bigEndian _

theorem not_refused_frame (h : e.Encodable)
    (htimes : e.createdAt.millisecondsSinceEpoch < e.expiresAt.millisecondsSinceEpoch) :
    ¬ (e.frame h).Refused e.messageId e.senderDeviceId e.recipientDeviceId e.createdAt.truncated
      e.expiresAt.truncated := by
  obtain ⟨hid, hsender, hrecipient, -, hhop, hhop', hmax, hmax', hle, -⟩ := id h
  rintro (href | href | href | href | href)
  · exact ne_nil_of_encode hid.1 href
  · exact ne_nil_of_encode hsender.1 href
  · exact ne_nil_of_encode hrecipient.1 href
  · have hlt : (UInt8.ofNat e.maximumHops.toNat).toNat <
        (UInt8.ofNat e.hopCount.toNat).toNat := href
    have h1 := toNat_ofNat_toNat hhop hhop'
    have h2 := toNat_ofNat_toNat hmax hmax'
    omega
  · rw [(DateTime.isAfter_truncated _ _).mpr htimes] at href
    cases href

/-- **An envelope is read back** exactly when no id begins with a byte order mark and its times
differ in their milliseconds. -/
theorem roundTrips_iff (e : CompactStoreForwardEnvelope) : e.RoundTrips ↔
    (e.WellFormedIds → e.Encodable → e.Unmarked ∧
      e.createdAt.millisecondsSinceEpoch < e.expiresAt.millisecondsSinceEpoch) := by
  constructor
  · intro h hids henc
    have hread := h hids _ (encode_frame henc)
    rw [decode_encode] at hread
    by_cases href : (e.frame henc).Refused (dropMark e.messageId) (dropMark e.senderDeviceId)
        (dropMark e.recipientDeviceId) e.createdAt.truncated e.expiresAt.truncated
    · rw [Frame.read_refused (reads_frame hids henc) href] at hread
      cases hread
    · rw [Frame.read_ok (reads_frame hids henc) href] at hread
      have heq := Except.ok.inj hread
      refine ⟨⟨?_, ?_, ?_⟩, ?_⟩
      · exact dropMark_eq_self.mp (congrArg messageId heq)
      · exact dropMark_eq_self.mp (congrArg senderDeviceId heq)
      · exact dropMark_eq_self.mp (congrArg recipientDeviceId heq)
      · have hafter : e.expiresAt.truncated.isAfter e.createdAt.truncated ≠ false :=
          fun hf => href (.inr (.inr (.inr (.inr hf))))
        exact (DateTime.isAfter_truncated _ _).mp (Bool.eq_true_of_not_eq_false hafter)
  · intro h hids bytes hbytes
    obtain ⟨henc, rfl⟩ := encodable_of_encode hbytes
    obtain ⟨⟨hid, hsender, hrecipient⟩, htimes⟩ := h hids henc
    have hreads := reads_frame hids henc
    rw [dropMark_eq_self.mpr hid, dropMark_eq_self.mpr hsender, dropMark_eq_self.mpr hrecipient]
      at hreads
    rw [decode_encode, Frame.read_ok hreads (not_refused_frame henc htimes), envelope_frame]

end CompactStoreForwardEnvelope

namespace Frame

variable (f : Frame)

/-- The three ids are UTF-8. -/
def TextIds : Prop :=
  (utf8Decode f.id).isSome = true ∧ (utf8Decode f.sender).isSome = true ∧
    (utf8Decode f.recipient).isSome = true

def createdMilliseconds : ℤ := ofUint64 (ofBigEndian f.created)

def expiresMilliseconds : ℤ := ofUint64 (ofBigEndian f.expires)

/-- Both times are times of a `DateTime`. -/
def TimesInRange : Prop :=
  (DateTime.ofMilliseconds f.createdMilliseconds).isSome = true ∧
    (DateTime.ofMilliseconds f.expiresMilliseconds).isSome = true

/-- The fields that the decoder checks last are as it wants them. -/
def Ordered : Prop :=
  f.id ≠ utf8Encode [byteOrderMark] ∧ f.sender ≠ utf8Encode [byteOrderMark] ∧
    f.recipient ≠ utf8Encode [byteOrderMark] ∧ f.hopCount ≤ f.maximumHops ∧
    f.createdMilliseconds < f.expiresMilliseconds

/-- What the encoder would have written. -/
def Canonical : Prop :=
  f.flags ≤ 1 ∧ f.reserved = 0 ∧ ¬ StartsWithMark f.id ∧ ¬ StartsWithMark f.sender ∧
    ¬ StartsWithMark f.recipient

theorem readString_ok {bytes : Bytes} {s : DartString}
    (h : CompactStoreForwardEnvelope.readString bytes = .ok s) : utf8Decode bytes = some s := by
  unfold CompactStoreForwardEnvelope.readString at h
  split at h
  · next t ht =>
    cases h
    exact ht
  · cases h

theorem readTime_ok {bytes : Bytes} {t : DateTime}
    (h : CompactStoreForwardEnvelope.readTime bytes = .ok t) :
    t.millisecondsSinceEpoch = ofUint64 (ofBigEndian bytes) ∧ t = t.truncated := by
  unfold CompactStoreForwardEnvelope.readTime at h
  split at h
  · next u hu =>
    cases h
    have hms := DateTime.millisecondsSinceEpoch_of_ofMilliseconds hu
    refine ⟨hms, ?_⟩
    have hback := t.ofMilliseconds_millisecondsSinceEpoch
    rw [hms, hu] at hback
    exact some.inj hback
  · cases h

theorem bigEndian_time {bytes : Bytes} {t : DateTime} (h : bytes.length = 8)
    (ht : t.millisecondsSinceEpoch = ofUint64 (ofBigEndian bytes)) :
    bigEndian 8 (toUint64 t.millisecondsSinceEpoch) = bytes := by
  have hlt : ofBigEndian bytes < 2 ^ 64 := by
    have hlt := ofBigEndian_lt bytes
    rwa [h] at hlt
  rw [ht, toUint64_ofUint64 hlt, ← h, bigEndian_ofBigEndian]

theorem read_of_not_textIds (h : ¬ f.TextIds) : ∃ message, f.read = .error (.format message) := by
  unfold TextIds at h
  unfold read CompactStoreForwardEnvelope.readString
  cases hid : utf8Decode f.id with
  | none => exact ⟨_, rfl⟩
  | some messageId =>
  cases hsender : utf8Decode f.sender with
  | none => exact ⟨_, rfl⟩
  | some sender =>
  cases hrecipient : utf8Decode f.recipient with
  | none => exact ⟨_, rfl⟩
  | some recipient =>
    rw [hid, hsender, hrecipient] at h
    exact absurd ⟨rfl, rfl, rfl⟩ h

theorem read_of_not_timesInRange (htext : f.TextIds) (h : ¬ f.TimesInRange) :
    f.read = .error .range := by
  obtain ⟨hid, hsender, hrecipient⟩ := htext
  obtain ⟨messageId, hid⟩ := isSome_iff_exists.mp hid
  obtain ⟨sender, hsender⟩ := isSome_iff_exists.mp hsender
  obtain ⟨recipient, hrecipient⟩ := isSome_iff_exists.mp hrecipient
  unfold TimesInRange createdMilliseconds expiresMilliseconds at h
  unfold read CompactStoreForwardEnvelope.readString CompactStoreForwardEnvelope.readTime
  rw [hid, hsender, hrecipient]
  cases hcreated : DateTime.ofMilliseconds (ofUint64 (ofBigEndian f.created)) with
  | none => rfl
  | some createdAt =>
  cases hexpires : DateTime.ofMilliseconds (ofUint64 (ofBigEndian f.expires)) with
  | none => rfl
  | some expiresAt =>
    rw [hcreated, hexpires] at h
    exact absurd ⟨rfl, rfl⟩ h

theorem exists_reads (htext : f.TextIds) (htimes : f.TimesInRange) :
    ∃ messageId sender recipient createdAt expiresAt,
      f.Reads messageId sender recipient createdAt expiresAt := by
  obtain ⟨hid, hsender, hrecipient⟩ := htext
  obtain ⟨hcreated, hexpires⟩ := htimes
  obtain ⟨messageId, hid⟩ := isSome_iff_exists.mp hid
  obtain ⟨sender, hsender⟩ := isSome_iff_exists.mp hsender
  obtain ⟨recipient, hrecipient⟩ := isSome_iff_exists.mp hrecipient
  obtain ⟨createdAt, hcreated⟩ := isSome_iff_exists.mp hcreated
  obtain ⟨expiresAt, hexpires⟩ := isSome_iff_exists.mp hexpires
  have hstring : ∀ {bytes s}, utf8Decode bytes = some s →
      CompactStoreForwardEnvelope.readString bytes = .ok s := by
    intro bytes s h
    unfold CompactStoreForwardEnvelope.readString
    rw [h]
  exact ⟨messageId, sender, recipient, createdAt, expiresAt, hstring hid, hstring hsender,
    hstring hrecipient, CompactStoreForwardEnvelope.readTime_of hcreated,
    CompactStoreForwardEnvelope.readTime_of hexpires⟩

theorem flags_eq_iff (flags : UInt8) :
    flags = (if decide (flags &&& 1 = 1) then 1 else 0) ↔ flags ≤ 1 := by
  constructor
  · intro h
    rw [h]
    split
    · exact UInt8.le_refl 1
    · exact UInt8.le_of_lt (by decide)
  intro h
  have hnat : flags.toNat ≤ 1 := h
  have hflags : flags = 0 ∨ flags = 1 := by
    rcases Nat.le_one_iff_eq_zero_or_eq_one.mp hnat with h | h
    · exact .inl (UInt8.toNat_inj.mp h)
    · exact .inr (UInt8.toNat_inj.mp h)
  rcases hflags with rfl | rfl
  · rfl
  · rfl

section Exact

variable {f} {messageId sender recipient : DartString} {createdAt expiresAt : DateTime}
variable (hreads : f.Reads messageId sender recipient createdAt expiresAt)

include hreads

theorem not_refused_iff :
    ¬ f.Refused messageId sender recipient createdAt expiresAt ↔ f.Ordered := by
  have hne : ∀ {bytes : Bytes}, 1 ≤ bytes.length → bytes ≠ [] := by
    rintro bytes h rfl
    exact absurd h (by decide)
  have hcreated := readTime_ok hreads.created
  have hexpires := readTime_ok hreads.expires
  have hafter : expiresAt.isAfter createdAt = true ↔
      f.createdMilliseconds < f.expiresMilliseconds := by
    rw [hcreated.2, hexpires.2, DateTime.isAfter_truncated, hcreated.1, hexpires.1]
    rfl
  unfold Refused Ordered
  rw [not_or, not_or, not_or, not_or, decode_eq_nil (readString_ok hreads.id) (hne f.id_length.1),
    decode_eq_nil (readString_ok hreads.sender) (hne f.sender_length.1),
    decode_eq_nil (readString_ok hreads.recipient) (hne f.recipient_length.1), ← hafter,
    Bool.not_eq_false, UInt8.not_lt]

/-- **What was read is written as it stood** exactly when the frame is canonical. -/
theorem encode_envelope_iff (h : f.Ordered) :
    (f.envelope messageId sender recipient createdAt expiresAt).encode = some f.bytes ↔
      f.Canonical := by
  have hid := utf8Encode_of_decode (readString_ok hreads.id)
  have hsender := utf8Encode_of_decode (readString_ok hreads.sender)
  have hrecipient := utf8Encode_of_decode (readString_ok hreads.recipient)
  constructor
  · intro henc
    obtain ⟨henc, hbytes⟩ := CompactStoreForwardEnvelope.encodable_of_encode henc
    have hframe := bytes_injective hbytes
    refine ⟨?_, ?_, ?_, ?_, ?_⟩
    · exact (flags_eq_iff f.flags).mp (congrArg flags hframe)
    · exact congrArg reserved hframe
    · exact hid.mp (congrArg Frame.id hframe).symm
    · exact hsender.mp (congrArg Frame.sender hframe).symm
    · exact hrecipient.mp (congrArg Frame.recipient hframe).symm
  · rintro ⟨hflags, hreserved, hid', hsender', hrecipient'⟩
    have hid' := hid.mpr hid'
    have hsender' := hsender.mpr hsender'
    have hrecipient' := hrecipient.mpr hrecipient'
    have hcreated := (readTime_ok hreads.created).1
    have hexpires := (readTime_ok hreads.expires).1
    have hbyte : ∀ n : UInt8, n.toNat ≤ 255 := fun n => Nat.le_of_lt_succ n.toNat_lt
    have henc : (f.envelope messageId sender recipient createdAt expiresAt).Encodable := by
      refine ⟨?_, ?_, ?_, f.payload_length, ?_, ?_, ?_, ?_, ?_, ?_⟩
      · exact hid' ▸ f.id_length
      · exact hsender' ▸ f.sender_length
      · exact hrecipient' ▸ f.recipient_length
      · exact Int.natCast_nonneg _
      · exact Int.ofNat_le.mpr (hbyte f.hopCount)
      · exact Int.natCast_nonneg _
      · exact Int.ofNat_le.mpr (hbyte f.maximumHops)
      · exact Int.ofNat_le.mpr h.2.2.2.1
      · exact Bool.eq_true_of_not_eq_false fun hf =>
          (not_refused_iff hreads).mpr h (.inr (.inr (.inr (.inr hf))))
    rw [CompactStoreForwardEnvelope.encode_frame henc]
    -- the frame of what was read is the frame that was read
    have hframe : (f.envelope messageId sender recipient createdAt expiresAt).frame henc = f := by
      ext1
      · exact ((flags_eq_iff f.flags).mpr hflags).symm
      · exact UInt8.ofNat_toNat
      · exact UInt8.ofNat_toNat
      · exact hreserved.symm
      · exact bigEndian_time f.created_length hcreated
      · exact bigEndian_time f.expires_length hexpires
      · exact hid'
      · exact hsender'
      · exact hrecipient'
      · rfl
    rw [hframe]

end Exact

end Frame

namespace CompactStoreForwardEnvelope

/-- **A block is read exactly or refused** exactly when its times can be times and what stands in
its flags, its reserved byte and in front of its ids is what the encoder writes there. -/
theorem exactOrRefused_iff (bytes : Bytes) : ExactOrRefused bytes ↔
    ∀ f : Frame, bytes = f.bytes → f.TextIds → f.TimesInRange ∧ (f.Ordered → f.Canonical) := by
  constructor
  · rintro h f rfl htext
    rw [ExactOrRefused, f.decode_bytes] at h
    have htimes : f.TimesInRange := by
      by_contra htimes
      rw [f.read_of_not_timesInRange htext htimes] at h
      rcases h with ⟨e, h, -⟩ | ⟨message, h⟩
      · cases h
      · cases h
    refine ⟨htimes, fun hordered => ?_⟩
    obtain ⟨messageId, sender, recipient, createdAt, expiresAt, hreads⟩ :=
      f.exists_reads htext htimes
    rw [Frame.read_ok hreads ((Frame.not_refused_iff hreads).mpr hordered)] at h
    rcases h with ⟨e, h, henc⟩ | ⟨message, h⟩
    · cases h
      exact (Frame.encode_envelope_iff hreads hordered).mp henc
    · cases h
  · intro h
    by_cases hshaped : Shaped bytes
    · obtain ⟨f, rfl⟩ := hshaped.exists_frame
      rw [ExactOrRefused, f.decode_bytes]
      by_cases htext : f.TextIds
      · obtain ⟨htimes, hcanonical⟩ := h f rfl htext
        obtain ⟨messageId, sender, recipient, createdAt, expiresAt, hreads⟩ :=
          f.exists_reads htext htimes
        by_cases hordered : f.Ordered
        · refine .inl ⟨_, Frame.read_ok hreads ((Frame.not_refused_iff hreads).mpr hordered), ?_⟩
          exact (Frame.encode_envelope_iff hreads hordered).mpr (hcanonical hordered)
        · have href := not_not.mp (mt (Frame.not_refused_iff hreads).mp hordered)
          exact .inr ⟨_, Frame.read_refused hreads href⟩
      · exact .inr (f.read_of_not_textIds htext)
    · exact .inr (decode_not_shaped hshaped)

/-- **The codec** gives back every envelope whose times differ in their milliseconds and whose ids
have no byte order mark in front, and no other; it reads every block exactly or refuses it where the
encoder could have written what stands in the block, and nowhere else. -/
theorem codec_exact (e : CompactStoreForwardEnvelope) (bytes : Bytes) :
    (e.RoundTrips ↔
      (e.WellFormedIds → e.Encodable → e.Unmarked ∧
        e.createdAt.millisecondsSinceEpoch < e.expiresAt.millisecondsSinceEpoch)) ∧
    (ExactOrRefused bytes ↔
      ∀ f : Frame, bytes = f.bytes → f.TextIds → f.TimesInRange ∧ (f.Ordered → f.Canonical)) :=
  ⟨roundTrips_iff e, exactOrRefused_iff bytes⟩

end CompactStoreForwardEnvelope

namespace Sample

theorem moment_inRange (micros : ℕ) :
    -maxMicroseconds ≤ (micros % 1000 : ℕ) ∧ ((micros % 1000 : ℕ) : ℤ) ≤ maxMicroseconds := by
  unfold maxMicroseconds
  omega

def moment (micros : ℕ) : DateTime := ⟨(micros % 1000 : ℕ), moment_inRange micros⟩

def brief : CompactStoreForwardEnvelope where
  messageId := ofString "m"
  senderDeviceId := ofString "a"
  recipientDeviceId := ofString "b"
  createdAt := moment 0
  expiresAt := moment 1
  payload := [7]
  hopCount := 0
  maximumHops := 3
  receiptRequested := true

def distant : Frame where
  flags := 1
  hopCount := 0
  maximumHops := 3
  reserved := 0
  created := [0x7f, 0xff, 0xff, 0xff, 0xff, 0xff, 0xff, 0xfe]
  expires := [0x7f, 0xff, 0xff, 0xff, 0xff, 0xff, 0xff, 0xff]
  id := utf8Encode (ofString "m")
  sender := utf8Encode (ofString "a")
  recipient := utf8Encode (ofString "b")
  payload := [7]
  created_length := rfl
  expires_length := rfl
  id_length := by decide
  sender_length := by decide
  recipient_length := by decide
  payload_length := by decide

/-- **The codec is not exact**: an envelope that the encoder takes is refused by the decoder, and a
block with a valid checksum ends in a `RangeError`. -/
theorem codec_not_exact : ¬ brief.RoundTrips ∧
    ¬ CompactStoreForwardEnvelope.ExactOrRefused distant.bytes := by
  constructor
  · intro h
    have htimes := ((CompactStoreForwardEnvelope.roundTrips_iff brief).mp h
      ⟨by decide, by decide, by decide⟩ (by decide)).2
    exact absurd htimes (by decide)
  intro h
  have hid : ∀ s : DartString, WellFormed s → (utf8Decode (utf8Encode s)).isSome = true := by
    intro s hs
    rw [utf8Decode_utf8Encode hs]
    rfl
  have htimes := ((CompactStoreForwardEnvelope.exactOrRefused_iff distant.bytes).mp h distant rfl
    ⟨hid _ (by decide), hid _ (by decide), hid _ (by decide)⟩).1.1
  exact absurd htimes (by decide)

end Sample

end Courier
end Conest
