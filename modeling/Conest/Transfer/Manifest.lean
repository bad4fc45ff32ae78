import Conest.Lib.BigEndian

/-!
# Manifests and blocks of an attachment

A `TransferManifest` says what a transfer is about: the size of the file, the size of its blocks and
the hash of the whole. A block travels as an `AttachmentBlockFrame`, sealed under the key of the
attachment; its place in the file is its index times the block size.

The cipher and the hashes are the fields of a `Crypto`. Of the cipher only the length of what it
returns is used.
-/

namespace Conest
namespace Transfer

open Lib

/-- An error with its text, or one of the file system. -/
inductive Failure where
  | bail (message : String)
  | io
deriving DecidableEq

/-- Thirty-two bytes: a hash, a tag or a key. -/
def Digest : Type := { bytes : Bytes // bytes.length = 32 }

instance : DecidableEq Digest := inferInstanceAs (DecidableEq { bytes : Bytes // bytes.length = 32 })

/-- Thirty-two of the bytes. -/
def digestAt (bytes : Bytes) (start : ℕ) (h : start + 32 ≤ bytes.length) : Digest :=
  ⟨(bytes.drop start).take 32, by rw [List.length_take, List.length_drop]; omega⟩

def aeadTagLen : ℕ := 16

/-- The primitives. `decryptWith` takes the key, the nonce, the ciphertext and what is authenticated
beside it. -/
structure Crypto where
  sha256 : Bytes → Digest
  hmacSha256 : Digest → Bytes → Digest
  decryptWith : Digest → Bytes → Bytes → Bytes → Option Bytes
  decryptWith_length : ∀ {key nonce ciphertext aad plaintext},
    decryptWith key nonce ciphertext aad = some plaintext →
      plaintext.length + aeadTagLen = ciphertext.length

/-! ### The manifest -/

def attachmentProtocolVersion : ℕ := 2

def attachmentBlockSize : ℕ := 128 * 1024

def attachmentIrohBlockSize : ℕ := 1024 * 1024

def attachmentLanBlockSize : ℕ := 4 * 1024 * 1024

def maxAttachmentBytes : ℕ := 2 * 1024 * 1024 * 1024

inductive AttachmentPresentation where
  | media
  | file

structure TransferMediaMetadata where
  width : Option ℕ
  height : Option ℕ
  durationMillis : Option ℕ

structure TransferManifest where
  protocolVersion : ℕ
  transferId : String
  messageId : String
  albumId : Option String
  presentation : AttachmentPresentation
  fileName : String
  mimeType : String
  mediaMetadata : Option TransferMediaMetadata
  thumbnail : Bytes
  sizeBytes : ℕ
  blockSize : ℕ
  blockCount : ℕ
  wholeSha256 : Digest
  noncePrefix : Bytes

namespace TransferManifest

variable (m : TransferManifest)

def validate : Except Failure Unit :=
  if m.protocolVersion ≠ attachmentProtocolVersion then
    .error (.bail "unsupported attachment protocol version")
  else if m.transferId.isEmpty || decide (160 < m.transferId.utf8ByteSize) then
    .error (.bail "transfer id is outside the allowed range")
  else if m.messageId.isEmpty || decide (160 < m.messageId.utf8ByteSize) then
    .error (.bail "message id is outside the allowed range")
  else if m.albumId.any fun value => decide (160 < value.utf8ByteSize) then
    .error (.bail "album id is outside the allowed range")
  else if m.fileName.isEmpty || decide (255 < m.fileName.utf8ByteSize) then
    .error (.bail "file name is outside the allowed range")
  else if m.mimeType.isEmpty || decide (255 < m.mimeType.utf8ByteSize) then
    .error (.bail "MIME type is outside the allowed range")
  else if 64 * 1024 < m.thumbnail.length then
    .error (.bail "attachment thumbnail exceeds 64 KiB")
  else if m.mediaMetadata.any fun metadata => decide (metadata.width = some 0 ∨
      metadata.height = some 0 ∨ metadata.durationMillis = some 0) then
    .error (.bail "media metadata values must be positive")
  else if m.sizeBytes = 0 ∨ maxAttachmentBytes < m.sizeBytes then
    .error (.bail "attachment size is outside the allowed range")
  else if m.blockSize ≠ attachmentBlockSize ∧ m.blockSize ≠ attachmentIrohBlockSize ∧
      m.blockSize ≠ attachmentLanBlockSize then
    .error (.bail "attachment v2 requires 128 KiB, 1 MiB or 4 MiB blocks")
  else if m.blockCount = 0 ∨ m.blockCount ≠ (m.sizeBytes + m.blockSize - 1) / m.blockSize then
    .error (.bail "attachment block geometry is inconsistent")
  else .ok ()

def expectedPlaintextLen (blockIndex : UInt32) : Except Failure ℕ :=
  match m.validate with
  | .error failure => .error failure
  | .ok () =>
    if m.blockCount ≤ blockIndex.toNat then
      .error (.bail "attachment block index is outside the manifest")
    else .ok (min (m.sizeBytes - blockIndex.toNat * m.blockSize) m.blockSize)

/-- A string with its length before it. -/
def lengthPrefixed (text : String) : Bytes :=
  bigEndian 4 text.utf8ByteSize ++ text.toUTF8.toList

/-- The bytes whose hash identifies the manifest. -/
def digestBytes : Bytes :=
  bigEndian 2 m.protocolVersion ++ lengthPrefixed m.transferId ++ lengthPrefixed m.messageId ++
    lengthPrefixed (m.albumId.getD "") ++
    ([match m.presentation with | .media => 0 | .file => 1] : Bytes) ++
    lengthPrefixed m.fileName ++ lengthPrefixed m.mimeType ++
    (match m.mediaMetadata with
     | some metadata => 1 :: (bigEndian 4 (metadata.width.getD 0) ++
         bigEndian 4 (metadata.height.getD 0) ++ bigEndian 8 (metadata.durationMillis.getD 0))
     | none => [0]) ++
    bigEndian 4 m.thumbnail.length ++ m.thumbnail ++ bigEndian 8 m.sizeBytes ++
    bigEndian 4 m.blockSize ++ bigEndian 4 m.blockCount ++ m.wholeSha256.1 ++ m.noncePrefix

def digest (c : Crypto) : Digest := c.sha256 m.digestBytes

end TransferManifest

/-! ### Blocks -/

/-- `CAT2`. -/
def frameMagic : Bytes := [0x43, 0x41, 0x54, 0x32]

def frameHeaderLen : ℕ := 4 + 2 + 2 + 8 + 4 + 4 + 32

structure AttachmentBlockFrame where
  manifestDigestPrefix : ℕ
  blockIndex : UInt32
  plaintextLen : UInt32
  plaintextSha256 : Digest
  ciphertext : Bytes

def blockNonce (noncePrefix : Bytes) (blockIndex : UInt32) : Bytes :=
  noncePrefix ++ List.replicate 4 0 ++ bigEndian 4 blockIndex.toNat

def blockAad (manifestDigest : Digest) (blockIndex : UInt32) (length : ℕ) : Bytes :=
  manifestDigest.1 ++ bigEndian 4 blockIndex.toNat ++ bigEndian 4 length

namespace AttachmentBlockFrame

def decode (encoded : Bytes) : Except Failure AttachmentBlockFrame :=
  if h : encoded.length < frameHeaderLen + aeadTagLen ∨ encoded.take 4 ≠ frameMagic then
    .error (.bail "attachment frame header is invalid")
  else if ofBigEndian ((encoded.drop 4).take 2) ≠ attachmentProtocolVersion then
    .error (.bail "unsupported attachment frame version")
  else
    have hlong : 24 + 32 ≤ encoded.length := by
      rw [not_or, Nat.not_lt] at h
      exact Nat.le_trans (by decide) h.1
    let frame : AttachmentBlockFrame :=
      { manifestDigestPrefix := ofBigEndian ((encoded.drop 8).take 8)
        blockIndex := UInt32.ofNat (ofBigEndian ((encoded.drop 16).take 4))
        plaintextLen := UInt32.ofNat (ofBigEndian ((encoded.drop 20).take 4))
        plaintextSha256 := digestAt encoded 24 hlong
        ciphertext := encoded.drop 56 }
    if frame.plaintextLen = 0 ∨
        frame.ciphertext.length ≠ frame.plaintextLen.toNat + aeadTagLen then
      .error (.bail "attachment frame payload length is invalid")
    else .ok frame

def decrypt (c : Crypto) (frame : AttachmentBlockFrame) (m : TransferManifest) (key : Digest) :
    Except Failure Bytes :=
  if frame.manifestDigestPrefix ≠ ofBigEndian ((m.digest c).1.take 8) then
    .error (.bail "attachment block belongs to another manifest")
  else
    match m.expectedPlaintextLen frame.blockIndex with
    | .error failure => .error failure
    | .ok expected =>
      if frame.plaintextLen.toNat ≠ expected ∨
          frame.ciphertext.length ≠ expected + aeadTagLen then
        .error (.bail "attachment block geometry is invalid")
      else
        match c.decryptWith key (blockNonce m.noncePrefix frame.blockIndex) frame.ciphertext
          (blockAad (m.digest c) frame.blockIndex expected) with
        | none => .error (.bail "attachment block authentication failed")
        | some plaintext =>
          if c.sha256 plaintext ≠ frame.plaintextSha256 then
            .error (.bail "attachment block digest mismatch")
          else .ok plaintext

end AttachmentBlockFrame

/-! ### What is authentic -/

/-- A plaintext that some frame carries for the block. -/
def Authentic (c : Crypto) (m : TransferManifest) (key : Digest) (index : UInt32)
    (plaintext : Bytes) : Prop :=
  ∃ encoded frame, AttachmentBlockFrame.decode encoded = .ok frame ∧ frame.blockIndex = index ∧
    frame.decrypt c m key = .ok plaintext

/-- The place of a block in the file. -/
def TransferManifest.offset (m : TransferManifest) (index : UInt32) : ℕ := index.toNat * m.blockSize

variable {c : Crypto} {m : TransferManifest} {key : Digest} {index : UInt32} {plaintext : Bytes}

theorem check_passed {p : Prop} [Decidable p] {failure : Failure} {rest : Except Failure Unit}
    (h : (if p then .error failure else rest) = .ok ()) : ¬ p ∧ rest = .ok () := by
  by_cases hp : p
  · rw [if_pos hp] at h
    cases h
  · rw [if_neg hp] at h
    exact ⟨hp, h⟩

theorem TransferManifest.sizes (h : m.validate = .ok ()) :
    (0 < m.sizeBytes ∧ m.sizeBytes ≤ maxAttachmentBytes) ∧ 0 < m.blockSize ∧
      m.blockCount = (m.sizeBytes + m.blockSize - 1) / m.blockSize := by
  unfold validate at h
  iterate 8 replace h := (check_passed h).2
  obtain ⟨hsize, h⟩ := check_passed h
  obtain ⟨hblock, h⟩ := check_passed h
  obtain ⟨hcount, -⟩ := check_passed h
  rw [not_or, not_lt] at hsize
  rw [not_or, not_not] at hcount
  refine ⟨⟨Nat.pos_of_ne_zero hsize.1, hsize.2⟩, ?_, hcount.2⟩
  by_contra hzero
  rw [Nat.eq_zero_of_not_pos hzero] at hblock
  exact hblock ⟨by decide, by decide, by decide⟩

theorem TransferManifest.geometry (h : m.validate = .ok ()) :
    0 < m.blockSize ∧ m.blockCount = (m.sizeBytes + m.blockSize - 1) / m.blockSize := (sizes h).2

theorem TransferManifest.offset_le (h : m.validate = .ok ()) (hindex : index.toNat < m.blockCount) :
    m.offset index ≤ m.sizeBytes := by
  obtain ⟨hpos, hcount⟩ := m.geometry h
  have hlt : (index.toNat + 1) * m.blockSize ≤ m.sizeBytes + m.blockSize - 1 := by
    rw [← Nat.le_div_iff_mul_le hpos, ← hcount]
    exact hindex
  unfold offset
  rw [Nat.succ_mul] at hlt
  omega

theorem Authentic.fits (h : Authentic c m key index plaintext) :
    plaintext.length ≤ m.blockSize ∧ m.offset index + plaintext.length ≤ m.sizeBytes ∧
      index.toNat < m.blockCount := by
  obtain ⟨-, frame, -, rfl, hdecrypt⟩ := h
  unfold AttachmentBlockFrame.decrypt at hdecrypt
  split at hdecrypt
  · cases hdecrypt
  split at hdecrypt
  · cases hdecrypt
  next expected hexpected =>
  split at hdecrypt
  · cases hdecrypt
  next hgeometry =>
  split at hdecrypt
  · cases hdecrypt
  next plaintext' hopened =>
  split at hdecrypt
  · cases hdecrypt
  cases hdecrypt
  have hlength := c.decryptWith_length hopened
  unfold TransferManifest.expectedPlaintextLen at hexpected
  split at hexpected
  · cases hexpected
  next hvalid =>
  split at hexpected
  · cases hexpected
  next hindex =>
  cases hexpected
  have hplace := TransferManifest.offset_le hvalid (Nat.not_le.mp hindex)
  unfold TransferManifest.offset at hplace ⊢
  refine ⟨by omega, by omega, by omega⟩

end Transfer
end Conest
