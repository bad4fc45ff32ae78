import Conest.Lib.DiskFile
import Conest.Transfer.Journal

/-!
# Partial transfers

A `PartialTransfer` writes the blocks of an attachment into a file as they come. A checkpoint syncs
the file and then appends the blocks since the last one to the journal, after which they are not
received again. Every step can fail part of the way, and a crash loses what was written since the
last sync, or keeps some of it.

The blocks in the journal are stored, and stay so through a crash, as long as the
journal is not appended to behind part of a record and no block is written over with something else
that is waiting for a checkpoint or has a record (`Careful`).
-/

namespace Conest
namespace Transfer

open Lib

def journalCheckpointBytes : ℕ := 8 * 1024 * 1024

/-- A transfer in progress. Its manifest, its key and its paths do not change. -/
structure PartialTransfer where
  journal : TransferJournal
  pending : List Block
  pendingBytes : ℕ

/-- What fails in a step: the write of a block after so many bytes, the sync of the file, and the
appends to the journal, each after so many bytes. -/
structure Faults where
  write : Option ℕ
  sync : Bool
  appends : List (Option ℕ)

/-- The files, and the transfer if there is one. -/
structure World where
  file : Option (DiskFile UInt8)
  bytes : Bytes
  transfer : Option PartialTransfer

variable (c : Crypto) (m : TransferManifest) (key : Digest)

/-- Appends blocks until one fails. -/
def appendPending (journal : TransferJournal) (bytes : Bytes) :
    List Block → List (Option ℕ) → Except Failure Unit × TransferJournal × Bytes
  | [], _ => (.ok (), journal, bytes)
  | block :: pending, faults =>
    match journal.append c key bytes block (faults.headD none) with
    | (.error failure, journal, bytes) => (.error failure, journal, bytes)
    | (.ok (), journal, bytes) => appendPending journal bytes pending faults.tail

namespace PartialTransfer

def checkpoint (transfer : PartialTransfer) (file : DiskFile UInt8) (bytes : Bytes)
    (faults : Faults) : Except Failure Unit × DiskFile UInt8 × Bytes × PartialTransfer :=
  if transfer.pending.isEmpty then (.ok (), file, bytes, transfer)
  else if faults.sync then (.error .io, file, bytes, transfer)
  else
    match appendPending c key transfer.journal bytes transfer.pending faults.appends with
    -- the pending blocks are drained, also those that were not appended
    | (.error failure, journal, bytes) =>
      (.error failure, file.sync, bytes, { transfer with journal, pending := [] })
    | (.ok (), journal, bytes) => (.ok (), file.sync, bytes, ⟨journal, [], 0⟩)

def durableBytes (transfer : PartialTransfer) : ℕ :=
  ∑ index ∈ transfer.journal.durable, match m.expectedPlaintextLen index with
    | .ok length => length
    | .error _ => 0

def receivedBytes (transfer : PartialTransfer) : ℕ :=
  transfer.durableBytes m + (transfer.pending.map fun block => block.length.toNat).sum

def isComplete (transfer : PartialTransfer) : Bool :=
  decide (transfer.journal.durable.card = m.blockCount) && transfer.pending.isEmpty

/-- Writes a block at its place. -/
def writeBlock (transfer : PartialTransfer) (file : DiskFile UInt8) (frame : AttachmentBlockFrame)
    (plaintext : Bytes) (fault : Option ℕ) : Except Failure Unit × DiskFile UInt8 × PartialTransfer :=
  let offset := m.offset frame.blockIndex
  match fault with
  | some written => (.error .io, file.write 0 offset (plaintext.take written), transfer)
  | none =>
    (.ok (), file.write 0 offset plaintext,
     { transfer with
       pending := transfer.pending ++ [⟨frame.blockIndex, frame.plaintextLen, frame.plaintextSha256⟩]
       pendingBytes := transfer.pendingBytes + plaintext.length })

/-- `due` is whether the last checkpoint is too long ago. -/
def receiveEncodedBlock (transfer : PartialTransfer) (file : DiskFile UInt8) (bytes : Bytes)
    (encoded : Bytes) (due : Bool) (faults : Faults) :
    Except Failure ℕ × DiskFile UInt8 × Bytes × PartialTransfer :=
  match AttachmentBlockFrame.decode encoded with
  | .error failure => (.error failure, file, bytes, transfer)
  | .ok frame =>
    if frame.blockIndex ∈ transfer.journal.durable then
      (.ok (transfer.durableBytes m), file, bytes, transfer)
    else
      match frame.decrypt c m key with
      | .error failure => (.error failure, file, bytes, transfer)
      | .ok plaintext =>
        match transfer.writeBlock m file frame plaintext faults.write with
        | (.error failure, file, transfer) => (.error failure, file, bytes, transfer)
        | (.ok (), file, transfer) =>
          if decide (journalCheckpointBytes ≤ transfer.pendingBytes) || due then
            match transfer.checkpoint c key file bytes faults with
            | (.error failure, rest) => (.error failure, rest)
            | (.ok (), file, bytes, transfer) =>
              (.ok (transfer.receivedBytes m), file, bytes, transfer)
          else (.ok (transfer.receivedBytes m), file, bytes, transfer)

end PartialTransfer

namespace World

/-- No file of the transfer exists. -/
def initial : World := ⟨none, [], none⟩

def openTransfer (w : World) : Except Failure Unit × World :=
  match m.validate with
  | .error failure => (.error failure, { w with transfer := none })
  | .ok () =>
    let file := (w.file.getD DiskFile.empty).setLen 0 m.sizeBytes
    match TransferJournal.openJournal c key w.bytes with
    | (.error failure, bytes) => (.error failure, ⟨some file, bytes, none⟩)
    | (.ok journal, bytes) => (.ok (), ⟨some file, bytes, some ⟨journal, [], 0⟩⟩)

/-- What happens to a transfer. -/
inductive Act where
  | openTransfer
  | receive (encoded : Bytes) (due : Bool) (faults : Faults)
  | checkpoint (faults : Faults)
  | crash (choose : ℕ → Option ℕ) (rest : Bytes)

def step (w : World) : Act → World
  | .openTransfer => (w.openTransfer c m key).2
  | .receive encoded due faults =>
    match w.file, w.transfer with
    | some file, some transfer =>
      let (_, file, bytes, transfer) :=
        transfer.receiveEncodedBlock c m key file w.bytes encoded due faults
      ⟨some file, bytes, some transfer⟩
    | _, _ => w
  | .checkpoint faults =>
    match w.file, w.transfer with
    | some file, some transfer =>
      let (_, file, bytes, transfer) := transfer.checkpoint c key file w.bytes faults
      ⟨some file, bytes, some transfer⟩
    | _, _ => w
  | .crash choose rest =>
    { w with file := w.file.map fun file => file.crash choose rest, transfer := none }

def machine : Machine World Act Unit := ⟨fun w act => (w.step c m key act, ())⟩

/-- Ends a transfer. The result is what is published under the destination; `fails` is whether the
file cannot be read, synced or renamed. -/
def finalize (w : World) (faults : Faults) (fails : Bool) : Except Failure Bytes :=
  match w.file, w.transfer with
  | some file, some transfer =>
    match transfer.checkpoint c key file w.bytes faults with
    | (.error failure, _) => .error failure
    | (.ok (), file, _, transfer) =>
      if !transfer.isComplete m then .error (.bail "attachment is incomplete")
      else if c.sha256 file.content ≠ m.wholeSha256 then
        .error (.bail "whole-file integrity verification failed")
      else if fails then .error .io
      else .ok file.content
  | _, _ => .error .io

end World

end Transfer
end Conest
