import Conest.Beam.Package
import Conest.Lib.LinkedMap
import Conest.Lib.Outcome

/-!
# The Beam decoder

A Beam transfer is a stream of frames, each the exclusive or of some blocks of the package. The
decoder keeps the blocks it knows and the equations that it cannot solve yet; a frame adds one
equation, and what it solves may solve others. When all blocks are known they are put together and
read as a package.

`BeamFrame.Decodable` lists what `decodeBytes` checks, so a frame here is one that was read. All
blocks of a transfer have one length then, and `_xorInto` never throws.
-/

namespace Conest
namespace Beam

open Lib

/-! ### Frames -/

structure BeamFrame where
  mode : BeamMode
  transferIdBytes : Bytes
  originalLength : ℕ
  blockSize : ℕ
  sourceBlockCount : ℕ
  seed : ℕ
  degree : ℕ
  systematic : Bool
  payload : Bytes
deriving DecidableEq

/-- What `decodeBytes` asks of a frame, and the widths of the fields. -/
structure BeamFrame.Decodable (frame : BeamFrame) : Prop where
  id : frame.transferIdBytes.length = 16
  original : 0 < frame.originalLength ∧
    frame.originalLength ≤ conestBeamMaximumPayloadBytes + 64 * 1024 + 4
  block : 0 < frame.blockSize ∧ frame.blockSize ≤ 2048
  count : (frame.originalLength + frame.blockSize - 1) / frame.blockSize = frame.sourceBlockCount
  seed : frame.seed < 2 ^ 32
  degree : 0 < frame.degree ∧ frame.degree ≤ frame.sourceBlockCount
  payload : frame.payload.length = frame.blockSize
  systematic : frame.systematic = true → frame.degree = 1 ∧ frame.seed < frame.sourceBlockCount

/-- `_hex`. -/
def hexOf (bytes : Bytes) : DartString := DartString.hex (bytes.map UInt8.toNat)

def BeamFrame.transferId (frame : BeamFrame) : DartString := hexOf frame.transferIdBytes

/-! ### The blocks of an equation -/

/-- The state of `_XorShift32` for a seed. -/
def xorShiftState (seed : UInt32) : UInt32 := if seed = 0 then 0x6d2b79f5 else seed

/-- `nextUint32`, which is also the next state. -/
def nextUint32 (state : UInt32) : UInt32 :=
  let value := state ^^^ (state <<< 13)
  let value := value ^^^ (value >>> 17)
  value ^^^ (value <<< 5)

/-- Draws until `degree` different indices are found. -/
def drawIndices (degree count : ℕ) : ℕ → UInt32 → List ℕ → Option (List ℕ)
  | fuel, state, result =>
    if degree ≤ result.length then some result
    else
      match fuel with
      | 0 => none
      | fuel + 1 =>
        let next := nextUint32 state
        let index := next.toNat % count
        drawIndices degree count fuel next (if index ∈ result then result else result ++ [index])

/-- `_indicesFor`. The generator has no more than `2 ^ 32` states, so a draw that has not ended by
then never does. -/
def indicesFor (seed degree count : ℕ) : Outcome BeamError (List ℕ) :=
  if degree = 0 ∨ count < degree then .error (.format "Invalid Beam fountain degree.")
  else
    let state := xorShiftState (UInt32.ofNat seed ^^^ 0x9e3779b9)
    match drawIndices degree count (2 ^ 32) state [] with
    | none => .diverges
    | some indices => .ok indices

/-! ### Equations -/

/-- The exclusive or of the blocks of these indices. -/
structure BeamEquation where
  indices : List ℕ
  bytes : Bytes
deriving DecidableEq

def xorInto (target source : Bytes) : Bytes := List.zipWith (· ^^^ ·) target source

/-- The known blocks, and the equations left. -/
structure Blocks where
  solved : LinkedMap ℕ Bytes
  equations : List BeamEquation

namespace Blocks

/-- `_reduceKnown`, over the indices as they were. -/
def reduceKnown (solved : LinkedMap ℕ Bytes) : List ℕ → BeamEquation → BeamEquation
  | [], equation => equation
  | index :: indices, equation =>
    match solved.get index with
    | none => reduceKnown solved indices equation
    | some known =>
      reduceKnown solved indices ⟨equation.indices.erase index, xorInto equation.bytes known⟩

def reduced (b : Blocks) (equation : BeamEquation) : BeamEquation :=
  reduceKnown b.solved equation.indices equation

/-- `_solve`. -/
def solve (b : Blocks) (index : ℕ) (bytes : Bytes) : Blocks × Outcome BeamError Unit :=
  match b.solved.get index with
  | some existing =>
    if existing ≠ bytes then (b, .error (.format "Conflicting Beam source block.")) else (b, .ok ())
  | none => ({ b with solved := b.solved.put index bytes }, .ok ())

/-- One pass over the equations below a position, from the last to the first; whether anything
changed. -/
def drainPass (b : Blocks) (changed : Bool) : ℕ → Blocks × Outcome BeamError Bool
  | 0 => (b, .ok changed)
  | index + 1 =>
    match b.equations[index]? with
    | none => (b, .ok changed)
    | some equation =>
      let next := b.reduced equation
      let b := { b with equations := b.equations.set index next }
      match next.indices with
      | [] => drainPass { b with equations := b.equations.eraseIdx index } true index
      | [single] =>
        match b.solve single next.bytes with
        | (b, .error e) => (b, .error e)
        | (b, .diverges) => (b, .diverges)
        | (b, .ok ()) => drainPass { b with equations := b.equations.eraseIdx index } true index
      | _ :: _ :: _ =>
        drainPass b (changed || decide (next.indices.length ≠ equation.indices.length)) index

/-- What the equations still name. A pass that changes something makes it less. -/
def weight (b : Blocks) : ℕ := (b.equations.map fun equation => equation.indices.length + 1).sum

/-- Passes until nothing changes. -/
def drainFrom : ℕ → Blocks → Blocks × Outcome BeamError Unit
  | 0, b => (b, .diverges)
  | fuel + 1, b =>
    match b.drainPass false b.equations.length with
    | (b, .error e) => (b, .error e)
    | (b, .diverges) => (b, .diverges)
    | (b, .ok changed) => if changed then drainFrom fuel b else (b, .ok ())

/-- `_drainEquations`. -/
def drainEquations (b : Blocks) : Blocks × Outcome BeamError Unit := drainFrom (b.weight + 1) b

/-- One more equation, and what follows from it. -/
def add (b : Blocks) (equation : BeamEquation) : Blocks × Outcome BeamError Unit :=
  let next := b.reduced equation
  match next.indices with
  | [] => b.drainEquations
  | [single] =>
    match b.solve single next.bytes with
    | (b, .ok ()) => b.drainEquations
    | stopped => stopped
  | _ :: _ :: _ => { b with equations := b.equations ++ [next] }.drainEquations

end Blocks

/-! ### The decoder -/

/-- What all frames of a transfer have in common. -/
structure Transfer where
  transferId : DartString
  mode : BeamMode
  originalLength : ℕ
  blockSize : ℕ
  sourceBlockCount : ℕ
deriving DecidableEq

def BeamFrame.transfer (frame : BeamFrame) : Transfer where
  transferId := frame.transferId
  mode := frame.mode
  originalLength := frame.originalLength
  blockSize := frame.blockSize
  sourceBlockCount := frame.sourceBlockCount

structure BeamDecodeProgress where
  solvedBlocks : ℕ
  sourceBlockCount : ℕ
  distinctFrames : ℕ
  complete : Bool
deriving DecidableEq

structure BeamDecoder where
  transfer : Option Transfer
  blocks : Blocks
  seenSeeds : Finset ℕ
  package : Option BeamPackage

namespace BeamDecoder

def initial : BeamDecoder := ⟨none, ⟨.empty, []⟩, ∅, none⟩

def progress (d : BeamDecoder) : BeamDecodeProgress where
  solvedBlocks := d.blocks.solved.size
  sourceBlockCount := (d.transfer.map Transfer.sourceBlockCount).getD 0
  distinctFrames := d.seenSeeds.card
  complete := d.package.isSome

/-- The blocks of a transfer, put together. -/
def assembled (b : Blocks) (transfer : Transfer) : Bytes :=
  ((List.range transfer.sourceBlockCount).flatMap fun index =>
    (b.solved.get index).getD []).take transfer.originalLength

/-- The indices of a frame's blocks. -/
def indicesOf (frame : BeamFrame) : Outcome BeamError (List ℕ) :=
  if frame.systematic then .ok [frame.seed]
  else indicesFor frame.seed frame.degree frame.sourceBlockCount

/-- Reads the package once every block is known. -/
def finish (libs : Libraries) (d : BeamDecoder) (transfer : Transfer) :
    BeamDecoder × Outcome BeamError BeamDecodeProgress :=
  if d.blocks.solved.size = transfer.sourceBlockCount then
    match BeamPackage.decode libs (assembled d.blocks transfer) with
    | .error e => (d, .error e)
    | .ok package =>
      let d := { d with package := some package }
      if libs.toLowerCase package.manifest.transferId ≠ transfer.transferId then
        (d, .error (.format "Beam transfer identifier mismatch."))
      else (d, .ok d.progress)
  else (d, .ok d.progress)

def addFrame (libs : Libraries) (d : BeamDecoder) (frame : BeamFrame) :
    BeamDecoder × Outcome BeamError BeamDecodeProgress :=
  if d.transfer.any fun transfer => decide (transfer ≠ frame.transfer) then
    (d, .error (.format "Beam frame belongs to another transfer."))
  else
    let d := { d with transfer := some frame.transfer }
    if d.package.isSome ∨ frame.seed ∈ d.seenSeeds then (d, .ok d.progress)
    else
      let d := { d with seenSeeds := insert frame.seed d.seenSeeds }
      match indicesOf frame with
      | .error e => (d, .error e)
      | .diverges => (d, .diverges)
      | .ok indices =>
        if indices.any fun index => decide (frame.sourceBlockCount ≤ index) then
          (d, .error (.format "Beam frame references an invalid block."))
        else
          match d.blocks.add ⟨indices, frame.payload⟩ with
          | (blocks, .error e) => ({ d with blocks }, .error e)
          | (blocks, .diverges) => ({ d with blocks }, .diverges)
          | (blocks, .ok ()) => { d with blocks }.finish libs frame.transfer

end BeamDecoder
end Beam
end Conest
