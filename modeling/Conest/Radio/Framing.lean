import Conest.Lib.Deframer

/-!
# HDLC and KISS framing

The framings of Reticulum's TCP interfaces and of RNode radios: a frame stands between two marker
bytes, and marker and escape bytes inside it are escaped. Both deframers read byte after byte, so
they do not depend on the cuts. What they make of one frame is followed along its bytes: an
escaped byte adds the byte itself to the frame under way (`HdlcDeframer.steps_escapeByte`,
`KissDeframer.steps_escapeByte`), so a frame within the limit comes back as it was.
-/

open Lib List Option

namespace Conest
namespace Radio

/-! ### HDLC -/

namespace HdlcFraming

def flag : UInt8 := 0x7e
def escape : UInt8 := 0x7d
def escapeMask : UInt8 := 0x20

/-- One byte of a frame, escaped where it has to be. -/
def escapeByte (byte : UInt8) : Bytes :=
  if byte = escape ∨ byte = flag then [escape, byte ^^^ escapeMask] else [byte]

/-- `HdlcFraming.frame`. -/
def frame (data : Bytes) : Bytes := flag :: (data.flatMap escapeByte ++ [flag])

theorem masked_ne {byte : UInt8} (h : byte = escape ∨ byte = flag) :
    byte ^^^ escapeMask ≠ flag ∧ byte ^^^ escapeMask ≠ escape := by
  rcases h with rfl | rfl
  · decide
  · decide

end HdlcFraming

/-- The state of an `HdlcDeframer` between two bytes. -/
structure HdlcDeframer where
  current : Bytes
  inFrame : Bool
  escaped : Bool
  overflow : Bool
deriving DecidableEq, Repr

namespace HdlcDeframer

/-- The body of the loop of `HdlcDeframer.add`. -/
def step (maxFrame : ℕ) (s : HdlcDeframer) (byte : UInt8) : Option Bytes × HdlcDeframer :=
  if byte = HdlcFraming.flag then
    (if s.inFrame && !s.current.isEmpty && !s.overflow then some s.current else none,
      { current := [], inFrame := true, escaped := false, overflow := false })
  else if !s.inFrame then (none, s)
  else if byte = HdlcFraming.escape then (none, { s with escaped := true })
  else
    let value := if s.escaped then byte ^^^ HdlcFraming.escapeMask else byte
    if maxFrame ≤ s.current.length then (none, { s with escaped := false, overflow := true })
    else (none, { s with escaped := false, current := s.current ++ [value] })

/-- `HdlcDeframer`. -/
def deframer (maxFrame : ℕ) : Deframer HdlcDeframer Bytes :=
  Deframer.ofStep { current := [], inFrame := false, escaped := false, overflow := false }
    (step maxFrame)

/-- Inside a frame of which these bytes have come. -/
def opened (current : Bytes) : HdlcDeframer where
  current := current
  inFrame := true
  escaped := false
  overflow := false

variable {maxFrame : ℕ}

theorem step_flag (s : HdlcDeframer) :
    step maxFrame s HdlcFraming.flag =
      (if s.inFrame && !s.current.isEmpty && !s.overflow then some s.current else none,
        opened []) := by
  unfold step
  rfl

theorem steps_escapeByte {current : Bytes} (byte : UInt8) (h : current.length < maxFrame) :
    Deframer.steps (step maxFrame) (opened current) (HdlcFraming.escapeByte byte) =
      ([], opened (current ++ [byte])) := by
  have hroom : ¬ maxFrame ≤ current.length := not_le.mpr h
  unfold HdlcFraming.escapeByte
  split
  · next hescaped =>
    -- the escape, and then the byte under its mask
    obtain ⟨hflag, hescape⟩ := HdlcFraming.masked_ne hescaped
    have hne : HdlcFraming.escape ≠ HdlcFraming.flag := by decide
    simp [Deframer.steps, step, opened, hflag, hescape, hne, hroom]
  next hplain =>
  obtain ⟨hescape, hflag⟩ := not_or.mp hplain
  simp [Deframer.steps, step, opened, hflag, hescape, hroom]

theorem steps_escaped {current data : Bytes} (h : current.length + data.length ≤ maxFrame) :
    Deframer.steps (step maxFrame) (opened current) (data.flatMap HdlcFraming.escapeByte) =
      ([], opened (current ++ data)) := by
  induction data generalizing current with
  | nil =>
    rw [append_nil]
    rfl
  | cons byte data ih =>
    rw [length_cons] at h
    rw [flatMap_cons, Deframer.steps_append, steps_escapeByte byte (by omega)]
    rw [ih (by rw [length_append, length_singleton]; omega), append_assoc]
    rfl

theorem steps_frame {s : HdlcDeframer} (hs : s.current = []) {data : Bytes} (hdata : data ≠ [])
    (h : data.length ≤ maxFrame) :
    Deframer.steps (step maxFrame) s (HdlcFraming.frame data) = ([data], opened []) := by
  have hbody : Deframer.steps (step maxFrame) (opened []) (data.flatMap HdlcFraming.escapeByte) =
      ([], opened data) := steps_escaped (by simpa using h)
  have hend : step maxFrame (opened data) HdlcFraming.flag = (some data, opened []) := by
    rw [step_flag]
    simp [opened, hdata]
  unfold HdlcFraming.frame
  rw [Deframer.steps, step_flag, hs]
  simp only [isEmpty_nil, Bool.not_true, Bool.and_false, Bool.false_and, Bool.false_eq_true,
    if_false, toList_none, nil_append]
  rw [Deframer.steps_append, hbody]
  simp[Deframer.steps, hend, toList_some, nil_append, append_nil]

theorem steps_frames {s : HdlcDeframer} (hs : s.current = []) {payloads : List Bytes}
    (h : ∀ p ∈ payloads, p ≠ [] ∧ p.length ≤ maxFrame) :
    (Deframer.steps (step maxFrame) s (payloads.flatMap HdlcFraming.frame)).1 = payloads := by
  induction payloads generalizing s with
  | nil => rfl
  | cons p payloads ih =>
    obtain ⟨hp, hlength⟩ := h p mem_cons_self
    rw [flatMap_cons, Deframer.steps_append, steps_frame hs hp hlength]
    rw [ih rfl fun q hq => h q (mem_cons_of_mem p hq)]
    rfl

theorem incremental (maxFrame : ℕ) : (deframer maxFrame).Incremental fun _ => True :=
  Deframer.ofStep_incremental _ _

theorem recovers {payloads : List Bytes} (h : ∀ p ∈ payloads, p ≠ [] ∧ p.length ≤ maxFrame) :
    (deframer maxFrame).Recovers (payloads.flatMap HdlcFraming.frame) payloads :=
  (incremental maxFrame).recovers (steps_frames rfl h)

end HdlcDeframer

/-! ### KISS -/

namespace KissFraming

def fend : UInt8 := 0xc0
def fesc : UInt8 := 0xdb
def tfend : UInt8 := 0xdc
def tfesc : UInt8 := 0xdd

/-- One byte of a frame, escaped where it has to be. -/
def escapeByte (byte : UInt8) : Bytes :=
  if byte = fend then [fesc, tfend]
  else if byte = fesc then [fesc, tfesc]
  else [byte]

/-- `KissFraming.frame`. -/
def frame (command : UInt8) (data : Bytes) : Bytes :=
  fend :: command :: (data.flatMap escapeByte ++ [fend])

end KissFraming

/-- The state of a `KissDeframer` between two bytes. -/
structure KissDeframer where
  current : Bytes
  command : Option UInt8
  inFrame : Bool
  escaped : Bool
  overflow : Bool
deriving DecidableEq, Repr

namespace KissDeframer

variable {command : UInt8}

/-- What a byte after the escape stands for. -/
def unescape (byte : UInt8) : UInt8 :=
  if byte = KissFraming.tfend then KissFraming.fend
  else if byte = KissFraming.tfesc then KissFraming.fesc
  else byte

/-- The frame that ends here, if one was under way. -/
def ended (s : KissDeframer) : Option (UInt8 × Bytes) :=
  match s.command with
  | some command => if s.inFrame && !s.overflow then some (command, s.current) else none
  | none => none

/-- The body of the loop of `KissDeframer.add`. -/
def step (maxFrame : ℕ) (s : KissDeframer) (byte : UInt8) :
    Option (UInt8 × Bytes) × KissDeframer :=
  if byte = KissFraming.fend then
    (s.ended,
      { current := [], command := none, inFrame := true, escaped := false, overflow := false })
  else if !s.inFrame then (none, s)
  else if s.command.isNone then (none, { s with command := some byte })
  else if byte = KissFraming.fesc then (none, { s with escaped := true })
  else
    let value := if s.escaped then unescape byte else byte
    if maxFrame ≤ s.current.length then (none, { s with escaped := false, overflow := true })
    else (none, { s with escaped := false, current := s.current ++ [value] })

/-- `KissDeframer`. -/
def deframer (maxFrame : ℕ) : Deframer KissDeframer (UInt8 × Bytes) :=
  Deframer.ofStep
    { current := [], command := none, inFrame := false, escaped := false, overflow := false }
    (step maxFrame)

/-- Inside a frame of this command, of which these bytes have come. -/
def opened (command : UInt8) (current : Bytes) : KissDeframer where
  current := current
  command := some command
  inFrame := true
  escaped := false
  overflow := false

variable {maxFrame : ℕ}

theorem steps_escapeByte {current : Bytes} (byte : UInt8) (h : current.length < maxFrame) :
    Deframer.steps (step maxFrame) (opened command current) (KissFraming.escapeByte byte) =
      ([], opened command (current ++ [byte])) := by
  have hroom : ¬ maxFrame ≤ current.length := not_le.mpr h
  have hesc : KissFraming.fesc ≠ KissFraming.fend := by decide
  unfold KissFraming.escapeByte
  split
  · next hfend =>
    have hne : KissFraming.tfend ≠ KissFraming.fend ∧ KissFraming.tfend ≠ KissFraming.fesc := by
      decide
    simp [Deframer.steps, step, opened, unescape, hesc, hne, hroom, hfend]
  next hplain =>
  split
  · next hfesc =>
    have hne : KissFraming.tfesc ≠ KissFraming.fend ∧ KissFraming.tfesc ≠ KissFraming.fesc ∧
        KissFraming.tfesc ≠ KissFraming.tfend := by
      decide
    simp [Deframer.steps, step, opened, unescape, hesc, hne, hroom, hfesc]
  next hfesc => simp [Deframer.steps, step, opened, hplain, hfesc, hroom]

theorem steps_escaped {current data : Bytes} (h : current.length + data.length ≤ maxFrame) :
    Deframer.steps (step maxFrame) (opened command current)
        (data.flatMap KissFraming.escapeByte) =
      ([], opened command (current ++ data)) := by
  induction data generalizing current with
  | nil =>
    rw [append_nil]
    rfl
  | cons byte data ih =>
    rw [length_cons] at h
    rw [flatMap_cons, Deframer.steps_append, steps_escapeByte byte (by omega)]
    rw [ih (by rw [length_append, length_singleton]; omega), append_assoc]
    rfl

/-- Between two frames: no command has come. -/
def Idle (s : KissDeframer) : Prop := s.command = none

/-- **One frame**: a deframer between two frames gives it back, and is between two frames again. -/
theorem steps_frame {s : KissDeframer} (hs : s.Idle) (hcommand : command ≠ KissFraming.fend)
    {data : Bytes} (h : data.length ≤ maxFrame) :
    (Deframer.steps (step maxFrame) s (KissFraming.frame command data)).1 = [(command, data)] ∧
      (Deframer.steps (step maxFrame) s (KissFraming.frame command data)).2.Idle := by
  have hbody : Deframer.steps (step maxFrame) (opened command [])
      (data.flatMap KissFraming.escapeByte) = ([], opened command data) :=
    steps_escaped (by simpa using h)
  have hbegin : (step maxFrame s KissFraming.fend).1 = none := by
    unfold Idle at hs
    simp [step, ended, hs]
  have hcmd : step maxFrame (step maxFrame s KissFraming.fend).2 command =
      (none, opened command []) := by
    simp [step, hcommand, opened]
  have hend : (step maxFrame (opened command data) KissFraming.fend).1 = some (command, data) ∧
      (step maxFrame (opened command data) KissFraming.fend).2.Idle := by
    simp [step, ended, opened, Idle]
  unfold KissFraming.frame
  simp only [Deframer.steps, hbegin, hcmd, Deframer.steps_append, hbody, hend.1,
    toList_none, toList_some, nil_append, append_nil, true_and]
  exact hend.2

theorem steps_frames {s : KissDeframer} (hs : s.Idle) {payloads : List (UInt8 × Bytes)}
    (h : ∀ p ∈ payloads, p.1 ≠ KissFraming.fend ∧ p.2.length ≤ maxFrame) :
    (Deframer.steps (step maxFrame) s
      (payloads.flatMap fun p => KissFraming.frame p.1 p.2)).1 = payloads := by
  induction payloads generalizing s with
  | nil => rfl
  | cons p payloads ih =>
  obtain ⟨hcommand, hlength⟩ := h p mem_cons_self
  obtain ⟨hframe, hidle⟩ := steps_frame hs hcommand hlength
  rw [flatMap_cons, Deframer.steps_append, hframe]
  rw [ih hidle fun q hq => h q (mem_cons_of_mem p hq)]
  rfl

theorem incremental (maxFrame : ℕ) : (deframer maxFrame).Incremental fun _ => True :=
  Deframer.ofStep_incremental _ _

theorem recovers {payloads : List (UInt8 × Bytes)}
    (h : ∀ p ∈ payloads, p.1 ≠ KissFraming.fend ∧ p.2.length ≤ maxFrame) :
    (deframer maxFrame).Recovers (payloads.flatMap fun p => KissFraming.frame p.1 p.2) payloads :=
  have hidle : (deframer maxFrame).start.Idle := rfl
  (incremental maxFrame).recovers (steps_frames hidle h)

end KissDeframer

end Radio
end Conest
