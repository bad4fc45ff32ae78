import Conest.Lib.Deframer

/-!
# Meshtastic's stream framing

Two start bytes, a big-endian length and the payload; between frames the device writes its log.
The deframer looks for the start bytes, and where the length behind them is out of range it takes
them for log text and looks on from the next byte.

The cuts do not matter because of what a round keeps when it runs out of bytes: from the start
bytes on everything, and of log text only a last byte that may be the first half of a start
(`next_append_of_none`).
-/

open Lib
open List hiding next

namespace Conest
namespace Radio

namespace MeshtasticFraming

def start1 : UInt8 := 0x94
def start2 : UInt8 := 0xc3
def maxPayload : ℕ := 512

/-- `MeshtasticFraming.frame`. -/
def frame (payload : Bytes) : Except String Bytes :=
  if maxPayload < payload.length then .error "Meshtastic frame is too large."
  else .ok (start1 :: start2 :: UInt8.ofNat (payload.length >>> 8) ::
    UInt8.ofNat (payload.length &&& 0xff) :: payload)

end MeshtasticFraming

namespace MeshtasticDeframer

open MeshtasticFraming Deframer

variable {b r f : Bytes}

/-- `MeshtasticDeframer._indexOfStart`. -/
def indexOfStart : Bytes → Option ℕ
  | a :: b :: rest =>
    if a = start1 ∧ b = start2 then some 0 else (indexOfStart (b :: rest)).map (· + 1)
  | _ => none

/-- A round of `MeshtasticDeframer.add` on a buffer that begins with the start bytes. -/
def header : Bytes → Progress Bytes
  | a :: b :: high :: low :: rest =>
    let length := high.toNat <<< 8 ||| low.toNat
    if maxPayload < length then .skip (b :: high :: low :: rest)
    else if rest.length < length then .wait (a :: b :: high :: low :: rest)
    else .frame (rest.take length) (rest.drop length)
  | short => .wait short

/-- A round of the loop of `MeshtasticDeframer.add`. -/
def next (buffer : Bytes) : Progress Bytes :=
  match indexOfStart buffer with
  | none => .wait (if buffer.getLast? = some start1 then [start1] else [])
  | some start => header (buffer.drop start)

/-- `MeshtasticDeframer`. -/
def deframer : Deframer Bytes Bytes := Deframer.ofNext next

/-! ### What a round decides -/

theorem headed : Headed header := by
  intro b c
  rcases b with _ | ⟨a, _ | ⟨b, _ | ⟨high, _ | ⟨low, rest⟩⟩⟩⟩
  · rfl
  · rfl
  · rfl
  · rfl
  · exact stable_sized (Nat.lt_succ_self _) (by simp only [length_cons]; omega) (fun _ => rfl) c

theorem indexOfStart_append {i : ℕ} (h : indexOfStart b = some i) (c : Bytes) :
    indexOfStart (b ++ c) = some i ∧ i ≤ b.length ∧ indexOfStart (b.drop i ++ c) = some 0 := by
  induction b generalizing i with
  | nil => cases h
  | cons a b ih =>
  cases b with
  | nil => cases h
  | cons a' b =>
  unfold indexOfStart at h
  simp only [cons_append, indexOfStart] at ih ⊢
  split at h
  · next hstart =>
    obtain rfl := Option.some.inj h
    rw [if_pos hstart]
    refine ⟨rfl, Nat.zero_le _, ?_⟩
    simp only [drop_zero, cons_append, indexOfStart]
    rw [if_pos hstart]
  next hstart =>
  obtain ⟨j, hj, rfl⟩ := Option.map_eq_some_iff.mp h
  obtain ⟨hmore, hle, hfront⟩ := ih hj
  rw [if_neg hstart, hmore]
  exact ⟨rfl, Nat.succ_le_succ hle, hfront⟩

theorem next_of_some {i : ℕ} (h : indexOfStart b = some i) (c : Bytes) :
    next (b ++ c) = header (b.drop i ++ c) := by
  obtain ⟨hmore, hle, -⟩ := indexOfStart_append h c
  unfold next
  rw [hmore]
  dsimp only
  rw [drop_append_of_le_length hle]

theorem next_cons_cons {a b : UInt8} {rest : Bytes} (h : ¬ (a = start1 ∧ b = start2)) :
    next (a :: b :: rest) = next (b :: rest) := by
  unfold next
  rw [indexOfStart, if_neg h]
  cases indexOfStart (b :: rest) with
  | none => rw [Option.map_none, getLast?_cons_cons]
  | some i => rfl

theorem next_cons {a : UInt8} (h : a ≠ start1) (rest : Bytes) : next (a :: rest) = next rest := by
  cases rest with
  | nil =>
    unfold next
    simp [indexOfStart, h]
  | cons b rest => exact next_cons_cons fun hstart => h hstart.1

theorem next_log {log : Bytes} (h : start1 ∉ log) (rest : Bytes) :
    next (log ++ rest) = next rest := by
  induction log with
  | nil => rfl
  | cons a log ih =>
    rw [mem_cons, not_or] at h
    rw [cons_append, next_cons (Ne.symm h.1), ih h.2]

/-- **What is kept of log text**: only a last byte that may begin a start matters for what
follows. -/
theorem next_append_of_none (h : indexOfStart b = none) (c : Bytes) :
    next (b ++ c) = next ((if b.getLast? = some start1 then [start1] else []) ++ c) := by
  induction b with
  | nil => rfl
  | cons a b ih =>
  cases b with
  | nil =>
    by_cases ha : a = start1
    · simp [ha]
    · simpa [ha] using next_cons ha c
  | cons a' b =>
  unfold indexOfStart at h
  split at h
  · cases h
  next hstart =>
  rw [cons_append, cons_append, next_cons_cons hstart]
  exact ih (Option.map_eq_none_iff.mp h)

theorem lawful : Lawful next := by
  refine .of_scan headed rfl fun b => ?_
  cases hi : indexOfStart b with
  | none =>
    refine .inl ⟨_, ?_, next_append_of_none hi⟩
    unfold next
    rw [hi]
  | some i =>
  have hfront := next_of_some hi []
  rw [append_nil, append_nil] at hfront
  refine .inr ⟨b.take i, b.drop i, (take_append_drop i b).symm, hfront, fun c => ?_⟩
  -- the start is at the front of what is kept
  refine ⟨next_of_some hi c, ?_⟩
  unfold next
  rw [(indexOfStart_append hi c).2.2]
  rfl

/-! ### Frames between log text -/

end MeshtasticDeframer

/-- What the device writes up to the end of one frame: log text without a start byte, and the
frame of a payload within the limit. -/
structure LoggedFrame where
  log : Bytes
  payload : Bytes
  log_clear : MeshtasticFraming.start1 ∉ log
  payload_le : payload.length ≤ MeshtasticFraming.maxPayload

namespace LoggedFrame

/-- The bytes of the frame. -/
def framed (f : LoggedFrame) : Bytes := (MeshtasticFraming.frame f.payload).toOption.getD []

/-- The bytes up to the end of the frame. -/
def bytes (f : LoggedFrame) : Bytes := f.log ++ f.framed

theorem framed_eq (f : LoggedFrame) :
    f.framed = MeshtasticFraming.start1 :: MeshtasticFraming.start2 ::
      UInt8.ofNat (f.payload.length >>> 8) :: UInt8.ofNat (f.payload.length &&& 0xff) ::
        f.payload := by
  have hle : ¬ MeshtasticFraming.maxPayload < f.payload.length := not_lt.mpr f.payload_le
  unfold framed MeshtasticFraming.frame
  rw [if_neg hle]
  rfl

theorem frame_eq (f : LoggedFrame) : MeshtasticFraming.frame f.payload = .ok f.framed := by
  rw [f.framed_eq]
  exact if_neg (not_lt.mpr f.payload_le)

theorem length_eq (f : LoggedFrame) :
    (UInt8.ofNat (f.payload.length >>> 8)).toNat <<< 8 |||
      (UInt8.ofNat (f.payload.length &&& 0xff)).toNat = f.payload.length := by
  have hle : f.payload.length ≤ 512 := f.payload_le
  have hhigh : f.payload.length >>> 8 < 256 := by
    omega
  have hlow : f.payload.length &&& 0xff = f.payload.length % 256 :=
    Nat.and_two_pow_sub_one_eq_mod _ 8
  have hmod : f.payload.length % 256 < 2 ^ 8 := Nat.mod_lt _ (by decide)
  rw [UInt8.toNat_ofNat_of_lt' hhigh, hlow, UInt8.toNat_ofNat_of_lt' hmod,
    ← Nat.shiftLeft_add_eq_or_of_lt hmod]
  omega

open MeshtasticDeframer MeshtasticFraming Deframer

theorem next_bytes (f : LoggedFrame) (rest : Bytes) :
    next (f.bytes ++ rest) = .frame f.payload rest := by
  have hstart : indexOfStart (f.framed ++ rest) = some 0 := by
    rw [f.framed_eq]
    rfl
  unfold bytes
  rw [append_assoc, next_log f.log_clear]
  unfold next
  rw [hstart]
  dsimp only
  rw [drop_zero, f.framed_eq]
  simp only [cons_append, header, f.length_eq]
  rw [if_neg (not_lt.mpr f.payload_le), if_neg (by rw [length_append]; omega),
    take_left, drop_left]

end LoggedFrame

namespace MeshtasticDeframer

theorem incremental : deframer.Incremental fun buffer => next buffer = .wait buffer :=
  lawful.incremental

/-- **Meshtastic frames come back** from between the log text, however the stream is cut. -/
theorem recovers (frames : List LoggedFrame) {log : Bytes} (h : MeshtasticFraming.start1 ∉ log) :
    deframer.Recovers (frames.flatMap LoggedFrame.bytes ++ log)
      (frames.map LoggedFrame.payload) := by
  have hnext := next_log h []
  rw [append_nil] at hnext
  exact incremental.recovers
    (lawful.drain_frames LoggedFrame.next_bytes (hnext.trans lawful.wait_nil) frames)

end MeshtasticDeframer

end Radio
end Conest
