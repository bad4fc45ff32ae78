import Conest.Lib.Deframer

/-!
# MeshCore's companion framing

A marker byte, a little-endian length and the payload. The app writes frames under one marker
(`MeshCoreFraming.frame`) and reads frames under another, which the radio writes (`radioFrame`).
A length that is zero or too large makes the deframer take the marker for noise and look on.

A round that finds no marker drops the whole buffer, and one that finds it keeps everything from
it on, so that a later byte can change neither.
-/

open Lib
open List hiding next

namespace Conest
namespace Radio

namespace MeshCoreFraming

def toRadio : UInt8 := 0x3c
def fromRadio : UInt8 := 0x3e
def maxFrame : ℕ := 176

/-- Marker, length and payload. -/
def marked (marker : UInt8) (payload : Bytes) : Bytes :=
  marker :: UInt8.ofNat (payload.length &&& 0xff) :: UInt8.ofNat (payload.length >>> 8) :: payload

/-- `MeshCoreFraming.frame`. -/
def frame (payload : Bytes) : Except String Bytes :=
  if payload = [] ∨ maxFrame < payload.length then .error "MeshCore frame size is out of range."
  else .ok (marked toRadio payload)

/-- The frame of a payload as the radio writes it. -/
def radioFrame (payload : Bytes) : Bytes := marked fromRadio payload

end MeshCoreFraming

namespace MeshCoreDeframer

open MeshCoreFraming Deframer

variable {b r f : Bytes}

/-- `_buffer.indexOf(MeshCoreFraming.fromRadio)`. -/
def indexOfMarker : Bytes → Option ℕ
  | [] => none
  | a :: rest => if a = fromRadio then some 0 else (indexOfMarker rest).map (· + 1)

/-- A round of `MeshCoreDeframer.add` on a buffer that begins with the marker. -/
def header : Bytes → Progress Bytes
  | a :: low :: high :: rest =>
    let length := low.toNat ||| high.toNat <<< 8
    if length = 0 ∨ maxFrame < length then .skip (low :: high :: rest)
    else if rest.length < length then .wait (a :: low :: high :: rest)
    else .frame (rest.take length) (rest.drop length)
  | short => .wait short

/-- A round of the loop of `MeshCoreDeframer.add`. -/
def next (buffer : Bytes) : Progress Bytes :=
  match indexOfMarker buffer with
  | none => .wait []
  | some start => header (buffer.drop start)

/-- `MeshCoreDeframer`. -/
def deframer : Deframer Bytes Bytes := Deframer.ofNext next

/-! ### What a round decides -/

theorem headed : Headed header := by
  intro b c
  rcases b with _ | ⟨a, _ | ⟨low, _ | ⟨high, rest⟩⟩⟩
  · rfl
  · rfl
  · rfl
  · exact stable_sized (Nat.lt_succ_self _) (by simp only [length_cons]; omega) (fun _ => rfl) c

theorem next_cons {a : UInt8} (h : a ≠ fromRadio) (rest : Bytes) : next (a :: rest) = next rest := by
  unfold next
  rw [indexOfMarker, if_neg h]
  cases indexOfMarker rest with
  | none => rfl
  | some i => rfl

theorem next_marker (rest : Bytes) : next (fromRadio :: rest) = header (fromRadio :: rest) := by
  unfold next
  rfl

theorem next_noise {noise : Bytes} (h : fromRadio ∉ noise) (rest : Bytes) :
    next (noise ++ rest) = next rest := by
  induction noise with
  | nil => rfl
  | cons a noise ih =>
    rw [mem_cons, not_or] at h
    rw [cons_append, next_cons (Ne.symm h.1), ih h.2]

theorem noise_or_marker (b : Bytes) :
    fromRadio ∉ b ∨ ∃ noise rest, fromRadio ∉ noise ∧ b = noise ++ fromRadio :: rest := by
  by_cases h : fromRadio ∈ b
  · obtain ⟨noise, rest, heq, hnoise⟩ := eq_append_cons_of_mem h
    exact .inr ⟨noise, rest, hnoise, heq⟩
  · exact .inl h

/-- **One round**: it drops noise, and from the marker on it reads the header. -/
theorem lawful : Lawful next := by
  refine .of_scan headed rfl fun b => ?_
  rcases noise_or_marker b with hnoise | ⟨noise, rest, hnoise, rfl⟩
  · have hempty := next_noise hnoise []
    rw [append_nil] at hempty
    exact .inl ⟨[], hempty, next_noise hnoise⟩
  refine .inr ⟨noise, fromRadio :: rest, rfl, ?_, fun c => ?_⟩
  · rw [next_noise hnoise, next_marker]
  · have hmarker : next (fromRadio :: rest ++ c) = header (fromRadio :: rest ++ c) :=
      next_marker (rest ++ c)
    rw [append_assoc, next_noise hnoise]
    exact ⟨hmarker, hmarker⟩

end MeshCoreDeframer

/-! ### Frames between other bytes -/

/-- What the radio sends up to the end of one frame: bytes without the marker, and the frame of a
payload in range. -/
structure NoisyFrame where
  noise : Bytes
  payload : Bytes
  noise_clear : MeshCoreFraming.fromRadio ∉ noise
  payload_ne : payload ≠ []
  payload_le : payload.length ≤ MeshCoreFraming.maxFrame

namespace NoisyFrame

open MeshCoreDeframer MeshCoreFraming Deframer

/-- The bytes up to the end of the frame. -/
def bytes (f : NoisyFrame) : Bytes := f.noise ++ radioFrame f.payload

theorem length_eq (f : NoisyFrame) :
    (UInt8.ofNat (f.payload.length &&& 0xff)).toNat |||
      (UInt8.ofNat (f.payload.length >>> 8)).toNat <<< 8 = f.payload.length := by
  have hle : f.payload.length ≤ 176 := f.payload_le
  have hhigh : f.payload.length >>> 8 = 0 := by
    rw [Nat.shiftRight_eq_div_pow]
    exact Nat.div_eq_of_lt (by omega)
  have hlow : f.payload.length &&& 0xff = f.payload.length := by
    rw [show (0xff : ℕ) = 2 ^ 8 - 1 from rfl, Nat.and_two_pow_sub_one_eq_mod]
    exact Nat.mod_eq_of_lt (by omega)
  rw [hlow, hhigh, UInt8.toNat_ofNat_of_lt' (show f.payload.length < 2 ^ 8 by omega)]
  exact Nat.or_zero _

/-- **One frame**: the bytes before it are passed over, and the payload taken. -/
theorem next_bytes (f : NoisyFrame) (rest : Bytes) :
    next (f.bytes ++ rest) = .frame f.payload rest := by
  have hpos : 0 < f.payload.length := length_pos_iff.mpr f.payload_ne
  have hrange : ¬ (f.payload.length = 0 ∨ maxFrame < f.payload.length) :=
    not_or.mpr ⟨hpos.ne', not_lt.mpr f.payload_le⟩
  unfold bytes radioFrame marked
  rw [append_assoc, next_noise f.noise_clear, cons_append, next_marker]
  simp only [cons_append, header, f.length_eq]
  rw [if_neg hrange, if_neg (by rw [length_append]; omega), take_left, drop_left]

end NoisyFrame

namespace MeshCoreDeframer

theorem incremental : deframer.Incremental fun buffer => next buffer = .wait buffer :=
  lawful.incremental

/-- **MeshCore frames come back** from between other bytes, however the stream is cut. -/
theorem recovers (frames : List NoisyFrame) {noise : Bytes}
    (h : MeshCoreFraming.fromRadio ∉ noise) :
    deframer.Recovers (frames.flatMap NoisyFrame.bytes ++ noise)
      (frames.map NoisyFrame.payload) := by
  have hnext := next_noise h []
  rw [append_nil] at hnext
  exact incremental.recovers (lawful.drain_frames NoisyFrame.next_bytes hnext frames)

end MeshCoreDeframer

end Radio
end Conest
