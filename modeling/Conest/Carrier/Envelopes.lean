import Conest.Carrier.Reassembler

/-!
# Envelopes and their frames

An `Envelope` is what a sender hands to one of the two framings. `read_frames` says that every frame
of an envelope reads back as its part, in either form, and `flatMap_chunk` that the chunks put
together are the sealed bytes. The rest of the development speaks of parts only.
-/

namespace Conest
namespace Carrier

open Lib List Option

/-! ### Splitting -/

namespace CarrierFraming

variable (framing : CarrierFraming)

theorem chunk_eq (sealed : Bytes) (index : ℕ) :
    framing.chunk sealed index =
      (sealed.drop (index * framing.chunkBytes)).take framing.chunkBytes := by
  unfold chunk
  have hlength : (sealed.drop (index * framing.chunkBytes)).length =
      sealed.length - index * framing.chunkBytes := length_drop
  have hnext : (index + 1) * framing.chunkBytes = index * framing.chunkBytes + framing.chunkBytes :=
    Nat.succ_mul index framing.chunkBytes
  rw [hnext]
  rcases Nat.le_total (index * framing.chunkBytes + framing.chunkBytes) sealed.length with hle | hle
  · rw [Nat.min_eq_left hle, Nat.add_sub_cancel_left]
  · rw [Nat.min_eq_right hle, ← hlength, take_length, take_of_length_le]
    omega

theorem flatMap_range_chunk (sealed : Bytes) (count : ℕ) :
    (range count).flatMap (framing.chunk sealed) =
      sealed.take (count * framing.chunkBytes) := by
  induction count with
  | zero => simp
  | succ count ih =>
    rw [range_succ, flatMap_append, ih, flatMap_singleton, chunk_eq, ← take_add]
    congr 1
    exact (Nat.succ_mul count framing.chunkBytes).symm

theorem length_le_frameCount_mul (length : ℕ) :
    length ≤ framing.frameCount length * framing.chunkBytes := by
  have hpos := framing.chunkBytes_pos
  have hdiv := Nat.div_add_mod (length + framing.chunkBytes - 1) framing.chunkBytes
  have hmod := Nat.mod_lt (length + framing.chunkBytes - 1) hpos
  unfold frameCount
  rw [Nat.mul_comm]
  omega

theorem flatMap_chunk (sealed : Bytes) :
    (range (framing.frameCount sealed.length)).flatMap (framing.chunk sealed) = sealed := by
  rw [flatMap_range_chunk]
  exact take_of_length_le (framing.length_le_frameCount_mul sealed.length)

theorem chunk_ne_nil {sealed : Bytes} {index : ℕ}
    (hindex : index < framing.frameCount sealed.length) : framing.chunk sealed index ≠ [] := by
  have hpos := framing.chunkBytes_pos
  have hoffset : index * framing.chunkBytes < sealed.length := by
    have hmul := (Nat.le_div_iff_mul_le hpos).mp (Nat.succ_le_of_lt hindex)
    have hnext : index.succ * framing.chunkBytes = index * framing.chunkBytes + framing.chunkBytes :=
      Nat.succ_mul index framing.chunkBytes
    omega
  rw [chunk_eq, ← length_pos_iff, length_take, length_drop]
  omega

theorem chunk_length_le (sealed : Bytes) (index : ℕ) :
    (framing.chunk sealed index).length ≤ framing.chunkBytes := by
  rw [chunk_eq]
  exact length_take_le _ _

theorem frameCount_le_maxFrames {length : ℕ} (h : length ≤ framing.maxSealedBytes) :
    framing.frameCount length ≤ framing.maxFrames := by
  exact Nat.div_le_div_right (by omega)

theorem one_le_frameCount {length : ℕ} (h : 0 < length) : 1 ≤ framing.frameCount length := by
  exact (Nat.le_div_iff_mul_le framing.chunkBytes_pos).mpr (by omega)

end CarrierFraming

/-! ### Envelopes -/

/-- How an envelope is framed, with the id that its frames carry. -/
inductive Form where
  | json (id : DartString)
  | binary (id : Fin 8 → UInt8)
deriving DecidableEq

/-- A sealed envelope of a sender. -/
structure Envelope where
  sender : DartString
  form : Form
  sealed : Bytes
deriving DecidableEq

namespace Envelope

variable (framing : CarrierFraming) (e : Envelope)

/-- The id under which the frames are collected. -/
def id : DartString :=
  match e.form with
  | .json id => id
  | .binary id => DartString.base64Encode (List.ofFn id)

/-- The frames, as the two framings make them. -/
def frames : Except String (List Frame) :=
  match e.form with
  | .json id => (carrierJsonFrames framing id e.sealed).map (List.map .json)
  | .binary id =>
    (carrierBinaryFrames framing e.sealed fun n => if h : n < 8 then id ⟨n, h⟩ else 0).map
      (List.map .binary)

/-- The frame of an index. -/
def frameAt (index : ℕ) : Option Frame := (e.frames framing).toOption.bind fun frames => frames[index]?

def count : ℕ := framing.frameCount e.sealed.length

/-- Whether an envelope is within the limits: those of its framing, 255 frames, and for JSON frames
an id of 1 to 128 code units. -/
def Fits : Prop :=
  e.sealed ≠ [] ∧ e.sealed.length ≤ framing.maxSealedBytes ∧ e.count framing ≤ 255 ∧
    match e.form with
    | .json id => id ≠ [] ∧ id.length ≤ 128
    | .binary _ => True

instance : Decidable (e.Fits framing) :=
  match h : e.form with
  | .json id => decidable_of_iff (e.sealed ≠ [] ∧ e.sealed.length ≤ framing.maxSealedBytes ∧
      e.count framing ≤ 255 ∧ id ≠ [] ∧ id.length ≤ 128) (by rw [Fits, h])
  | .binary _ => decidable_of_iff (e.sealed ≠ [] ∧ e.sealed.length ≤ framing.maxSealedBytes ∧
      e.count framing ≤ 255) (by rw [Fits, h]; simp)

/-- The part of one frame. -/
def part (index : ℕ) : Part := ⟨e.id, index, e.count framing, framing.chunk e.sealed index⟩

variable {framing e}

theorem readJson_frame {id : DartString} (hid : id ≠ [] ∧ id.length ≤ 128) (index count : ℕ)
    (chunk : Bytes) :
    readJson [(field "v", .int 1), (field "id", .str id), (field "i", .int index),
      (field "n", .int count), (field "d", .str (DartString.base64Encode chunk))] =
      some ⟨id, index, count, chunk⟩ := by
  -- the five names are different, so each lookup finds its own entry
  have hbytes : (chunk.map UInt8.toNat).map UInt8.ofNat = chunk := by
    rw [List.map_map]
    exact map_id'' (fun byte => UInt8.ofNat_toNat) chunk
  show (if id.isEmpty ∨ 128 < id.length then none else
    (DartString.base64Decode (DartString.base64Encode chunk)).map fun bytes =>
      (⟨id, index, count, bytes.map UInt8.ofNat⟩ : Part)) = _
  have hok : ¬ (id.isEmpty ∨ 128 < id.length) := by
    rw [List.isEmpty_iff]
    rintro (hempty | hlong)
    · exact hid.1 hempty
    · exact absurd hid.2 (Nat.not_le.mpr hlong)
  rw [if_neg hok, DartString.base64Decode_base64Encode, map_some, hbytes]

theorem readBinary_frame (id : List UInt8) (hid : id.length = 8) {index count : ℕ}
    (hindex : index < 256) (hcount : count < 256) {chunk : Bytes} (hchunk : chunk ≠ []) :
    readBinary (carrierBinaryFrameVersion :: (id ++ UInt8.ofNat index :: UInt8.ofNat count :: chunk)) =
      some ⟨DartString.base64Encode id, index, count, chunk⟩ := by
  obtain ⟨a, b, c, d, e, f, g, h, rfl⟩ : ∃ a b c d e f g h : UInt8, id = [a, b, c, d, e, f, g, h] := by
    match id, hid with
    | [a, b, c, d, e, f, g, h], _ => exact ⟨a, b, c, d, e, f, g, h, rfl⟩
  have hlength : ¬ ((carrierBinaryFrameVersion :: ([a, b, c, d, e, f, g, h] ++ UInt8.ofNat index ::
      UInt8.ofNat count :: chunk)).length ≤ carrierBinaryFrameHeaderBytes ∨
      (carrierBinaryFrameVersion :: ([a, b, c, d, e, f, g, h] ++ UInt8.ofNat index ::
        UInt8.ofNat count :: chunk))[0]? ≠ some carrierBinaryFrameVersion) := by
    have hpos := length_pos_iff.mpr hchunk
    simp only [cons_append, nil_append, length_cons, carrierBinaryFrameHeaderBytes,
      getElem?_cons_zero, ne_eq, not_true_eq_false, or_false]
    omega
  unfold readBinary
  rw [if_neg hlength]
  show some (⟨DartString.base64Encode [a, b, c, d, e, f, g, h], ((UInt8.ofNat index).toNat : ℤ),
    ((UInt8.ofNat count).toNat : ℤ), chunk⟩ : Part) = _
  rw [UInt8.toNat_ofNat_of_lt' hindex, UInt8.toNat_ofNat_of_lt' hcount]

theorem read_frames (hfits : e.Fits framing) :
    ∃ frames, e.frames framing = .ok frames ∧ frames.length = e.count framing ∧
      ∀ index frame, frames[index]? = some frame → frame.read = some (e.part framing index) := by
  obtain ⟨hne, hmax, hcount, hform⟩ := hfits
  have hcheck : framing.checkSealed e.sealed = .ok () := by
    unfold CarrierFraming.checkSealed
    rw [if_neg]
    rw [List.isEmpty_iff]
    rintro (hempty | hlong)
    · exact hne hempty
    · omega
  obtain ⟨sender, form, sealed⟩ := e
  cases form with
  | json id =>
    have hframes : (Envelope.mk sender (.json id) sealed).frames framing =
        .ok (((List.range (framing.frameCount sealed.length)).map fun (index : ℕ) =>
          [(field "v", .int 1), (field "id", .str id), (field "i", .int index),
            (field "n", .int (framing.frameCount sealed.length)),
            (field "d", .str (DartString.base64Encode (framing.chunk sealed index)))]).map
              .json) := by
      show (carrierJsonFrames framing id sealed).map _ = _
      unfold carrierJsonFrames
      rw [hcheck]
      rfl
    refine ⟨_, hframes, ?_, fun index frame hframe => ?_⟩
    · rw [List.length_map, List.length_map, List.length_range]
      rfl
    rw [List.getElem?_map, List.getElem?_map] at hframe
    obtain ⟨content, hcontent, rfl⟩ := Option.map_eq_some_iff.mp hframe
    obtain ⟨i, hi, rfl⟩ := Option.map_eq_some_iff.mp hcontent
    obtain ⟨hlt, rfl⟩ := List.getElem?_eq_some_iff.mp hi
    rw [List.getElem_range]
    exact readJson_frame hform index _ _
  | binary id =>
    have hsmall : ¬ 255 < framing.frameCount sealed.length := Nat.not_lt.mpr hcount
    have hid : (List.range 8).map (fun n => if h : n < 8 then id ⟨n, h⟩ else 0) = List.ofFn id := by
      simp [List.range_succ, List.ofFn_succ]
    have hframes : (Envelope.mk sender (.binary id) sealed).frames framing =
        .ok (((List.range (framing.frameCount sealed.length)).map fun (index : ℕ) =>
          carrierBinaryFrameVersion :: (List.ofFn id ++ UInt8.ofNat index ::
            UInt8.ofNat (framing.frameCount sealed.length) :: framing.chunk sealed index)).map
              .binary) := by
      show (carrierBinaryFrames framing sealed _).map _ = _
      unfold carrierBinaryFrames
      rw [hcheck]
      show Except.map _ (do
        if 255 < framing.frameCount sealed.length then
          throw "A binary carrier envelope has at most 255 frames."
        return _ : Except String (List Bytes)) = _
      rw [if_neg hsmall]
      rfl
    refine ⟨_, hframes, ?_, fun index frame hframe => ?_⟩
    · rw [List.length_map, List.length_map, List.length_range]
      rfl
    rw [List.getElem?_map, List.getElem?_map] at hframe
    obtain ⟨bytes, hbytes, rfl⟩ := Option.map_eq_some_iff.mp hframe
    obtain ⟨i, hi, rfl⟩ := Option.map_eq_some_iff.mp hbytes
    obtain ⟨hlt, rfl⟩ := List.getElem?_eq_some_iff.mp hi
    rw [List.getElem_range]
    rw [List.length_range] at hlt
    exact readBinary_frame _ List.length_ofFn (by omega) (by omega) (framing.chunk_ne_nil hlt)

theorem read_frameAt (hfits : e.Fits framing) {index : ℕ} {frame : Frame}
    (hframe : e.frameAt framing index = some frame) : frame.read = some (e.part framing index) := by
  obtain ⟨frames, hframes, -, hread⟩ := read_frames hfits
  unfold frameAt at hframe
  rw [hframes] at hframe
  exact hread index frame hframe

end Envelope

end Carrier
end Conest
