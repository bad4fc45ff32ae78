import Conest.Beam.Decoder
import Conest.Lib.Machine

/-!
# What a complete decoder has

`addFrame` puts the package into the decoder and then compares its identifier with that of the
frames. Where the two differ it throws, and the package stays: from then on the decoder says that it
is complete, and takes no more frames. `completes_iff` says that nothing else goes wrong: a run in
which no frame ends in that comparison has a package only when it is the one that the frames name,
and a call that throws leaves the package as it was.
-/

namespace Conest
namespace Beam

open Lib List Option

/-! ### The decoder as a machine -/

def decoder (libs : Libraries) :
    Machine BeamDecoder BeamFrame (Outcome BeamError BeamDecodeProgress) :=
  ⟨fun d frame => d.addFrame libs frame⟩

namespace BeamDecoder

variable (libs : Libraries)

/-- A package is there only if the blocks read as it and it is the one that the frames name. -/
def Proper (d : BeamDecoder) : Prop :=
  ∀ package, d.package = some package → ∃ transfer, d.transfer = some transfer ∧
    BeamPackage.decode libs (assembled d.blocks transfer) = .ok package ∧
    libs.toLowerCase package.manifest.transferId = transfer.transferId

/-- Whatever is received, the decoder is proper at every point, and a call that throws leaves the
package alone. -/
structure Keeps (frames : List BeamFrame) : Prop where
  proper : ∀ before after, frames = before ++ after →
    ((decoder libs).run initial before).Proper libs
  thrown : ∀ before frame after e, frames = before ++ frame :: after →
    ((decoder libs).step ((decoder libs).run initial before) frame).2 = .error e →
    ((decoder libs).step ((decoder libs).run initial before) frame).1.package =
      ((decoder libs).run initial before).package

/-- The frame completes the blocks, and they read as a package that is not the one it names. -/
def Mismatched (d : BeamDecoder) (frame : BeamFrame) : Prop :=
  d.package = none ∧ (∀ transfer, d.transfer = some transfer → transfer = frame.transfer) ∧
    frame.seed ∉ d.seenSeeds ∧
    ∃ indices blocks package, indicesOf frame = .ok indices ∧
      (∀ index ∈ indices, index < frame.sourceBlockCount) ∧
      d.blocks.add ⟨indices, frame.payload⟩ = (blocks, .ok ()) ∧
      blocks.solved.size = frame.sourceBlockCount ∧
      BeamPackage.decode libs (assembled blocks frame.transfer) = .ok package ∧
      libs.toLowerCase package.manifest.transferId ≠ frame.transferId

variable {libs} {d : BeamDecoder} {frame : BeamFrame}

theorem finish_cases (libs : Libraries) (d : BeamDecoder) (transfer : Transfer) :
    (d.finish libs transfer).1 = d ∨
    ∃ package, d.blocks.solved.size = transfer.sourceBlockCount ∧
      BeamPackage.decode libs (assembled d.blocks transfer) = .ok package ∧
      (d.finish libs transfer).1 = { d with package := some package } ∧
      (libs.toLowerCase package.manifest.transferId = transfer.transferId ∧
          (∃ progress, (d.finish libs transfer).2 = .ok progress) ∨
        libs.toLowerCase package.manifest.transferId ≠ transfer.transferId ∧
          ∃ e, (d.finish libs transfer).2 = .error e) := by
  unfold finish
  split
  case isTrue hsize =>
    split
    · exact .inl rfl
    case h_2 package hdecode =>
      refine .inr ⟨package, hsize, hdecode, ?_⟩
      split
      case isTrue hne => exact ⟨rfl, .inr ⟨hne, _, rfl⟩⟩
      case isFalse heq => exact ⟨rfl, .inl ⟨not_not.mp heq, _, rfl⟩⟩
  case isFalse => exact .inl rfl

theorem finish_of_other {transfer : Transfer} {package : BeamPackage}
    (hsize : d.blocks.solved.size = transfer.sourceBlockCount)
    (hdecode : BeamPackage.decode libs (assembled d.blocks transfer) = .ok package)
    (hne : libs.toLowerCase package.manifest.transferId ≠ transfer.transferId) :
    d.finish libs transfer = ({ d with package := some package },
      .error (.format "Beam transfer identifier mismatch.")) := by
  unfold finish
  rw [if_pos hsize, hdecode]
  exact if_pos hne

theorem any_transfer_ne :
    (d.transfer.any fun transfer => decide (transfer ≠ frame.transfer)) = true ↔
      ¬ ∀ transfer, d.transfer = some transfer → transfer = frame.transfer := by
  cases htransfer : d.transfer with
  | none => simp
  | some transfer => simp

/-- **What a frame does.** It is refused, or ignored, or it adds to the blocks; and then there is a
package only if one is read off them. -/
theorem addFrame_cases (libs : Libraries) (d : BeamDecoder) (frame : BeamFrame) :
    (d.addFrame libs frame).1 = d ∨
    ((d.addFrame libs frame).1 = { d with transfer := some frame.transfer } ∧
      ∀ transfer, d.transfer = some transfer → transfer = frame.transfer) ∨
    (d.package = none ∧ (d.addFrame libs frame).1.package = none) ∨
    ∃ package, d.package = none ∧ (d.addFrame libs frame).1.package = some package ∧
      (d.addFrame libs frame).1.transfer = some frame.transfer ∧
      BeamPackage.decode libs (assembled (d.addFrame libs frame).1.blocks frame.transfer) =
        .ok package ∧
      (libs.toLowerCase package.manifest.transferId = frame.transferId ∧
          (∃ progress, (d.addFrame libs frame).2 = .ok progress) ∨
        Mismatched libs d frame ∧ ∃ e, (d.addFrame libs frame).2 = .error e) := by
  unfold addFrame
  split
  · exact .inl rfl
  case isFalse hsame =>
    have htransfer := not_not.mp (any_transfer_ne.not.mp hsame)
    dsimp only
    split
    · exact .inr (.inl ⟨rfl, htransfer⟩)
    case isFalse hopen =>
      right
      right
      obtain ⟨hpackage, hseed⟩ := not_or.mp hopen
      have hnone : d.package = none := by simpa using hpackage
      split
      · exact .inl ⟨hnone, hnone⟩
      · exact .inl ⟨hnone, hnone⟩
      case h_3 indices hindices =>
        split
        · exact .inl ⟨hnone, hnone⟩
        case isFalse hrange =>
          split
          · exact .inl ⟨hnone, hnone⟩
          · exact .inl ⟨hnone, hnone⟩
          case h_3 blocks hadd =>
            rcases finish_cases libs (⟨some frame.transfer, blocks, insert frame.seed d.seenSeeds,
              d.package⟩ : BeamDecoder) frame.transfer with
              hsame | ⟨package, hsize, hdecode, hfinish, hid⟩
            · left
              rw [hsame]
              exact ⟨hnone, hnone⟩
            · right
              rw [hfinish]
              refine ⟨package, hnone, rfl, rfl, hdecode, ?_⟩
              rcases hid with hid | ⟨hne, hthrows⟩
              · exact .inl hid
              refine .inr ⟨⟨hnone, htransfer, hseed, indices, blocks, package, hindices, ?_,
                hadd, hsize, hdecode, hne⟩, hthrows⟩
              intro index hmem
              by_contra hge
              exact hrange (any_eq_true.mpr
                ⟨index, hmem, decide_eq_true (Nat.not_lt.mp hge)⟩)

theorem Mismatched.addFrame (h : Mismatched libs d frame) :
    ∃ package e, (d.addFrame libs frame).2 = .error e ∧ d.package = none ∧
      (d.addFrame libs frame).1.package = some package := by
  obtain ⟨hnone, htransfer, hseed, indices, blocks, package, hindices, hrange, hadd, hsize, hdecode,
    hne⟩ := h
  have hopen : ¬ (d.package.isSome = true ∨ frame.seed ∈ d.seenSeeds) := by
    rw [hnone]
    exact not_or.mpr ⟨Bool.false_ne_true, hseed⟩
  have hvalid : ¬ (indices.any fun index => decide (frame.sourceBlockCount ≤ index)) = true := by
    rw [List.any_eq_true]
    rintro ⟨index, hmem, hge⟩
    exact Nat.not_lt.mpr (of_decide_eq_true hge) (hrange index hmem)
  unfold BeamDecoder.addFrame
  rw [if_neg (any_transfer_ne.not.mpr (not_not.mpr htransfer))]
  rw [if_neg hopen, hindices]
  dsimp only
  rw [if_neg hvalid, hadd]
  dsimp only
  rw [finish_of_other hsize hdecode hne]
  exact ⟨package, _, rfl, hnone, rfl⟩

theorem proper_initial : initial.Proper libs := fun _ h => nomatch h

theorem Proper.addFrame (h : d.Proper libs) (hmatched : ¬ Mismatched libs d frame) :
    (d.addFrame libs frame).1.Proper libs := by
  rcases addFrame_cases libs d frame with hsame | ⟨hsame, htransfer⟩ | ⟨-, hnone⟩ | hread
  · rw [hsame]
    exact h
  · rw [hsame]
    intro package hpackage
    obtain ⟨transfer, hsome, hdecode, hid⟩ := h package hpackage
    obtain rfl := htransfer transfer hsome
    exact ⟨_, rfl, hdecode, hid⟩
  · intro package hpackage
    rw [hnone] at hpackage
    cases hpackage
  · obtain ⟨package, -, hsome, htransfer, hdecode, ⟨hid, -⟩ | ⟨hmismatched, -⟩⟩ := hread
    · intro other hother
      obtain rfl : package = other := some.inj (hsome.symm.trans hother)
      exact ⟨frame.transfer, htransfer, hdecode, hid⟩
    · exact absurd hmismatched hmatched

theorem package_of_thrown (hmatched : ¬ Mismatched libs d frame) {e : BeamError}
    (hthrows : (d.addFrame libs frame).2 = .error e) :
    (d.addFrame libs frame).1.package = d.package := by
  rcases addFrame_cases libs d frame with hsame | ⟨hsame, -⟩ | ⟨hbefore, hafter⟩ | hread
  · rw [hsame]
  · rw [hsame]
  · rw [hbefore, hafter]
  obtain ⟨package, -, -, -, -, ⟨-, progress, hok⟩ | ⟨hmismatched, -⟩⟩ := hread
  · rw [hthrows] at hok
    cases hok
  · exact absurd hmismatched hmatched

/-- **The decoder keeps its word** along a run exactly if no frame of it completes the blocks to a
package that is not the one it names. -/
theorem completes_iff (libs : Libraries) (frames : List BeamFrame) :
    Keeps libs frames ↔
      (decoder libs).Along (fun d frame => ¬ Mismatched libs d frame) initial frames := by
  have hsplit : ∀ before after, frames = before ++ after →
      ((decoder libs).Along (fun d frame => ¬ Mismatched libs d frame) initial frames ↔
        (decoder libs).Along (fun d frame => ¬ Mismatched libs d frame) initial before ∧
        (decoder libs).Along (fun d frame => ¬ Mismatched libs d frame)
          ((decoder libs).run initial before) after) := by
    rintro before after rfl
    exact (decoder libs).along_append _ _ _ _
  constructor
  · intro h
    -- every frame of the run, at the state that the frames before it leave
    have hall : ∀ before after, frames = before ++ after →
        (decoder libs).Along (fun d frame => ¬ Mismatched libs d frame)
          ((decoder libs).run initial before) after := by
      intro before after hframes
      induction after generalizing before with
      | nil => trivial
      | cons frame after ih =>
      refine ⟨fun hmismatched => ?_, ?_⟩
      · obtain ⟨package, e, hthrows, hnone, hsome⟩ := hmismatched.addFrame
        have hkept := h.thrown before frame after e hframes hthrows
        rw [hnone] at hkept
        exact some_ne_none package (hsome.symm.trans hkept)
      · have hnext := ih (before ++ [frame]) (by rw [hframes, append_assoc,
          singleton_append])
        rw [Machine.run_append] at hnext
        exact hnext
    exact hall [] frames rfl
  · intro h
    refine ⟨fun before after hframes => ?_, fun before frame after e hframes hthrows => ?_⟩
    · exact Machine.run_induction_along (fun d frame hd hmatched => hd.addFrame hmatched)
        proper_initial ((hsplit before after hframes).mp h).1
    · exact package_of_thrown ((hsplit before _ hframes).mp h).2.1 hthrows

end BeamDecoder

namespace Sample

def members : List (DartString × Value) :=
  [(.ofString "version", .number (some 1)),
    (.ofString "transferId", .string (.ofString "ffeeddccbbaa99887766554433221100")),
    (.ofString "mode", .string (.ofString "public")),
    (.ofString "fileName", .string (.ofString "a")),
    (.ofString "mimeType", .string (.ofString "b")),
    (.ofString "sizeBytes", .number (some 0)),
    (.ofString "sha256Base64", .string (.ofString "47DEQpj8HBSa+/TImW+5JCeuQeRkm5NMpJWZG3hSuFU=")),
    (.ofString "createdAt", .string (.ofString "1970-01-01T00:00:00.000Z"))]

def manifestText : Bytes :=
  ("\x7b\"version\":1,\"transferId\":\"ffeeddccbbaa99887766554433221100\",\"mode\":\"public\"," ++
    "\"fileName\":\"a\",\"mimeType\":\"b\",\"sizeBytes\":0," ++
    "\"sha256Base64\":\"47DEQpj8HBSa+/TImW+5JCeuQeRkm5NMpJWZG3hSuFU=\"," ++
    "\"createdAt\":\"1970-01-01T00:00:00.000Z\"\x7d").toList.map fun c => UInt8.ofNat c.toNat

def emptyHash : Bytes :=
  [0xe3, 0xb0, 0xc4, 0x42, 0x98, 0xfc, 0x1c, 0x14, 0x9a, 0xfb, 0xf4, 0xc8,
    0x99, 0x6f, 0xb9, 0x24, 0x27, 0xae, 0x41, 0xe4,
    0x64, 0x9b, 0x93, 0x4c, 0xa4, 0x95, 0x99, 0x1b, 0x78, 0x52, 0xb8, 0x55]

def libraries : Libraries where
  jsonDecode bytes :=
    if bytes = manifestText then some (some fun key => (members.lookup key).getD .null) else none
  sha256 _ := emptyHash
  parseTime _ := some 0
  toLowerCase s := s.map fun u =>
    if 65 ≤ u.val ∧ u.val ≤ 90 then Fin.ofNat 65536 (u.val + 32) else u

def frame : BeamFrame where
  mode := .publicMode
  transferIdBytes := [0x00, 0x11, 0x22, 0x33, 0x44, 0x55, 0x66, 0x77, 0x88, 0x99, 0xaa, 0xbb, 0xcc,
    0xdd, 0xee, 0xff]
  originalLength := 4 + manifestText.length
  blockSize := 4 + manifestText.length
  sourceBlockCount := 1
  seed := 0
  degree := 1
  systematic := true
  payload := bigEndian 4 manifestText.length ++ manifestText

-- the text is evaluated once for its length, and once for the call
theorem length_manifestText : manifestText.length = 222 := by decide +kernel

theorem decodable_frame : frame.Decodable where
  id := rfl
  original := by
    unfold frame
    rw [length_manifestText]
    decide
  block := by
    unfold frame
    rw [length_manifestText]
    decide
  count := by
    unfold frame
    rw [length_manifestText]
    decide
  seed := by decide
  degree := by decide
  payload := by
    unfold frame
    rw [length_append, bigEndian_length, length_manifestText]
  systematic _ := by decide

/-- **The other package stays**: the call throws, and the decoder is complete. -/
theorem other_package_kept : frame.Decodable ∧ ¬ BeamDecoder.Keeps libraries [frame] := by
  refine ⟨decodable_frame, fun h => ?_⟩
  obtain ⟨hthrows, hcomplete⟩ : ((decoder libraries).step ((decoder libraries).run
      BeamDecoder.initial []) frame).2 = .error (.format "Beam transfer identifier mismatch.") ∧
      ((decoder libraries).step ((decoder libraries).run BeamDecoder.initial []) frame).1.package ≠
        ((decoder libraries).run BeamDecoder.initial []).package := by
    decide +kernel
  exact hcomplete (h.thrown [] frame [] _ rfl hthrows)

end Sample

end Beam
end Conest
