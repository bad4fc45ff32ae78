import Conest.Radio.Framing
import Conest.Radio.MeshCore
import Conest.Radio.Meshtastic

/-!
# The radio stream deframers

The four deframers side by side: each gives back the frames that were written, however the stream
is cut, and gives the same frames for a stream however it is cut, whatever the stream is.
-/

open Lib

namespace Conest
namespace Radio

/-- **Radio stream deframers.** HDLC and KISS frames follow one another; between Meshtastic frames
there may be log text, and between MeshCore frames other bytes. -/
structure DeframersRecover : Prop where
  hdlc : ∀ maxFrame (payloads : List Bytes), (∀ p ∈ payloads, p ≠ [] ∧ p.length ≤ maxFrame) →
    (HdlcDeframer.deframer maxFrame).Recovers (payloads.flatMap HdlcFraming.frame) payloads
  kiss : ∀ maxFrame (payloads : List (UInt8 × Bytes)),
    (∀ p ∈ payloads, p.1 ≠ KissFraming.fend ∧ p.2.length ≤ maxFrame) →
      (KissDeframer.deframer maxFrame).Recovers
        (payloads.flatMap fun p => KissFraming.frame p.1 p.2) payloads
  /-- A `LoggedFrame` is log text without a start byte and a payload within the limit. -/
  meshtastic : ∀ (frames : List LoggedFrame) (log : Bytes), MeshtasticFraming.start1 ∉ log →
    (∀ f ∈ frames, MeshtasticFraming.frame f.payload = .ok f.framed) ∧
      MeshtasticDeframer.deframer.Recovers
        ((frames.flatMap fun f => f.log ++ f.framed) ++ log) (frames.map LoggedFrame.payload)
  /-- A `NoisyFrame` is bytes without the marker and a payload that is not empty, within the
  limit. -/
  meshCore : ∀ (frames : List NoisyFrame) (noise : Bytes), MeshCoreFraming.fromRadio ∉ noise →
    MeshCoreDeframer.deframer.Recovers
      ((frames.flatMap fun f => f.noise ++ MeshCoreFraming.radioFrame f.payload) ++ noise)
      (frames.map NoisyFrame.payload)
  hdlc_cutFree : ∀ maxFrame, (HdlcDeframer.deframer maxFrame).CutFree
  kiss_cutFree : ∀ maxFrame, (KissDeframer.deframer maxFrame).CutFree
  meshtastic_cutFree : MeshtasticDeframer.deframer.CutFree
  meshCore_cutFree : MeshCoreDeframer.deframer.CutFree

theorem deframers_recover : DeframersRecover where
  hdlc := fun _ _ h => HdlcDeframer.recovers h
  kiss := fun _ _ h => KissDeframer.recovers h
  meshtastic := fun frames _ h => ⟨fun f _ => f.frame_eq, MeshtasticDeframer.recovers frames h⟩
  meshCore := fun frames _ h => MeshCoreDeframer.recovers frames h
  hdlc_cutFree := fun maxFrame => (HdlcDeframer.incremental maxFrame).cutFree
  kiss_cutFree := fun maxFrame => (KissDeframer.incremental maxFrame).cutFree
  meshtastic_cutFree := MeshtasticDeframer.incremental.cutFree
  meshCore_cutFree := MeshCoreDeframer.incremental.cutFree

/-- A start marker that begins no frame, cut in two: the frame behind it comes back. -/
example : MeshtasticDeframer.deframer.feed [] [[0x94], [0xc3, 0xff, 0x94], [0xc3, 0, 1, 7]] =
    ([[7]], []) := by decide

end Radio
end Conest
