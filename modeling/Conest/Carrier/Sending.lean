import Conest.Carrier.Reassembler

/-!
# Sending an envelope frame by frame

`CarrierTransportAdapter` seals an envelope, cuts it into frames and hands them to its channel one
after another. Over a channel that confirms frames, a send enters every frame it has sent among the
unconfirmed ones, and an acknowledgement takes the frame out again; when all frames are out and none
waits, the adapter emits a receipt.

Sends run side by side, and each may be interrupted where the source awaits: while it seals, between
two frames, and while a frame goes out. `adapter` is that system. An act completes one await, or is
a call on the adapter, or an acknowledgement. `sent` is what the network has seen, and is there to
say what a receipt means: the frames that went out with an id, and which of them are confirmed. One
acknowledgement confirms one frame.
-/

namespace Conest
namespace Carrier

open Lib

/-- `_RadioEnvelope`: one envelope going out on a channel that confirms frames. -/
structure RadioEnvelope where
  envelopeId : DartString
  deviceId : DartString
  waiting : Finset ℤ
  tracked : Bool
  allSent : Bool
  refused : Bool
  reported : Bool

/-- `_RadioEnvelope(envelopeId, deviceId)`. -/
def RadioEnvelope.initial (envelopeId deviceId : DartString) : RadioEnvelope where
  envelopeId := envelopeId
  deviceId := deviceId
  waiting := ∅
  tracked := false
  allSent := false
  refused := false
  reported := false

/-- Where a call of `sendEnvelope` is: it awaits the seal, the pause before a frame, or the channel
that sends a frame under an id, or it has ended. -/
inductive SendStage where
  | sealing
  | spacing (index : ℕ)
  | transmitting (index : ℕ) (frameId : ℤ)
  | ended (result : Except String Unit)

/-- A call of `sendEnvelope`. `acknowledging` is whether the channel it took confirms frames. -/
structure Send where
  acknowledging : Bool
  generation : ℕ
  startedAt : ℕ
  frames : List Bytes
  pending : RadioEnvelope
  stage : SendStage

/-- A frame that went out under an id: the call it belongs to, its index there, and whether it is
confirmed. -/
structure SentFrame where
  send : ℕ
  index : ℕ
  frameId : ℤ
  confirmed : Bool
deriving DecidableEq, Repr

/-- One acknowledgement confirms one frame: the first with this id that is not confirmed. -/
def confirm (frameId : ℤ) : List SentFrame → List SentFrame
  | [] => []
  | f :: sent =>
    if f.frameId = frameId ∧ f.confirmed = false then { f with confirmed := true } :: sent
    else f :: confirm frameId sent

/-- The ids of the frames that are not confirmed. -/
def unconfirmedIds (sent : List SentFrame) : List ℤ :=
  (sent.filter fun f => !f.confirmed).map SentFrame.frameId

/-- A channel, by whether it confirms frames (`AcknowledgingCarrierChannel`). -/
structure CarrierChannel where
  acknowledging : Bool
deriving DecidableEq, Repr

/-- `CarrierDeliveryReceipt`, with the call it is for. -/
structure CarrierDeliveryReceipt where
  send : ℕ
  envelopeId : DartString
  deviceId : DartString
deriving DecidableEq

/-- What the adapter is built with. -/
structure AdapterConfig where
  label : String
  framing : CarrierFraming
  frameSpacing : ℕ
  isValidAddress : DartString → Bool

/-- The adapter and its calls, and what the network has seen. `unconfirmedFrames` has the number of
the call in place of its `_RadioEnvelope`. -/
structure CarrierTransportAdapter where
  channel : Option CarrierChannel
  started : Bool
  generation : ℕ
  unconfirmedFrames : LinkedMap ℤ ℕ
  cancelled : LinkedMap DartString ℕ
  sends : List Send
  sent : List SentFrame

/-- `_maxUnconfirmedFrames`. -/
def maxUnconfirmedFrames : ℕ := 512

/-- `_maxCancelled`. -/
def maxCancelled : ℕ := 256

/-- `carrierSendId`. -/
def carrierSendId (deviceId envelopeId : DartString) : DartString := deviceId ++ bar ++ envelopeId

/-- `while (m.length > max) m.remove(m.keys.first)`. -/
def dropOldest {K V : Type} (m : LinkedMap K V) (max : ℕ) : LinkedMap K V where
  entries := m.entries.drop (m.size - max)
  nodup := by
    rw [List.map_drop]
    exact m.nodup.sublist (List.drop_sublist _ _)

namespace CarrierTransportAdapter

def initial : CarrierTransportAdapter where
  channel := none
  started := false
  generation := 0
  unconfirmedFrames := LinkedMap.empty
  cancelled := LinkedMap.empty
  sends := []
  sent := []

variable (config : AdapterConfig) (a : CarrierTransportAdapter)

def setSend (i : ℕ) (s : Send) : CarrierTransportAdapter := { a with sends := a.sends.set i s }

/-- The call throws. -/
def fail (i : ℕ) (s : Send) (error : String) :
    CarrierTransportAdapter × Option CarrierDeliveryReceipt :=
  (a.setSend i { s with stage := .ended (.error error) }, none)

/-- `_maybeReceipt`. -/
def maybeReceipt (i : ℕ) (s : Send) : CarrierTransportAdapter × Option CarrierDeliveryReceipt :=
  if !s.pending.tracked || !s.pending.allSent || s.pending.refused || s.pending.reported ||
      decide (s.pending.waiting ≠ ∅) then
    (a.setSend i s, none)
  else
    (a.setSend i { s with pending := { s.pending with reported := true } },
      some { send := i, envelopeId := s.pending.envelopeId, deviceId := s.pending.deviceId })

/-- Whether the receipt of the envelope came by another route after the call began. -/
def isCancelled (s : Send) : Bool :=
  (a.cancelled.get (carrierSendId s.pending.deviceId s.pending.envelopeId)).any fun cancelledAt =>
    decide (s.startedAt ≤ cancelledAt)

/-- The loop body up to its await: the checks, and the frame handed to the channel. -/
def transmit (i : ℕ) (s : Send) (index : ℕ) (frameId : ℤ) :
    CarrierTransportAdapter × Option CarrierDeliveryReceipt :=
  if !a.started || decide (s.generation ≠ a.generation) then
    a.fail i s (config.label ++ " stopped while sending.")
  else if a.isCancelled s then a.fail i s (config.label ++ ": no longer needed.")
  else
    ({ a with
      sends := a.sends.set i { s with stage := .transmitting index frameId }
      sent :=
        if s.acknowledging then a.sent ++ [⟨i, index, frameId, false⟩] else a.sent }, none)

/-- The head of the loop over the frames: the pause before every frame but the first, and what comes
after the last. -/
def nextFrame (i : ℕ) (s : Send) (index : ℕ) (frameId : ℤ) :
    CarrierTransportAdapter × Option CarrierDeliveryReceipt :=
  if index < s.frames.length then
    if 0 < index ∧ 0 < config.frameSpacing then
      (a.setSend i { s with stage := .spacing index }, none)
    else a.transmit config i s index frameId
  else
    a.maybeReceipt i
      { s with pending := { s.pending with allSent := true }, stage := .ended (.ok ()) }

/-- `sendEnvelope`, up to the seal. -/
def sendEnvelope (address : Option DartString) (deviceId envelopeId : DartString) (now : ℕ) :
    CarrierTransportAdapter :=
  let begun (acknowledging : Bool) (stage : SendStage) : Send :=
    { acknowledging, generation := a.generation, startedAt := now, frames := []
      pending := RadioEnvelope.initial envelopeId deviceId, stage }
  let unavailable : SendStage :=
    .ended (.error (config.label ++ " is not available for this contact."))
  match a.channel, address with
  | some channel, some address =>
    if config.isValidAddress address then
      { a with sends := a.sends ++ [begun channel.acknowledging .sealing] }
    else { a with sends := a.sends ++ [begun false unavailable] }
  | _, _ => { a with sends := a.sends ++ [begun false unavailable] }

/-- The seal is there, or failed: the frames are made and the first one goes out. -/
def sealed (i : ℕ) (s : Send) (result : Except String Bytes) (random : ℕ → UInt8) (frameId : ℤ) :
    CarrierTransportAdapter × Option CarrierDeliveryReceipt :=
  match result with
  | .error error => a.fail i s error
  | .ok bytes =>
    match carrierBinaryFrames config.framing bytes random with
    | .error error => a.fail i s error
    | .ok frames => a.nextFrame config i { s with frames } 0 frameId

/-- A frame entered among the unconfirmed ones. -/
def register (i : ℕ) (frameId : ℤ) : CarrierTransportAdapter :=
  { a with
    unconfirmedFrames :=
      dropOldest ((a.unconfirmedFrames.remove frameId).put frameId i) maxUnconfirmedFrames }

/-- The channel has sent the frame, or failed to. -/
def transmitted (i : ℕ) (s : Send) (index : ℕ) (frameId : ℤ) (result : Except String Unit)
    (nextId : ℤ) : CarrierTransportAdapter × Option CarrierDeliveryReceipt :=
  match result with
  | .error error => a.fail i s error
  | .ok () =>
    if s.acknowledging then
      (a.register i frameId).nextFrame config i
        { s with
          pending :=
            { s.pending with tracked := true, waiting := insert frameId s.pending.waiting } }
        (index + 1) nextId
    else a.nextFrame config i s (index + 1) nextId

/-- `cancel`. -/
def cancel (operationId : DartString) (now : ℕ) : CarrierTransportAdapter :=
  { a with
    cancelled := dropOldest ((a.cancelled.remove operationId).put operationId now) maxCancelled }

/-- `_onFrameAck`. -/
def onFrameAck (frameId : ℤ) (ok : Bool) :
    CarrierTransportAdapter × Option CarrierDeliveryReceipt :=
  match a.unconfirmedFrames.get frameId with
  | none => (a, none)
  | some i =>
    let a := { a with unconfirmedFrames := a.unconfirmedFrames.remove frameId }
    match a.sends[i]? with
    | none => (a, none)
    | some s =>
      if ok then
        a.maybeReceipt i
          { s with pending := { s.pending with waiting := s.pending.waiting.erase frameId } }
      else (a.setSend i { s with pending := { s.pending with refused := true } }, none)

end CarrierTransportAdapter

/-! ### The machine -/

/-- One act. `frameId` is the id under which the channel sends the next frame, where the act gets
that far. An acknowledgement may come at any time: the subscription it comes through is not kept
track of. -/
inductive AdapterAct where
  | attach (channel : CarrierChannel)
  | detach
  | detached
  | start
  | stop
  | sendEnvelope (address : Option DartString) (deviceId envelopeId : DartString) (now : ℕ)
  | sealed (send : ℕ) (result : Except String Bytes) (random : ℕ → UInt8) (frameId : ℤ)
  | elapsed (send : ℕ) (frameId : ℤ)
  | transmitted (send : ℕ) (result : Except String Unit) (frameId : ℤ)
  | cancel (operationId : DartString) (now : ℕ)
  | frameAck (frameId : ℤ) (ok : Bool)

namespace CarrierTransportAdapter

variable (config : AdapterConfig) (a : CarrierTransportAdapter)

/-- What an act does. One that completes nothing a call awaits does nothing. -/
def step : AdapterAct → CarrierTransportAdapter × Option CarrierDeliveryReceipt
  | .attach channel => ({ a with channel := some channel, generation := a.generation + 1 }, none)
  | .detach => ({ a with channel := none, generation := a.generation + 1 }, none)
  | .detached => ({ a with unconfirmedFrames := LinkedMap.empty }, none)
  | .start => ({ a with started := true }, none)
  | .stop => ({ a with started := false, generation := a.generation + 1 }, none)
  | .sendEnvelope address deviceId envelopeId now =>
    (a.sendEnvelope config address deviceId envelopeId now, none)
  | .cancel operationId now => (a.cancel operationId now, none)
  | .frameAck frameId ok =>
    { a with sent := if ok then confirm frameId a.sent else a.sent }.onFrameAck frameId ok
  | .sealed i result random frameId =>
    match a.sends[i]? with
    | some s =>
      match s.stage with
      | .sealing => a.sealed config i s result random frameId
      | _ => (a, none)
    | none => (a, none)
  | .elapsed i frameId =>
    match a.sends[i]? with
    | some s =>
      match s.stage with
      | .spacing index => a.transmit config i s index frameId
      | _ => (a, none)
    | none => (a, none)
  | .transmitted i result nextId =>
    match a.sends[i]? with
    | some s =>
      match s.stage with
      | .transmitting index frameId => a.transmitted config i s index frameId result nextId
      | _ => (a, none)
    | none => (a, none)

end CarrierTransportAdapter

/-- The adapter, with all its calls in flight. -/
def adapter (config : AdapterConfig) :
    Machine CarrierTransportAdapter AdapterAct (Option CarrierDeliveryReceipt) where
  step a act := a.step config act

end Carrier
end Conest
