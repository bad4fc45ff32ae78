import Conest.Lib.Machine
import Conest.Lib.Utf8
import Conest.Mesh.Packet
import Conest.Noise.Handshake

/-!
# Conversations with bitchat users

What `BitchatDirect` keeps for one peer: the Noise session with it, and the messages that wait for
one. `_serial` runs the work for a peer one piece at a time, so each is one step here. What goes on
for other peers meanwhile shows in two places. The table of sessions has room for 256, and one for
another peer may take the place of this one, between two pieces of work (`Act.evicted`) or while one
waits for a cipher (`Moment.lost`; it makes a difference where a handshake completes, and comes to
the same as an eviction afterwards elsewhere). And the handshakes answered in a minute are counted
together, so whether one more is allowed is an input (`Moment.allowed`).

Sessions are numbered in the order they are made. The number, and the counter of what is delivered,
are in no field of the source.
-/

namespace Conest
namespace Noise

open Lib Lib.DartString Mesh

/-! ### The replay window -/

/-- The counters that were accepted, as far as they are kept, and the highest of them. -/
structure ReplayWindow where
  highest : ℤ
  seen : Finset ℕ
deriving DecidableEq

namespace ReplayWindow

def size : ℤ := 1024

def initial : ReplayWindow := ⟨-1, ∅⟩

def accept (w : ReplayWindow) (counter : ℕ) : Bool :=
  decide (w.highest - size < counter ∧ counter ∉ w.seen)

def mark (w : ReplayWindow) (counter : ℕ) : ReplayWindow :=
  if w.highest < counter then
    ⟨counter, (insert counter w.seen).filter fun value => (counter : ℤ) - size < value⟩
  else ⟨w.highest, insert counter w.seen⟩

end ReplayWindow

/-! ### Sessions -/

/-- A session; `previous` is the working one that its handshake replaces. -/
structure Session where
  number : ℕ
  handshake : NoiseXXHandshake
  startedAt : ℤ
  ready : Bool
  sendCounter : ℕ
  window : ReplayWindow
  previous : Option Session

/-- What is kept for one peer. -/
structure Conversation where
  session : Option Session
  waiting : List Bytes
  sessions : ℕ

def maxWaitingPerPeer : ℕ := 32

def maxCounter : ℕ := 0xffffffff

/-- In microseconds, as all times here. -/
def bitchatSessionLifetime : ℤ := 24 * 60 * 60 * 1000000

def bitchatInitiatorDeadline : ℤ := 10 * 1000000

def bitchatResponderDeadline : ℤ := 20 * 1000000

/-- What a piece of work finds: the time, a fresh key pair, whether one more handshake may be
answered, and whether the session is evicted while the work waits. -/
structure Moment where
  now : ℤ
  fresh : Bytes
  allowed : Bool
  lost : Bool

/-- This identity, and the peer of the conversation. -/
structure Parties where
  primitives : Primitives
  noiseSeed : Bytes
  /-- The id of the peer, which the source has in hexadecimal. -/
  peer : Bytes

namespace Parties

variable (parties : Parties)

/-- The first eight bytes of the hash of a Noise key. -/
def bitchatPeerId (noisePublicKey : Bytes) : Bytes :=
  (parties.primitives.hash noisePublicKey).take 8

def peerId : Bytes := parties.bitchatPeerId (parties.primitives.publicKey parties.noiseSeed)

def hexOf (bytes : Bytes) : DartString := hex (bytes.map UInt8.toNat)

def peerIdHex : DartString := hexOf parties.peerId

/-- A packet to the peer. -/
def packet (type : UInt8) (now : ℤ) (payload : Bytes) : BitchatPacket where
  version := 1
  type
  ttl := 7
  timestamp := (Int64.ofInt (now / 1000)).toUInt64
  senderId := parties.peerId
  recipientId := some parties.peer
  route := none
  payload
  compressed := false
  signature := none

end Parties

/-- A packet that was accepted: the session, the counter and the plaintext. -/
structure Delivery where
  session : ℕ
  counter : ℕ
  plaintext : Bytes
deriving DecidableEq

inductive BitchatDirectEvent where
  | messageReceived (messageId text : DartString)
  | receiptReceived (messageId : DartString) (read : Bool)
deriving DecidableEq

/-- What a piece of work comes to. -/
structure Answer where
  packets : List BitchatPacket
  events : List BitchatDirectEvent
  delivered : Option Delivery

namespace Answer

def none : Answer := ⟨[], [], Option.none⟩

def send (packets : List BitchatPacket) : Answer := ⟨packets, [], Option.none⟩

end Answer

/-! ### Private messages -/

namespace BitchatPayloadType

def privateMessage : UInt8 := 0x01
def readReceipt : UInt8 := 0x02
def delivered : UInt8 := 0x03

end BitchatPayloadType

/-- The id and the content of a private message, each up to 255 bytes. -/
def privateMessage (messageId text : DartString) : Bytes :=
  let id := utf8Encode messageId
  let whole := utf8Encode text
  let content :=
    if 255 < whole.length then
      let cut := utf8Encode (utf8DecodeMalformed (whole.take 255))
      if 255 < cut.length then cut.take 255 else cut
    else whole
  0x00 :: UInt8.ofNat id.length :: (id ++ 0x01 :: UInt8.ofNat content.length :: content)

/-- The fields of a private message, from what is left of it and what has been found. -/
def readFields : ℕ → Bytes → Option DartString → Option DartString →
    Option (DartString × DartString)
  | fuel + 1, type :: length :: rest, id, content =>
    if rest.length < length.toNat then none
    else
      let value := utf8DecodeMalformed (rest.take length.toNat)
      if type = 0x00 then readFields fuel (rest.drop length.toNat) (some value) content
      else if type = 0x01 then readFields fuel (rest.drop length.toNat) id (some value)
      else none
  | _, _, some id, some content => some (id, content)
  | _, _, _, _ => none

def decodePrivateMessage (data : Bytes) : Option (DartString × DartString) :=
  readFields data.length data none none

/-! ### Sessions at work -/

namespace Session

variable (parties : Parties)

/-- A session for a handshake that begins. -/
def begin (number : ℕ) (handshake : NoiseXXHandshake) (startedAt : ℤ) : Session where
  number
  handshake
  startedAt
  ready := false
  sendCounter := 0
  window := .initial
  previous := none

def usable (s : Session) (now : ℤ) : Bool :=
  decide (s.ready = true ∧ s.sendCounter < maxCounter ∧ now - s.startedAt < bitchatSessionLifetime)

def expired (s : Session) (now : ℤ) : Bool :=
  decide (s.ready = false ∧
    (if s.handshake.initiator then bitchatInitiatorDeadline else bitchatResponderDeadline) <
      now - s.startedAt)

/-- A cipher of a complete handshake, which a ready session has. Without one the source fails a null
check. -/
def cipher (c : Option NoiseCipherState) : NoiseCipherState := c.getD ⟨none, 0⟩

def encrypt (s : Session) (now : ℤ) (plaintext : Bytes) : BitchatPacket × Session :=
  let ciphertext := (cipher s.handshake.send).encryptAt parties.primitives s.sendCounter plaintext
  (parties.packet BitchatType.noiseEncrypted now (bigEndian 4 s.sendCounter ++ ciphertext),
    { s with sendCounter := s.sendCounter + 1 })

/-- Encrypts one plaintext after the other. -/
def encryptAll (s : Session) (now : ℤ) : List Bytes → List BitchatPacket × Session
  | [] => ([], s)
  | plaintext :: more =>
    let (packet, s) := s.encrypt parties now plaintext
    let (packets, s) := s.encryptAll now more
    (packet :: packets, s)

/-- The plaintext of a packet that this session accepts, and the session with the counter marked. -/
def receive (s : Session) (counter : ℕ) (ciphertext : Bytes) : Option (Bytes × Session) :=
  if s.window.accept counter then
    match (cipher s.handshake.receive).decryptAt parties.primitives counter ciphertext with
    | .ok plaintext => some (plaintext, { s with window := s.window.mark counter })
    | .error _ => none
  else none

end Session

namespace Conversation

variable (parties : Parties)

/-- A conversation that nothing has happened in. -/
def initial : Conversation := ⟨none, [], 0⟩

/-- Puts a new handshake in place; a working session it replaces is kept until it completes. -/
def install (c : Conversation) (session : Session) : Conversation :=
  let previous := c.session.bind fun current =>
    if current.ready then some current else current.previous
  { c with session := some { session with previous }, sessions := c.sessions + 1 }

/-- Gives up on the handshake, going back to the session it was replacing. -/
def abandon (c : Conversation) : Conversation :=
  match c.session with
  | none => c
  | some session => if session.ready then c else { c with session := session.previous }

/-- Begins a handshake as its initiator. -/
def startHandshake (c : Conversation) (m : Moment) : Conversation × List BitchatPacket :=
  let handshake := NoiseXXHandshake.start parties.primitives true parties.noiseSeed
  match handshake.writeMessage parties.primitives m.fresh [] with
  | .ok (message, handshake) =>
    (c.install (.begin c.sessions handshake m.now),
      [parties.packet BitchatType.noiseHandshake m.now message])
  -- the first message of a handshake is always written
  | .error _ => (c.install (.begin c.sessions handshake m.now), [])

/-- Adds a plaintext to those that wait; the oldest makes room. -/
def wait (c : Conversation) (plaintext : Bytes) : Conversation :=
  let waiting := if maxWaitingPerPeer ≤ c.waiting.length then c.waiting.tail else c.waiting
  { c with waiting := waiting ++ [plaintext] }

def send (c : Conversation) (m : Moment) (type : UInt8) (body : Bytes) :
    Conversation × List BitchatPacket :=
  let plaintext := type :: body
  match c.session with
  | none => (c.wait plaintext).startHandshake parties m
  | some session =>
    if session.usable m.now then
      let (packet, session) := session.encrypt parties m.now plaintext
      ({ c with session := some session }, [packet])
    -- a handshake of ours still in time: wait for it
    else if session.ready = false ∧ session.handshake.initiator = true ∧
        session.expired m.now = false then
      (c.wait plaintext, [])
    else (c.wait plaintext).startHandshake parties m

/-- Sends what waits, once there is a session for it. -/
def flush (c : Conversation) (m : Moment) : Conversation × List BitchatPacket :=
  match c.session with
  | none => (c, [])
  | some session =>
    if session.usable m.now then
      let (packets, session) := session.encryptAll parties m.now c.waiting
      ({ c with session := some session, waiting := [] }, packets)
    else (c, [])

/-- A handshake that ran out of time is abandoned, and begun again when messages wait. -/
def tick (c : Conversation) (m : Moment) : Conversation × List BitchatPacket :=
  match c.session with
  | none => (c, [])
  | some session =>
    if session.expired m.now then
      let c := c.abandon
      if c.waiting = [] then (c, [])
      else if c.session.any fun current => current.usable m.now then c.flush parties m
      else c.startHandshake parties m
    else (c, [])

/-- Answers a first message as the responder. -/
def respond (c : Conversation) (m : Moment) (message : Bytes) :
    Conversation × Except NoiseError (List BitchatPacket) :=
  let handshake := NoiseXXHandshake.start parties.primitives false parties.noiseSeed
  match handshake.readMessage parties.primitives message with
  | .error e => (c, .error e)
  | .ok (_, handshake) =>
    match handshake.writeMessage parties.primitives m.fresh [] with
    | .error e => (c.install (.begin c.sessions handshake m.now), .error e)
    | .ok (answer, handshake) =>
      (c.install (.begin c.sessions handshake m.now),
        .ok [parties.packet BitchatType.noiseHandshake m.now answer])

/-- The message that answers one that was read: the initiator answers the second, and nobody the
third. -/
def answer (m : Moment) (handshake : NoiseXXHandshake) :
    Except NoiseError (NoiseXXHandshake × List BitchatPacket) :=
  if handshake.writesNext then
    match handshake.writeMessage parties.primitives m.fresh [] with
    | .error e => .error e
    | .ok (message, handshake) =>
      .ok (handshake, [parties.packet BitchatType.noiseHandshake m.now message])
  else .ok (handshake, [])

/-- The next message of the session's handshake. -/
def proceed (c : Conversation) (m : Moment) (session : Session) (message : Bytes) :
    Conversation × Except NoiseError (List BitchatPacket) :=
  match session.handshake.readMessage parties.primitives message with
  | .error e => (c, .error e)
  | .ok (_, handshake) =>
    match answer parties m handshake with
    | .error e => (c, .error e)
    | .ok (handshake, answers) =>
      let c := { c with session := some { session with handshake } }
      if handshake.complete then
        -- the key they proved must be the one their id is the hash of
        if handshake.remoteStatic.map parties.bitchatPeerId ≠ some parties.peer then
          (c.abandon, .ok [])
        else if m.lost then ({ c with session := none }, .ok answers)
        else
          let completed := { session with handshake, ready := true, previous := none }
          let (c, packets) := { c with session := some completed }.flush parties m
          (c, .ok (answers ++ packets))
      else (c, .ok answers)

def handleHandshake (c : Conversation) (m : Moment) (message : Bytes) :
    Conversation × Except NoiseError (List BitchatPacket) :=
  -- When both started at once, the side with the lower id stays the initiator, as long as its own
  -- attempt is still in time.
  if message.length = 32 then
    let ours := c.session.any fun session =>
      decide (session.ready = false ∧ session.handshake.initiator = true ∧
        session.expired m.now = false)
    if ours = true ∧ parties.peerIdHex < Parties.hexOf parties.peer then (c, .ok [])
    else if m.allowed = false then (c, .ok [])
    else c.respond parties m message
  else
    match c.session with
    | none => (c, .ok [])
    | some session =>
      if session.ready then (c, .ok []) else c.proceed parties m session message

/-- What a delivered plaintext says, and the receipt for it. `usePrevious` when it came over the
session that a handshake is replacing. -/
def deliver (c : Conversation) (m : Moment) (usePrevious : Bool) (plaintext : Bytes) :
    Conversation × List BitchatPacket × List BitchatDirectEvent :=
  match plaintext with
  | [] => (c, [], [])
  | type :: body =>
    if type = BitchatPayloadType.privateMessage then
      match decodePrivateMessage body with
      | none => (c, [], [])
      | some (messageId, text) =>
        let event := .messageReceived messageId text
        let receipt := BitchatPayloadType.delivered :: utf8Encode messageId
        match c.session with
        | none => (c, [], [event])
        | some current =>
          if current.usable m.now then
            let (packet, current) := current.encrypt parties m.now receipt
            ({ c with session := some current }, [packet], [event])
          else
            match current.previous with
            | none => (c, [], [event])
            | some previous =>
              if usePrevious = true ∧ previous.usable m.now = true then
                let (packet, previous) := previous.encrypt parties m.now receipt
                ({ c with session := some { current with previous := some previous } }, [packet],
                  [event])
              else (c, [], [event])
    else if type = BitchatPayloadType.delivered ∨ type = BitchatPayloadType.readReceipt then
      (c, [], [.receiptReceived (utf8DecodeMalformed body)
        (decide (type = BitchatPayloadType.readReceipt))])
    else (c, [], [])

/-- The session that accepts a packet, its plaintext and the conversation with the counter marked;
whether it is the one that is being replaced. -/
def receive (c : Conversation) (counter : ℕ) (ciphertext : Bytes) :
    Option (Conversation × Bool × Delivery) := do
  let current ← c.session
  match if current.ready then current.receive parties counter ciphertext else none with
  | some (plaintext, received) =>
    return ({ c with session := some received }, false, ⟨current.number, counter, plaintext⟩)
  | none =>
    let previous ← current.previous
    let (plaintext, received) ← previous.receive parties counter ciphertext
    return ({ c with session := some { current with previous := some received } }, true,
      ⟨previous.number, counter, plaintext⟩)

def handleTransport (c : Conversation) (m : Moment) (payload : Bytes) : Conversation × Answer :=
  if payload.length < 4 + 16 then (c, .none)
  else
    match c.receive parties (ofBigEndian (payload.take 4)) (payload.drop 4) with
    | none => (c, .none)
    | some (c, usePrevious, delivery) =>
      let (c, packets, events) := c.deliver parties m usePrevious delivery.plaintext
      (c, ⟨packets, events, some delivery⟩)

/-- A Noise packet from the peer. -/
def handleNoise (c : Conversation) (m : Moment) (packet : BitchatPacket) : Conversation × Answer :=
  if packet.recipientId ≠ some parties.peerId ∨ packet.senderId ≠ parties.peer ∨
      parties.peer = parties.peerId then (c, .none)
  else if packet.type = BitchatType.noiseHandshake then
    match c.handleHandshake parties m packet.payload with
    | (c, .ok packets) => (c, .send packets)
    | (c, .error .nullCheck) => (c, .none)
    | (c, .error _) => (c.abandon, .none)
  else c.handleTransport parties m packet.payload

end Conversation

/-! ### The machine -/

/-- What happens in a conversation. -/
inductive Act where
  | sendText (messageId text : DartString)
  | sendReadReceipt (messageId : DartString)
  | handleNoise (packet : BitchatPacket)
  | tick
  | evicted

namespace Conversation

variable (parties : Parties)

def step (c : Conversation) (m : Moment) : Act → Conversation × Answer
  | .sendText messageId text =>
    let (c, packets) :=
      c.send parties m BitchatPayloadType.privateMessage (privateMessage messageId text)
    (c, .send packets)
  | .sendReadReceipt messageId =>
    let (c, packets) := c.send parties m BitchatPayloadType.readReceipt (utf8Encode messageId)
    (c, .send packets)
  | .handleNoise packet => c.handleNoise parties m packet
  | .tick =>
    let (c, packets) := c.tick parties m
    (c, .send packets)
  | .evicted => ({ c with session := none }, .none)

end Conversation

/-- One conversation, piece of work by piece of work. -/
def conversation (parties : Parties) : Machine Conversation (Moment × Act) Answer :=
  ⟨fun c act => c.step parties act.1 act.2⟩

end Noise
end Conest
