import Conest.Mesh.Codec
import Conest.Mesh.Fragments

/-!
# A node of the mesh

A `BitchatNode` hands the packets that reach it to its callbacks and relays the packets of others.
Handling a packet stops where the code waits: for `onPacket`, for the handling of a packet that its
fragments made, and for every send. A task is a handling with what it has left to do, the innermost
call first, and whatever other tasks do happens in between.

The log, the newest event first, is not read by the node. It says what the node does, and of a packet
that begins or a key that is remembered also whether another copy was waiting to go on at the time.
-/

namespace Conest
namespace Mesh

open Lib

/-! ### What a node is given -/

inductive BitchatPrivate where
  | notMine
  | accepted
  | rejected
deriving DecidableEq

structure NodeConfig where
  /-- Whether there is an `onPacket`. -/
  onPacket : Bool
  maxPacketBytes : ℤ
  relay : Bool
  sha256 : Bytes → DartString

/-- What the calls of a node return between two waits. -/
structure Env where
  /-- Milliseconds since the epoch. -/
  now : Int64
  onPrivate : BitchatPacket → Bytes → BitchatPrivate
  wantsRecipient : Bytes → Bool
  /-- Raw deflate, `none` where it fails. -/
  inflate : Bytes → Option Bytes
  /-- The largest packet that each connected neighbour takes. -/
  linkLimits : LinkedMap DartString ℤ
  /-- The eight random bytes of a fragment id. -/
  fragmentId : Bytes

/-- Packet types relayed for others. -/
def relayedTypes : List UInt8 :=
  [BitchatType.announce, BitchatType.message, BitchatType.leave, BitchatType.noiseHandshake,
   BitchatType.noiseEncrypted, BitchatType.fragment, 0x21, 0x22, 0x28]

def bitchatDefaultTtl : UInt8 := 7

/-- Ten minutes. -/
def bitchatClockWindow : Int64 := 600000

def bitchatMaxInflatedBytes : ℕ := 2048

def maxSeen : ℕ := 8192

def maxRelaysPerMinute : ℕ := 600

def maxRelaysPerLinkPerMinute : ℕ := 200

/-- A compressed payload: the original size, then raw deflate. -/
def bitchatInflate (env : Env) (payload : Bytes) (version : UInt8) : Option Bytes :=
  let sizeBytes := lengthBytes version
  if payload.length ≤ sizeBytes then none
  else
    let size := ofBigEndian (payload.take sizeBytes)
    if size = 0 ∨ bitchatMaxInflatedBytes < size then none
    else (env.inflate (payload.drop sizeBytes)).filter fun bytes => decide (bytes.length = size)

/-! ### The state -/

/-- A packet that passed the first checks, as it came. -/
structure Copy where
  link : DartString
  raw : Bytes
  packet : BitchatPacket
  key : DartString
  reassembled : Bool
  relayReassembled : Bool
deriving DecidableEq

/-- A copy with hops to go, which was not put together here from fragments that are relayed
themselves. -/
def Copy.goesOn (copy : Copy) : Bool :=
  !(copy.reassembled && !copy.relayReassembled) && decide (copy.packet.ttl ≠ 0)

inductive Send where
  | broadcast (packet : Bytes) (exceptLink : Option DartString)
  | sendTo (link : DartString) (packet : Bytes)
deriving DecidableEq

/-- A send to come, with the key to remember first and whether a failure is ignored. -/
structure Sending where
  key : Option DartString
  send : Send
  ignored : Bool

/-- What a call waits for. -/
inductive Frame where
  /-- `onPacket` for the copy. -/
  | checking (copy : Copy)
  /-- The handling of the packet that the fragments made. -/
  | puttingTogether (copy : Copy) (toMe : Bool)
  /-- A send, with the sends after it. -/
  | sending (ignored : Bool) (rest : List Sending)

/-- A copy with this key waits and may go on. -/
def Frame.waitsFor (key : DartString) : Frame → Bool
  | .checking copy => decide (copy.key = key) && copy.goesOn
  | .puttingTogether copy toMe => decide (copy.key = key) && copy.goesOn && !toMe
  | .sending _ _ => false

inductive Event where
  /-- A copy has passed the check for duplicates. -/
  | began (copy : Copy) (early : Bool)
  /-- A copy is handed to `onPacket`. -/
  | delivered (copy : Copy)
  /-- `onPacket` returned true. -/
  | accepted (copy : Copy)
  | remembered (key : DartString) (early : Bool)
  | relayed (copy : Copy)
  | sent (send : Send)
deriving DecidableEq

structure BitchatNode where
  /-- The oldest key first. -/
  seen : List DartString
  relayMinute : ℤ
  relayedThisMinute : ℕ
  relayedByLink : LinkedMap DartString ℕ
  reassembler : BitchatReassembler
  tasks : List (List Frame)
  log : List Event

namespace BitchatNode

def initial : BitchatNode where
  seen := []
  relayMinute := 0
  relayedThisMinute := 0
  relayedByLink := LinkedMap.empty
  reassembler := BitchatReassembler.initial
  tasks := []
  log := []

variable (n : BitchatNode)

def note (event : Event) : BitchatNode := { n with log := event :: n.log }

/-- The task waits for one more thing. -/
def push (i : ℕ) (frame : Frame) : BitchatNode :=
  { n with tasks := n.tasks.modify i (frame :: ·) }

def waitsFor (key : DartString) : Bool := n.tasks.any fun task => task.any (Frame.waitsFor key)

def remember (key : DartString) : BitchatNode :=
  if key ∈ n.seen then n
  else
    { n with
      seen := if maxSeen < (n.seen ++ [key]).length then (n.seen ++ [key]).tail else n.seen ++ [key]
      log := .remembered key (n.waitsFor key) :: n.log }

/-! ### Sending -/

/-- The next send of a task. -/
def perform (i : ℕ) : List Sending → BitchatNode
  | [] => n
  | sending :: rest =>
    let n := match sending.key with
      | some key => n.remember key
      | none => n
    (n.note (.sent sending.send)).push i (.sending sending.ignored rest)

variable (c : NodeConfig) (env : Env)

def usableLinks (exceptLink : Option DartString) : List (DartString × ℤ) :=
  (env.linkLimits.entries.filter fun entry =>
    decide (some entry.1 ≠ exceptLink ∧ bitchatMinLinkLimit ≤ entry.2)).map
      fun entry => (entry.1, min entry.2 c.maxPacketBytes)

/-- The sends of a packet to every neighbour but one. -/
def sendsFor (packet : BitchatPacket) (encoded : Bytes) (exceptLink : Option DartString) :
    List Sending :=
  let links := usableLinks c env exceptLink
  match links.map Prod.snd with
  | [] => [⟨none, .broadcast encoded exceptLink, false⟩]
  | limit :: limits =>
    let smallest := limits.foldl min limit
    if encoded.length ≤ smallest then [⟨none, .broadcast encoded exceptLink, false⟩]
    else if packet.type = BitchatType.fragment then
      -- a fragment is never cut up again, and only goes where it fits
      (links.filter fun link => decide ((encoded.length : ℤ) ≤ link.2)).map
        fun link => ⟨none, .sendTo link.1 encoded, true⟩
    else
      match bitchatFragmentsFor packet smallest env.fragmentId with
      | none => []
      | some fragments => fragments.map fun fragment =>
          ⟨some (fragment.dedupKey c.sha256), .broadcast (fragment.encode none) exceptLink, false⟩

def sendFitting (i : ℕ) (packet : BitchatPacket) (encoded : Bytes)
    (exceptLink : Option DartString) : BitchatNode :=
  n.perform i (sendsFor c env packet encoded exceptLink)

def relayAllowed (link : DartString) : BitchatNode × Bool :=
  let minute := env.now.toInt.tdiv 60000
  let n := if minute ≠ n.relayMinute then
      { n with relayMinute := minute, relayedThisMinute := 0, relayedByLink := LinkedMap.empty }
    else n
  let byLink := (n.relayedByLink.get link).getD 0 + 1
  if maxRelaysPerLinkPerMinute < byLink ∨ maxRelaysPerMinute ≤ n.relayedThisMinute then (n, false)
  else
    ({ n with
       relayedByLink := n.relayedByLink.put link byLink
       relayedThisMinute := n.relayedThisMinute + 1 }, true)

/-! ### Handling a packet -/

/-- The end of `_handle`: remember and relay. -/
def goOn (i : ℕ) (copy : Copy) : BitchatNode :=
  if !copy.goesOn then n
  else
    let n := n.remember copy.key
    if !c.relay || decide (copy.packet.type ∉ relayedTypes) then n
    else
      match n.relayAllowed env copy.link with
      | (n, false) => n
      | (n, true) =>
        -- one hop less, never further than a fresh packet goes
        let hops := min copy.packet.ttl bitchatDefaultTtl - 1
        (n.note (.relayed copy)).sendFitting c env i { copy.packet with ttl := hops }
          (copy.raw.set 2 hops) (some copy.link)

/-- What a private packet turns out to be; every other packet is not for this device alone. -/
def privateKind (packet : BitchatPacket) : BitchatPrivate :=
  if packet.type = BitchatType.noiseEncrypted ∧ packet.recipientId.isSome then
    match (if packet.compressed then bitchatInflate env packet.payload packet.version
      else some packet.payload) with
    | none => .notMine
    | some payload => env.onPrivate packet payload
  else .notMine

/-- A copy that is not private, up to the first wait or up to the handling of the packet that its
fragment completes. -/
def handlePublic (i : ℕ) (copy : Copy) : BitchatNode × Option (Bytes × UInt8 × Bool) :=
  if copy.packet.type = BitchatType.fragment then
    let toMe := copy.packet.recipientId.any env.wantsRecipient
    let n := if toMe || decide (copy.packet.ttl = 0) then n.remember copy.key else n
    match n.reassembler.add env.now copy.packet with
    | (reassembler, some (whole, type)) =>
      ({ n with reassembler }.push i (.puttingTogether copy toMe), some (whole, type, toMe))
    | (reassembler, none) =>
      if toMe then ({ n with reassembler }, none)
      else (goOn { n with reassembler } c env i copy, none)
  else if c.onPacket && decide (copy.packet.type ≠ BitchatType.noiseEncrypted) then
    ((n.note (.delivered copy)).push i (.checking copy), none)
  else (n.goOn c env i copy, none)

/-- The distance of a time in a packet from now, both integers of 64 bits. -/
def skew (packet : BitchatPacket) : Int64 := (env.now - packet.timestamp.toInt64).abs

/-- `_handle` without the handling of a packet that is put together, which comes with its type and
whether it was for this device. -/
def start (i : ℕ) (link : DartString) (raw : Bytes) (reassembled relayReassembled : Bool)
    (expectedType : Option UInt8) : BitchatNode × Option (Bytes × UInt8 × Bool) :=
  match decode raw with
  | none => (n, none)
  | some packet =>
    let key := packet.dedupKey c.sha256
    if expectedType.any (fun type => decide (packet.type ≠ type)) ||
        decide (bitchatClockWindow < skew env packet) || decide (key ∈ n.seen) then (n, none)
    else
      let copy : Copy := ⟨link, raw, packet, key, reassembled, relayReassembled⟩
      let n := n.note (.began copy (n.waitsFor key))
      match privateKind env packet with
      | .accepted => (n.remember key, none)
      | .rejected => (n, none)
      | .notMine => n.handlePublic c env i copy

variable {n c env}

@[simp] theorem remember_reassembler (key : DartString) :
    (n.remember key).reassembler = n.reassembler := by
  unfold remember
  split <;> rfl

theorem handlePublic_weight {i : ℕ} {copy : Copy} {n' : BitchatNode} {whole : Bytes} {type : UInt8}
    {toMe : Bool} (h : n.handlePublic c env i copy = (n', some (whole, type, toMe))) :
    n'.reassembler.weight + whole.length <
      n.reassembler.weight + copy.packet.payload.length := by
  unfold handlePublic at h
  split at h
  swap
  · split at h <;> cases h
  simp only at h
  split at h
  · next hadd =>
    cases h
    have hsame : (if copy.packet.recipientId.any env.wantsRecipient || decide (copy.packet.ttl = 0)
        then n.remember copy.key else n).reassembler = n.reassembler := by
      split
      · exact remember_reassembler _
      · rfl
    rw [hsame] at hadd
    exact BitchatReassembler.add_weight hadd
  · split at h <;> cases h

theorem start_weight {i : ℕ} {link : DartString} {raw : Bytes} {reassembled relayReassembled : Bool}
    {expectedType : Option UInt8} {n' : BitchatNode} {whole : Bytes} {type : UInt8} {toMe : Bool}
    (h : n.start c env i link raw reassembled relayReassembled expectedType =
      (n', some (whole, type, toMe))) :
    n'.reassembler.weight + whole.length < n.reassembler.weight + raw.length := by
  unfold start at h
  split at h
  · cases h
  next packet hdecode =>
  simp only at h
  split at h
  · cases h
  split at h
  · cases h
  · cases h
  have hle := payload_le_of_decode hdecode
  have hlt := handlePublic_weight h
  apply Nat.lt_of_lt_of_le hlt
  exact Nat.add_le_add_left hle _

variable (n c env)

/-- Handles a packet until the task has to wait. A packet that a fragment completes is handled at
once; its own fragments can complete another. -/
def handle (n : BitchatNode) (i : ℕ) (link : DartString) (raw : Bytes)
    (reassembled relayReassembled : Bool) (expectedType : Option UInt8) : BitchatNode :=
  match _h : n.start c env i link raw reassembled relayReassembled expectedType with
  | (n, none) => n
  | (n, some (whole, type, toMe)) => handle n i link whole true toMe (some type)
termination_by n.reassembler.weight + raw.length
decreasing_by exact start_weight _h

/-! ### Steps -/

/-- How what a task waited for ended. -/
inductive Answer where
  | returned (value : Bool)
  | failed

/-- The task at `i` goes on with the answer. An error ends it, from the inside out. -/
def resume (i : ℕ) (answer : Answer) : BitchatNode :=
  match n.tasks[i]? with
  | some (frame :: outer) =>
    let n := { n with tasks := n.tasks.set i outer }
    match frame, answer with
    | .checking copy, .returned true => (n.note (.accepted copy)).goOn c env i copy
    | .checking _, .returned false => n
    | .puttingTogether copy toMe, _ => if toMe then n else n.goOn c env i copy
    | .sending _ rest, .returned _ => n.perform i rest
    | .sending true rest, .failed => n.perform i rest
    | _, .failed => { n with tasks := n.tasks.set i [] }
  | _ => n

/-- What happens to a node. -/
inductive Act where
  /-- A neighbour's packet arrives. -/
  | receive (env : Env) (link : DartString) (raw : Bytes)
  | resume (env : Env) (i : ℕ) (answer : Answer)
  /-- The device sends a packet of its own. -/
  | send (env : Env) (packet : BitchatPacket)

def step : Act → BitchatNode
  | .receive env link raw =>
    handle c env { n with tasks := n.tasks ++ [[]] } n.tasks.length link raw false false none
  | .resume env i answer => n.resume c env i answer
  | .send env packet =>
    let i := n.tasks.length
    ({ n with tasks := n.tasks ++ [[]] }.remember (packet.dedupKey c.sha256)).sendFitting c env i
      packet (packet.encode none) none

/-- The node after a list of acts. -/
def run (acts : List Act) : BitchatNode := acts.foldl (step · c) n

end BitchatNode

end Mesh
end Conest
