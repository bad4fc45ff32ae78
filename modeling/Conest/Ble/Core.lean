import Conest.Ble.Reassembler
import Conest.Lib.Base64
import Conest.Lib.OrderedMap

/-!
# The links of a BLE adapter

A `Core` keeps the links to peers, each with the packets that wait to be written and with what has
arrived of the next packet, the peers that are left alone for a while after a link to them failed,
and the packets that wait to be polled.

The addresses, ids and times are `u64`; the sums that could leave that range are the increment of
`next`, which is checked, and those that saturate.
-/

namespace Conest
namespace Ble

open Lib

def maxLinks : ℕ := 8
def maxWrite : ℕ := 512
def maxQueueBytes : ℕ := 16 * 1024
def maxQueuePackets : ℕ := 64
def maxEvents : ℕ := 256
def maxBackoff : ℕ := 128
def maxChunksPerSecond : ℕ := 256
def maxBytesPerSecond : ℕ := 16 * 1024
def maxPacketsPerSecond : ℕ := 40

/-- The largest `u64`. -/
def u64Max : ℕ := 2 ^ 64 - 1

/-- `saturating_add` below a largest value. -/
def saturatingAdd (largest a b : ℕ) : ℕ := min (a + b) largest

inductive Role where
  | central
  | peripheral
deriving DecidableEq

structure Status where
  adapter : Option String
  powered : Bool
  central : Bool
  peripheral : Bool
  scanning : Bool
  problem : Option String
  droppedEvents : ℕ
  droppedInput : ℕ
deriving DecidableEq

def Status.new : Status := ⟨none, false, false, false, false, none, 0, 0⟩

structure Event where
  link : DartString
  data : DartString
deriving DecidableEq

structure Poll where
  events : List Event
  links : List (DartString × ℕ)
  status : Status

structure Link where
  peer : ℕ
  role : Role
  limit : Option ℕ
  queue : List Bytes
  queuedBytes : ℕ
  input : Reassembler
  since : ℕ
  heard : ℕ
  second : ℕ
  chunks : ℕ
  bytes : ℕ
  packets : ℕ

/-- A link that was reserved at the time `now`. -/
def Link.new (peer : ℕ) (role : Role) (now : ℕ) : Link :=
  ⟨peer, role, none, [], 0, Reassembler.empty, now, now, now / 1000, 0, 0, 0⟩

/-- The counts of a link start again with every second. -/
def Link.tick (link : Link) (now : ℕ) : Link :=
  if link.second ≠ now / 1000 then
    { link with second := now / 1000, chunks := 0, bytes := 0, packets := 0 }
  else link

/-- One more chunk is counted. -/
def Link.count (link : Link) (size : ℕ) : Link :=
  { link with
    chunks := saturatingAdd (2 ^ 32 - 1) link.chunks 1
    bytes := saturatingAdd u64Max link.bytes size }

/-- One more packet is counted. -/
def Link.countPacket (link : Link) : Link :=
  { link with packets := saturatingAdd (2 ^ 32 - 1) link.packets 1 }

structure Core where
  «local» : ℕ
  next : ℕ
  links : OrderedMap ℕ Link
  backoff : OrderedMap ℕ (ℕ × ℕ)
  events : List Event
  status : Status

namespace Core

def new (address : ℕ) : Core := ⟨address, 0, OrderedMap.empty, OrderedMap.empty, [], Status.new⟩

/-- The name of a link: `ble:` and sixteen hexadecimal digits. -/
def id (n : ℕ) : DartString :=
  DartString.ofString "ble:" ++ DartString.hex ((bigEndian 8 n).map UInt8.toNat)

/-! ### Removing links -/

/-- How long a peer is left alone after one more failure. -/
def delayFor (c : Core) (peer : ℕ) : ℕ :=
  match c.backoff.get peer with
  | some b => min (b.2 * 2) 300000
  | none => 30000

/-- Where there is no room for another peer, the one that is left alone the shortest goes. -/
def backoffRoom (c : Core) (peer : ℕ) : OrderedMap ℕ (ℕ × ℕ) :=
  if maxBackoff ≤ c.backoff.size ∧ c.backoff.contains peer = false then
    match c.backoff.entries.argmin fun entry => entry.2.1 with
    | some entry => c.backoff.remove entry.1
    | none => c.backoff
  else c.backoff

def remove (c : Core) (n : ℕ) (failed : Bool) (now : ℕ) : Core :=
  match c.links.get n with
  | none => c
  | some link =>
    let links := c.links.remove n
    if failed = true ∧ link.role = .central then
      let delay := c.delayFor link.peer
      { c with
        links
        backoff := (c.backoffRoom link.peer).insert link.peer
          (saturatingAdd u64Max now delay, delay) }
    else { c with links }

def clearLinks (c : Core) : Core := { c with links := OrderedMap.empty, events := [] }

/-- The links that were never ready in time, or have been silent for long. -/
def expired (c : Core) (now : ℕ) : List ℕ :=
  (c.links.entries.filter fun entry =>
    (entry.2.limit.isNone && decide (15000 < now - entry.2.since)) ||
      decide (120000 < now - entry.2.heard)).map Prod.fst

def expire (c : Core) (now : ℕ) : Core :=
  (c.expired now).foldl (fun c n => c.remove n true now) c

/-! ### Links -/

/-- The oldest link to the peer. -/
def linkTo (c : Core) (peer : ℕ) : Option (ℕ × Link) :=
  c.links.entries.find? fun entry => decide (entry.2.peer = peer)

/-- The direction that a crossed link keeps: the lower address is the central. -/
def preferred (c : Core) (peer : ℕ) : Role := if c.local < peer then .central else .peripheral

/-- The end of `reserve`: a new link, where there is room and an id left. -/
def place (c : Core) (peer : ℕ) (role : Role) (now : ℕ) : Core × Option ℕ :=
  let c := c.expire now
  if maxLinks ≤ c.links.size then (c, none)
  else if c.next + 1 ≤ u64Max then
    ({ c with next := c.next + 1, links := c.links.insert (c.next + 1) (Link.new peer role now) },
      some (c.next + 1))
  else (c, none)

def reserve (c : Core) (peer : ℕ) (role : Role) (now : ℕ) : Core × Option ℕ :=
  if peer = c.local ∨ peer = 0 then (c, none)
  else
    match c.linkTo peer with
    | some (n, old) =>
      if old.role = role ∨ role ≠ c.preferred peer then (c, none)
      else (c.remove n false now).place peer role now
    | none =>
      if role = .central ∧ (c.backoff.get peer).any (fun b => decide (now < b.1)) = true then (c, none)
      else c.place peer role now

def peerLink (c : Core) (peer : ℕ) (role : Role) : Option ℕ :=
  (c.links.entries.find? fun entry => decide (entry.2.peer = peer ∧ entry.2.role = role)).map Prod.fst

/-- Change a link that is there. -/
def update (c : Core) (n : ℕ) (link : Link) : Core := { c with links := c.links.insert n link }

def ready (c : Core) (n : ℕ) (limit : ℕ) : Core × Bool :=
  match c.links.get n with
  | none => (c, false)
  | some link =>
    if limit = 0 then (c, false)
    else
      ({ c.update n { link with limit := some (min limit maxWrite) } with
        backoff := c.backoff.remove link.peer }, true)

/-- `admit_peripheral`: the peer's link as a peripheral, or a new one that is ready at once. -/
def admitPeripheral (c : Core) (peer : ℕ) (limit : ℕ) (now : ℕ) : Core × Option ℕ :=
  match c.peerLink peer .peripheral with
  | some n => (c, some n)
  | none =>
    match c.reserve peer .peripheral now with
    | (c, none) => (c, none)
    | (c, some n) =>
      let (c, usable) := c.ready n limit
      if usable then (c, some n) else (c.remove n false now, none)

/-! ### Writing -/

def enqueue (c : Core) (n : ℕ) (bytes : Bytes) : Core × Bool :=
  match c.links.get n with
  | none => (c, false)
  | some link =>
    if bytes = [] ∨ link.limit.getD 0 < bytes.length ∨ maxQueuePackets ≤ link.queue.length ∨
        maxQueueBytes < link.queuedBytes + bytes.length then (c, false)
    else
      (c.update n { link with
        queue := link.queue ++ [bytes], queuedBytes := link.queuedBytes + bytes.length }, true)

/-- `broadcast`: to every link but one, counting those that take the packet. -/
def broadcast (c : Core) (bytes : Bytes) (except : Option ℕ) : Core × ℕ :=
  c.links.keys.foldl (fun (c, count) n =>
    if some n = except then (c, count)
    else
      let (c, taken) := Core.enqueue c n bytes
      (c, if taken then count + 1 else count)) (c, 0)

def takeWrite (c : Core) (n : ℕ) : Core × Option Bytes :=
  match c.links.get n with
  | none => (c, none)
  | some link =>
    match link.queue with
    | [] => (c, none)
    | bytes :: queue =>
      (c.update n { link with queue, queuedBytes := link.queuedBytes - bytes.length }, some bytes)

/-! ### Reading -/

/-- One more input is dropped. -/
def dropInput (c : Core) : Core :=
  { c with status := { c.status with
      droppedInput := saturatingAdd u64Max c.status.droppedInput 1 } }

/-- Put an event at the end of the queue, which may push one out in front. -/
def pushEvent (c : Core) (event : Event) : Core :=
  let c :=
    if maxEvents ≤ c.events.length then
      { c with
        events := c.events.tail
        status := { c.status with
          droppedEvents := saturatingAdd u64Max c.status.droppedEvents 1 } }
    else c
  { c with events := c.events ++ [event] }

/-- The packets that a chunk completes, one after another. -/
def deliver (n : ℕ) (now : ℕ) : List Bytes → Core → Link → Core × Link
  | [], c, link => (c, link)
  | bytes :: rest, c, link =>
    let link := link.countPacket
    if maxPacketsPerSecond < link.packets then deliver n now rest c.dropInput link
    else
      deliver n now rest (c.pushEvent ⟨Core.id n, DartString.base64Encode bytes⟩)
        { link with heard := now }

def receive (c : Core) (n : ℕ) (bytes : Bytes) (now : ℕ) : Core :=
  match c.links.get n with
  | none => c
  | some link =>
    let link := (link.tick now).count bytes.length
    if bytes = [] ∨ maxPacket < bytes.length ∨ link.limit = none ∨ maxChunksPerSecond < link.chunks ∨
        maxBytesPerSecond < link.bytes then
      (c.update n { link with input := Reassembler.empty }).dropInput
    else
      match link.input.push bytes now with
      | (.error _, input) => (c.update n { link with input }).dropInput
      | (.ok packets, input) =>
        let (c, link) := deliver n now packets c { link with input }
        c.update n link

/-- The limits of the links that are ready. -/
def limits (c : Core) : List (DartString × ℕ) :=
  c.links.entries.filterMap fun entry => entry.2.limit.map fun limit => (Core.id entry.1, limit)

def poll (c : Core) : Core × Poll :=
  ({ c with events := c.events.drop (min c.events.length 32) },
    ⟨c.events.take (min c.events.length 32), c.limits, c.status⟩)

end Core

end Ble
end Conest
