import Conest.Gateway.Carrier
import Conest.Lib.LinkedMap
import Conest.Lib.RecentSet

/-!
# The gateway

Sharing this phone's internet: events from phones nearby go up to the relays, and events from the
relays come down over the mesh. The work is done in pieces, from one `await` to the next. A piece
ends where an event is handed to `publish` or to `broadcast`, or where nothing is left to do; it
then says what was handed on, and the next piece begins when that has ended. The clock is read once
in a piece. What the limits count is one record (`Limits`).

The owner is not told here of new cells, and a timer is the instant it is due. Times are in
microseconds.
-/

namespace Conest
namespace Gateway

open Lib Lib.DartString Nostr

/-- What is outside: the cryptography and the reader of JSON. -/
structure Env where
  primitives : Primitives
  jsonDecode : DartString → Option Json

def bitchatGeohashEventKind : ℤ := 20000

def seconds (n : ℤ) : ℤ := n * 1000000

def minutes (n : ℤ) : ℤ := seconds (60 * n)

def maxQueued : ℕ := 20
def maxQueuedPerDepositor : ℕ := 5
def depositsPerMinutePerDepositor : ℕ := 10
def depositsPerMinute : ℕ := 30
def newCellsPerHour : ℕ := 6
def newCellsPerHourPerDepositor : ℕ := 2
def cellBusyFor : ℤ := minutes 10
def downlinksPerMinute : ℕ := 30
def maxPendingDownlinks : ℕ := 30

/-- In seconds. -/
def maxEventAge : ℤ := 15 * 60

def cellKeptFor : ℤ := minutes 60
def maxCells : ℕ := 4

/-! ### Checks of an event -/

/-- The absolute value of an integer of 64 bits. -/
def abs64 (n : ℤ) : ℤ := if n < 0 then Int.bmod (-n) (2 ^ 64) else n

/-- Not older than a quarter of an hour, and not as far ahead. -/
def fresh (now : ℤ) (e : NostrEvent) : Bool :=
  decide (abs64 (Int.bmod ((now.tdiv 1000).tdiv 1000 - e.createdAt) (2 ^ 64)) ≤ maxEventAge)

/-- Whether one of the tags names the cell. -/
def hasCell (e : NostrEvent) (geohash : DartString) : Bool :=
  e.tags.any fun
    | name :: value :: _ => decide (name = ofString "g" ∧ value = geohash)
    | _ => false

/-- The event of a carrier, if it is a recent one of geohash chat for the carrier's cell. -/
def structurallyValid (env : Env) (now : ℤ) (carrier : BitchatNostrCarrier) : Option NostrEvent :=
  (carrier.event env.jsonDecode).filter fun e =>
    decide (e.kind = bitchatGeohashEventKind) && hasCell e carrier.geohash && fresh now e

/-! ### Limits -/

/-- Times of deposits, by phone and together, of what was sent down and of new cells, and the cells
that are followed with the time of their last use. -/
structure Limits where
  deposits : LinkedMap DartString (List ℤ)
  allDeposits : List ℤ
  downlinkTimes : List ℤ
  newCellTimes : List (ℤ × DartString)
  cells : LinkedMap DartString ℤ

namespace Limits

variable (l : Limits) (now : ℤ) (depositor geohash : DartString)

def initial : Limits := ⟨LinkedMap.empty, [], [], [], LinkedMap.empty⟩

/-- Whether the phone may deposit one more event, which is then counted. -/
def allowDeposit : Limits × Bool :=
  let cutoff := now - minutes 1
  let all := l.allDeposits.filter fun at' => decide (cutoff ≤ at')
  if depositsPerMinute ≤ all.length then ({ l with allDeposits := all }, false)
  else
    let times := ((l.deposits.get depositor).getD []).filter fun at' => decide (cutoff ≤ at')
    if depositsPerMinutePerDepositor ≤ times.length then
      ({ l with allDeposits := all, deposits := l.deposits.put depositor times }, false)
    else
      let deposits := l.deposits.put depositor (times ++ [now])
      ({ l with
          allDeposits := all ++ [now]
          deposits :=
            if 512 < deposits.size then
              deposits.filter fun _ list => !list.all fun at' => decide (at' < cutoff)
            else deposits }, true)

/-- The cell that was used longest ago. -/
def oldestCell : Option (DartString × ℤ) :=
  match l.cells.entries with
  | [] => none
  | first :: rest => some (rest.foldl (fun a b => if a.2 < b.2 then a else b) first)

/-- Whether the cell is carried: one that is followed, or a new one within the allowance. -/
def noteCell : Limits × Bool :=
  if l.cells.contains geohash then ({ l with cells := l.cells.put geohash now }, true)
  else
    let times := l.newCellTimes.filter fun entry =>
      decide (now - minutes 60 ≤ entry.1 ∧ entry.1 ≤ now)
    let l := { l with newCellTimes := times }
    if newCellsPerHour ≤ times.length ∨
        newCellsPerHourPerDepositor ≤
          (times.filter fun entry => decide (entry.2 = depositor)).length then
      (l, false)
    else
      match if maxCells ≤ l.cells.size then l.oldestCell else none with
      | some oldest =>
        if now - oldest.2 < cellBusyFor then (l, false)
        else
          ({ l with
              newCellTimes := times ++ [(now, depositor)]
              cells := (l.cells.remove oldest.1).put geohash now }, true)
      | none =>
        ({ l with
            newCellTimes := times ++ [(now, depositor)]
            cells := l.cells.put geohash now }, true)

/-- The cells of the last hour: what to subscribe to. -/
def followed : Limits × List DartString :=
  let cells := l.cells.filter fun _ at' => decide (now - cellKeptFor ≤ at')
  ({ l with cells }, cells.keys)

/-- What was sent down in the last minute. -/
def pruneDownlinks : Limits :=
  { l with downlinkTimes := l.downlinkTimes.filter fun at' => decide (now - minutes 1 ≤ at') }

end Limits

/-! ### The gateway and its pieces of work -/

/-- An event that waits for the relays, with the phone it is from and its cell. -/
structure Queued where
  depositor : DartString
  geohash : DartString
  event : NostrEvent
deriving DecidableEq

structure BitchatGateway where
  fromMesh : RecentSet DartString 512
  published : RecentSet DartString 512
  rebroadcast : RecentSet DartString 512
  queued : List Queued
  pending : List (NostrEvent × DartString)
  limits : Limits
  draining : Bool
  drainTimer : Option ℤ
  closed : Bool

/-- Work that waits for `publish`: the item that was handed to it, and what `flushQueued` goes on
with. For a deposit nothing is left. -/
structure Publishing where
  item : Queued
  rest : List Queued
deriving DecidableEq

/-- How `publish` ends: some relay took the event, none did, or it threw. -/
inductive Outcome where
  | taken
  | refused
  | threw
deriving DecidableEq

namespace BitchatGateway

variable (env : Env) (s : BitchatGateway) (now : ℤ)

def initial : BitchatGateway :=
  ⟨.empty, .empty, .empty, [], [], .initial, false, none, false⟩

/-- An event waits for the relays, unless it does or its phone has too many that do. -/
def enqueue (item : Queued) : BitchatGateway :=
  if s.queued.any fun other => decide (other.event.id = item.event.id) then s
  else if maxQueuedPerDepositor ≤
      (s.queued.filter fun other => decide (other.depositor = item.depositor)).length then s
  else
    { s with queued := (if maxQueued ≤ s.queued.length then s.queued.tail else s.queued) ++ [item] }

/-- `_publish` up to its `await`. -/
def publish (item : Queued) (rest : List Queued) : BitchatGateway × Option Publishing :=
  ({ s with published := s.published.add item.event.id }, some ⟨item, rest⟩)

/-- The checks of `_uplink` on an event, with the rate tokens that they cost. -/
def admits (e : NostrEvent) (geohash depositor : DartString) : Limits × Bool :=
  if s.fromMesh.contains e.id || s.published.contains e.id ||
      s.queued.any (fun item => decide (item.event.id = e.id)) then
    (s.limits, false)
  else
    let allowed := s.limits.allowDeposit now depositor
    if allowed.2 = false ∨ e.isValid env.primitives = false then (allowed.1, false)
    else allowed.1.noteCell now depositor geohash

/-- An event that is admitted goes to the relays, or waits for them. -/
def offer (connected : Bool) (e : NostrEvent) (geohash depositor : DartString) :
    BitchatGateway × Option Publishing :=
  let admitted := s.admits env now e geohash depositor
  let s' := { s with limits := admitted.1 }
  if admitted.2 = false then (s', none)
  else if connected then s'.publish ⟨depositor, geohash, e⟩ []
  else (s'.enqueue ⟨depositor, geohash, e⟩, none)

def uplink (connected : Bool) (carrier : BitchatNostrCarrier) (depositor : DartString) :
    BitchatGateway × Option Publishing :=
  match structurallyValid env now carrier with
  | none => (s, none)
  | some e => s.offer env now connected e carrier.geohash depositor

/-- An event of another gateway is remembered, if its id matches its content. -/
def overhear (carrier : BitchatNostrCarrier) : BitchatGateway :=
  match structurallyValid env now carrier with
  | some e =>
    if e.idMatches env.primitives then { s with fromMesh := s.fromMesh.add e.id } else s
  | none => s

/-- A carrier packet. -/
def handleCarrier (connected : Bool) (payload : Bytes) (sender : DartString)
    (directedToUs : Bool) : BitchatGateway × Option Publishing :=
  match BitchatNostrCarrier.decode payload with
  | none => (s, none)
  | some carrier =>
    match carrier.direction with
    | .toGateway => if directedToUs then s.uplink env now connected carrier sender else (s, none)
    | .fromGateway => (if directedToUs then s else s.overhear env now carrier, none)

/-- Whether `flushQueued` leaves an item out. -/
def leavesOut (item : Queued) : Bool :=
  s.published.contains item.event.id || !fresh now item.event

/-- The loop of `flushQueued`, up to the next event that is published. -/
def flush (items : List Queued) : BitchatGateway × Option Publishing :=
  match items.dropWhile (s.leavesOut now) with
  | [] => (s, none)
  | item :: rest => s.publish item rest

def flushQueued (connected : Bool) : BitchatGateway × Option Publishing :=
  if connected = false ∨ s.queued = [] then (s, none)
  else { s with queued := [] }.flush now s.queued

/-- What is done about an item when `publish` has ended; where it threw, the work is over. -/
def settle (item : Queued) : Outcome → BitchatGateway
  | .refused => { s with published := s.published.remove item.event.id }.enqueue item
  | .taken => s
  | .threw => s

/-- The work after `publish` has ended. -/
def afterPublish (work : Publishing) (outcome : Outcome) : BitchatGateway × Option Publishing :=
  (s.settle work.item outcome).flush now (if outcome = .threw then [] else work.rest)

/-- Whether `_drain` leaves a pending event out. -/
def passesOver (item : NostrEvent × DartString) : Bool :=
  !fresh now item.1 || s.rebroadcast.contains item.1.id || s.fromMesh.contains item.1.id ||
    decide (maxEventJsonBytes < (utf8Encode (Json.jsonText item.1.toJson)).length) ||
    !item.1.isValid env.primitives

/-- The end of `_drain`: what is over the budget is sent once the minute frees up. -/
def armTimer : BitchatGateway :=
  if s.pending ≠ [] ∧ s.drainTimer = none ∧ s.closed = false then
    let oldest := s.limits.downlinkTimes.min?.getD now
    { s with drainTimer := some (now + max 0 (seconds 61 - (now - oldest))) }
  else s

/-- The loop of `_drain`, up to the next event that is broadcast or to the end. -/
def drain : BitchatGateway × Option (NostrEvent × DartString) :=
  if downlinksPerMinute ≤ s.limits.downlinkTimes.length then
    ({ s.armTimer now with draining := false }, none)
  else
    match s.pending.dropWhile (s.passesOver env now) with
    | [] => ({ s with pending := [], draining := false }, none)
    | item :: rest =>
      ({ s with
          pending := rest
          rebroadcast := s.rebroadcast.add item.1.id
          limits := { s.limits with downlinkTimes := s.limits.downlinkTimes ++ [now] } },
        some item)

/-- The begin of `_drain`. -/
def beginDrain : BitchatGateway :=
  { s with draining := true, limits := s.limits.pruneDownlinks now }

/-- One drain at a time. -/
def drainDownlinks : BitchatGateway × Option (NostrEvent × DartString) :=
  if s.draining then (s, none) else (s.beginDrain now).drain env now

/-- Whether an event from the relays is taken on. -/
def refusesRelayed (e : NostrEvent) (geohash : DartString) : Bool :=
  decide (e.kind ≠ bitchatGeohashEventKind) || !fresh now e || !hasCell e geohash ||
    s.fromMesh.contains e.id || s.published.contains e.id || s.rebroadcast.contains e.id ||
    s.pending.any fun item => decide (item.1.id = e.id)

/-- An event waits to be sent down; beyond thirty, the first is given up. -/
def postpone (e : NostrEvent) (geohash : DartString) : BitchatGateway :=
  { s with
    pending :=
      if maxPendingDownlinks < (s.pending ++ [(e, geohash)]).length then
        (s.pending ++ [(e, geohash)]).tail
      else s.pending ++ [(e, geohash)] }

def relayEvent (e : NostrEvent) (geohash : DartString) :
    BitchatGateway × Option (NostrEvent × DartString) :=
  if s.refusesRelayed now e geohash then (s, none)
  else (s.postpone e geohash).drainDownlinks env now

/-- What is broadcast for an event. -/
def payload (item : NostrEvent × DartString) : Bytes :=
  (BitchatNostrCarrier.ofEvent .fromGateway item.2 item.1).encode

def timerFired : BitchatGateway × Option (NostrEvent × DartString) :=
  match s.drainTimer with
  | none => (s, none)
  | some _ => { s with drainTimer := none }.drainDownlinks env now

def close : BitchatGateway :=
  { s with closed := true, drainTimer := none, pending := [], queued := [] }

def cells : BitchatGateway × List DartString :=
  ({ s with limits := (s.limits.followed now).1 }, (s.limits.followed now).2)

end BitchatGateway

end Gateway
end Conest
