import Conest.Lib.Dart
import Conest.Lib.Ledger
import Conest.Lib.LinkedMap

/-!
# The scheduler of group file pieces

A `GroupFileScheduler` decides which piece of a file to ask of which peer. It keeps the providers
with the pieces that each offers, the outstanding requests by their piece, the verified pieces and a
list of requests that failed a moment ago and are not to be repeated yet.

Requests are compared by identity, as the source does: a `GroupPieceRequest` has the number
of the object. Each object is made right after an increment of `generation`, so the count of the
increments numbers them; `generation` itself is an `int` of 64 bits.
-/

namespace Conest
namespace Files

open Lib List Option

/-- Of the manifest, what the scheduler reads. -/
structure GroupFileManifest where
  sizeBytes : ℤ
  pieceHashes : List DartString

def pieceSize : ℤ := 4 * 1024 * 1024

/-- `lengthOf`; `none` is a `RangeError`. -/
def GroupFileManifest.lengthOf (manifest : GroupFileManifest) (index : ℤ) : Option ℤ :=
  if 0 ≤ index ∧ index < manifest.pieceHashes.length then
    let remaining := manifest.sizeBytes - index * pieceSize
    some (if remaining < pieceSize then remaining else pieceSize)
  else none

/-! ### Times -/

/-- The last microsecond that a `DateTime` can have, on either side of the epoch. -/
def maxMicroseconds : ℕ := 8640000000000000 * 1000

/-- A `DateTime`, in microseconds since the epoch. -/
structure DateTime where
  micros : ℤ
  valid : micros.natAbs ≤ maxMicroseconds
deriving DecidableEq

namespace DateTime

def isBefore (t u : DateTime) : Bool := decide (t.micros < u.micros)

/-- `add` of a duration in microseconds; `none` where it throws. The sum is an `int` of 64 bits. -/
def add (t : DateTime) (duration : ℤ) : Option DateTime :=
  let sum := (t.micros + duration).bmod (2 ^ 64)
  if h : sum.natAbs ≤ maxMicroseconds then some ⟨sum, h⟩ else none

end DateTime

/-! ### The state -/

/-- A request for a piece. `identity` is the number of the object. -/
structure GroupPieceRequest where
  piece : ℤ
  peer : DartString
  generation : Int64
  deadline : DateTime
  identity : ℕ
deriving DecidableEq

structure Provider where
  pieces : Finset ℤ
  lan : Bool

structure GroupFileScheduler where
  providers : LinkedMap DartString Provider
  requests : LinkedMap ℤ GroupPieceRequest
  verified : Finset ℤ
  blockedRequests : LinkedMap DartString DateTime
  generation : Int64
  /-- How often `generation` was incremented. -/
  increments : ℕ

/-- Thirty seconds. -/
def failedPieceCooldown : ℤ := 30000000

/-- The text in front of every key of a peer. -/
def keyPrefix (peer : DartString) : DartString := peer ++ DartString.ofString "|"

def key (peer : DartString) (piece : ℤ) : DartString :=
  keyPrefix peer ++ DartString.ofString (toString piece)

namespace GroupFileScheduler

def new : GroupFileScheduler where
  providers := LinkedMap.empty
  requests := LinkedMap.empty
  verified := ∅
  blockedRequests := LinkedMap.empty
  generation := 0
  increments := 0

/-- The peers of the outstanding requests. -/
def active (s : GroupFileScheduler) : Finset DartString :=
  (s.requests.entries.map fun entry => entry.2.peer).toFinset

def load (s : GroupFileScheduler) (peer : DartString) : ℕ :=
  (s.requests.entries.filter fun entry => entry.2.peer = peer).length

def complete (manifest : GroupFileManifest) (s : GroupFileScheduler) : Bool :=
  s.verified.card == manifest.pieceHashes.length

/-! ### Blocked requests -/

def isBlocked (s : GroupFileScheduler) (peer : DartString) (piece : ℤ) (now : DateTime) : Bool :=
  match s.blockedRequests.get (key peer piece) with
  | some deadline => now.isBefore deadline
  | none => false

/-- `_block`; `none` where the time is out of range. -/
def block (s : GroupFileScheduler) (peer : DartString) (piece : ℤ) (now : DateTime) :
    Option GroupFileScheduler :=
  (now.add failedPieceCooldown).map fun deadline =>
    { s with blockedRequests := s.blockedRequests.put (key peer piece) deadline }

/-- The keys of the peer are no longer blocked. -/
def unblockPeer (s : GroupFileScheduler) (peer : DartString) : GroupFileScheduler :=
  { s with blockedRequests := s.blockedRequests.filter fun k _ => !(keyPrefix peer).isPrefixOf k }

/-- Blocks that have ended are forgotten. -/
def unblockExpired (s : GroupFileScheduler) (now : DateTime) : GroupFileScheduler :=
  { s with blockedRequests := s.blockedRequests.filter fun _ deadline => now.isBefore deadline }

/-! ### Providers -/

/-- Keep the requests that `p` accepts. -/
def retain (s : GroupFileScheduler) (p : GroupPieceRequest → Bool) : GroupFileScheduler :=
  { s with requests := s.requests.filter fun _ request => p request }

/-- The piece is no longer asked for. -/
def withdraw (s : GroupFileScheduler) (piece : ℤ) : GroupFileScheduler :=
  { s with requests := s.requests.remove piece }

def reset (s : GroupFileScheduler) : GroupFileScheduler where
  providers := LinkedMap.empty
  requests := LinkedMap.empty
  verified := ∅
  blockedRequests := LinkedMap.empty
  generation := s.generation + 1
  increments := s.increments + 1

/-- Whether `lengthOf` throws for none of the pieces. -/
def hasAll (manifest : GroupFileManifest) (pieces : List ℤ) : Bool :=
  pieces.all fun piece => (manifest.lengthOf piece).isSome

/-- `updateProvider`. A piece that the file does not have throws before anything changes. -/
def updateProvider (manifest : GroupFileManifest) (s : GroupFileScheduler) (peer : DartString)
    (pieces : List ℤ) (lan : Bool) : GroupFileScheduler :=
  if hasAll manifest pieces then
    { s.unblockPeer peer with
      providers := s.providers.put peer ⟨pieces.toFinset, lan⟩
      requests := s.requests.filter fun piece request =>
        !(decide (request.peer = peer) && decide (piece ∉ pieces.toFinset)) }
  else s

def removeProvider (s : GroupFileScheduler) (peer : DartString) : GroupFileScheduler :=
  ({ s with providers := s.providers.remove peer }.retain fun request =>
    decide (request.peer ≠ peer)).unblockPeer peer

/-- `_providers[peer]?.lan ?? false` -/
def lanOf (s : GroupFileScheduler) (peer : DartString) : Bool :=
  match s.providers.get peer with
  | some provider => provider.lan
  | none => false

/-! ### Reservations -/

/-- Whether the request is the one that is outstanding for its piece. -/
def outstanding (s : GroupFileScheduler) (request : GroupPieceRequest) : Bool :=
  decide (s.requests.get request.piece = some request)

def stillAllowed (s : GroupFileScheduler) (request : GroupPieceRequest)
    (allowed : DartString → Bool → Bool) : Bool :=
  s.outstanding request &&
    match s.providers.get request.peer with
    | some provider => allowed request.peer provider.lan
    | none => false

/-- The peers that may be asked for the piece. -/
def peersFor (s : GroupFileScheduler) (now : DateTime) (allowed : DartString → Bool → Bool)
    (piece : ℤ) : List DartString :=
  s.providers.keys.filter fun peer =>
    match s.providers.get peer with
    | some provider =>
      decide (piece ∈ provider.pieces) && !s.isBlocked peer piece now &&
        allowed peer provider.lan && (decide (s.active.card < 3) || decide (peer ∈ s.active))
    | none => false

/-- The pieces that can be asked for, each with its peers. -/
def candidates (manifest : GroupFileManifest) (s : GroupFileScheduler) (now : DateTime)
    (allowed : DartString → Bool → Bool) : List (ℤ × List DartString) :=
  (List.range manifest.pieceHashes.length).filterMap fun (piece : ℕ) =>
    if (piece : ℤ) ∈ s.verified ∨ s.requests.contains piece then none
    else
      let peers := s.peersFor now allowed piece
      if peers.isEmpty then none else some (piece, peers)

/-- The scarcest piece comes first, and then the one with the smallest number. -/
def pieceBefore (a b : ℤ × List DartString) : Bool :=
  if a.2.length = b.2.length then decide (a.1 ≤ b.1) else decide (a.2.length ≤ b.2.length)

/-- A peer of the local network comes first, then the one with the fewest requests, then the one
with the smallest name. -/
def peerBefore (s : GroupFileScheduler) (a b : DartString) : Bool :=
  if s.lanOf a = s.lanOf b then
    if s.load a = s.load b then decide (a ≤ b) else decide (s.load a ≤ s.load b)
  else s.lanOf a

/-- The piece that is asked for next, and of whom. -/
def next (manifest : GroupFileManifest) (s : GroupFileScheduler) (now : DateTime)
    (allowed : DartString → Bool → Bool) : Option (ℤ × DartString) :=
  ((s.candidates manifest now allowed).mergeSort pieceBefore).head?.bind fun candidate =>
    (candidate.2.mergeSort s.peerBefore).head?.map fun peer => (candidate.1, peer)

/-- `++_generation` -/
def increment (s : GroupFileScheduler) : GroupFileScheduler :=
  { s with generation := s.generation + 1, increments := s.increments + 1 }

/-- The request object that is made after an increment. -/
def request (s : GroupFileScheduler) (piece : ℤ) (peer : DartString) (deadline : DateTime) :
    GroupPieceRequest :=
  ⟨piece, peer, s.generation, deadline, s.increments⟩

def place (s : GroupFileScheduler) (request : GroupPieceRequest) : GroupFileScheduler :=
  { s with requests := s.requests.put request.piece request }

/-- What became of a call of `reserve`: the state, the requests it made and whether it returned
them, or threw. -/
structure Reserved where
  scheduler : GroupFileScheduler
  made : List GroupPieceRequest
  returned : Bool

/-- The requests whose deadline has passed. -/
def stalled (s : GroupFileScheduler) (now : DateTime) : List GroupPieceRequest :=
  (s.requests.entries.map Prod.snd).filter fun request => !now.isBefore request.deadline

/-- Drop requests and block them; whether no time was out of range. -/
def dropStalled (now : DateTime) :
    List GroupPieceRequest → GroupFileScheduler → GroupFileScheduler × Bool
  | [], s => (s, true)
  | request :: rest, s =>
    match (s.withdraw request.piece).block request.peer request.piece now with
    | none => (s.withdraw request.piece, false)
    | some s => dropStalled now rest s

variable {s t : GroupFileScheduler} {manifest : GroupFileManifest} {now : DateTime}
  {allowed : DartString → Bool → Bool} {piece : ℤ} {peer : DartString}

theorem next_spec (h : s.next manifest now allowed = some (piece, peer)) :
    piece ∉ s.verified ∧ s.requests.get piece = none ∧ peer ∈ s.peersFor now allowed piece := by
  obtain ⟨candidate, hfirst, hchoice⟩ := bind_eq_some_iff.mp h
  obtain ⟨peer', hpeer, heq⟩ := map_eq_some_iff.mp hchoice
  cases heq
  -- the heads of the sorted lists are members of the lists
  have hcandidate := (mergeSort_perm _ _).mem_iff.mp (mem_of_head? hfirst)
  have hmem := (mergeSort_perm _ _).mem_iff.mp (mem_of_head? hpeer)
  obtain ⟨n, -, hn⟩ := mem_filterMap.mp hcandidate
  split at hn
  · cases hn
  next hfree =>
  rw [not_or] at hfree
  simp only [ite_none_left_eq_some, some.injEq] at hn
  obtain ⟨-, rfl⟩ := hn
  refine ⟨hfree.1, ?_, hmem⟩
  have hcontains := hfree.2
  unfold LinkedMap.contains at hcontains
  simpa using hcontains

theorem size_place (s : GroupFileScheduler) (request : GroupPieceRequest)
    (h : s.requests.get request.piece = none) :
    (s.place request).requests.size = s.requests.size + 1 := by
  unfold place LinkedMap.size
  rw [LinkedMap.entries_put_of_not_mem (LinkedMap.get_eq_none.mp h), length_append]
  rfl

/-- The loop of `reserve`. -/
def reserveLoop (manifest : GroupFileManifest) (now : DateTime) (timeout : ℤ)
    (allowed : DartString → Bool → Bool) (s : GroupFileScheduler) : Reserved :=
  if s.requests.size < 4 then
    match hnext : s.next manifest now allowed with
    | none => ⟨s, [], true⟩
    | some (piece, peer) =>
      match now.add timeout with
      | none => ⟨s.increment, [], false⟩
      | some deadline =>
        let request := s.increment.request piece peer deadline
        let rest := reserveLoop manifest now timeout allowed (s.increment.place request)
        { rest with made := request :: rest.made }
  else ⟨s, [], true⟩
termination_by 4 - s.requests.size
decreasing_by
  have hsize := size_place s.increment (s.increment.request piece peer deadline)
    (next_spec hnext).2.1
  have hincrement : s.increment.requests.size = s.requests.size := rfl
  omega

/-- `reserve`: requests that may not go on are dropped, and then free places are filled. -/
def reserve (manifest : GroupFileManifest) (s : GroupFileScheduler) (now : DateTime)
    (allowed : DartString → Bool → Bool) (timeout : ℤ) : Reserved :=
  let s := s.unblockExpired now
  let dropped := dropStalled now (s.stalled now) s
  let s := dropped.1
  if dropped.2 then
    reserveLoop manifest now timeout allowed
      (s.retain fun request => allowed request.peer (s.lanOf request.peer))
  else ⟨s, [], false⟩

/-! ### Outcomes -/

/-- `markDurable`, and whether the piece was new. -/
def markDurable (s : GroupFileScheduler) (request : GroupPieceRequest) :
    GroupFileScheduler × Bool :=
  if s.outstanding request then
    ({ s.withdraw request.piece with
      blockedRequests := s.blockedRequests.remove (key request.peer request.piece)
      verified := insert request.piece s.verified }, decide (request.piece ∉ s.verified))
  else (s, false)

/-- `failed` at the time `now`. Where the end of the block is out of range, it throws when the
request is gone already. -/
def failed (s : GroupFileScheduler) (request : GroupPieceRequest) (now : DateTime) :
    GroupFileScheduler :=
  if s.outstanding request then
    let s := s.withdraw request.piece
    (s.block request.peer request.piece now).getD s
  else s

/-- `restoreVerified`. A piece that the file does not have throws before anything changes. -/
def restoreVerified (manifest : GroupFileManifest) (s : GroupFileScheduler) (pieces : List ℤ) :
    GroupFileScheduler :=
  if hasAll manifest pieces then
    { s with
      verified := s.verified ∪ pieces.toFinset
      requests := s.requests.filter fun piece _ => decide (piece ∉ pieces.toFinset)
      blockedRequests := (s.requests.entries.filter fun entry => entry.1 ∈ pieces.toFinset).foldl
        (fun blocked entry => blocked.remove (key entry.2.peer entry.1)) s.blockedRequests }
  else s

end GroupFileScheduler

end Files
end Conest
