import Conest.Gateway.Gateway
import Conest.Lib.Machine

/-!
# Each event passes once

Any number of pieces of work interleave: carriers and relayed events come in, waiting events are
flushed, and what was handed to `publish` or `broadcast` ends at some time. `World` keeps beside the
gateway what is under way and what has come of it.

Three sets of ids decide whether an event is sent, and each is asked in some places only. An event
that was broadcast down can still be published, and one that was published while it waited can
still be broadcast (`Sample.carried_both_ways`). Where what is handed on is in neither the set of
the other direction nor among the ids that a set has dropped (`Checked`), each event passes once in
one direction (`carried_once`). The invariant is `Sound`: what was sent or is being sent is known to
its set, and what was first heard from another gateway is known to be so, wherever it waits.
-/

namespace Conest
namespace Gateway

open Lib Nostr List Option

/-! ### Runs -/

/-- A piece of work. The timer is one of the callers of `drainDownlinks`, at a time of its own. -/
inductive Call where
  | handleCarrier (payload : Bytes) (sender : DartString) (directedToUs : Bool)
  | relayEvent (e : NostrEvent) (geohash : DartString)
  | flushQueued
  | drainDownlinks
  | timerFired
  | cells
  | close
  | publishEnded (work : Publishing) (outcome : Outcome)
  | broadcastEnded

/-- A piece of work, with the time and whether any relay is connected. -/
structure Act where
  now : ℤ
  connected : Bool
  call : Call

structure World where
  gateway : BitchatGateway
  /-- What waits for `publish`. A drain that waits for `broadcast` is the one of `draining`. -/
  publishing : List Publishing
  /-- The ids that some relay took, and those that were broadcast. -/
  taken : List DartString
  aired : List DartString
  /-- The ids that came in, and those of them that first came from another gateway. -/
  met : List DartString
  heard : List DartString

/-- What a piece of work hands on. -/
inductive Handed where
  | nothing
  | toRelays (item : Queued)
  | toMesh (payload : Bytes)

namespace World

variable (env : Env) (w : World) (now : ℤ)

def initial : World := ⟨.initial, [], [], [], [], []⟩

/-- The work that `publish` was called in goes on later. -/
def up (result : BitchatGateway × Option Publishing) : World :=
  { w with gateway := result.1, publishing := w.publishing ++ result.2.toList }

def down (result : BitchatGateway × Option (NostrEvent × DartString)) : World :=
  { w with
    gateway := result.1
    aired := w.aired ++ result.2.toList.map fun item => item.1.id }

/-- The event that a carrier brings, if it is taken notice of. -/
def carried (payload : Bytes) (directedToUs : Bool) : Option (NostrEvent × Bool) :=
  match BitchatNostrCarrier.decode payload with
  | none => none
  | some carrier =>
    match carrier.direction with
    | .toGateway =>
      if directedToUs then (structurallyValid env now carrier).map fun e => (e, false) else none
    | .fromGateway =>
      if directedToUs then none
      else ((structurallyValid env now carrier).filter fun e => e.idMatches env.primitives).map
        fun e => (e, true)

/-- An event came in; `overheard` if it is another gateway's. -/
def meet (e : NostrEvent) (overheard : Bool) : World :=
  { w with
    met := e.id :: w.met
    heard := if overheard ∧ e.id ∉ w.met then e.id :: w.heard else w.heard }

/-- What a carrier brings came in. -/
def meetCarried (payload : Bytes) (directedToUs : Bool) : World :=
  match carried env now payload directedToUs with
  | none => w
  | some (e, overheard) => w.meet e overheard

def handedUp (result : BitchatGateway × Option Publishing) : Handed :=
  match result.2 with
  | none => .nothing
  | some work => .toRelays work.item

def handedDown (result : BitchatGateway × Option (NostrEvent × DartString)) : Handed :=
  match result.2 with
  | none => .nothing
  | some item => .toMesh (BitchatGateway.payload item)

/-- One piece of work. -/
def act (w : World) (a : Act) : World × Handed :=
  match a.call with
  | .handleCarrier payload sender directedToUs =>
    let result := w.gateway.handleCarrier env a.now a.connected payload sender directedToUs
    ((w.meetCarried env a.now payload directedToUs).up result, handedUp result)
  | .relayEvent e geohash =>
    let result := w.gateway.relayEvent env a.now e geohash
    ((w.meet e false).down result, handedDown result)
  | .flushQueued =>
    let result := w.gateway.flushQueued a.now a.connected
    (w.up result, handedUp result)
  | .drainDownlinks =>
    let result := w.gateway.drainDownlinks env a.now
    (w.down result, handedDown result)
  | .timerFired =>
    let result := w.gateway.timerFired env a.now
    (w.down result, handedDown result)
  | .cells => ({ w with gateway := (w.gateway.cells a.now).1 }, .nothing)
  | .close => ({ w with gateway := w.gateway.close }, .nothing)
  | .publishEnded work outcome =>
    if work ∈ w.publishing then
      let result := w.gateway.afterPublish a.now work outcome
      ({ w with
          publishing := w.publishing.erase work
          taken :=
            if outcome = Outcome.taken then work.item.event.id :: w.taken else w.taken }.up result,
        handedUp result)
    else (w, .nothing)
  | .broadcastEnded =>
    if w.gateway.draining then
      let result := w.gateway.drain env a.now
      (w.down result, handedDown result)
    else (w, .nothing)

end World

def machine (env : Env) : Machine World Act Handed := ⟨World.act env⟩

/-- What is promised of the events that pass. -/
structure PassesOnce (w : World) : Prop where
  published : w.taken.Nodup
  broadcast : w.aired.Nodup
  one_way : ∀ id ∈ w.taken, id ∉ w.aired
  overheard : ∀ id ∈ w.heard, id ∉ w.taken ∧ id ∉ w.aired

/-! ### What is handed on -/

/-- Some set has dropped the id to make room. -/
def BitchatGateway.Dropped (s : BitchatGateway) (id : DartString) : Prop :=
  id ∈ s.fromMesh.dropped ∨ id ∈ s.published.dropped ∨ id ∈ s.rebroadcast.dropped

namespace World

variable (env : Env) (w : World)

/-- The event that a piece of work hands to `publish`: a deposit that passes the checks of
`_uplink`, or the first waiting event that `flushQueued` does not leave out. -/
def upward (a : Act) : Option NostrEvent :=
  match a.call with
  | .handleCarrier payload sender true =>
    match BitchatNostrCarrier.decode payload with
    | some carrier =>
      if carrier.direction = .toGateway ∧ a.connected then
        (structurallyValid env a.now carrier).filter fun e =>
          (w.gateway.admits env a.now e carrier.geohash sender).2
      else none
    | none => none
  | .flushQueued =>
    if a.connected then
      (w.gateway.queued.find? fun item => !w.gateway.leavesOut a.now item).map Queued.event
    else none
  | .publishEnded work outcome =>
    if work ∈ w.publishing ∧ outcome ≠ .threw then
      (work.rest.find? fun item =>
        !(w.gateway.settle work.item outcome).leavesOut a.now item).map Queued.event
    else none
  | _ => none

/-- The event that a drain hands to `broadcast`: if there is room in the minute, the first of those
that wait which `_drain` does not pass over. -/
def nextDown (s : BitchatGateway) (now : ℤ) : Option NostrEvent :=
  if downlinksPerMinute ≤ s.limits.downlinkTimes.length then none
  else (s.pending.find? fun item => !s.passesOver env now item).map Prod.fst

/-- The event that a new drain hands to `broadcast`. -/
def firstDown (s : BitchatGateway) (now : ℤ) : Option NostrEvent :=
  if s.draining then none else nextDown env (s.beginDrain now) now

/-- The event that a piece of work hands to `broadcast`. -/
def downward (a : Act) : Option NostrEvent :=
  match a.call with
  | .relayEvent e geohash =>
    if w.gateway.refusesRelayed a.now e geohash then none
    else firstDown env (w.gateway.postpone e geohash) a.now
  | .drainDownlinks => firstDown env w.gateway a.now
  | .timerFired => if w.gateway.drainTimer = none then none else firstDown env w.gateway a.now
  | .broadcastEnded => if w.gateway.draining then nextDown env w.gateway a.now else none
  | _ => none

/-- The checks that are not made: nothing goes up that was sent down, nothing goes down that was
sent up, and nothing that a set has dropped. -/
structure Checked (a : Act) : Prop where
  up : ∀ e, w.upward env a = some e → e.id ∉ w.gateway.rebroadcast.ids ∧ ¬ w.gateway.Dropped e.id
  down : ∀ e, w.downward env a = some e → e.id ∉ w.gateway.published.ids ∧ ¬ w.gateway.Dropped e.id

instance (id : DartString) : Decidable (w.gateway.Dropped id) :=
  inferInstanceAs (Decidable (_ ∨ _ ∨ _))

instance (a : Act) : Decidable (w.Checked env a) :=
  decidable_of_iff
    ((∀ e ∈ (w.upward env a).toList, e.id ∉ w.gateway.rebroadcast.ids ∧ ¬ w.gateway.Dropped e.id) ∧
      ∀ e ∈ (w.downward env a).toList,
        e.id ∉ w.gateway.published.ids ∧ ¬ w.gateway.Dropped e.id)
    ⟨fun h => ⟨fun e he => h.1 e (Option.mem_toList.mpr he),
      fun e he => h.2 e (Option.mem_toList.mpr he)⟩,
      fun h => ⟨fun e he => h.up e (Option.mem_toList.mp he),
        fun e he => h.down e (Option.mem_toList.mp he)⟩⟩

end World

/-! ### What the pieces of work do -/

theorem head?_dropWhile {α : Type} (p : α → Bool) (l : List α) :
    (l.dropWhile p).head? = l.find? fun x => !p x := by
  induction l with
  | nil => rfl
  | cons a l ih =>
  cases hp : p a with
  | false =>
    rw [dropWhile_cons_of_neg (by simp [hp]), find?_cons_of_pos (by simp [hp])]
    rfl
  | true => rw [dropWhile_cons_of_pos hp, find?_cons_of_neg (by simp [hp]), ih]

namespace BitchatGateway

variable {env : Env} {s : BitchatGateway} {now : ℤ}

/-- The three sets are those of another gateway. -/
structure SameSets (s s' : BitchatGateway) : Prop where
  fromMesh : s'.fromMesh = s.fromMesh
  published : s'.published = s.published
  rebroadcast : s'.rebroadcast = s.rebroadcast

theorem enqueue_eq (s : BitchatGateway) (item : Queued) :
    ∃ queued, s.enqueue item = { s with queued } ∧ ∀ x ∈ queued, x ∈ s.queued ∨ x = item := by
  unfold enqueue
  split
  · exact ⟨s.queued, rfl, fun x hx => .inl hx⟩
  split
  · exact ⟨s.queued, rfl, fun x hx => .inl hx⟩
  refine ⟨_, rfl, fun x hx => ?_⟩
  rcases mem_append.mp hx with hx | hx
  · split at hx
    · exact .inl (mem_of_mem_tail hx)
    · exact .inl hx
  · exact .inr (mem_singleton.mp hx)

theorem not_mem_of_admits {e : NostrEvent} {geohash depositor : DartString}
    (h : (s.admits env now e geohash depositor).2 = true) :
    e.id ∉ s.fromMesh.ids ∧ e.id ∉ s.published.ids := by
  unfold admits at h
  split at h
  · exact absurd h Bool.false_ne_true
  case isFalse hnew =>
    rw [Bool.not_eq_true, Bool.or_eq_false_iff, Bool.or_eq_false_iff] at hnew
    exact ⟨(RecentSet.contains_eq_false _).mp hnew.1.1, (RecentSet.contains_eq_false _).mp hnew.1.2⟩

theorem handleCarrier_of_decode {connected : Bool} {payload : Bytes} {sender : DartString}
    {carrier : BitchatNostrCarrier} {e : NostrEvent}
    (hdecode : BitchatNostrCarrier.decode payload = some carrier)
    (hdirection : carrier.direction = .toGateway)
    (hvalid : structurallyValid env now carrier = some e) :
    s.handleCarrier env now connected payload sender true =
      s.offer env now connected e carrier.geohash sender := by
  unfold handleCarrier
  rw [hdecode]
  simp only [hdirection, if_true]
  unfold uplink
  rw [hvalid]

/-- **Flushing** comes to an end, or publishes the first item that it does not leave out. -/
theorem flush_cases (s : BitchatGateway) (now : ℤ) (items : List Queued) :
    s.flush now items = (s, none) ∨
      ∃ item rest, s.flush now items = s.publish item rest ∧
        (items.find? fun x => !s.leavesOut now x) = some item ∧ item ∈ items ∧
        (∀ x ∈ rest, x ∈ items) ∧ item.event.id ∉ s.published.ids := by
  have hhead : (items.dropWhile (s.leavesOut now)).head? =
      items.find? fun x => !s.leavesOut now x := head?_dropWhile _ _
  have hsub : ∀ x ∈ items.dropWhile (s.leavesOut now), x ∈ items := fun x hx =>
    (dropWhile_sublist _).subset hx
  unfold flush
  cases hdrop : items.dropWhile (s.leavesOut now) with
  | nil => exact .inl rfl
  | cons item rest =>
  rw [hdrop] at hhead
  rw [hdrop] at hsub
  have hkept := find?_some hhead.symm
  rw [Bool.not_eq_true', leavesOut, Bool.or_eq_false_iff] at hkept
  exact .inr ⟨item, rest, rfl, hhead.symm, hsub item mem_cons_self,
    fun x hx => hsub x (mem_cons_of_mem item hx), (RecentSet.contains_eq_false _).mp hkept.1⟩

/-- **A drain** comes to an end, or broadcasts the first event that it does not pass over. -/
theorem drain_cases (env : Env) (s : BitchatGateway) (now : ℤ) :
    ((s.drain env now).2 = none ∧ SameSets s (s.drain env now).1 ∧
        (s.drain env now).1.queued = s.queued ∧
        ∀ x ∈ (s.drain env now).1.pending, x ∈ s.pending) ∨
      ∃ item, (s.drain env now).2 = some item ∧ World.nextDown env s now = some item.1 ∧
        item ∈ s.pending ∧ item.1.id ∉ s.rebroadcast.ids ∧ ∃ s₀, SameSets s s₀ ∧
          s₀.queued = s.queued ∧ (∀ x ∈ s₀.pending, x ∈ s.pending) ∧
          (s.drain env now).1 = { s₀ with rebroadcast := s₀.rebroadcast.add item.1.id } := by
  by_cases hroom : downlinksPerMinute ≤ s.limits.downlinkTimes.length
  · left
    rw [drain, if_pos hroom]
    -- arming the timer changes nothing else
    have harm : ∃ timer, s.armTimer now = { s with drainTimer := timer } := by
      unfold armTimer
      split
      · exact ⟨_, rfl⟩
      · exact ⟨s.drainTimer, rfl⟩
    obtain ⟨timer, htimer⟩ := harm
    rw [htimer]
    exact ⟨rfl, ⟨rfl, rfl, rfl⟩, rfl, fun x hx => hx⟩
  · have hhead : (s.pending.dropWhile (s.passesOver env now)).head? =
        s.pending.find? fun x => !s.passesOver env now x := head?_dropWhile _ _
    have hsub : ∀ x ∈ s.pending.dropWhile (s.passesOver env now), x ∈ s.pending := fun x hx =>
      (dropWhile_sublist _).subset hx
    rw [drain, if_neg hroom]
    cases hdrop : s.pending.dropWhile (s.passesOver env now) with
    | nil => exact .inl ⟨rfl, ⟨rfl, rfl, rfl⟩, rfl, fun x hx => absurd hx not_mem_nil⟩
    | cons item rest =>
    right
    rw [hdrop] at hhead
    rw [hdrop] at hsub
    have hkept := find?_some hhead.symm
    rw [Bool.not_eq_true', passesOver] at hkept
    simp only [Bool.or_eq_false_iff] at hkept
    refine ⟨item, rfl, ?_, hsub item mem_cons_self,
      (RecentSet.contains_eq_false _).mp hkept.1.1.1.2,
      { s with
        pending := rest
        limits := { s.limits with downlinkTimes := s.limits.downlinkTimes ++ [now] } },
      ⟨rfl, rfl, rfl⟩, rfl, fun x hx => hsub x (mem_cons_of_mem item hx), rfl⟩
    rw [World.nextDown, if_neg hroom, ← hhead]
    rfl

end BitchatGateway

/-! ### The invariant -/

/-- The ids that went up or are going up, those that went down, those that came in and those of them
that first came from another gateway. `waits` are the ids of what waits to be sent. -/
structure Facts (s : BitchatGateway) (up down met heard : List DartString)
    (waits : DartString → Prop) : Prop where
  up_nodup : up.Nodup
  up_known : ∀ id ∈ up, s.published.Known id
  down_nodup : down.Nodup
  down_known : ∀ id ∈ down, s.rebroadcast.Known id
  one_way : ∀ id ∈ up, id ∉ down
  met : ∀ id, id ∈ up ∨ id ∈ down ∨ waits id → id ∈ met
  heard_known : ∀ id ∈ heard, s.fromMesh.Known id
  heard_unsent : ∀ id ∈ heard, id ∉ up ∧ id ∉ down
  heard_waits : ∀ id ∈ heard, waits id → id ∈ s.fromMesh.dropped

namespace Facts

variable {s s' : BitchatGateway} {up up' down met heard : List DartString}
  {waits waits' : DartString → Prop} {id : DartString}

section

variable (h : Facts s up down met heard waits)

include h

theorem mono (hsets : BitchatGateway.SameSets s s') (hwaits : ∀ id, waits' id → waits id) :
    Facts s' up down met heard waits' where
  up_nodup := h.up_nodup
  up_known := hsets.published ▸ h.up_known
  down_nodup := h.down_nodup
  down_known := hsets.rebroadcast ▸ h.down_known
  one_way := h.one_way
  met := fun id hid => h.met id (hid.imp_right (Or.imp_right (hwaits id)))
  heard_known := hsets.fromMesh ▸ h.heard_known
  heard_unsent := h.heard_unsent
  heard_waits := fun id hid hw => hsets.fromMesh ▸ h.heard_waits id hid (hwaits id hw)

theorem perm (hperm : up.Perm up') : Facts s up' down met heard waits where
  up_nodup := hperm.nodup_iff.mp h.up_nodup
  up_known := fun id hid => h.up_known id (hperm.mem_iff.mpr hid)
  down_nodup := h.down_nodup
  down_known := h.down_known
  one_way := fun id hid => h.one_way id (hperm.mem_iff.mpr hid)
  met := fun id hid => h.met id (hid.imp_left hperm.mem_iff.mpr)
  heard_known := h.heard_known
  heard_unsent := fun id hid =>
    ⟨fun hup => (h.heard_unsent id hid).1 (hperm.mem_iff.mpr hup), (h.heard_unsent id hid).2⟩
  heard_waits := h.heard_waits

theorem meet (id : DartString) : Facts s up down (id :: met) heard waits :=
  { h with met := fun x hx => mem_cons_of_mem id (h.met x hx) }

theorem hear (id : DartString) : Facts { s with fromMesh := s.fromMesh.add id } up down (id :: met)
      (if id ∉ met then id :: heard else heard) waits := by
  -- an id that comes in for the first time was not sent and does not wait
  have hnew : ∀ x ∈ (if id ∉ met then id :: heard else heard),
      x ∈ heard ∨ (x = id ∧ id ∉ met) := by
    intro x hx
    split at hx
    case isTrue hmet =>
      exact (mem_cons.mp hx).elim (fun heq => .inr ⟨heq, hmet⟩) .inl
    case isFalse => exact .inl hx
  refine { h with met := ?_, heard_known := ?_, heard_unsent := ?_, heard_waits := ?_ }
  · exact fun x hx => mem_cons_of_mem id (h.met x hx)
  · intro x hx
    rcases hnew x hx with hx | ⟨rfl, -⟩
    · exact RecentSet.known_add.mpr (.inl (h.heard_known x hx))
    · exact RecentSet.known_add.mpr (.inr rfl)
  · intro x hx
    rcases hnew x hx with hx | ⟨rfl, hmet⟩
    · exact h.heard_unsent x hx
    · exact ⟨fun hup => hmet (h.met x (.inl hup)),
        fun hdown => hmet (h.met x (.inr (.inl hdown)))⟩
  · intro x hx hw
    rcases hnew x hx with hx | ⟨rfl, hmet⟩
    · exact RecentSet.mem_dropped_add (h.heard_waits x hx hw)
    · exact absurd (h.met x (.inr (.inr hw))) hmet

theorem await (hmet : id ∈ met) (hmesh : id ∉ s.fromMesh.ids) :
    Facts s up down met heard (fun x => waits x ∨ x = id) where
  up_nodup := h.up_nodup
  up_known := h.up_known
  down_nodup := h.down_nodup
  down_known := h.down_known
  one_way := h.one_way
  met := by
    rintro x (hx | hx | hx | rfl)
    · exact h.met x (.inl hx)
    · exact h.met x (.inr (.inl hx))
    · exact h.met x (.inr (.inr hx))
    · exact hmet
  heard_known := h.heard_known
  heard_unsent := h.heard_unsent
  heard_waits := by
    rintro x hx (hw | rfl)
    · exact h.heard_waits x hx hw
    · exact (h.heard_known x hx).resolve_left hmesh

theorem not_heard (hwaits : waits id) (hdropped : ¬ s.Dropped id) : id ∉ heard :=
  fun hid => hdropped (.inl (h.heard_waits id hid hwaits))

theorem publish (hwaits : waits id) (hnew : id ∉ s.published.ids) (hdown : id ∉ s.rebroadcast.ids)
    (hdropped : ¬ s.Dropped id) :
    Facts { s with published := s.published.add id } (id :: up) down met heard waits where
  up_nodup := nodup_cons.mpr ⟨fun hup =>
    RecentSet.not_known hnew (fun hd => hdropped (.inr (.inl hd))) (h.up_known id hup),
    h.up_nodup⟩
  up_known := by
    intro x hx
    rcases mem_cons.mp hx with rfl | hx
    · exact RecentSet.known_add.mpr (.inr rfl)
    · exact RecentSet.known_add.mpr (.inl (h.up_known x hx))
  down_nodup := h.down_nodup
  down_known := h.down_known
  one_way := by
    intro x hx
    rcases mem_cons.mp hx with rfl | hx
    · exact fun hd => RecentSet.not_known hdown (fun hd => hdropped (.inr (.inr hd)))
        (h.down_known x hd)
    · exact h.one_way x hx
  met := by
    rintro x (hx | hx)
    · rcases mem_cons.mp hx with rfl | hx
      · exact h.met x (.inr (.inr hwaits))
      · exact h.met x (.inl hx)
    · exact h.met x (.inr hx)
  heard_known := h.heard_known
  heard_unsent := by
    intro x hx
    refine ⟨fun hup => ?_, (h.heard_unsent x hx).2⟩
    rcases mem_cons.mp hup with rfl | hup
    · exact h.not_heard hwaits hdropped hx
    · exact (h.heard_unsent x hx).1 hup
  heard_waits := h.heard_waits

theorem broadcast (hwaits : waits id) (hnew : id ∉ s.rebroadcast.ids) (hup : id ∉ s.published.ids)
    (hdropped : ¬ s.Dropped id) :
    Facts { s with rebroadcast := s.rebroadcast.add id } up (down ++ [id]) met heard waits where
  up_nodup := h.up_nodup
  up_known := h.up_known
  down_nodup := nodup_append.mpr ⟨h.down_nodup, nodup_singleton id, fun x hx y hy heq =>
    RecentSet.not_known hnew (fun hd => hdropped (.inr (.inr hd)))
      (mem_singleton.mp hy ▸ heq ▸ h.down_known x hx)⟩
  down_known := by
    intro x hx
    rcases mem_append.mp hx with hx | hx
    · exact RecentSet.known_add.mpr (.inl (h.down_known x hx))
    · exact RecentSet.known_add.mpr (.inr (mem_singleton.mp hx))
  one_way := by
    intro x hx hd
    rcases mem_append.mp hd with hd | hd
    · exact h.one_way x hx hd
    · rw [mem_singleton.mp hd] at hx
      exact RecentSet.not_known hup (fun hd => hdropped (.inr (.inl hd))) (h.up_known id hx)
  met := by
    rintro x (hx | hx | hx)
    · exact h.met x (.inl hx)
    · rcases mem_append.mp hx with hx | hx
      · exact h.met x (.inr (.inl hx))
      · rw [mem_singleton.mp hx]
        exact h.met id (.inr (.inr hwaits))
    · exact h.met x (.inr (.inr hx))
  heard_known := h.heard_known
  heard_unsent := by
    intro x hx
    refine ⟨(h.heard_unsent x hx).1, fun hd => ?_⟩
    rcases mem_append.mp hd with hd | hd
    · exact (h.heard_unsent x hx).2 hd
    · rw [mem_singleton.mp hd] at hx
      exact h.not_heard hwaits hdropped hx
  heard_waits := h.heard_waits

end

section

variable (h : Facts s (id :: up) down met heard waits)

include h

theorem tail : Facts s up down met heard waits where
  up_nodup := (nodup_cons.mp h.up_nodup).2
  up_known := fun x hx => h.up_known x (mem_cons_of_mem id hx)
  down_nodup := h.down_nodup
  down_known := h.down_known
  one_way := fun x hx => h.one_way x (mem_cons_of_mem id hx)
  met := fun x hx => h.met x (hx.imp_left (mem_cons_of_mem id))
  heard_known := h.heard_known
  heard_unsent := fun x hx =>
    ⟨fun hup => (h.heard_unsent x hx).1 (mem_cons_of_mem id hup), (h.heard_unsent x hx).2⟩
  heard_waits := h.heard_waits

theorem giveUp : Facts { s with published := s.published.remove id } up down met heard
      (fun x => waits x ∨ x = id) where
  up_nodup := (nodup_cons.mp h.up_nodup).2
  up_known := by
    intro x hx
    have hne : x ≠ id := fun heq => (nodup_cons.mp h.up_nodup).1 (heq ▸ hx)
    exact RecentSet.known_remove hne (h.up_known x (mem_cons_of_mem id hx))
  down_nodup := h.down_nodup
  down_known := h.down_known
  one_way := fun x hx => h.one_way x (mem_cons_of_mem id hx)
  met := by
    rintro x (hx | hx | hx | rfl)
    · exact h.met x (.inl (mem_cons_of_mem id hx))
    · exact h.met x (.inr (.inl hx))
    · exact h.met x (.inr (.inr hx))
    · exact h.met x (.inl mem_cons_self)
  heard_known := h.heard_known
  heard_unsent := fun x hx =>
    ⟨fun hup => (h.heard_unsent x hx).1 (mem_cons_of_mem id hup), (h.heard_unsent x hx).2⟩
  heard_waits := by
    rintro x hx (hw | rfl)
    · exact h.heard_waits x hx hw
    · exact absurd mem_cons_self (h.heard_unsent x hx).1

end

end Facts

/-! ### Steps and runs -/

namespace World

variable {e : NostrEvent}

/-- The ids that some relay took or that wait for `publish`. -/
def sentUp (w : World) : List DartString :=
  w.publishing.map (fun work => work.item.event.id) ++ w.taken

/-- An event with the id waits for the relays, in a flush, or to be sent down. -/
def Waits (w : World) (id : DartString) : Prop :=
  (∃ x ∈ w.gateway.queued, x.event.id = id) ∨
    (∃ work ∈ w.publishing, ∃ x ∈ work.rest, x.event.id = id) ∨
      ∃ x ∈ w.gateway.pending, x.1.id = id

def Sound (w : World) : Prop := Facts w.gateway w.sentUp w.aired w.met w.heard w.Waits

variable {env : Env} {w : World} {s : BitchatGateway} {now : ℤ} {waits : DartString → Prop}

theorem sound_initial : initial.Sound where
  up_nodup := nodup_nil
  up_known := fun id hid => absurd hid not_mem_nil
  down_nodup := nodup_nil
  down_known := fun id hid => absurd hid not_mem_nil
  one_way := fun id hid => absurd hid not_mem_nil
  met := by
    rintro id (hid | hid | ⟨x, hx, -⟩ | ⟨work, hwork, -⟩ | ⟨x, hx, -⟩)
    · exact absurd hid not_mem_nil
    · exact absurd hid not_mem_nil
    · exact absurd hx not_mem_nil
    · exact absurd hwork not_mem_nil
    · exact absurd hx not_mem_nil
  heard_known := fun id hid => absurd hid not_mem_nil
  heard_unsent := fun id hid => absurd hid not_mem_nil
  heard_waits := fun id hid => absurd hid not_mem_nil

theorem carried_of_decode {payload : Bytes} {carrier : BitchatNostrCarrier}
    (hdecode : BitchatNostrCarrier.decode payload = some carrier)
    (hdirection : carrier.direction = .toGateway)
    (hvalid : structurallyValid env now carrier = some e) :
    carried env now payload true = some (e, false) := by
  unfold carried
  rw [hdecode]
  simp only [hdirection, if_true]
  rw [hvalid, map_some]

theorem sound_kept (h : Facts s w.sentUp w.aired w.met w.heard waits)
    (hwaits : ∀ id, { w with gateway := s }.Waits id → waits id) :
    { w with gateway := s }.Sound :=
  h.mono ⟨rfl, rfl, rfl⟩ hwaits

theorem up_none (w : World) (s : BitchatGateway) : w.up (s, none) = { w with gateway := s } := by
  change World.mk s (w.publishing ++ []) _ _ _ _ = _
  rw [append_nil]

theorem down_none (w : World) (s : BitchatGateway) :
    w.down (s, none) = { w with gateway := s } := by
  change World.mk s _ _ (w.aired ++ []) _ _ = _
  rw [append_nil]

theorem sound_publish {item : Queued} {rest : List Queued}
    (h : Facts s w.sentUp w.aired w.met w.heard waits) (hitem : waits item.event.id)
    (hrest : ∀ x ∈ rest, waits x.event.id)
    (hwaits : ∀ id, { w with gateway := s }.Waits id → waits id)
    (hnew : item.event.id ∉ s.published.ids) (hdown : item.event.id ∉ s.rebroadcast.ids)
    (hdropped : ¬ s.Dropped item.event.id) : (w.up (s.publish item rest)).Sound := by
  have hfacts := h.publish hitem hnew hdown hdropped
  have hperm : (item.event.id :: w.sentUp).Perm (w.up (s.publish item rest)).sentUp := by
    have hsent : (w.up (s.publish item rest)).sentUp =
        w.publishing.map (fun work => work.item.event.id) ++ (item.event.id :: w.taken) := by
      change map _ (w.publishing ++ [⟨item, rest⟩]) ++ w.taken = _
      rw [map_append, append_assoc]
      rfl
    rw [hsent]
    exact perm_middle.symm
  refine (hfacts.perm hperm).mono ⟨rfl, rfl, rfl⟩ ?_
  rintro id (hid | ⟨work, hwork, x, hx, rfl⟩ | hid)
  · exact hwaits id (.inl hid)
  · rcases mem_append.mp hwork with hwork | hwork
    · exact hwaits _ (.inr (.inl ⟨work, hwork, x, hx, rfl⟩))
    · rw [mem_singleton.mp hwork] at hx
      exact hrest x hx
  · exact hwaits id (.inr (.inr hid))

theorem sound_flush {items : List Queued} (h : Facts s w.sentUp w.aired w.met w.heard waits)
    (hitems : ∀ x ∈ items, waits x.event.id)
    (hwaits : ∀ id, { w with gateway := s }.Waits id → waits id)
    (hchecked : ∀ e, (items.find? fun x => !s.leavesOut now x).map Queued.event = some e →
      e.id ∉ s.rebroadcast.ids ∧ ¬ s.Dropped e.id) : (w.up (s.flush now items)).Sound := by
  rcases s.flush_cases now items with heq | ⟨item, rest, heq, hfind, hmem, hrest, hnew⟩
  · rw [heq, up_none]
    exact sound_kept h hwaits
  rw [heq]
  obtain ⟨hdown, hdropped⟩ := hchecked item.event (by rw [hfind]; rfl)
  exact sound_publish h (hitems item hmem) (fun x hx => hitems x (hrest x hx)) hwaits hnew hdown
    hdropped

section

variable (h : Facts s w.sentUp w.aired w.met w.heard waits)
  (hwaits : ∀ id, { w with gateway := s }.Waits id → waits id)

include h hwaits

theorem sound_drain
    (hchecked : ∀ e, nextDown env s now = some e → e.id ∉ s.published.ids ∧ ¬ s.Dropped e.id) :
    (w.down (s.drain env now)).Sound := by
  -- what waits after the drain waited before
  have hless : ∀ s' : BitchatGateway, s'.queued = s.queued → (∀ x ∈ s'.pending, x ∈ s.pending) →
      ∀ aired id, World.Waits ⟨s', w.publishing, w.taken, aired, w.met, w.heard⟩ id → waits id := by
    rintro s' hqueued hpending aired id (hid | hid | ⟨x, hx, rfl⟩)
    · exact hwaits id (.inl (hqueued ▸ hid))
    · exact hwaits id (.inr (.inl hid))
    · exact hwaits _ (.inr (.inr ⟨x, hpending x hx, rfl⟩))
  rcases BitchatGateway.drain_cases env s now with ⟨hnone, hsets, hqueued, hpending⟩ |
      ⟨item, hsome, hnext, hmem, hnew, s₀, hsets, hqueued, hpending, heq⟩
  · have hpair : s.drain env now = ((s.drain env now).1, none) := Prod.ext rfl hnone
    rw [hpair, down_none]
    exact h.mono hsets (hless _ hqueued hpending _)
  · obtain ⟨hup, hdropped⟩ := hchecked item.1 hnext
    have hpair : s.drain env now =
        ({ s₀ with rebroadcast := s₀.rebroadcast.add item.1.id }, some item) := Prod.ext heq hsome
    rw [hpair]
    have hwait : waits item.1.id := hwaits _ (.inr (.inr ⟨item, hmem, rfl⟩))
    refine (h.broadcast hwait hnew hup hdropped).mono ⟨hsets.fromMesh, hsets.published, ?_⟩
      (hless _ hqueued hpending (w.aired ++ [item.1.id]))
    change s₀.rebroadcast.add _ = s.rebroadcast.add _
    rw [hsets.rebroadcast]

theorem sound_drainDownlinks
    (hchecked : ∀ e, firstDown env s now = some e → e.id ∉ s.published.ids ∧ ¬ s.Dropped e.id) :
    (w.down (s.drainDownlinks env now)).Sound := by
  unfold BitchatGateway.drainDownlinks
  unfold firstDown at hchecked
  by_cases hdraining : s.draining = true
  · rw [if_pos hdraining, down_none]
    exact sound_kept h hwaits
  · rw [if_neg hdraining] at hchecked ⊢
    have hbegin : BitchatGateway.SameSets s (s.beginDrain now) := ⟨rfl, rfl, rfl⟩
    exact sound_drain (h.mono hbegin fun id hid => hid) hwaits hchecked

end

theorem sound_offer {connected : Bool} {geohash depositor : DartString} (h : w.Sound)
    (hchecked : connected = true → (w.gateway.admits env now e geohash depositor).2 = true →
      e.id ∉ w.gateway.rebroadcast.ids ∧ ¬ w.gateway.Dropped e.id) :
    ((w.meet e false).up (w.gateway.offer env now connected e geohash depositor)).Sound := by
  unfold BitchatGateway.offer
  cases hadmits : (w.gateway.admits env now e geohash depositor).2 with
  | false =>
    simp only [hadmits, if_true]
    rw [up_none]
    exact (h.meet e.id).mono ⟨rfl, rfl, rfl⟩ fun id hid => hid
  | true =>
  obtain ⟨hmesh, hnew⟩ := BitchatGateway.not_mem_of_admits hadmits
  have hfacts := (h.meet e.id).await mem_cons_self hmesh
  simp only [hadmits, Bool.true_eq_false, if_false]
  cases connected with
  | true =>
    obtain ⟨hdown, hdropped⟩ := hchecked rfl hadmits
    exact sound_publish
     
      (hfacts.mono ⟨rfl, rfl, rfl⟩ fun id hid => hid) (.inr rfl)
      (fun x hx => absurd hx not_mem_nil) (fun id hid => .inl hid) hnew hdown hdropped
  | false =>
  rw [if_neg Bool.false_ne_true, up_none]
  obtain ⟨queued, heq, hqueued⟩ := BitchatGateway.enqueue_eq
    { w.gateway with limits := (w.gateway.admits env now e geohash depositor).1 }
    ⟨depositor, geohash, e⟩
  rw [heq]
  refine hfacts.mono ⟨rfl, rfl, rfl⟩ ?_
  rintro id (⟨x, hx, rfl⟩ | hid)
  · rcases hqueued x hx with hx | rfl
    · exact .inl (.inl ⟨x, hx, rfl⟩)
    · exact .inr rfl
  · exact .inl (.inr hid)

theorem sound_handleCarrier {connected directedToUs : Bool} {payload : Bytes}
    {sender : DartString} (h : w.Sound)
    (hchecked : w.Checked env ⟨now, connected, .handleCarrier payload sender directedToUs⟩) :
    ((w.meetCarried env now payload directedToUs).up
      (w.gateway.handleCarrier env now connected payload sender directedToUs)).Sound := by
  unfold BitchatGateway.handleCarrier meetCarried carried
  cases hdecode : BitchatNostrCarrier.decode payload with
  | none =>
    rw [up_none]
    exact h
  | some carrier =>
  simp only
  cases hdirection : carrier.direction with
  | toGateway =>
    cases directedToUs with
    | true =>
      simp only [if_true]
      unfold BitchatGateway.uplink
      cases hvalid : structurallyValid env now carrier with
      | none =>
        rw [up_none]
        exact h
      | some e =>
        refine sound_offer h fun hconnected hadmits => hchecked.up e ?_
        unfold upward
        simp[hdecode, hdirection, hconnected, and_self, if_true, hvalid,
          filter_some, hadmits]
    | false =>
      simp only [Bool.false_eq_true, if_false]
      rw [up_none]
      exact h
  | fromGateway =>
    cases directedToUs with
    | true =>
      rw [up_none]
      exact h
    | false =>
    rw [up_none]
    unfold BitchatGateway.overhear
    cases structurallyValid env now carrier with
    | none => exact h
    | some e =>
    by_cases hid : e.idMatches env.primitives = true
    · simp only [hid, if_true, filter_some, map_some]
      have hheard : (if true = true ∧ e.id ∉ w.met then e.id :: w.heard else w.heard) =
          if e.id ∉ w.met then e.id :: w.heard else w.heard := by
        simp[true_and]
      change Facts _ _ _ _ (if true = true ∧ e.id ∉ w.met then _ else _) _
      rw [hheard]
      exact h.hear e.id
    · simp only [hid, Bool.false_eq_true, if_false, filter_some, map_none]
      exact h

theorem sound_relayEvent {connected : Bool} {geohash : DartString} (h : w.Sound)
    (hchecked : w.Checked env ⟨now, connected, .relayEvent e geohash⟩) :
    ((w.meet e false).down (w.gateway.relayEvent env now e geohash)).Sound := by
  have hdown := hchecked.down
  unfold downward at hdown
  unfold BitchatGateway.relayEvent
  cases hrefuses : w.gateway.refusesRelayed now e geohash with
  | true =>
    rw [if_pos rfl, down_none]
    exact h.meet e.id
  | false =>
  simp only [hrefuses, Bool.false_eq_true, if_false] at hdown
  have hmesh : e.id ∉ w.gateway.fromMesh.ids := by
    unfold BitchatGateway.refusesRelayed at hrefuses
    simp only [Bool.or_eq_false_iff] at hrefuses
    exact (RecentSet.contains_eq_false _).mp hrefuses.1.1.1.2
  have hfacts := (h.meet e.id).await mem_cons_self hmesh
  have hpostpone : BitchatGateway.SameSets w.gateway (w.gateway.postpone e geohash) :=
    ⟨rfl, rfl, rfl⟩
  refine sound_drainDownlinks (hfacts.mono hpostpone fun id hid => hid) ?_
    hdown
  rintro id (hid | hid | ⟨x, hx, rfl⟩)
  · exact .inl (.inl hid)
  · exact .inl (.inr (.inl hid))
  · have hmem : x ∈ w.gateway.pending ++ [(e, geohash)] := by
      change x ∈ (if _ then _ else _) at hx
      split at hx
      · exact mem_of_mem_tail hx
      · exact hx
    rcases mem_append.mp hmem with hmem | hmem
    · exact .inl (.inr (.inr ⟨x, hmem, rfl⟩))
    · rw [mem_singleton.mp hmem]
      exact .inr rfl

theorem sound_publishEnded {connected : Bool} {work : Publishing} {outcome : Outcome}
    (h : w.Sound) (hmem : work ∈ w.publishing)
    (hchecked : w.Checked env ⟨now, connected, .publishEnded work outcome⟩) :
    ({ w with
        publishing := w.publishing.erase work
        taken := if outcome = Outcome.taken then work.item.event.id :: w.taken else w.taken }.up
      (w.gateway.afterPublish now work outcome)).Sound := by
  -- the id of the item comes first among those that went up
  have hperm : w.sentUp.Perm (work.item.event.id ::
      ((w.publishing.erase work).map (fun work => work.item.event.id) ++ w.taken)) := by
    have hmap := (perm_cons_erase hmem).map fun work : Publishing => work.item.event.id
    exact hmap.append_right w.taken
  have hfacts := h.perm hperm
  have hrest : ∀ x ∈ work.rest, w.Waits x.event.id :=
    fun x hx => .inr (.inl ⟨work, hmem, x, hx, rfl⟩)
  have hkept : ∀ taken id, World.Waits ⟨w.gateway, w.publishing.erase work, taken, w.aired, w.met,
      w.heard⟩ id → w.Waits id := by
    rintro taken id (hid | ⟨other, hother, hid⟩ | hid)
    · exact .inl hid
    · exact .inr (.inl ⟨other, mem_of_mem_erase hother, hid⟩)
    · exact .inr (.inr hid)
  have hup := hchecked.up
  unfold upward at hup
  unfold BitchatGateway.afterPublish
  cases outcome with
  | refused =>
    simp only [hmem, true_and, ne_eq, reduceCtorEq, not_false_eq_true, if_true] at hup
    obtain ⟨queued, heq, hqueued⟩ := BitchatGateway.enqueue_eq
      { w.gateway with published := w.gateway.published.remove work.item.event.id } work.item
    have hsettle : w.gateway.settle work.item .refused =
        { w.gateway with
          published := w.gateway.published.remove work.item.event.id
          queued } := heq
    have hwaiting : ∀ id, World.Waits ⟨w.gateway.settle work.item .refused,
        w.publishing.erase work, w.taken, w.aired, w.met, w.heard⟩ id →
        w.Waits id ∨ id = work.item.event.id := by
      rw [hsettle]
      rintro id (⟨x, hx, rfl⟩ | hid)
      · rcases hqueued x hx with hx | rfl
        · exact .inl (.inl ⟨x, hx, rfl⟩)
        · exact .inr rfl
      · exact .inl (hkept w.taken id (.inr hid))
    have hsets : BitchatGateway.SameSets
        { w.gateway with published := w.gateway.published.remove work.item.event.id }
        (w.gateway.settle work.item .refused) := by
      rw [hsettle]
      exact ⟨rfl, rfl, rfl⟩
    refine sound_flush (hfacts.giveUp.mono hsets fun id hid => hid)
      (fun x hx => .inl (hrest x hx)) hwaiting fun e he => ?_
    obtain ⟨hreb, hdropped⟩ := hup e he
    rw [hsets.rebroadcast]
    refine ⟨hreb, fun hd => hdropped ?_⟩
    rw [BitchatGateway.Dropped, hsets.fromMesh, hsets.published, hsets.rebroadcast] at hd
    exact hd
  | taken =>
    simp only [hmem, true_and, ne_eq, reduceCtorEq, not_false_eq_true, if_true] at hup
    refine sound_flush (hfacts.perm ?_) hrest (hkept _) hup
    exact perm_middle.symm
  | threw =>
    refine sound_flush hfacts.tail (fun x hx => absurd hx not_mem_nil)
      (hkept _) fun e he => ?_
    simp at he

theorem sound_act {a : Act} (h : w.Sound) (hchecked : w.Checked env a) :
    (w.act env a).1.Sound := by
  obtain ⟨now, connected, call⟩ := a
  have hdown := hchecked.down
  have hup := hchecked.up
  cases call with
  | handleCarrier payload sender directedToUs => exact sound_handleCarrier h hchecked
  | relayEvent e geohash => exact sound_relayEvent h hchecked
  | flushQueued =>
    change (w.up (w.gateway.flushQueued now connected)).Sound
    unfold BitchatGateway.flushQueued
    split
    case isTrue =>
      rw [up_none]
      exact h
    case isFalse hopen =>
      have hconnected : connected = true := by
        cases connected with
        | true => rfl
        | false => exact absurd (.inl rfl) hopen
      simp only [hconnected, if_true] at hup
      have hsent : BitchatGateway.SameSets w.gateway { w.gateway with queued := [] } :=
        ⟨rfl, rfl, rfl⟩
      refine sound_flush (h.mono hsent fun id hid => hid)
        (fun x hx => .inl ⟨x, hx, rfl⟩) ?_ hup
      rintro id (⟨x, hx, -⟩ | hid)
      · exact absurd hx not_mem_nil
      · exact .inr hid
  | drainDownlinks => exact sound_drainDownlinks h (fun id hid => hid) hdown
  | timerFired =>
    change (w.down (w.gateway.timerFired env now)).Sound
    unfold downward at hdown
    unfold BitchatGateway.timerFired
    cases htimer : w.gateway.drainTimer with
    | none =>
      rw [down_none]
      exact h
    | some due =>
      simp only [htimer, reduceCtorEq, if_false] at hdown
      exact sound_drainDownlinks
        (h.mono ⟨rfl, rfl, rfl⟩ fun id hid => hid) (fun id hid => hid) hdown
  | cells => exact h.mono ⟨rfl, rfl, rfl⟩ fun id hid => hid
  | close =>
    refine h.mono ⟨rfl, rfl, rfl⟩ ?_
    rintro id (⟨x, hx, -⟩ | hid | ⟨x, hx, -⟩)
    · exact absurd hx not_mem_nil
    · exact .inr (.inl hid)
    · exact absurd hx not_mem_nil
  | publishEnded work outcome =>
    by_cases hmem : work ∈ w.publishing
    · simp only [act, hmem, if_true]
      exact sound_publishEnded h hmem hchecked
    · simp only [act, hmem, if_false]
      exact h
  | broadcastEnded =>
    unfold downward at hdown
    by_cases hdraining : w.gateway.draining = true
    · simp only [act, hdraining, if_true] at hdown ⊢
      exact sound_drain h (fun id hid => hid) hdown
    · simp only [act, hdraining]
      exact h

theorem Sound.passesOnce (h : w.Sound) : PassesOnce w where
  published := (nodup_append.mp h.up_nodup).2.1
  broadcast := h.down_nodup
  one_way := fun id hid => h.one_way id (mem_append_right _ hid)
  overheard := fun id hid => by
    obtain ⟨hup, hdown⟩ := h.heard_unsent id hid
    exact ⟨fun htaken => hup (mem_append_right _ htaken), hdown⟩

end World

/-- **Each event passes once**, in every run whose pieces of work all make the checks. -/
theorem carried_once (env : Env) (acts : List Act)
    (hchecked : (machine env).Along (fun w a => w.Checked env a) World.initial acts) :
    PassesOnce ((machine env).run World.initial acts) := by
  have hsound : ((machine env).run World.initial acts).Sound :=
    Machine.run_induction_along (I := World.Sound)
      (fun _ _ hw hcheck => World.sound_act hw hcheck) World.sound_initial hchecked
  exact hsound.passesOnce

/-! ### An event that passes both ways -/

namespace Sample

def idBytes : Bytes :=
  [49, 187, 108, 105, 229, 22, 205, 151, 101, 106, 206, 8, 81, 244, 179, 244, 58, 183, 183, 175,
   195, 111, 143, 5, 115, 213, 102, 222, 199, 66, 243, 1]

def pubkey : Bytes :=
  [132, 191, 117, 98, 38, 43, 189, 105, 64, 8, 87, 72, 243, 190, 106, 250, 82, 174, 49, 113, 85,
   24, 30, 206, 49, 182, 99, 81, 204, 255, 164, 176]

def signature : Bytes :=
  [42, 11, 240, 251, 244, 0, 237, 119, 104, 140, 177, 8, 31, 25, 17, 27, 20, 202, 34, 209, 38,
   126, 174, 157, 81, 68, 193, 110, 119, 201, 23, 86, 133, 78, 77, 81, 43, 226, 49, 150, 56, 198,
   144, 231, 26, 90, 15, 97, 215, 201, 109, 162, 84, 37, 196, 98, 72, 57, 239, 52, 15, 204, 133,
   107]

def cell : DartString := DartString.ofString "u4pruy"

def event : NostrEvent where
  id := hexEncode idBytes
  pubkey := hexEncode pubkey
  createdAt := 1791460800
  kind := 20000
  tags := [[DartString.ofString "g", cell]]
  content := DartString.ofString "hi"
  sig := hexEncode signature

def env : Env where
  primitives.sha256 _ := idBytes
  primitives.verify message key sig := decide (message = idBytes ∧ key = pubkey ∧ sig = signature)
  jsonDecode text := if text = Json.jsonText event.toJson then some event.toJson else none

def phone : DartString := DartString.ofString "phone"

def carrier : BitchatNostrCarrier := .ofEvent .toGateway cell event

def deposit : Call := .handleCarrier carrier.encode phone true

def work : Publishing := ⟨⟨phone, cell, event⟩, []⟩

/-- A phone deposits the event while no relay is connected, and it waits. The relays bring it, since
another gateway published it, and it is broadcast. Then what waits is flushed. -/
def bothWays : List Act :=
  [⟨1791460801000000, false, deposit⟩,
    ⟨1791460802000000, true, .relayEvent event cell⟩,
    ⟨1791460803000000, true, .broadcastEnded⟩,
    ⟨1791460804000000, true, .flushQueued⟩,
    ⟨1791460805000000, true, .publishEnded work .taken⟩]

theorem jsonDecode_event : env.jsonDecode (Json.jsonText event.toJson) = some event.toJson := by
  decide +kernel

theorem decode_carrier : BitchatNostrCarrier.decode carrier.encode = some carrier :=
  BitchatNostrCarrier.decode_encode (by decide +kernel) (by decide +kernel) (by decide +kernel)

theorem structurallyValid_carrier {now : ℤ} (hfresh : fresh now event = true) :
    structurallyValid env now carrier = some event := by
  have hcell : hasCell event cell = true := by decide
  have hevent : carrier.event env.jsonDecode = some event :=
    BitchatNostrCarrier.event_ofEvent .toGateway cell jsonDecode_event
  have hall : (decide (event.kind = bitchatGeohashEventKind) &&
      hasCell event carrier.geohash && fresh now event) = true := by
    rw [hfresh, Bool.and_true, Bool.and_eq_true]
    exact ⟨decide_eq_true rfl, hcell⟩
  rw [structurallyValid, hevent, filter_some, if_pos hall]

theorem act_deposit (w : World) {now : ℤ} (connected : Bool) (hfresh : fresh now event = true) :
    (w.act env ⟨now, connected, deposit⟩).1 =
      (w.meet event false).up (w.gateway.offer env now connected event cell phone) := by
  have hact : (w.act env ⟨now, connected, deposit⟩).1 =
      (w.meetCarried env now carrier.encode true).up
        (w.gateway.handleCarrier env now connected carrier.encode phone true) := rfl
  rw [hact, World.meetCarried,
    World.carried_of_decode decode_carrier rfl (structurallyValid_carrier hfresh),
    BitchatGateway.handleCarrier_of_decode decode_carrier rfl (structurallyValid_carrier hfresh)]
  rfl

/-- **The event is published and broadcast.** -/
theorem carried_both_ways : ¬ PassesOnce ((machine env).run World.initial bothWays) := by
  have hboth : ((machine env).run World.initial bothWays).taken = [event.id] ∧
      ((machine env).run World.initial bothWays).aired = [event.id] := by
    have hfirst : ((machine env).step World.initial ⟨1791460801000000, false, deposit⟩).1 = _ :=
      act_deposit World.initial false (by decide)
    rw [bothWays, Machine.run_cons, hfirst]
    decide +kernel
  refine fun h => h.one_way event.id ?_ ?_
  · rw [hboth.1]
    exact mem_cons_self
  · rw [hboth.2]
    exact mem_cons_self

def upOnly : List Act :=
  [⟨1791460801000000, true, deposit⟩,
    ⟨1791460802000000, true, .publishEnded work .taken⟩,
    ⟨1791460803000000, true, .relayEvent event cell⟩]

theorem carried_once_up : PassesOnce ((machine env).run World.initial upOnly) ∧
    ((machine env).run World.initial upOnly).taken = [event.id] := by
  have hfirst : ((machine env).step World.initial ⟨1791460801000000, true, deposit⟩).1 = _ :=
    act_deposit World.initial true (by decide)
  have hchecked : World.initial.Checked env ⟨1791460801000000, true, deposit⟩ := by
    have hnone : World.downward env World.initial ⟨1791460801000000, true, deposit⟩ = none := rfl
    refine ⟨fun e _ => ?_, fun e he => absurd (hnone.symm.trans he) (by simp)⟩
    exact ⟨not_mem_nil, fun hd => by rcases hd with hd | hd | hd <;> cases hd⟩
  constructor
  · refine carried_once env upOnly ?_
    rw [upOnly, Machine.along_cons, hfirst]
    exact ⟨hchecked, by decide +kernel⟩
  · rw [upOnly, Machine.run_cons, hfirst]
    decide

end Sample

end Gateway
end Conest
