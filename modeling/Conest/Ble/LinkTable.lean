import Conest.Ble.Core
import Conest.Lib.Machine

/-!
# The bounds of the link table

`Sound` is the invariant of a core. Every operation either takes links away (`Sound.remove`), changes
one link and leaves its peer alone (`Sound.update`), or makes a link for a peer that has none where
there is room (`Sound.insert`); the operations are put together from these three.
-/

namespace Conest
namespace Ble

open Lib List Option

/-- The queue of a link keeps its bounds. -/
structure Link.Bounded (link : Link) : Prop where
  total : link.queuedBytes = (link.queue.map List.length).sum
  bytes_le : link.queuedBytes ≤ maxQueueBytes
  packets_le : link.queue.length ≤ maxQueuePackets
  packet : ∀ p ∈ link.queue, p ≠ [] ∧ p.length ≤ maxWrite
  limit_le : ∀ limit ∈ link.limit, limit ≤ maxWrite

theorem Link.bounded_new (peer : ℕ) (role : Role) (now : ℕ) : (Link.new peer role now).Bounded where
  total := rfl
  bytes_le := Nat.zero_le _
  packets_le := Nat.zero_le _
  packet := by
    intro p hp
    cases hp
  limit_le := by
    intro limit hlimit
    cases hlimit

theorem Link.Bounded.congr {link link' : Link} (h : link.Bounded) (hqueue : link'.queue = link.queue)
    (hbytes : link'.queuedBytes = link.queuedBytes) (hlimit : link'.limit = link.limit) :
    link'.Bounded where
  total := by
    rw [hbytes, hqueue]
    exact h.total
  bytes_le := by
    rw [hbytes]
    exact h.bytes_le
  packets_le := by
    rw [hqueue]
    exact h.packets_le
  packet := by
    rw [hqueue]
    exact h.packet
  limit_le := by
    rw [hlimit]
    exact h.limit_le

namespace Core

variable {c d : Core} {n : ℕ} {link : Link} {peer : ℕ} {role : Role} {now : ℕ}

variable {e : Core} {link' : Link}

/-- The invariant. -/
structure Sound (c : Core) : Prop where
  links_le : c.links.size ≤ maxLinks
  one_per_peer : ∀ n n' link link', c.links.get n = some link → c.links.get n' = some link' →
    link.peer = link'.peer → n = n'
  known : ∀ n link, c.links.get n = some link → link.peer ≠ c.local ∧ link.peer ≠ 0
  numbered : ∀ n link, c.links.get n = some link → n ≤ c.next
  bounded : ∀ n link, c.links.get n = some link → link.Bounded
  events_le : c.events.length ≤ maxEvents
  backoff_le : c.backoff.size ≤ maxBackoff
  next_le : c.next ≤ u64Max

theorem sound_new (address : ℕ) : (new address).Sound where
  links_le := Nat.zero_le _
  one_per_peer := by
    intro n n' link link' h
    cases h
  known := by
    intro n link h
    cases h
  numbered := by
    intro n link h
    cases h
  bounded := by
    intro n link h
    cases h
  events_le := Nat.zero_le _
  backoff_le := Nat.zero_le _
  next_le := Nat.zero_le _

/-! ### The three kinds of change -/

/-- What every operation keeps of a core where it takes links away. -/
structure Drops (c d : Core) : Prop where
  address : d.local = c.local
  next : d.next = c.next
  get : ∀ n link, d.links.get n = some link → c.links.get n = some link
  size : d.links.size ≤ c.links.size

theorem Drops.refl : Drops c c := ⟨rfl, rfl, fun _ _ h => h, le_refl _⟩

theorem Drops.trans (h : Drops c d) (h' : Drops d e) : Drops c e where
  address := h'.address.trans h.address
  next := h'.next.trans h.next
  get := fun n link hget => h.get n link (h'.get n link hget)
  size := h'.size.trans h.size

theorem Sound.of_drops (h : c.Sound) (hdrops : Drops c d) (hevents : d.events.length ≤ maxEvents)
    (hbackoff : d.backoff.size ≤ maxBackoff) : d.Sound where
  links_le := hdrops.size.trans h.links_le
  one_per_peer := fun n n' link link' hget hget' =>
    h.one_per_peer n n' link link' (hdrops.get n link hget) (hdrops.get n' link' hget')
  known := by
    intro n link hget
    rw [hdrops.address]
    exact h.known n link (hdrops.get n link hget)
  numbered := by
    intro n link hget
    rw [hdrops.next]
    exact h.numbered n link (hdrops.get n link hget)
  bounded := fun n link hget => h.bounded n link (hdrops.get n link hget)
  events_le := hevents
  backoff_le := hbackoff
  next_le := by
    rw [hdrops.next]
    exact h.next_le

theorem Sound.update (h : c.Sound) (hget : c.links.get n = some link)
    (hpeer : link'.peer = link.peer) (hbounded : link'.Bounded) : (c.update n link').Sound := by
  -- a link of the new table is the changed one or an old one, of a peer as before
  have hold : ∀ k l, (c.links.insert n link').get k = some l →
      ∃ l', c.links.get k = some l' ∧ l.peer = l'.peer ∧ l.Bounded := by
    intro k l hk
    rw [OrderedMap.get_insert] at hk
    split at hk
    · next heq =>
      cases hk
      exact ⟨link, heq ▸ hget, hpeer, hbounded⟩
    · exact ⟨l, hk, rfl, h.bounded k l hk⟩
  constructor
  · exact (OrderedMap.size_insert_of_get hget).trans h.links_le
  · intro k k' l l' hk hk' heq
    obtain ⟨m, hm, hpm, -⟩ := hold k l hk
    obtain ⟨m', hm', hpm', -⟩ := hold k' l' hk'
    exact h.one_per_peer k k' m m' hm hm' (by rw [← hpm, ← hpm', heq])
  · intro k l hk
    obtain ⟨m, hm, hpm, -⟩ := hold k l hk
    rw [hpm]
    exact h.known k m hm
  · intro k l hk
    obtain ⟨m, hm, -, -⟩ := hold k l hk
    exact h.numbered k m hm
  · intro k l hk
    exact (hold k l hk).choose_spec.2.2
  · exact h.events_le
  · exact h.backoff_le
  · exact h.next_le

/-- **A new link** for a peer that has none keeps the invariant where there is room. -/
theorem Sound.insert (h : c.Sound) (hroom : c.links.size < maxLinks) (hnext : c.next + 1 ≤ u64Max)
    (hfree : ∀ n link, c.links.get n = some link → link.peer ≠ peer)
    (hknown : peer ≠ c.local ∧ peer ≠ 0) :
    ({ c with next := c.next + 1,
              links := c.links.insert (c.next + 1) (Link.new peer role now) } : Core).Sound := by
  have hold : ∀ k l, (c.links.insert (c.next + 1) (Link.new peer role now)).get k = some l →
      (k = c.next + 1 ∧ l = Link.new peer role now) ∨ c.links.get k = some l := by
    intro k l hk
    rw [OrderedMap.get_insert] at hk
    split at hk
    · next heq =>
      cases hk
      exact .inl ⟨heq, rfl⟩
    · exact .inr hk
  constructor
  · exact (OrderedMap.size_insert_le _ _ _).trans hroom
  · intro k k' l l' hk hk' heq
    rcases hold k l hk with ⟨rfl, rfl⟩ | hk
    · rcases hold k' l' hk' with ⟨rfl, -⟩ | hk'
      · rfl
      · exact absurd heq.symm (hfree k' l' hk')
    · rcases hold k' l' hk' with ⟨rfl, rfl⟩ | hk'
      · exact absurd heq (hfree k l hk)
      · exact h.one_per_peer k k' l l' hk hk' heq
  · intro k l hk
    rcases hold k l hk with ⟨-, rfl⟩ | hk
    · exact hknown
    · exact h.known k l hk
  · intro k l hk
    rcases hold k l hk with ⟨rfl, -⟩ | hk
    · exact le_refl _
    · exact (h.numbered k l hk).trans (Nat.le_succ _)
  · intro k l hk
    rcases hold k l hk with ⟨-, rfl⟩ | hk
    · exact Link.bounded_new peer role now
    · exact h.bounded k l hk
  · exact h.events_le
  · exact h.backoff_le
  · exact hnext

/-! ### Removing -/

theorem drops_remove (c : Core) (n : ℕ) (failed : Bool) (now : ℕ) : Drops c (c.remove n failed now) := by
  have hget : ∀ k link, (c.links.remove n).get k = some link → c.links.get k = some link := by
    intro k link hk
    rw [OrderedMap.get_remove] at hk
    split at hk
    · cases hk
    · exact hk
  unfold remove
  cases c.links.get n with
  | none => exact Drops.refl
  | some link =>
    simp only
    split
    · exact ⟨rfl, rfl, hget, OrderedMap.size_remove_le _ _⟩
    · exact ⟨rfl, rfl, hget, OrderedMap.size_remove_le _ _⟩

theorem events_remove (c : Core) (n : ℕ) (failed : Bool) (now : ℕ) :
    (c.remove n failed now).events = c.events := by
  unfold remove
  cases c.links.get n with
  | none => rfl
  | some link =>
    simp only
    split
    · rfl
    · rfl

theorem size_backoffRoom (h : c.backoff.size ≤ maxBackoff) (entry : ℕ × ℕ) :
    ((c.backoffRoom peer).insert peer entry).size ≤ maxBackoff := by
  unfold backoffRoom
  split
  · next hfull =>
    cases hmin : c.backoff.entries.argmin fun entry => entry.2.1 with
    | none =>
      -- a full map has a smallest entry
      rw [argmin_eq_none] at hmin
      have hempty : c.backoff.size = 0 := congrArg length hmin
      have hle := hfull.1
      rw [hempty] at hle
      exact absurd hle (by decide)
    | some first =>
    have hget : c.backoff.get first.1 = some first.2 :=
      OrderedMap.get_eq_some.mpr (argmin_mem hmin)
    have hlt := OrderedMap.size_remove_lt hget
    have hle := OrderedMap.size_insert_le (c.backoff.remove first.1) peer entry
    simp only
    omega
  next hroom =>
  by_cases hfull : maxBackoff ≤ c.backoff.size
  · have hcontains : c.backoff.contains peer = true := by
      by_contra hnot
      exact hroom ⟨hfull, by simpa using hnot⟩
    obtain ⟨old, hold⟩ := isSome_iff_exists.mp hcontains
    exact (OrderedMap.size_insert_of_get hold).trans h
  · have hle := OrderedMap.size_insert_le c.backoff peer entry
    omega

theorem backoff_remove (h : c.backoff.size ≤ maxBackoff) (n : ℕ) (failed : Bool) (now : ℕ) :
    (c.remove n failed now).backoff.size ≤ maxBackoff := by
  unfold remove
  cases c.links.get n with
  | none => exact h
  | some link =>
    simp only
    split
    · exact size_backoffRoom h _
    · exact h

theorem Sound.remove (h : c.Sound) (n : ℕ) (failed : Bool) (now : ℕ) :
    (c.remove n failed now).Sound := by
  apply h.of_drops (drops_remove c n failed now)
  · rw [events_remove]
    exact h.events_le
  · exact backoff_remove h.backoff_le n failed now

theorem drops_expire (c : Core) (now : ℕ) : Drops c (c.expire now) := by
  unfold expire
  generalize c.expired now = ns
  induction ns generalizing c with
  | nil => exact Drops.refl
  | cons n ns ih => exact (drops_remove c n true now).trans (ih _)

theorem Sound.expire (h : c.Sound) (now : ℕ) : (c.expire now).Sound := by
  unfold Core.expire
  generalize c.expired now = ns
  induction ns generalizing c with
  | nil => exact h
  | cons n ns ih => exact ih (h.remove n true now)

theorem Sound.clearLinks (h : c.Sound) : c.clearLinks.Sound := by
  apply h.of_drops
  · refine ⟨rfl, rfl, ?_, Nat.zero_le _⟩
    intro n link hget
    cases hget
  · exact Nat.zero_le _
  · exact h.backoff_le

/-! ### Reserving -/

theorem linkTo_eq_none : c.linkTo peer = none ↔ ∀ n link, c.links.get n = some link →
    link.peer ≠ peer := by
  unfold linkTo
  rw [find?_eq_none]
  constructor
  · intro h n link hget hpeer
    exact h (n, link) (OrderedMap.get_eq_some.mp hget) (decide_eq_true hpeer)
  · intro h entry hentry hpeer
    exact h entry.1 entry.2 (OrderedMap.get_eq_some.mpr hentry) (of_decide_eq_true hpeer)

theorem of_linkTo (h : c.linkTo peer = some (n, link)) :
    c.links.get n = some link ∧ link.peer = peer := by
  refine ⟨OrderedMap.get_eq_some.mpr (mem_of_find?_eq_some h), ?_⟩
  have hpeer := find?_some h
  simpa using hpeer

/-- What the end of a reservation does to a core: some links expire, and where there is room and an
id left, the new link takes the next id. -/
theorem place_cases (c : Core) (peer : ℕ) (role : Role) (now : ℕ) :
    (c.place peer role now = (c.expire now, none) ∧
        ¬ ((c.expire now).links.size < maxLinks ∧ c.next + 1 ≤ u64Max)) ∨
      ((c.expire now).links.size < maxLinks ∧ c.next + 1 ≤ u64Max ∧
        c.place peer role now =
          ({ c.expire now with next := c.next + 1, links := (c.expire now).links.insert (c.next + 1) (Link.new peer role now) },
            some (c.next + 1))) := by
  have hnext := (drops_expire c now).next
  unfold place
  simp only
  rw [hnext]
  split
  next hfull => exact .inl ⟨rfl, fun h => absurd h.1 (Nat.not_lt.mpr hfull)⟩
  next hroom =>
  split
  next hid => exact .inr ⟨Nat.lt_of_not_le hroom, hid, rfl⟩
  next hid => exact .inl ⟨rfl, fun h => hid h.2⟩

theorem Sound.place (h : c.Sound) (hfree : ∀ n link, c.links.get n = some link → link.peer ≠ peer)
    (hknown : peer ≠ c.local ∧ peer ≠ 0) (role : Role) (now : ℕ) :
    (c.place peer role now).1.Sound := by
  have hdrops := drops_expire c now
  rcases place_cases c peer role now with ⟨heq, -⟩ | ⟨hroom, hid, heq⟩
  · rw [heq]
    exact h.expire now
  rw [heq]
  have hexpired := h.expire now
  rw [← hdrops.next] at hid ⊢
  exact hexpired.insert hroom hid (fun n link hget => hfree n link (hdrops.get n link hget))
    (by rw [hdrops.address]; exact hknown)

theorem reserve_cases (c : Core) (peer : ℕ) (role : Role) (now : ℕ) :
    c.reserve peer role now = (c, none) ∨
      peer ≠ c.local ∧ peer ≠ 0 ∧
        ((c.linkTo peer = none ∧ c.reserve peer role now = c.place peer role now) ∨
          ∃ n old, c.linkTo peer = some (n, old) ∧ old.role ≠ role ∧ role = c.preferred peer ∧
            c.reserve peer role now = (c.remove n false now).place peer role now) := by
  unfold reserve
  split
  · exact .inl rfl
  next hknown =>
  rw [not_or] at hknown
  cases hlink : c.linkTo peer with
  | none =>
    simp only
    split
    · exact .inl rfl
    · exact .inr ⟨hknown.1, hknown.2, .inl ⟨trivial, rfl⟩⟩
  | some entry =>
  obtain ⟨n, old⟩ := entry
  simp only
  split
  · exact .inl rfl
  next hcross =>
  rw [not_or, not_not] at hcross
  exact .inr ⟨hknown.1, hknown.2, .inr ⟨n, old, rfl, hcross.1, hcross.2, rfl⟩⟩

theorem Sound.free_remove (h : c.Sound) (hlink : c.linkTo peer = some (n, link)) (now : ℕ) :
    ∀ k l, (c.remove n false now).links.get k = some l → l.peer ≠ peer := by
  obtain ⟨hget, hpeer⟩ := of_linkTo hlink
  intro k l hk heq
  have hold := (drops_remove c n false now).get k l hk
  have hkn := h.one_per_peer k n l link hold hget (heq.trans hpeer.symm)
  subst hkn
  have hgone : (c.remove k false now).links.get k = none := by
    unfold Core.remove
    rw [hget]
    show (c.links.remove k).get k = none
    rw [OrderedMap.get_remove, if_pos rfl]
  rw [hgone] at hk
  cases hk

theorem Sound.reserve (h : c.Sound) (peer : ℕ) (role : Role) (now : ℕ) :
    (c.reserve peer role now).1.Sound := by
  rcases reserve_cases c peer role now with
    heq | ⟨hlocal, hzero, ⟨hlink, heq⟩ | ⟨n, old, hlink, -, -, heq⟩⟩
  · rw [heq]
    exact h
  · rw [heq]
    exact h.place (linkTo_eq_none.mp hlink) ⟨hlocal, hzero⟩ role now
  · rw [heq]
    have hknown : peer ≠ (c.remove n false now).local ∧ peer ≠ 0 := by
      rw [(drops_remove c n false now).address]
      exact ⟨hlocal, hzero⟩
    exact (h.remove n false now).place (h.free_remove hlink now) hknown role now

/-! ### What is queued -/

/-- A packet waits on a link. -/
def Waits (c : Core) (n : ℕ) (p : Bytes) : Prop :=
  ∃ link, c.links.get n = some link ∧ p ∈ link.queue

/-- The link is ready, and its limit is no smaller than the packet. -/
def Takes (c : Core) (n : ℕ) (p : Bytes) : Prop :=
  ∃ link limit, c.links.get n = some link ∧ link.limit = some limit ∧ p.length ≤ limit

/-- An operation that queues nothing. -/
structure Quiet (c d : Core) : Prop where
  sound : c.Sound → d.Sound
  address : d.local = c.local
  waits : ∀ n p, d.Waits n p → c.Waits n p

theorem Quiet.refl : Quiet c c := ⟨fun h => h, rfl, fun _ _ h => h⟩

theorem Quiet.trans (h : Quiet c d) (h' : Quiet d e) : Quiet c e where
  sound := fun hc => h'.sound (h.sound hc)
  address := h'.address.trans h.address
  waits := fun n p hp => h.waits n p (h'.waits n p hp)

theorem Drops.waits (h : Drops c d) (n : ℕ) (p : Bytes) (hp : d.Waits n p) : c.Waits n p := by
  obtain ⟨link, hget, hmem⟩ := hp
  exact ⟨link, h.get n link hget, hmem⟩

theorem quiet_remove (c : Core) (n : ℕ) (failed : Bool) (now : ℕ) :
    Quiet c (c.remove n failed now) :=
  ⟨fun h => h.remove n failed now, (drops_remove c n failed now).address,
    (drops_remove c n failed now).waits⟩

theorem quiet_expire (c : Core) (now : ℕ) : Quiet c (c.expire now) :=
  ⟨fun h => h.expire now, (drops_expire c now).address, (drops_expire c now).waits⟩

theorem quiet_clearLinks (c : Core) : Quiet c c.clearLinks := by
  refine ⟨Sound.clearLinks, rfl, ?_⟩
  rintro n p ⟨link, hget, -⟩
  cases hget

theorem quiet_update (hget : c.links.get n = some link) (hpeer : link'.peer = link.peer)
    (hbounded : link.Bounded → link'.Bounded) (hqueue : ∀ p ∈ link'.queue, p ∈ link.queue) :
    Quiet c (c.update n link') := by
  refine ⟨fun h => h.update hget hpeer (hbounded (h.bounded n link hget)), rfl, ?_⟩
  rintro k p ⟨l, hk, hp⟩
  have hk' : (c.links.insert n link').get k = some l := hk
  rw [OrderedMap.get_insert] at hk'
  split at hk'
  · next heq =>
    cases hk'
    exact ⟨link, heq ▸ hget, hqueue p hp⟩
  · exact ⟨l, hk', hp⟩

theorem waits_place (c : Core) (peer : ℕ) (role : Role) (now : ℕ) (k : ℕ) (p : Bytes)
    (hp : (c.place peer role now).1.Waits k p) : c.Waits k p := by
  apply (drops_expire c now).waits k p
  rcases place_cases c peer role now with ⟨heq, -⟩ | ⟨-, -, heq⟩
  · rw [heq] at hp
    exact hp
  rw [heq] at hp
  obtain ⟨link, hget, hmem⟩ := hp
  have hget' : ((c.expire now).links.insert (c.next + 1) (Link.new peer role now)).get k =
    some link := hget
  rw [OrderedMap.get_insert] at hget'
  split at hget'
  · cases hget'
    cases hmem
  · exact ⟨link, hget', hmem⟩

theorem address_place (c : Core) (peer : ℕ) (role : Role) (now : ℕ) :
    (c.place peer role now).1.local = c.local := by
  rcases place_cases c peer role now with ⟨heq, -⟩ | ⟨-, -, heq⟩
  · rw [heq]
    exact (drops_expire c now).address
  · rw [heq]
    exact (drops_expire c now).address

theorem quiet_reserve (c : Core) (peer : ℕ) (role : Role) (now : ℕ) :
    Quiet c (c.reserve peer role now).1 := by
  refine ⟨fun h => h.reserve peer role now, ?_, fun k p => ?_⟩
  · rcases reserve_cases c peer role now with
      heq | ⟨-, -, ⟨-, heq⟩ | ⟨n, old, -, -, -, heq⟩⟩
    · rw [heq]
    · rw [heq, address_place]
    · rw [heq, address_place]
      exact (drops_remove c n false now).address
  rcases reserve_cases c peer role now with
    heq | ⟨-, -, ⟨-, heq⟩ | ⟨n, old, -, -, -, heq⟩⟩
  · rw [heq]
    exact fun hp => hp
  · rw [heq]
    exact waits_place c peer role now k p
  · rw [heq]
    exact fun hp => (drops_remove c n false now).waits k p
      (waits_place (c.remove n false now) peer role now k p hp)

theorem quiet_ready (c : Core) (n limit : ℕ) : Quiet c (c.ready n limit).1 := by
  unfold ready
  cases hget : c.links.get n with
  | none => exact Quiet.refl
  | some link =>
  simp only
  split
  · exact Quiet.refl
  have hupdate : Quiet c (c.update n { link with limit := some (min limit maxWrite) }) := by
    refine quiet_update hget rfl (fun h => ?_) fun p hp => hp
    refine ⟨h.total, h.bytes_le, h.packets_le, h.packet, ?_⟩
    intro limit' hlimit
    cases hlimit
    exact Nat.min_le_right limit maxWrite
  refine hupdate.trans ⟨fun h => ?_, rfl, fun _ _ hp => hp⟩
  refine h.of_drops ⟨rfl, rfl, fun _ _ hk => hk, le_refl _⟩ h.events_le ?_
  exact (OrderedMap.size_remove_le _ _).trans h.backoff_le

theorem quiet_admitPeripheral (c : Core) (peer limit now : ℕ) :
    Quiet c (c.admitPeripheral peer limit now).1 := by
  unfold admitPeripheral
  cases c.peerLink peer .peripheral with
  | some n => exact Quiet.refl
  | none =>
  have hreserve := quiet_reserve c peer .peripheral now
  simp only
  split
  · next d heq =>
    rw [heq] at hreserve
    exact hreserve
  next d n heq =>
  rw [heq] at hreserve
  have hready := hreserve.trans (quiet_ready d n limit)
  split
  · exact hready
  · exact hready.trans (quiet_remove _ n false now)

theorem quiet_takeWrite (c : Core) (n : ℕ) : Quiet c (c.takeWrite n).1 := by
  unfold takeWrite
  cases hget : c.links.get n with
  | none => exact Quiet.refl
  | some link =>
  simp only
  cases hqueue : link.queue with
  | nil => exact Quiet.refl
  | cons bytes queue =>
  refine quiet_update hget rfl (fun h => ?_) fun p hp => hqueue ▸ mem_cons_of_mem bytes hp
  -- the first packet's bytes are in the count
  have htotal := h.total
  rw [hqueue, map_cons, sum_cons] at htotal
  have hpackets := h.packets_le
  rw [hqueue] at hpackets
  refine ⟨?_, (Nat.sub_le _ _).trans h.bytes_le, Nat.le_of_succ_le hpackets, ?_, h.limit_le⟩
  · show link.queuedBytes - bytes.length = (queue.map length).sum
    omega
  · exact fun p hp => h.packet p (hqueue ▸ mem_cons_of_mem bytes hp)

theorem quiet_poll (c : Core) : Quiet c c.poll.1 := by
  refine ⟨fun h => ?_, rfl, fun _ _ hp => hp⟩
  refine h.of_drops ⟨rfl, rfl, fun _ _ hk => hk, le_refl _⟩ ?_ ?_
  · show (c.events.drop _).length ≤ maxEvents
    rw [length_drop]
    exact (Nat.sub_le _ _).trans h.events_le
  · exact h.backoff_le

/-! ### Reading -/

/-- Nothing but the events and the status changes. -/
structure SameLinks (c d : Core) : Prop where
  address : d.local = c.local
  next : d.next = c.next
  links : d.links = c.links
  backoff : d.backoff = c.backoff
  events : c.events.length ≤ maxEvents → d.events.length ≤ maxEvents

theorem SameLinks.trans (h : SameLinks c d) (h' : SameLinks d e) : SameLinks c e where
  address := h'.address.trans h.address
  next := h'.next.trans h.next
  links := h'.links.trans h.links
  backoff := h'.backoff.trans h.backoff
  events := fun hc => h'.events (h.events hc)

theorem SameLinks.drops (h : SameLinks c d) : Drops c d where
  address := h.address
  next := h.next
  get := by
    rw [h.links]
    exact fun _ _ hget => hget
  size := by rw [h.links]

theorem SameLinks.quiet (h : SameLinks c d) : Quiet c d := by
  refine ⟨fun hc => hc.of_drops h.drops (h.events hc.events_le) ?_, h.address, h.drops.waits⟩
  rw [h.backoff]
  exact hc.backoff_le

theorem sameLinks_dropInput (c : Core) : SameLinks c c.dropInput := ⟨rfl, rfl, rfl, rfl, fun h => h⟩

theorem sameLinks_pushEvent (c : Core) (event : Event) : SameLinks c (c.pushEvent event) := by
  unfold pushEvent
  split
  · refine ⟨rfl, rfl, rfl, rfl, fun h => ?_⟩
    have hpos : 0 < maxEvents := by decide
    show (c.events.tail ++ [event]).length ≤ maxEvents
    rw [length_append, length_tail, length_singleton]
    omega
  · refine ⟨rfl, rfl, rfl, rfl, fun _ => ?_⟩
    show (c.events ++ [event]).length ≤ maxEvents
    rw [length_append, length_singleton]
    omega

/-- What reading leaves of a link as it is. -/
structure SameQueue (link link' : Link) : Prop where
  peer : link'.peer = link.peer
  queue : link'.queue = link.queue
  queuedBytes : link'.queuedBytes = link.queuedBytes
  limit : link'.limit = link.limit

theorem SameQueue.trans {l₁ l₂ l₃ : Link} (h : SameQueue l₁ l₂) (h' : SameQueue l₂ l₃) :
    SameQueue l₁ l₃ where
  peer := h'.peer.trans h.peer
  queue := h'.queue.trans h.queue
  queuedBytes := h'.queuedBytes.trans h.queuedBytes
  limit := h'.limit.trans h.limit

theorem quiet_update_same (hget : c.links.get n = some link) (h : SameQueue link link') :
    Quiet c (c.update n link') :=
  quiet_update hget h.peer (fun hbounded => hbounded.congr h.queue h.queuedBytes h.limit)
    fun _ hp => h.queue ▸ hp

theorem sameQueue_count (link : Link) (now size : ℕ) :
    SameQueue link ((link.tick now).count size) := by
  unfold Link.tick Link.count
  split
  · exact ⟨rfl, rfl, rfl, rfl⟩
  · exact ⟨rfl, rfl, rfl, rfl⟩

theorem deliver_same (n now : ℕ) (packets : List Bytes) (c : Core) (link : Link) :
    SameLinks c (deliver n now packets c link).1 ∧ SameQueue link (deliver n now packets c link).2 := by
  induction packets generalizing c link with
  | nil => exact ⟨⟨rfl, rfl, rfl, rfl, fun h => h⟩, ⟨rfl, rfl, rfl, rfl⟩⟩
  | cons bytes rest ih =>
  unfold deliver
  simp only
  split
  · have hcount : SameQueue link link.countPacket := ⟨rfl, rfl, rfl, rfl⟩
    obtain ⟨hcore, hlink⟩ := ih c.dropInput link.countPacket
    exact ⟨(sameLinks_dropInput c).trans hcore, hcount.trans hlink⟩
  have hheard : SameQueue link { link.countPacket with heard := now } := ⟨rfl, rfl, rfl, rfl⟩
  obtain ⟨hcore, hlink⟩ := ih (c.pushEvent ⟨Core.id n, DartString.base64Encode bytes⟩)
    { link.countPacket with heard := now }
  exact ⟨(sameLinks_pushEvent c _).trans hcore, hheard.trans hlink⟩

theorem quiet_receive (c : Core) (n : ℕ) (bytes : Bytes) (now : ℕ) : Quiet c (c.receive n bytes now) := by
  unfold receive
  cases hget : c.links.get n with
  | none => exact Quiet.refl
  | some link =>
  have hcount := sameQueue_count link now bytes.length
  have hinput : ∀ input, SameQueue link { (link.tick now).count bytes.length with input } :=
    fun _ => ⟨hcount.peer, hcount.queue, hcount.queuedBytes, hcount.limit⟩
  simp only
  split
  · refine Quiet.trans ?_ (sameLinks_dropInput _).quiet
    exact quiet_update_same hget (hinput Reassembler.empty)
  split
  · next input _ =>
    refine Quiet.trans ?_ (sameLinks_dropInput _).quiet
    exact quiet_update_same hget (hinput input)
  next packets input _ =>
  -- the events are put in first, and then the link is
  obtain ⟨hcore, hlink⟩ := deliver_same n now packets c
    { (link.tick now).count bytes.length with input }
  have hget' := hget
  rw [← hcore.links] at hget'
  exact hcore.quiet.trans (quiet_update_same hget' ((hinput input).trans hlink))

/-! ### Queueing -/

/-- An operation that queues nothing but a packet, on links whose limits it fits. -/
structure Queues (c d : Core) (p : Bytes) : Prop where
  sound : c.Sound → d.Sound
  address : d.local = c.local
  limits : ∀ n link, d.links.get n = some link →
    ∃ link', c.links.get n = some link' ∧ link'.limit = link.limit
  waits : ∀ n q, d.Waits n q → c.Waits n q ∨ q = p ∧ c.Takes n p

variable {p : Bytes}

theorem Queues.refl : Queues c c p :=
  ⟨fun h => h, rfl, fun _ link hget => ⟨link, hget, rfl⟩, fun _ _ hq => .inl hq⟩

theorem Queues.trans (h : Queues c d p) (h' : Queues d e p) : Queues c e p where
  sound := fun hc => h'.sound (h.sound hc)
  address := h'.address.trans h.address
  limits := by
    intro n link hget
    obtain ⟨link', hget', hlimit'⟩ := h'.limits n link hget
    obtain ⟨link'', hget'', hlimit''⟩ := h.limits n link' hget'
    exact ⟨link'', hget'', hlimit''.trans hlimit'⟩
  waits := by
    intro n q hq
    rcases h'.waits n q hq with hq | ⟨rfl, link, limit, hget, hlimit, hle⟩
    · exact h.waits n q hq
    · -- the limit has not changed since
      obtain ⟨link', hget', hlimit'⟩ := h.limits n link hget
      exact .inr ⟨rfl, link', limit, hget', hlimit'.trans hlimit, hle⟩

theorem queues_enqueue (c : Core) (n : ℕ) (p : Bytes) : Queues c (c.enqueue n p).1 p := by
  unfold enqueue
  cases hget : c.links.get n with
  | none => exact Queues.refl
  | some link =>
  simp only
  split
  · exact Queues.refl
  next hfits =>
  rw [not_or, not_or, not_or, Nat.not_lt, Nat.not_le, Nat.not_lt] at hfits
  obtain ⟨hne, hlength, hpackets, hbytes⟩ := hfits
  have hpos : 0 < p.length := length_pos_iff.mpr hne
  obtain ⟨limit, hlimit, hle⟩ : ∃ limit, link.limit = some limit ∧ p.length ≤ limit := by
    cases hlimit : link.limit with
    | none =>
      rw [hlimit] at hlength
      exact absurd hpos (Nat.not_lt.mpr hlength)
    | some limit =>
      rw [hlimit] at hlength
      exact ⟨limit, rfl, hlength⟩
  have hnew : ∀ k l, (c.links.insert n { link with
      queue := link.queue ++ [p], queuedBytes := link.queuedBytes + p.length }).get k = some l →
      k = n ∧ l = { link with
        queue := link.queue ++ [p], queuedBytes := link.queuedBytes + p.length } ∨
      c.links.get k = some l := by
    intro k l hk
    rw [OrderedMap.get_insert] at hk
    split at hk
    · next heq =>
      cases hk
      exact .inl ⟨heq, rfl⟩
    · exact .inr hk
  refine ⟨fun h => h.update hget rfl ?_, rfl, ?_, ?_⟩
  · have hbounded := h.bounded n link hget
    refine ⟨?_, hbytes, ?_, ?_, hbounded.limit_le⟩
    · show link.queuedBytes + p.length = ((link.queue ++ [p]).map length).sum
      rw [map_append, sum_append, hbounded.total, map_singleton,
        sum_singleton]
    · show (link.queue ++ [p]).length ≤ maxQueuePackets
      rw [length_append]
      exact hpackets
    intro q hq
    rcases mem_append.mp hq with hq | hq
    · exact hbounded.packet q hq
    · rw [mem_singleton] at hq
      subst hq
      exact ⟨hne, hle.trans (hbounded.limit_le limit hlimit)⟩
  · intro k l hk
    rcases hnew k l hk with ⟨rfl, rfl⟩ | hk
    · exact ⟨link, hget, rfl⟩
    · exact ⟨l, hk, rfl⟩
  · rintro k q ⟨l, hk, hq⟩
    rcases hnew k l hk with ⟨rfl, rfl⟩ | hk
    · rcases mem_append.mp hq with hq | hq
      · exact .inl ⟨link, hget, hq⟩
      · exact .inr ⟨mem_singleton.mp hq, link, limit, hget, hlimit, hle⟩
    · exact .inl ⟨l, hk, hq⟩

theorem waits_enqueue (c : Core) (n : ℕ) (p : Bytes) (k : ℕ) (q : Bytes)
    (h : (c.enqueue n p).1.Waits k q) : c.Waits k q ∨ k = n := by
  unfold enqueue at h
  cases hget : c.links.get n with
  | none =>
    rw [hget] at h
    exact .inl h
  | some link =>
  rw [hget] at h
  simp only at h
  split at h
  · exact .inl h
  obtain ⟨l, hk, hq⟩ := h
  have hk' : (c.links.insert n { link with
    queue := link.queue ++ [p], queuedBytes := link.queuedBytes + p.length }).get k = some l := hk
  rw [OrderedMap.get_insert] at hk'
  split at hk'
  next heq => exact .inr heq
  · exact .inl ⟨l, hk', hq⟩

theorem queues_broadcast (c : Core) (p : Bytes) (except : Option ℕ) :
    Queues c (c.broadcast p except).1 p := by
  unfold broadcast
  generalize c.links.keys = ns
  generalize 0 = count
  induction ns generalizing c count with
  | nil => exact Queues.refl
  | cons n ns ih =>
  rw [foldl_cons]
  simp only
  split
  · exact ih c count
  · exact (queues_enqueue c n p).trans (ih _ _)

/-! ### Ids -/

theorem next_ready (c : Core) (n limit : ℕ) : (c.ready n limit).1.next = c.next := by
  unfold ready
  cases c.links.get n with
  | none => rfl
  | some link =>
    simp only
    split
    · rfl
    · rfl

theorem next_enqueue (c : Core) (n : ℕ) (p : Bytes) : (c.enqueue n p).1.next = c.next := by
  unfold enqueue
  cases c.links.get n with
  | none => rfl
  | some link =>
    simp only
    split
    · rfl
    · rfl

theorem next_broadcast (c : Core) (p : Bytes) (except : Option ℕ) :
    (c.broadcast p except).1.next = c.next := by
  unfold broadcast
  generalize c.links.keys = ns
  generalize 0 = count
  induction ns generalizing c count with
  | nil => rfl
  | cons n ns ih =>
  rw [foldl_cons]
  simp only
  split
  · exact ih c count
  · rw [ih, next_enqueue]

theorem next_takeWrite (c : Core) (n : ℕ) : (c.takeWrite n).1.next = c.next := by
  unfold takeWrite
  cases c.links.get n with
  | none => rfl
  | some link =>
    simp only
    split
    · rfl
    · rfl

theorem next_receive (c : Core) (n : ℕ) (bytes : Bytes) (now : ℕ) :
    (c.receive n bytes now).next = c.next := by
  unfold receive
  cases c.links.get n with
  | none => rfl
  | some link =>
  simp only
  split
  · rfl
  · split
    · rfl
    · exact (deliver_same n now _ c _).1.next

theorem next_place (c : Core) (peer : ℕ) (role : Role) (now : ℕ) :
    ((c.place peer role now).2 = none ∧ (c.place peer role now).1.next = c.next) ∨
      ((c.place peer role now).2 = some (c.next + 1) ∧
        (c.place peer role now).1.next = c.next + 1) := by
  rcases place_cases c peer role now with ⟨heq, -⟩ | ⟨-, -, heq⟩
  · rw [heq]
    exact .inl ⟨rfl, (drops_expire c now).next⟩
  · rw [heq]
    exact .inr ⟨rfl, rfl⟩

theorem next_reserve (c : Core) (peer : ℕ) (role : Role) (now : ℕ) :
    ((c.reserve peer role now).2 = none ∧ (c.reserve peer role now).1.next = c.next) ∨
      ((c.reserve peer role now).2 = some (c.next + 1) ∧
        (c.reserve peer role now).1.next = c.next + 1) := by
  rcases reserve_cases c peer role now with
    heq | ⟨-, -, ⟨-, heq⟩ | ⟨n, old, -, -, -, heq⟩⟩
  · rw [heq]
    exact .inl ⟨rfl, rfl⟩
  · rw [heq]
    exact next_place c peer role now
  · rw [heq, ← (drops_remove c n false now).next]
    exact next_place (c.remove n false now) peer role now

end Core

end Ble
end Conest
