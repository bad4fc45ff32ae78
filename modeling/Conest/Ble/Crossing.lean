import Conest.Ble.LinkTable

/-!
# Runs of the link table, and crossed links

A run is a list of operations on one core. The invariant gives its bounds, `step_next` that no id is
given out twice, and `waits_run` the step that queued each packet that waits.

Two devices may connect to each other at the same time. Each is then offered two connections to one
peer, one where it is the central and one where it is the peripheral, and keeps the one that
`preferred` names (`linkTo_offer`); the two sides prefer the same connection.
-/

namespace Conest
namespace Ble

open Lib List

/-- An operation on a core. -/
inductive Act where
  | reserve (peer : ℕ) (role : Role) (now : ℕ)
  | admitPeripheral (peer : ℕ) (limit : ℕ) (now : ℕ)
  | ready (id : ℕ) (limit : ℕ)
  | remove (id : ℕ) (failed : Bool) (now : ℕ)
  | expire (now : ℕ)
  | enqueue (id : ℕ) (bytes : Bytes)
  | broadcast (bytes : Bytes) (except : Option ℕ)
  | takeWrite (id : ℕ)
  | receive (id : ℕ) (bytes : Bytes) (now : ℕ)
  | poll
  | clearLinks

namespace Core

/-- One operation, and the id of the link that it makes. -/
def step (c : Core) : Act → Core × Option ℕ
  | .reserve peer role now => c.reserve peer role now
  | .admitPeripheral peer limit now =>
    ((c.admitPeripheral peer limit now).1,
      if (c.peerLink peer .peripheral).isSome then none else (c.reserve peer .peripheral now).2)
  | .ready id limit => ((c.ready id limit).1, none)
  | .remove id failed now => (c.remove id failed now, none)
  | .expire now => (c.expire now, none)
  | .enqueue id bytes => ((c.enqueue id bytes).1, none)
  | .broadcast bytes except => ((c.broadcast bytes except).1, none)
  | .takeWrite id => ((c.takeWrite id).1, none)
  | .receive id bytes now => (c.receive id bytes now, none)
  | .poll => (c.poll.1, none)
  | .clearLinks => (c.clearLinks, none)

end Core

def machine : Machine Core Act (Option ℕ) := ⟨Core.step⟩

/-- The core of an adapter with this address after a run. -/
def run (address : ℕ) (acts : List Act) : Core := machine.run (Core.new address) acts

/-- The ids of the links that a run makes. -/
def ids (address : ℕ) (acts : List Act) : List ℕ :=
  (machine.outputs (Core.new address) acts).filterMap fun made => made

/-- The operation queues the packet, on this link or on all but one. -/
def Act.Queues (a : Act) (n : ℕ) (p : Bytes) : Prop :=
  a = .enqueue n p ∨ ∃ except, a = .broadcast p except

/-! ### One operation -/

namespace Core

variable {c : Core} {a : Act}

theorem next_admitPeripheral (c : Core) (peer limit now : ℕ) :
    (c.admitPeripheral peer limit now).1.next =
      if (c.peerLink peer .peripheral).isSome then c.next
      else (c.reserve peer .peripheral now).1.next := by
  unfold admitPeripheral
  cases c.peerLink peer .peripheral with
  | some n => rfl
  | none =>
  simp only [Option.isSome_none, Bool.false_eq_true, if_false]
  split
  next d heq => rw [heq]
  next d n heq =>
  rw [heq]
  split
  · exact next_ready d n limit
  · rw [(drops_remove _ n false now).next]
    exact next_ready d n limit

theorem step_next (c : Core) (a : Act) :
    ((c.step a).2 = none ∧ (c.step a).1.next = c.next) ∨
      ((c.step a).2 = some (c.next + 1) ∧ (c.step a).1.next = c.next + 1) := by
  cases a with
  | reserve peer role now => exact next_reserve c peer role now
  | admitPeripheral peer limit now =>
    show ((if (c.peerLink peer .peripheral).isSome then none
      else (c.reserve peer .peripheral now).2) = none ∧ (c.admitPeripheral peer limit now).1.next = _) ∨
      ((if (c.peerLink peer .peripheral).isSome then none
        else (c.reserve peer .peripheral now).2) = some _ ∧
          (c.admitPeripheral peer limit now).1.next = _)
    rw [next_admitPeripheral]
    split
    · exact .inl ⟨rfl, rfl⟩
    · exact next_reserve c peer .peripheral now
  | ready id limit => exact .inl ⟨rfl, next_ready c id limit⟩
  | remove id failed now => exact .inl ⟨rfl, (drops_remove c id failed now).next⟩
  | expire now => exact .inl ⟨rfl, (drops_expire c now).next⟩
  | enqueue id bytes => exact .inl ⟨rfl, next_enqueue c id bytes⟩
  | broadcast bytes except => exact .inl ⟨rfl, next_broadcast c bytes except⟩
  | takeWrite id => exact .inl ⟨rfl, next_takeWrite c id⟩
  | receive id bytes now => exact .inl ⟨rfl, next_receive c id bytes now⟩
  | poll => exact .inl ⟨rfl, rfl⟩
  | clearLinks => exact .inl ⟨rfl, rfl⟩

theorem step_cases (c : Core) (a : Act) :
    Quiet c (c.step a).1 ∨
      ∃ p, Core.Queues c (c.step a).1 p ∧
        ((∃ except, a = .broadcast p except) ∨
          ∃ n, a = .enqueue n p ∧ ∀ k q, (c.step a).1.Waits k q → c.Waits k q ∨ k = n) := by
  cases a with
  | reserve peer role now => exact .inl (quiet_reserve c peer role now)
  | admitPeripheral peer limit now => exact .inl (quiet_admitPeripheral c peer limit now)
  | ready id limit => exact .inl (quiet_ready c id limit)
  | remove id failed now => exact .inl (quiet_remove c id failed now)
  | expire now => exact .inl (quiet_expire c now)
  | enqueue id bytes =>
    exact .inr ⟨bytes, queues_enqueue c id bytes, .inr ⟨id, rfl, waits_enqueue c id bytes⟩⟩
  | broadcast bytes except =>
    exact .inr ⟨bytes, queues_broadcast c bytes except, .inl ⟨except, rfl⟩⟩
  | takeWrite id => exact .inl (quiet_takeWrite c id)
  | receive id bytes now => exact .inl (quiet_receive c id bytes now)
  | poll => exact .inl (quiet_poll c)
  | clearLinks => exact .inl (quiet_clearLinks c)

theorem sound_step (h : c.Sound) (a : Act) : (c.step a).1.Sound := by
  rcases step_cases c a with hquiet | ⟨p, hqueues, -⟩
  · exact hquiet.sound h
  · exact hqueues.sound h

theorem address_step (c : Core) (a : Act) : (c.step a).1.local = c.local := by
  rcases step_cases c a with hquiet | ⟨p, hqueues, -⟩
  · exact hquiet.address
  · exact hqueues.address

theorem waits_step {n : ℕ} {p : Bytes} (h : (c.step a).1.Waits n p) :
    c.Waits n p ∨ a.Queues n p ∧ c.Takes n p := by
  rcases step_cases c a with hquiet | ⟨q, hqueues, hact⟩
  · exact .inl (hquiet.waits n p h)
  rcases hqueues.waits n p h with hold | ⟨rfl, htakes⟩
  · exact .inl hold
  rcases hact with ⟨except, heq⟩ | ⟨k, heq, hother⟩
  · exact .inr ⟨.inr ⟨except, heq⟩, htakes⟩
  · rcases hother n p h with hold | rfl
    · exact .inl hold
    · exact .inr ⟨.inl heq, htakes⟩

end Core

/-! ### Runs -/

theorem sound_run (address : ℕ) (acts : List Act) : (run address acts).Sound :=
  Machine.run_induction (I := Core.Sound) (fun _ a _ h => Core.sound_step h a)
    (Core.sound_new address)

theorem address_run (address : ℕ) (acts : List Act) : (run address acts).local = address :=
  Machine.run_induction
    (fun c a _ h => (Core.address_step c a).trans h) rfl

theorem ids_sorted (c : Core) (acts : List Act) :
    ((machine.outputs c acts).filterMap fun made => made).Pairwise (· < ·) ∧
      ∀ n ∈ (machine.outputs c acts).filterMap fun made => made, c.next < n := by
  induction acts generalizing c with
  | nil => exact ⟨List.Pairwise.nil, fun n hn => by cases hn⟩
  | cons a acts ih =>
  obtain ⟨hsorted, hnew⟩ := ih (c.step a).1
  rw [Machine.outputs_cons]
  show (((c.step a).2 :: machine.outputs (c.step a).1 acts).filterMap _).Pairwise _ ∧ _
  rcases Core.step_next c a with ⟨hmade, hnext⟩ | ⟨hmade, hnext⟩
  · rw [hnext] at hnew
    rw [show (machine.step c a).2 = none from hmade, hmade]
    exact ⟨hsorted, hnew⟩
  rw [hnext] at hnew
  rw [show (machine.step c a).2 = some (c.next + 1) from hmade, hmade]
  refine ⟨List.Pairwise.cons hnew hsorted, fun n hn => ?_⟩
  rcases mem_cons.mp hn with rfl | hn
  · exact Nat.lt_succ_self c.next
  · exact (Nat.lt_succ_self c.next).trans (hnew n hn)

/-- **Each packet that waits** was queued by a step of the run, and was then no longer than the
link's limit. -/
theorem waits_run (address : ℕ) (acts : List Act) (n : ℕ) (p : Bytes)
    (h : (run address acts).Waits n p) : ∃ before a after, acts = before ++ a :: after ∧
      a.Queues n p ∧ (run address before).Takes n p := by
  induction acts using reverseRecOn with
  | nil =>
    obtain ⟨link, hget, -⟩ := h
    cases hget
  | append_singleton acts a ih =>
  have hrun : run address (acts ++ [a]) = ((run address acts).step a).1 :=
    machine.run_append (Core.new address) acts [a]
  rw [hrun] at h
  rcases Core.waits_step h with hold | ⟨hqueues, htakes⟩
  · obtain ⟨before, b, after, heq, hqueues, htakes⟩ := ih hold
    refine ⟨before, b, after ++ [a], ?_, hqueues, htakes⟩
    rw [heq, append_assoc]
    rfl
  · exact ⟨acts, a, [], rfl, hqueues, htakes⟩

/-! ### Crossed links -/

def Role.other : Role → Role
  | .central => .peripheral
  | .peripheral => .central

namespace Core

variable {c : Core} {n : ℕ} {link : Link} {peer : ℕ} {role : Role} {now : ℕ}

theorem place_of_room (hroom : c.links.size < maxLinks) (hid : c.next < u64Max) :
    (c.place peer role now).2 = some (c.next + 1) ∧
      (c.place peer role now).1.links.get (c.next + 1) = some (Link.new peer role now) := by
  rcases place_cases c peer role now with ⟨-, hnot⟩ | ⟨-, -, heq⟩
  · exact absurd ⟨(drops_expire c now).size.trans_lt hroom, hid⟩ hnot
  rw [heq]
  refine ⟨rfl, ?_⟩
  show ((c.expire now).links.insert (c.next + 1) (Link.new peer role now)).get (c.next + 1) = _
  rw [OrderedMap.get_insert, if_pos rfl]

theorem size_remove_lt (hget : c.links.get n = some link) (failed : Bool) (now : ℕ) :
    (c.remove n failed now).links.size < c.links.size := by
  have hlt := OrderedMap.size_remove_lt hget
  unfold remove
  rw [hget]
  simp only
  split
  · exact hlt
  · exact hlt

/-- **A link that displaces the crossed one is made** as long as there are ids. -/
theorem reserve_of_crossed (h : c.Sound) (hlink : c.linkTo peer = some (n, link))
    (hrole : link.role ≠ role) (hpreferred : role = c.preferred peer) (hid : c.next < u64Max) :
    (c.reserve peer role now).2 = some (c.next + 1) ∧
      (c.reserve peer role now).1.links.get (c.next + 1) = some (Link.new peer role now) := by
  obtain ⟨hget, hpeer⟩ := of_linkTo hlink
  have hknown := h.known n link hget
  rw [hpeer] at hknown
  have hunknown : ¬ (peer = c.local ∨ peer = 0) := by
    rintro (hlocal | hzero)
    · exact hknown.1 hlocal
    · exact hknown.2 hzero
  have hcross : ¬ (link.role = role ∨ role ≠ c.preferred peer) := by
    rintro (hsame | hnot)
    · exact hrole hsame
    · exact hnot hpreferred
  have hreserve : c.reserve peer role now = (c.remove n false now).place peer role now := by
    unfold reserve
    rw [if_neg hunknown, hlink]
    exact if_neg hcross
  have hnext := (drops_remove c n false now).next
  rw [hreserve, ← hnext]
  -- the crossed link made room
  apply place_of_room ((size_remove_lt hget false now).trans_le h.links_le)
  rw [hnext]
  exact hid

theorem reserve_refused (hlink : c.linkTo peer = some (n, link))
    (hkept : link.role = c.preferred peer) (hrole : role ≠ link.role) :
    c.reserve peer role now = (c, none) := by
  unfold reserve
  split
  · rfl
  rw [hlink]
  apply if_pos
  right
  rw [← hkept]
  exact hrole

theorem reserve_first (hlocal : peer ≠ c.local) (hzero : peer ≠ 0) (hfree : c.linkTo peer = none)
    (hroom : c.links.size < maxLinks) (hid : c.next < u64Max)
    (hbackoff : role = .central → (c.backoff.get peer).any (fun b => decide (now < b.1)) = false) :
    (c.reserve peer role now).1.links.get (c.next + 1) = some (Link.new peer role now) := by
  have hunknown : ¬ (peer = c.local ∨ peer = 0) := by
    rintro (h | h)
    · exact hlocal h
    · exact hzero h
  have hreserve : c.reserve peer role now = c.place peer role now := by
    unfold reserve
    rw [if_neg hunknown, hfree]
    apply if_neg
    rintro ⟨hcentral, hwaits⟩
    rw [hbackoff hcentral] at hwaits
    cases hwaits
  rw [hreserve]
  exact (place_of_room hroom hid).2

theorem Sound.linkTo_of_get (h : c.Sound) (hget : c.links.get n = some link) :
    c.linkTo link.peer = some (n, link) := by
  cases hlink : c.linkTo link.peer with
  | none => exact absurd rfl (linkTo_eq_none.mp hlink n link hget)
  | some entry =>
  obtain ⟨k, other⟩ := entry
  obtain ⟨hother, hpeer⟩ := of_linkTo hlink
  have hkn := h.one_per_peer k n other link hother hget hpeer
  subst hkn
  rw [hget] at hother
  cases hother
  rfl

/-- Both connections to a peer are offered, first the one in the direction `first`. -/
def offer (c : Core) (peer : ℕ) (first : Role) (t₁ t₂ : ℕ) : Core :=
  ((c.reserve peer first t₁).1.reserve peer first.other t₂).1

/-- A core can take both connections that are offered, from the time `t` on: it has no link to the
peer, a free slot, and two ids left, and it does not leave the peer alone where it is to be the
central of the first. -/
structure Open (c : Core) (peer : ℕ) (first : Role) (t : ℕ) : Prop where
  free : c.linkTo peer = none
  slot : c.links.size < maxLinks
  ids : c.next + 2 ≤ u64Max
  welcome : first = .central → (c.backoff.get peer).any (fun b => decide (t < b.1)) = false

/-- The core has one link to the peer, in this direction. -/
def KeepsOnly (c : Core) (peer : ℕ) (role : Role) : Prop :=
  ∃ n link, c.links.get n = some link ∧ link.peer = peer ∧ link.role = role ∧
    ∀ k other, c.links.get k = some other → other.peer = peer → k = n

section

variable (h : c.Sound) (hlocal : peer ≠ c.local) (hzero : peer ≠ 0) (first : Role) {t₁ : ℕ}
  (hopen : c.Open peer first t₁) (t₂ : ℕ)

include h hlocal hzero first hopen t₂

/-- **Of both connections the preferred one is kept**, whichever was offered first. -/
theorem linkTo_offer : ∃ n link, (c.offer peer first t₁ t₂).linkTo peer = some (n, link) ∧
      link.role = c.preferred peer := by
  have hids := hopen.ids
  have hid : c.next < u64Max := by omega
  have hmade := @reserve_first c peer first t₁ hlocal hzero hopen.free hopen.slot hid
    hopen.welcome
  have hsound := h.reserve peer first t₁
  have hlink : (c.reserve peer first t₁).1.linkTo peer =
      some (c.next + 1, Link.new peer first t₁) := hsound.linkTo_of_get hmade
  have haddress := (quiet_reserve c peer first t₁).address
  have hpreferred : (c.reserve peer first t₁).1.preferred peer = c.preferred peer := by
    unfold preferred
    rw [haddress]
  have hother : first.other ≠ first := by
    cases first with
    | central => exact fun h => Role.noConfusion h
    | peripheral => exact fun h => Role.noConfusion h
  unfold offer
  by_cases hfirst : first = c.preferred peer
  · -- the preferred one came first, and the other is refused
    have hrefused := @reserve_refused _ _ _ peer first.other t₂ hlink
      (hfirst.trans hpreferred.symm) hother
    rw [hrefused]
    exact ⟨_, _, hlink, hfirst⟩
  -- the preferred one comes second, and displaces the first
  have hsecond : first.other = (c.reserve peer first t₁).1.preferred peer := by
    rw [hpreferred]
    revert hfirst
    cases first with
    | central =>
      cases c.preferred peer with
      | central => exact fun hne => absurd rfl hne
      | peripheral => exact fun _ => rfl
    | peripheral =>
      cases c.preferred peer with
      | central => exact fun _ => rfl
      | peripheral => exact fun hne => absurd rfl hne
  have hnext : (c.reserve peer first t₁).1.next < u64Max := by
    rcases next_reserve c peer first t₁ with ⟨-, hn⟩ | ⟨-, hn⟩
    · rw [hn]
      exact hid
    · omega
  have hplaced := (@reserve_of_crossed _ _ _ peer first.other t₂ hsound hlink hother.symm hsecond
    hnext).2
  exact ⟨_, _, (hsound.reserve peer first.other t₂).linkTo_of_get hplaced,
    hsecond.trans hpreferred⟩

theorem keepsOnly_offer : (c.offer peer first t₁ t₂).KeepsOnly peer (c.preferred peer) := by
  obtain ⟨n, link, hlink, hrole⟩ := linkTo_offer h hlocal hzero first hopen t₂
  obtain ⟨hget, hpeer⟩ := of_linkTo hlink
  have hsound : (c.offer peer first t₁ t₂).Sound :=
    (h.reserve peer first t₁).reserve peer first.other t₂
  refine ⟨n, link, hget, hpeer, hrole, fun k other hk hother => ?_⟩
  exact hsound.one_per_peer k n other link hk hget (hother.trans hpeer.symm)

end

end Core

/-- **The BLE link table**, after a run. -/
structure LinkTable (address : ℕ) (acts : List Act) : Prop where
  links_le : (run address acts).links.size ≤ maxLinks
  one_per_peer : ∀ n n' link link', (run address acts).links.get n = some link →
    (run address acts).links.get n' = some link' → link.peer = link'.peer → n = n'
  ids_distinct : (ids address acts).Nodup
  /-- The count of queued bytes is their sum, and the queue has its bounds. -/
  queues : ∀ n link, (run address acts).links.get n = some link → link.Bounded
  /-- A packet that waits is no longer than the limit that its link had when it was queued. -/
  queued : ∀ n p, (run address acts).Waits n p → ∃ before a after, acts = before ++ a :: after ∧
    a.Queues n p ∧ (run address before).Takes n p
  events_le : (run address acts).events.length ≤ maxEvents
  backoff_le : (run address acts).backoff.size ≤ maxBackoff
  displaces : ∀ peer role now n old, (run address acts).linkTo peer = some (n, old) →
    old.role ≠ role → role = (run address acts).preferred peer →
      (run address acts).next < u64Max →
        ((run address acts).reserve peer role now).2 = some ((run address acts).next + 1)
  /-- Two adapters that are each offered both connections between them keep the same one, whose
  central is the lower address. -/
  agrees : ∀ address' acts', address ≠ address' → address ≠ 0 → address' ≠ 0 →
    ∀ first t₁ t₂ first' u₁ u₂, (run address acts).Open address' first t₁ →
      (run address' acts').Open address first' u₁ →
        ((run address acts).offer address' first t₁ t₂).KeepsOnly address'
            (if address < address' then .central else .peripheral) ∧
          ((run address' acts').offer address first' u₁ u₂).KeepsOnly address
            (if address < address' then .peripheral else .central)

theorem link_table (address : ℕ) (acts : List Act) : LinkTable address acts := by
  have hsound := sound_run address acts
  constructor
  · exact hsound.links_le
  · exact hsound.one_per_peer
  · exact (ids_sorted (Core.new address) acts).1.imp ne_of_lt
  · exact hsound.bounded
  · exact waits_run address acts
  · exact hsound.events_le
  · exact hsound.backoff_le
  · intro peer role now n old hlink hrole hpreferred hid
    exact (Core.reserve_of_crossed hsound hlink hrole hpreferred hid).1
  · intro address' acts' hne hzero hzero' first t₁ t₂ first' u₁ u₂ hopen hopen'
    have hlocal := address_run address acts
    have hlocal' := address_run address' acts'
    constructor
    · have hkeeps := Core.keepsOnly_offer hsound (hlocal.symm ▸ hne.symm) hzero' first hopen t₂
      unfold Core.preferred at hkeeps
      rw [hlocal] at hkeeps
      exact hkeeps
    have hkeeps := Core.keepsOnly_offer (sound_run address' acts') (hlocal'.symm ▸ hne) hzero first'
      hopen' u₂
    unfold Core.preferred at hkeeps
    rw [hlocal'] at hkeeps
    -- the other side's lower address is this side's higher one
    have hrole : (if address' < address then Role.central else .peripheral) =
        if address < address' then .peripheral else .central := by
      rcases lt_or_gt_of_ne hne with hlt | hgt
      · rw [if_pos hlt, if_neg (not_lt.mpr (le_of_lt hlt))]
      · rw [if_pos hgt, if_neg (not_lt.mpr (le_of_lt hgt))]
    rw [hrole] at hkeeps
    exact hkeeps

namespace Sample

def lowered : List Act :=
  [.reserve 5 .central 0, .ready 1 100, .enqueue 1 (List.replicate 50 0), .ready 1 20]

def spent (n : ℕ) : List Act := (List.replicate n [.reserve 5 .central 0, .clearLinks]).flatten

theorem run_spent (n k : ℕ) (h : k + n ≤ u64Max) :
    machine.run { Core.new 1 with next := k } (spent n) = { Core.new 1 with next := k + n } := by
  induction n generalizing k with
  | zero => rfl
  | succ n ih =>
  have hplace : (Core.reserve { Core.new 1 with next := k } 5 .central 0).1.clearLinks =
      { Core.new 1 with next := k + 1 } := by
    have hid : k + 1 ≤ u64Max := by omega
    show (if k + 1 ≤ u64Max then _ else _ : Core × Option ℕ).1.clearLinks = _
    rw [if_pos hid]
    rfl
  show machine.run (Core.reserve { Core.new 1 with next := k } 5 .central 0).1.clearLinks
    (spent n) = _
  rw [hplace, ih (k + 1) (by omega)]
  show ({ Core.new 1 with next := k + 1 + n } : Core) = _
  rw [Nat.add_assoc, Nat.add_comm 1 n]

def lastId : List Act := spent (u64Max - 1) ++ [.reserve 5 .peripheral 0]

def backedOff : List Act := [.reserve 2 .central 0, .remove 1 true 0]

theorem run_lastId : run 1 lastId =
    { Core.new 1 with
      next := u64Max
      links := OrderedMap.empty.insert u64Max (Link.new 5 .peripheral 0) } := by
  have hspent : machine.run (Core.new 1) (spent (u64Max - 1)) =
      { Core.new 1 with next := u64Max - 1 } := by
    have hrun := run_spent (u64Max - 1) 0 (by decide)
    exact hrun
  unfold run lastId
  rw [Machine.run_append, hspent]
  rfl

/-- **Three ways out**: a limit that is lowered under a packet that waits, a crossed link that is
dropped when no id is left, and a device that leaves its peer alone, so that both are peripherals. -/
theorem link_table_exceptions :
    (∃ n link p limit, (run 1 lowered).links.get n = some link ∧ p ∈ link.queue ∧
      link.limit = some limit ∧ limit < p.length) ∧
    (∃ n old, (run 1 lastId).linkTo 5 = some (n, old) ∧ old.role ≠ .central ∧
      Role.central = (run 1 lastId).preferred 5 ∧
      ((run 1 lastId).reserve 5 .central 0).2 = none) ∧
    ((run 1 backedOff).links.size = 0 ∧ ∃ n link n' link',
      ((run 1 backedOff).offer 2 .central 0 0).linkTo 2 = some (n, link) ∧
      ((run 2 []).offer 1 .peripheral 0 0).linkTo 1 = some (n', link') ∧
      link.role = .peripheral ∧ link'.role = .peripheral) := by
  refine ⟨?_, ?_, ?_⟩
  · refine ⟨1, _, replicate 50 0, 20, rfl, mem_singleton_self _, rfl, ?_⟩
    decide
  · rw [run_lastId]
    exact ⟨u64Max, _, rfl, fun h => Role.noConfusion h, rfl, rfl⟩
  · exact ⟨rfl, 2, _, 1, _, rfl, rfl, rfl, rfl⟩

end Sample

end Ble
end Conest
