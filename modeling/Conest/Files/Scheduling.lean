import Conest.Files.Scheduler

/-!
# What the scheduler keeps

`Scheduled` is the invariant of a scheduler: at most four requests, of at most three peers, each of a
provider that offers its piece. Apart from `place`, which `next_spec` justifies, an operation only
takes requests away (`Keeps`), so that what is left to show is that no request stays whose provider
is gone (`Scheduled.of_keeps`).

`ledger` reads a scheduler as a ledger of reservations whose tokens are the numbers of the request
objects. Every operation is a sequence of its steps, and the ledger's own rules say that no piece is
verified and asked for, and that an object is never outstanding again.
-/

namespace Conest
namespace Files
namespace GroupFileScheduler

open Lib List Option

variable {s t u : GroupFileScheduler} {manifest : GroupFileManifest} {now : DateTime}
  {allowed : DartString → Bool → Bool} {piece : ℤ} {peer : DartString}
  {request : GroupPieceRequest}

/-- The peer of the request is a provider that offers its piece. -/
def Offered (s : GroupFileScheduler) (request : GroupPieceRequest) : Prop :=
  ∃ provider, s.providers.get request.peer = some provider ∧ request.piece ∈ provider.pieces

/-- The invariant. -/
structure Scheduled (s : GroupFileScheduler) : Prop where
  size_le : s.requests.size ≤ 4
  peers_le : s.active.card ≤ 3
  filed : ∀ piece request, s.requests.get piece = some request → request.piece = piece
  offered : ∀ piece request, s.requests.get piece = some request → s.Offered request
  generation : s.generation = Int64.ofNat s.increments

theorem scheduled_new : new.Scheduled where
  size_le := Nat.zero_le 4
  peers_le := Nat.zero_le 3
  filed := by
    intro piece request h
    cases h
  offered := by
    intro piece request h
    cases h
  generation := rfl

/-! ### Operations that take requests away -/

/-- The requests of `t` are some of those of `s`. -/
def Keeps (s t : GroupFileScheduler) : Prop := ∃ p, t.requests = s.requests.filter p

theorem keeps_of_eq (h : t.requests = s.requests) : Keeps s t := by
  refine ⟨fun _ _ => true, ?_⟩
  rw [h]
  apply LinkedMap.ext_entries
  show s.requests.entries = s.requests.entries.filter fun _ => true
  exact (filter_eq_self.mpr fun _ _ => rfl).symm

theorem Keeps.trans (h : Keeps s t) (h' : Keeps t u) : Keeps s u := by
  obtain ⟨p, hp⟩ := h
  obtain ⟨q, hq⟩ := h'
  refine ⟨fun k v => q k v && p k v, ?_⟩
  rw [hq, hp, LinkedMap.filter_filter]

theorem Keeps.get (h : Keeps s t) (hget : t.requests.get piece = some request) :
    s.requests.get piece = some request := by
  obtain ⟨p, hp⟩ := h
  rw [hp, LinkedMap.get_filter] at hget
  exact (filter_eq_some_iff.mp hget).1

theorem Keeps.size_le (h : Keeps s t) : t.requests.size ≤ s.requests.size := by
  obtain ⟨p, hp⟩ := h
  rw [hp]
  exact LinkedMap.size_filter_le s.requests p

theorem mem_active : peer ∈ s.active ↔ ∃ entry ∈ s.requests.entries, entry.2.peer = peer := by
  unfold active
  rw [List.mem_toFinset, List.mem_map]

theorem Keeps.active_subset (h : Keeps s t) : t.active ⊆ s.active := by
  obtain ⟨p, hp⟩ := h
  intro peer hpeer
  rw [mem_active, hp] at hpeer
  obtain ⟨entry, hentry, hpeer⟩ := hpeer
  exact mem_active.mpr ⟨entry, (LinkedMap.mem_entries_filter.mp hentry).1, hpeer⟩

/-- **Taking requests away keeps the invariant** where those that stay are offered. -/
theorem Scheduled.of_keeps (h : s.Scheduled) (hkeeps : Keeps s t)
    (hgeneration : t.generation = Int64.ofNat t.increments)
    (hoffered : ∀ piece request, t.requests.get piece = some request → t.Offered request) :
    t.Scheduled where
  size_le := hkeeps.size_le.trans h.size_le
  peers_le := (Finset.card_le_card hkeeps.active_subset).trans h.peers_le
  filed := fun piece request hget => h.filed piece request (hkeeps.get hget)
  offered := hoffered
  generation := hgeneration

/-- As above, where nothing but requests and blocks changes. -/
structure Narrows (s t : GroupFileScheduler) : Prop where
  keeps : Keeps s t
  providers : t.providers = s.providers
  verified : t.verified = s.verified
  generation : t.generation = s.generation
  increments : t.increments = s.increments

theorem Narrows.refl : Narrows s s := ⟨keeps_of_eq rfl, rfl, rfl, rfl, rfl⟩

theorem Narrows.trans (h : Narrows s t) (h' : Narrows t u) : Narrows s u where
  keeps := h.keeps.trans h'.keeps
  providers := h'.providers.trans h.providers
  verified := h'.verified.trans h.verified
  generation := h'.generation.trans h.generation
  increments := h'.increments.trans h.increments

theorem Scheduled.narrow (h : s.Scheduled) (hnarrow : Narrows s t) : t.Scheduled := by
  apply h.of_keeps hnarrow.keeps
  · rw [hnarrow.generation, hnarrow.increments]
    exact h.generation
  · intro piece request hget
    unfold Offered
    rw [hnarrow.providers]
    exact h.offered piece request (hnarrow.keeps.get hget)

theorem narrows_block (h : s.block peer piece now = some t) : Narrows s t := by
  obtain ⟨deadline, -, rfl⟩ := map_eq_some_iff.mp h
  exact ⟨keeps_of_eq rfl, rfl, rfl, rfl, rfl⟩

theorem narrows_retain (s : GroupFileScheduler) (p : GroupPieceRequest → Bool) :
    Narrows s (s.retain p) := ⟨⟨fun _ => p, rfl⟩, rfl, rfl, rfl, rfl⟩

theorem narrows_withdraw (s : GroupFileScheduler) (piece : ℤ) : Narrows s (s.withdraw piece) :=
  ⟨⟨fun piece' _ => decide (piece' ≠ piece), rfl⟩, rfl, rfl, rfl, rfl⟩

theorem narrows_unblockExpired (s : GroupFileScheduler) (now : DateTime) :
    Narrows s (s.unblockExpired now) := ⟨keeps_of_eq rfl, rfl, rfl, rfl, rfl⟩

theorem narrows_dropStalled (requests : List GroupPieceRequest) (s : GroupFileScheduler) :
    Narrows s (dropStalled now requests s).1 := by
  induction requests generalizing s with
  | nil => exact Narrows.refl
  | cons request rest ih =>
  have hwithdraw := narrows_withdraw s request.piece
  rw [dropStalled]
  cases hblock : (s.withdraw request.piece).block request.peer request.piece now with
  | none => exact hwithdraw
  | some blocked => exact (hwithdraw.trans (narrows_block hblock)).trans (ih blocked)

theorem narrows_failed (s : GroupFileScheduler) (request : GroupPieceRequest) (now : DateTime) :
    Narrows s (s.failed request now) := by
  unfold failed
  split
  · have hwithdraw := narrows_withdraw s request.piece
    show Narrows s (((s.withdraw request.piece).block request.peer request.piece now).getD
      (s.withdraw request.piece))
    cases hblock : (s.withdraw request.piece).block request.peer request.piece now with
    | none => exact hwithdraw
    | some blocked => exact hwithdraw.trans (narrows_block hblock)
  · exact Narrows.refl

/-! ### The operations on providers and verified pieces -/

theorem requests_reset (s : GroupFileScheduler) :
    s.reset.requests = s.requests.filter fun _ _ => false := by
  apply LinkedMap.ext_entries
  show [] = s.requests.entries.filter fun _ => false
  exact (filter_eq_nil_iff.mpr fun _ _ => Bool.false_ne_true).symm

theorem requests_removeProvider (s : GroupFileScheduler) (peer : DartString) :
    (s.removeProvider peer).requests =
      s.requests.filter fun _ request => decide (request.peer ≠ peer) := rfl

theorem updateProvider_cases (manifest : GroupFileManifest) (s : GroupFileScheduler)
    (peer : DartString) (pieces : List ℤ) (lan : Bool) :
    s.updateProvider manifest peer pieces lan = s ∨
      (s.updateProvider manifest peer pieces lan).requests =
          (s.requests.filter fun piece request =>
            !(decide (request.peer = peer) && decide (piece ∉ pieces.toFinset))) ∧
        (s.updateProvider manifest peer pieces lan).providers =
          s.providers.put peer ⟨pieces.toFinset, lan⟩ := by
  unfold updateProvider
  split
  · exact .inr ⟨rfl, rfl⟩
  · exact .inl rfl

theorem markDurable_cases (s : GroupFileScheduler) (request : GroupPieceRequest) :
    (s.markDurable request).1 = s ∨
      s.requests.get request.piece = some request ∧
        (s.markDurable request).1.requests = s.requests.remove request.piece ∧
        (s.markDurable request).1.verified = insert request.piece s.verified := by
  unfold markDurable
  split
  next hout => exact .inr ⟨of_decide_eq_true hout, rfl, rfl⟩
  · exact .inl rfl

theorem restoreVerified_cases (manifest : GroupFileManifest) (s : GroupFileScheduler)
    (pieces : List ℤ) :
    s.restoreVerified manifest pieces = s ∨
      (s.restoreVerified manifest pieces).requests =
          (s.requests.filter fun piece _ => decide (piece ∉ pieces.toFinset)) ∧
        (s.restoreVerified manifest pieces).verified = s.verified ∪ pieces.toFinset := by
  unfold restoreVerified
  split
  · exact .inr ⟨rfl, rfl⟩
  · exact .inl rfl

/-- What the operations on providers and verified pieces leave as it is. -/
structure SameCount (s t : GroupFileScheduler) : Prop where
  generation : t.generation = s.generation
  increments : t.increments = s.increments

theorem sameCount_updateProvider (manifest : GroupFileManifest) (s : GroupFileScheduler)
    (peer : DartString) (pieces : List ℤ) (lan : Bool) :
    SameCount s (s.updateProvider manifest peer pieces lan) := by
  unfold updateProvider
  split
  · exact ⟨rfl, rfl⟩
  · exact ⟨rfl, rfl⟩

theorem verified_updateProvider (manifest : GroupFileManifest) (s : GroupFileScheduler)
    (peer : DartString) (pieces : List ℤ) (lan : Bool) :
    (s.updateProvider manifest peer pieces lan).verified = s.verified := by
  unfold updateProvider
  split
  · rfl
  · rfl

theorem sameCount_markDurable (s : GroupFileScheduler) (request : GroupPieceRequest) :
    SameCount s (s.markDurable request).1 := by
  unfold markDurable
  split
  · exact ⟨rfl, rfl⟩
  · exact ⟨rfl, rfl⟩

theorem providers_markDurable (s : GroupFileScheduler) (request : GroupPieceRequest) :
    (s.markDurable request).1.providers = s.providers := by
  unfold markDurable
  split
  · rfl
  · rfl

theorem sameCount_restoreVerified (manifest : GroupFileManifest) (s : GroupFileScheduler)
    (pieces : List ℤ) :
    SameCount s (s.restoreVerified manifest pieces) := by
  unfold restoreVerified
  split
  · exact ⟨rfl, rfl⟩
  · exact ⟨rfl, rfl⟩

theorem providers_restoreVerified (manifest : GroupFileManifest) (s : GroupFileScheduler)
    (pieces : List ℤ) :
    (s.restoreVerified manifest pieces).providers = s.providers := by
  unfold restoreVerified
  split
  · rfl
  · rfl

theorem Scheduled.generation_of (h : s.Scheduled) (hsame : SameCount s t) :
    t.generation = Int64.ofNat t.increments := by
  rw [hsame.generation, hsame.increments]
  exact h.generation

theorem Scheduled.reset (h : s.Scheduled) : s.reset.Scheduled := by
  refine h.of_keeps ⟨_, requests_reset s⟩ ?_ ?_
  · show s.generation + 1 = Int64.ofNat (s.increments + 1)
    rw [h.generation, Int64.ofNat_add]
    rfl
  · intro piece request hget
    cases hget

theorem Scheduled.updateProvider (h : s.Scheduled) (pieces : List ℤ) (lan : Bool) :
    (s.updateProvider manifest peer pieces lan).Scheduled := by
  have hsame := sameCount_updateProvider manifest s peer pieces lan
  rcases updateProvider_cases manifest s peer pieces lan with
    heq | ⟨hrequests, hproviders⟩
  · rw [heq]
    exact h
  refine h.of_keeps ⟨_, hrequests⟩ (h.generation_of hsame) ?_
  intro piece request hget
  rw [hrequests, LinkedMap.get_filter, filter_eq_some_iff] at hget
  obtain ⟨hget, hstays⟩ := hget
  have hpiece := h.filed piece request hget
  unfold Offered
  rw [hproviders, LinkedMap.get_put]
  split
  next hpeer =>
    refine ⟨_, rfl, ?_⟩
    rw [hpiece]
    by_contra hnot
    simp [hpeer, hnot] at hstays
  · exact h.offered piece request hget

theorem Scheduled.removeProvider (h : s.Scheduled) (peer : DartString) :
    (s.removeProvider peer).Scheduled := by
  refine h.of_keeps ⟨_, requests_removeProvider s peer⟩ h.generation ?_
  intro piece request hget
  rw [requests_removeProvider, LinkedMap.get_filter, filter_eq_some_iff] at hget
  obtain ⟨hget, hpeer⟩ := hget
  show ∃ provider, (s.providers.remove peer).get request.peer = some provider ∧
    request.piece ∈ provider.pieces
  rw [LinkedMap.get_remove, if_neg (of_decide_eq_true hpeer)]
  exact h.offered piece request hget

theorem Scheduled.markDurable (h : s.Scheduled) (request : GroupPieceRequest) :
    (s.markDurable request).1.Scheduled := by
  have hsame := sameCount_markDurable s request
  rcases markDurable_cases s request with heq | ⟨-, hrequests, -⟩
  · rw [heq]
    exact h
  refine h.of_keeps ⟨_, hrequests⟩ (h.generation_of hsame) ?_
  intro piece other hget
  rw [hrequests, LinkedMap.get_remove] at hget
  unfold Offered
  rw [providers_markDurable]
  split at hget
  · cases hget
  · exact h.offered piece other hget

theorem Scheduled.restoreVerified (h : s.Scheduled) (pieces : List ℤ) :
    (s.restoreVerified manifest pieces).Scheduled := by
  have hsame := sameCount_restoreVerified manifest s pieces
  rcases restoreVerified_cases manifest s pieces with heq | ⟨hrequests, -⟩
  · rw [heq]
    exact h
  refine h.of_keeps ⟨_, hrequests⟩ (h.generation_of hsame) ?_
  intro piece request hget
  rw [hrequests, LinkedMap.get_filter, filter_eq_some_iff] at hget
  unfold Offered
  rw [providers_restoreVerified]
  exact h.offered piece request hget.1

/-! ### Placing a request -/

theorem Scheduled.increment (h : s.Scheduled) : s.increment.Scheduled := by
  refine h.of_keeps (keeps_of_eq rfl) ?_ ?_
  · show s.generation + 1 = Int64.ofNat (s.increments + 1)
    rw [h.generation, Int64.ofNat_add]
    rfl
  · exact h.offered

theorem active_place (s : GroupFileScheduler) (request : GroupPieceRequest)
    (h : s.requests.get request.piece = none) :
    (s.place request).active = insert request.peer s.active := by
  unfold active place
  rw [LinkedMap.entries_put_of_not_mem (LinkedMap.get_eq_none.mp h), List.map_append]
  ext peer
  simp only [List.map_cons, List.map_nil, List.mem_toFinset, List.mem_append, List.mem_singleton,
    Finset.mem_insert]
  exact or_comm

theorem of_mem_peersFor (h : peer ∈ s.peersFor now allowed piece) :
    (∃ provider, s.providers.get peer = some provider ∧ piece ∈ provider.pieces ∧
      allowed peer provider.lan = true) ∧ s.isBlocked peer piece now = false ∧
      (s.active.card < 3 ∨ peer ∈ s.active) := by
  have hmay := (mem_filter.mp h).2
  cases hget : s.providers.get peer with
  | none =>
    rw [hget] at hmay
    cases hmay
  | some provider =>
    rw [hget] at hmay
    simp only [Bool.and_eq_true, Bool.or_eq_true, decide_eq_true_eq, Bool.not_eq_true'] at hmay
    obtain ⟨⟨⟨hpiece, hblocked⟩, hallowed⟩, hroom⟩ := hmay
    exact ⟨⟨provider, rfl, hpiece, hallowed⟩, hblocked, hroom⟩

theorem Scheduled.place (h : s.Scheduled) (hfew : s.requests.size < 4)
    (hnext : s.next manifest now allowed = some (piece, peer)) (deadline : DateTime) :
    (s.increment.place (s.increment.request piece peer deadline)).Scheduled := by
  obtain ⟨-, hfree, hpeers⟩ := next_spec hnext
  obtain ⟨⟨provider, hprovider, hpiece, -⟩, -, hroom⟩ := of_mem_peersFor hpeers
  -- a request of the new state is the new one or one of the old
  have hget : ∀ piece' request',
      (s.requests.put piece (s.increment.request piece peer deadline)).get piece' = some request' →
      (piece' = piece ∧ request' = s.increment.request piece peer deadline) ∨
        s.requests.get piece' = some request' := by
    intro piece' request' hput
    rw [LinkedMap.get_put] at hput
    split at hput
    · next heq =>
      cases hput
      exact .inl ⟨heq, rfl⟩
    · exact .inr hput
  constructor
  · have hsize := size_place s.increment
      (s.increment.request piece peer deadline) hfree
    have hincrement : s.increment.requests.size = s.requests.size := rfl
    omega
  · rw [active_place s.increment
      (s.increment.request piece peer deadline) hfree]
    show (insert peer s.active).card ≤ 3
    rcases hroom with hroom | hmem
    · exact (Finset.card_insert_le peer s.active).trans hroom
    · rw [Finset.insert_eq_of_mem hmem]
      exact h.peers_le
  · intro piece' request' hput
    rcases hget piece' request' hput with ⟨rfl, rfl⟩ | hold
    · rfl
    · exact h.filed piece' request' hold
  · intro piece' request' hput
    rcases hget piece' request' hput with ⟨rfl, rfl⟩ | hold
    · exact ⟨provider, hprovider, hpiece⟩
    · exact h.offered piece' request' hold
  · exact h.increment.generation

/-! ### The ledger -/

/-- The reservations of a scheduler, by the numbers of the request objects. -/
def ledger (s : GroupFileScheduler) : Ledger ℤ ℕ where
  opened := fun piece => (s.requests.get piece).map GroupPieceRequest.identity
  done := s.verified
  issued := { n | n ≤ s.increments }

theorem ledger_new : new.ledger.Sound where
  not_done := by
    intro piece token h
    cases h
  issued := by
    intro piece token h
    cases h

theorem Keeps.narrows (h : Keeps s t) : Ledger.Narrows t.ledger.opened s.ledger := by
  intro piece token hopen
  obtain ⟨request, hget, rfl⟩ := map_eq_some_iff.mp hopen
  exact map_eq_some_iff.mpr ⟨request, h.get hget, rfl⟩

theorem Keeps.step (h : Keeps s t) (hverified : t.verified = s.verified)
    (hincrements : t.increments = s.increments) : Ledger.Step s.ledger t.ledger := by
  have hstep := Ledger.Step.withdraw t.ledger.opened h.narrows
  have hledger : t.ledger = { s.ledger with opened := t.ledger.opened } := by
    unfold ledger
    rw [hverified, hincrements]
  rw [hledger]
  exact hstep

theorem Narrows.step (h : Narrows s t) : Ledger.Step s.ledger t.ledger :=
  h.keeps.step h.verified h.increments

theorem step_increment (s : GroupFileScheduler) : Ledger.Step s.ledger s.increment.ledger :=
  Ledger.Step.discard { n | n ≤ s.increments + 1 }
    fun _ hn => Nat.le_succ_of_le hn

theorem steps_reset (s : GroupFileScheduler) : Ledger.Steps s.ledger s.reset.ledger := by
  have hforget : Ledger.Step s.ledger ⟨fun _ => none, ∅, s.ledger.issued⟩ := Ledger.Step.forget
  have hdiscard : Ledger.Step (⟨fun _ => none, ∅, s.ledger.issued⟩ : Ledger ℤ ℕ)
      ⟨fun _ => none, ∅, { n | n ≤ s.increments + 1 }⟩ :=
    Ledger.Step.discard _ fun _ hn => Nat.le_succ_of_le hn
  have hledger : s.reset.ledger = ⟨fun _ => none, ∅, { n | n ≤ s.increments + 1 }⟩ := by
    unfold ledger GroupFileScheduler.reset
    simp
  rw [hledger]
  exact Relation.ReflTransGen.head hforget (Relation.ReflTransGen.single hdiscard)

theorem steps_updateProvider (manifest : GroupFileManifest) (s : GroupFileScheduler)
    (peer : DartString) (pieces : List ℤ) (lan : Bool) :
    Ledger.Steps s.ledger (s.updateProvider manifest peer pieces lan).ledger := by
  rcases updateProvider_cases manifest s peer pieces lan with
    heq | ⟨hrequests, -⟩
  · rw [heq]
  · have hkeeps : Keeps s (s.updateProvider manifest peer pieces lan) := ⟨_, hrequests⟩
    exact Relation.ReflTransGen.single (hkeeps.step (verified_updateProvider manifest s peer pieces lan)
      (sameCount_updateProvider manifest s peer pieces lan).increments)

theorem step_removeProvider (s : GroupFileScheduler) (peer : DartString) :
    Ledger.Step s.ledger (s.removeProvider peer).ledger :=
  Keeps.step ⟨_, requests_removeProvider s peer⟩ rfl rfl

theorem steps_markDurable (s : GroupFileScheduler) (request : GroupPieceRequest) :
    Ledger.Steps s.ledger (s.markDurable request).1.ledger := by
  have hincrements := (sameCount_markDurable s request).increments
  rcases markDurable_cases s request with heq | ⟨hget, hrequests, hverified⟩
  · rw [heq]
  have hopen : s.ledger.opened request.piece = some request.identity :=
    map_eq_some_iff.mpr ⟨request, hget, rfl⟩
  have hstep := Ledger.Step.complete request.piece request.identity hopen
  have hremoved : (fun piece => ((s.requests.remove request.piece).get piece).map
      GroupPieceRequest.identity) = Function.update s.ledger.opened request.piece none := by
    ext1 piece
    rw [LinkedMap.get_remove, Function.update_apply]
    split
    · rfl
    · rfl
  have hledger : (s.markDurable request).1.ledger =
      ⟨Function.update s.ledger.opened request.piece none, insert request.piece s.ledger.done,
        s.ledger.issued⟩ := by
    rw [← hremoved]
    unfold ledger
    rw [hrequests, hverified, hincrements, Finset.coe_insert]
  rw [hledger]
  exact Relation.ReflTransGen.single hstep

theorem steps_restoreVerified (manifest : GroupFileManifest) (s : GroupFileScheduler)
    (pieces : List ℤ) :
    Ledger.Steps s.ledger (s.restoreVerified manifest pieces).ledger := by
  have hincrements := (sameCount_restoreVerified manifest s pieces).increments
  rcases restoreVerified_cases manifest s pieces with heq | ⟨hrequests, hverified⟩
  · rw [heq]
  have hkeeps : Keeps s (s.restoreVerified manifest pieces) := ⟨_, hrequests⟩
  have hgone : ∀ piece ∈ (↑pieces.toFinset : Set ℤ),
      (s.restoreVerified manifest pieces).ledger.opened piece = none := by
    intro piece hpiece
    show ((s.restoreVerified manifest pieces).requests.get piece).map
      GroupPieceRequest.identity = none
    rw [hrequests, LinkedMap.get_filter, map_eq_none_iff, filter_eq_none_iff]
    intro request _ hnot
    exact of_decide_eq_true hnot hpiece
  have hstep := Ledger.Step.restore (↑pieces.toFinset) _ hkeeps.narrows hgone
  have hledger : (s.restoreVerified manifest pieces).ledger =
      ⟨(s.restoreVerified manifest pieces).ledger.opened, s.ledger.done ∪ ↑pieces.toFinset,
        s.ledger.issued⟩ := by
    unfold ledger
    rw [hverified, hincrements, Finset.coe_union]
  rw [hledger]
  exact Relation.ReflTransGen.single hstep

theorem step_place (h : s.next manifest now allowed = some (piece, peer)) (deadline : DateTime) :
    Ledger.Step s.ledger
      (s.increment.place (s.increment.request piece peer deadline)).ledger := by
  obtain ⟨hunverified, hfree, -⟩ := next_spec h
  have hstep := Ledger.Step.grant (l := s.ledger) piece (s.increments + 1)
    (map_eq_none_iff.mpr hfree) hunverified (Nat.not_succ_le_self s.increments)
  have hopened : (s.increment.place (s.increment.request piece peer deadline)).ledger.opened =
      Function.update s.ledger.opened piece (some (s.increments + 1)) := by
    ext1 piece'
    show ((s.requests.put piece _).get piece').map GroupPieceRequest.identity = _
    rw [LinkedMap.get_put, Function.update_apply]
    split
    · rfl
    · rfl
  have hissued : { n | n ≤ s.increments + 1 } = insert (s.increments + 1) s.ledger.issued := by
    ext n
    show n ≤ s.increments + 1 ↔ n = s.increments + 1 ∨ n ≤ s.increments
    omega
  have hledger : (s.increment.place (s.increment.request piece peer deadline)).ledger =
      { s.ledger with
        opened := Function.update s.ledger.opened piece (some (s.increments + 1))
        issued := insert (s.increments + 1) s.ledger.issued } := by
    rw [← hopened, ← hissued]
    rfl
  rw [hledger]
  exact hstep

/-! ### What an operation does -/

/-- From `s` an operation leads to `t` and makes the request objects `made`. -/
structure Changes (s : GroupFileScheduler) (made : List GroupPieceRequest)
    (t : GroupFileScheduler) : Prop where
  scheduled : s.Scheduled → t.Scheduled
  steps : Ledger.Steps s.ledger t.ledger
  increments_le : s.increments ≤ t.increments
  /-- The new objects have new numbers, in order. -/
  sorted : made.Pairwise fun q q' => q.identity < q'.identity
  new : ∀ q ∈ made, s.increments < q.identity ∧ q.identity ≤ t.increments
  generation : s.Scheduled → ∀ q ∈ made, q.generation = Int64.ofNat q.identity
  outstanding : ∀ piece q, t.requests.get piece = some q →
    s.requests.get piece = some q ∨ q ∈ made

theorem Keeps.changes (h : Keeps s t) (hscheduled : s.Scheduled → t.Scheduled)
    (hsteps : Ledger.Steps s.ledger t.ledger) (hle : s.increments ≤ t.increments) :
    Changes s [] t where
  scheduled := hscheduled
  steps := hsteps
  increments_le := hle
  sorted := List.Pairwise.nil
  new := by
    intro q hq
    cases hq
  generation := by
    intro _ q hq
    cases hq
  outstanding := fun _ _ hget => .inl (h.get hget)

theorem Narrows.changes (h : Narrows s t) : Changes s [] t :=
  h.keeps.changes (fun hs => hs.narrow h) (Relation.ReflTransGen.single h.step)
    (le_of_eq h.increments.symm)

theorem Changes.trans {made made' : List GroupPieceRequest} (h : Changes s made t)
    (h' : Changes t made' u) : Changes s (made ++ made') u where
  scheduled := fun hs => h'.scheduled (h.scheduled hs)
  steps := h.steps.trans h'.steps
  increments_le := h.increments_le.trans h'.increments_le
  sorted := by
    rw [pairwise_append]
    exact ⟨h.sorted, h'.sorted, fun q hq q' hq' => (h.new q hq).2.trans_lt (h'.new q' hq').1⟩
  new := by
    intro q hq
    rcases mem_append.mp hq with hq | hq
    · exact ⟨(h.new q hq).1, (h.new q hq).2.trans h'.increments_le⟩
    · exact ⟨h.increments_le.trans_lt (h'.new q hq).1, (h'.new q hq).2⟩
  generation := by
    intro hs q hq
    rcases mem_append.mp hq with hq | hq
    · exact h.generation hs q hq
    · exact h'.generation (h.scheduled hs) q hq
  outstanding := by
    intro piece q hget
    rcases h'.outstanding piece q hget with hget | hq
    · exact (h.outstanding piece q hget).imp_right (mem_append_left made')
    · exact .inr (mem_append_right made hq)

theorem changes_reset (s : GroupFileScheduler) : Changes s [] s.reset :=
  Keeps.changes ⟨_, requests_reset s⟩ Scheduled.reset (steps_reset s) (Nat.le_succ s.increments)

theorem changes_updateProvider (manifest : GroupFileManifest) (s : GroupFileScheduler)
    (peer : DartString) (pieces : List ℤ) (lan : Bool) :
    Changes s [] (s.updateProvider manifest peer pieces lan) := by
  refine Keeps.changes ?_ (fun hs => hs.updateProvider pieces lan)
    (steps_updateProvider manifest s peer pieces lan)
    (le_of_eq (sameCount_updateProvider manifest s peer pieces lan).increments.symm)
  rcases updateProvider_cases manifest s peer pieces lan with
    heq | ⟨hrequests, -⟩
  · exact keeps_of_eq (congrArg requests heq)
  · exact ⟨_, hrequests⟩

theorem changes_removeProvider (s : GroupFileScheduler) (peer : DartString) :
    Changes s [] (s.removeProvider peer) :=
  Keeps.changes ⟨_, requests_removeProvider s peer⟩ (fun hs => hs.removeProvider peer)
    (Relation.ReflTransGen.single (step_removeProvider s peer)) le_rfl

theorem changes_markDurable (s : GroupFileScheduler) (request : GroupPieceRequest) :
    Changes s [] (s.markDurable request).1 := by
  refine Keeps.changes ?_ (fun hs => hs.markDurable request) (steps_markDurable s request)
    (le_of_eq (sameCount_markDurable s request).increments.symm)
  rcases markDurable_cases s request with heq | ⟨-, hrequests, -⟩
  · exact keeps_of_eq (congrArg requests heq)
  · exact ⟨_, hrequests⟩

theorem changes_restoreVerified (manifest : GroupFileManifest) (s : GroupFileScheduler)
    (pieces : List ℤ) :
    Changes s [] (s.restoreVerified manifest pieces) := by
  refine Keeps.changes ?_ (fun hs => hs.restoreVerified pieces)
    (steps_restoreVerified manifest s pieces)
    (le_of_eq (sameCount_restoreVerified manifest s pieces).increments.symm)
  rcases restoreVerified_cases manifest s pieces with heq | ⟨hrequests, -⟩
  · exact keeps_of_eq (congrArg requests heq)
  · exact ⟨_, hrequests⟩

theorem changes_increment (s : GroupFileScheduler) : Changes s [] s.increment :=
  Keeps.changes (keeps_of_eq rfl) Scheduled.increment
    (Relation.ReflTransGen.single (step_increment s)) (Nat.le_succ s.increments)

theorem changes_place (hfew : s.requests.size < 4)
    (hnext : s.next manifest now allowed = some (piece, peer)) (deadline : DateTime) :
    Changes s [s.increment.request piece peer deadline]
      (s.increment.place (s.increment.request piece peer deadline)) where
  scheduled := fun hs => hs.place hfew hnext deadline
  steps := Relation.ReflTransGen.single (step_place hnext deadline)
  increments_le := Nat.le_succ s.increments
  sorted := pairwise_singleton _ _
  new := by
    intro q hq
    rw [mem_singleton] at hq
    subst hq
    exact ⟨Nat.lt_succ_self s.increments, le_rfl⟩
  generation := by
    intro hs q hq
    rw [mem_singleton] at hq
    subst hq
    exact hs.increment.generation
  outstanding := by
    intro piece' q hget
    have hput : (s.requests.put piece (s.increment.request piece peer deadline)).get piece' =
      some q := hget
    rw [LinkedMap.get_put] at hput
    split at hput
    · cases hput
      exact .inr mem_cons_self
    · exact .inl hput

theorem reserveLoop_of_none {timeout : ℤ} (h : s.next manifest now allowed = none) :
    reserveLoop manifest now timeout allowed s = ⟨s, [], true⟩ := by
  rw [reserveLoop]
  split
  · split
    · rfl
    next hnext =>
    rw [h] at hnext
    cases hnext
  · rfl

theorem reserveLoop_of_next {timeout : ℤ} {deadline : DateTime} (hfew : s.requests.size < 4)
    (h : s.next manifest now allowed = some (piece, peer)) (hadd : now.add timeout = some deadline) :
    reserveLoop manifest now timeout allowed s =
      let request := s.increment.request piece peer deadline
      let rest := reserveLoop manifest now timeout allowed (s.increment.place request)
      { rest with made := request :: rest.made } := by
  rw [reserveLoop, if_pos hfew]
  split
  · next hnext =>
    rw [h] at hnext
    cases hnext
  next hnext =>
  rw [h] at hnext
  cases hnext
  rw [hadd]

theorem reserveLoop_cases (manifest : GroupFileManifest) (now : DateTime) (timeout : ℤ)
    (allowed : DartString → Bool → Bool) (s : GroupFileScheduler) :
    reserveLoop manifest now timeout allowed s = ⟨s, [], true⟩ ∨
      reserveLoop manifest now timeout allowed s = ⟨s.increment, [], false⟩ ∨
      ∃ piece peer deadline, s.requests.size < 4 ∧
        s.next manifest now allowed = some (piece, peer) ∧
        reserveLoop manifest now timeout allowed s =
          let request := s.increment.request piece peer deadline
          let rest := reserveLoop manifest now timeout allowed (s.increment.place request)
          { rest with made := request :: rest.made } := by
  cases hnext : s.next manifest now allowed with
  | none => exact .inl (reserveLoop_of_none hnext)
  | some choice =>
  obtain ⟨piece, peer⟩ := choice
  by_cases hfew : s.requests.size < 4
  · cases hadd : now.add timeout with
    | none =>
      refine .inr (.inl ?_)
      rw [reserveLoop, if_pos hfew]
      split
      · next hnone =>
        rw [hnext] at hnone
        cases hnone
      · rw [hadd]
    | some deadline =>
      exact .inr (.inr ⟨piece, peer, deadline, hfew, rfl, reserveLoop_of_next hfew hnext hadd⟩)
  · left
    rw [reserveLoop, if_neg hfew]

/-- **The loop** changes nothing that is verified, and makes requests that keep the invariant. -/
theorem changes_reserveLoop (manifest : GroupFileManifest) (now : DateTime) (timeout : ℤ)
    (allowed : DartString → Bool → Bool) (s : GroupFileScheduler) :
    Changes s (reserveLoop manifest now timeout allowed s).made
        (reserveLoop manifest now timeout allowed s).scheduler ∧
      (reserveLoop manifest now timeout allowed s).scheduler.verified = s.verified := by
  -- induction on the free places: each turn that goes on takes one
  obtain ⟨n, hn⟩ : ∃ n, 4 - s.requests.size = n := ⟨_, rfl⟩
  induction n using Nat.strong_induction_on generalizing s with
  | _ n ih =>
  rcases reserveLoop_cases manifest now timeout allowed s with
    heq | heq | ⟨piece, peer, deadline, hfew, hnext, heq⟩
  · rw [heq]
    exact ⟨Narrows.refl.changes, rfl⟩
  · rw [heq]
    exact ⟨changes_increment s, rfl⟩
  · have hsize := size_place s.increment
      (s.increment.request piece peer deadline) (next_spec hnext).2.1
    have hincrement : s.increment.requests.size = s.requests.size := rfl
    obtain ⟨hrest, hverified⟩ := ih _ (by omega)
      (s.increment.place (s.increment.request piece peer deadline)) rfl
    rw [heq]
    exact ⟨(changes_place hfew hnext deadline).trans hrest, hverified⟩

theorem changes_reserve (manifest : GroupFileManifest) (s : GroupFileScheduler) (now : DateTime)
    (allowed : DartString → Bool → Bool) (timeout : ℤ) :
    Changes s (s.reserve manifest now allowed timeout).made
        (s.reserve manifest now allowed timeout).scheduler ∧
      (s.reserve manifest now allowed timeout).scheduler.verified = s.verified := by
  unfold reserve
  have hdrop := (narrows_unblockExpired s now).trans
    (@narrows_dropStalled now ((s.unblockExpired now).stalled now) (s.unblockExpired now))
  simp only
  split
  · -- the requests that are not allowed any more go as well
    have hallowed := hdrop.trans (narrows_retain _ fun request => allowed request.peer
      ((dropStalled now ((s.unblockExpired now).stalled now) (s.unblockExpired now)).1.lanOf
        request.peer))
    obtain ⟨hloop, hverified⟩ := changes_reserveLoop manifest now timeout allowed _
    exact ⟨hallowed.changes.trans hloop, hverified.trans hallowed.verified⟩
  · exact ⟨hdrop.changes, hdrop.verified⟩

end GroupFileScheduler
end Files
end Conest
