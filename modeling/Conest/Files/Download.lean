import Conest.Files.Scheduling
import Conest.Lib.Machine

/-!
# Downloads of group files

A `GroupFileDownload` runs receives over one scheduler. A receive is suspended at `authorize`, at
`fetch`, at a second `authorize` and at `writePiece`; between two suspensions anything may happen to
the scheduler. `Act` lists what can: the operations of the scheduler, a turn of the pump, the start
of a receive and the resumption of one.
-/

namespace Conest
namespace Files

open Lib List Option

/-- What a receive waits for. -/
inductive Stage where
  | authorize
  | fetch
  | reauthorize
  | writePiece
  | done
deriving DecidableEq

structure Receive where
  request : GroupPieceRequest
  stage : Stage

structure GroupFileDownload where
  scheduler : GroupFileScheduler
  paused : Bool
  receives : List Receive
  /-- The request objects made so far. -/
  issued : List GroupPieceRequest

namespace GroupFileDownload

def new : GroupFileDownload := ⟨GroupFileScheduler.new, false, [], []⟩

/-- `!_paused && scheduler.stillAllowed(request, allowed)` -/
def mayGoOn (d : GroupFileDownload) (request : GroupPieceRequest)
    (allowed : DartString → Bool → Bool) : Bool :=
  !d.paused && d.scheduler.stillAllowed request allowed

/-- `_receive` up to its first suspension. -/
def startReceive (allowed : DartString → Bool → Bool) (now : DateTime) (d : GroupFileDownload)
    (request : GroupPieceRequest) : GroupFileDownload :=
  if d.mayGoOn request allowed then
    { d with receives := d.receives ++ [⟨request, .authorize⟩] }
  else
    { d with
      scheduler := d.scheduler.failed request now
      receives := d.receives ++ [⟨request, .done⟩] }

/-- The receive number `i` goes on to a stage. -/
def moveTo (d : GroupFileDownload) (i : ℕ) (receive : Receive) (stage : Stage) :
    GroupFileDownload :=
  { d with receives := d.receives.set i { receive with stage } }

/-- The receive gives up. -/
def giveUp (d : GroupFileDownload) (i : ℕ) (receive : Receive) (now : DateTime) :
    GroupFileDownload :=
  { d.moveTo i receive .done with scheduler := d.scheduler.failed receive.request now }

/-- `_receive` from one suspension to the next. `succeeded` says whether the awaited call gave what
was asked for: `authorize` may answer `false`, and every call may throw. -/
def resumeReceive (d : GroupFileDownload) (i : ℕ) (succeeded : Bool)
    (allowed : DartString → Bool → Bool) (now : DateTime) : GroupFileDownload :=
  match d.receives[i]? with
  | none => d
  | some receive =>
    if succeeded then
      match receive.stage with
      | .authorize => d.moveTo i receive .fetch
      | .fetch =>
        if d.mayGoOn receive.request allowed then d.moveTo i receive .reauthorize
        else d.giveUp i receive now
      | .reauthorize => d.moveTo i receive .writePiece
      | .writePiece =>
        { d.moveTo i receive .done with
          scheduler := (d.scheduler.markDurable receive.request).1 }
      | .done => d
    else if receive.stage = .done then d
    else d.giveUp i receive now

def reserve (manifest : GroupFileManifest) (d : GroupFileDownload) (now : DateTime)
    (allowed : DartString → Bool → Bool) (timeout : ℤ) : GroupFileDownload :=
  let reserved := d.scheduler.reserve manifest now allowed timeout
  { d with scheduler := reserved.scheduler, issued := d.issued ++ reserved.made }

/-- Fifteen seconds, the timeout of a reservation unless another is given. -/
def defaultTimeout : ℤ := 15000000

/-- A turn of the loop of `_pump`, up to where it waits for the receives that it starts. -/
def pump (manifest : GroupFileManifest) (d : GroupFileDownload) (now : DateTime)
    (allowed : DartString → Bool → Bool) (clock : DateTime) : GroupFileDownload :=
  if d.paused || d.scheduler.complete manifest then d
  else
    let reserved := d.scheduler.reserve manifest now allowed defaultTimeout
    let d := d.reserve manifest now allowed defaultTimeout
    if reserved.returned then reserved.made.foldl (startReceive allowed clock) d else d

end GroupFileDownload

/-- What can happen to a download. A request is named by its place among those that were issued; a
request object from elsewhere is never outstanding, and its place is past the end. -/
inductive Act where
  | updateProvider (peer : DartString) (pieces : List ℤ) (lan : Bool)
  | removeProvider (peer : DartString)
  | reserve (now : DateTime) (allowed : DartString → Bool → Bool) (timeout : ℤ)
  | markDurable (request : ℕ)
  | failed (request : ℕ) (now : DateTime)
  | restoreVerified (pieces : List ℤ)
  | reset
  | setPaused (paused : Bool)
  | pump (now : DateTime) (allowed : DartString → Bool → Bool) (clock : DateTime)
  | receive (request : ℕ) (allowed : DartString → Bool → Bool) (now : DateTime)
  | resume (receive : ℕ) (succeeded : Bool) (allowed : DartString → Bool → Bool) (now : DateTime)

open GroupFileDownload in
/-- One act. -/
def act (manifest : GroupFileManifest) (d : GroupFileDownload) : Act → GroupFileDownload
  | .updateProvider peer pieces lan =>
    { d with scheduler := d.scheduler.updateProvider manifest peer pieces lan }
  | .removeProvider peer => { d with scheduler := d.scheduler.removeProvider peer }
  | .reserve now allowed timeout => d.reserve manifest now allowed timeout
  | .markDurable i =>
    match d.issued[i]? with
    | some request => { d with scheduler := (d.scheduler.markDurable request).1 }
    | none => d
  | .failed i now =>
    match d.issued[i]? with
    | some request => { d with scheduler := d.scheduler.failed request now }
    | none => d
  | .restoreVerified pieces =>
    { d with scheduler := d.scheduler.restoreVerified manifest pieces }
  | .reset => { d with scheduler := d.scheduler.reset }
  | .setPaused paused => { d with paused }
  | .pump now allowed clock => d.pump manifest now allowed clock
  | .receive i allowed now =>
    match d.issued[i]? with
    | some request => d.startReceive allowed now request
    | none => d
  | .resume i succeeded allowed now => d.resumeReceive i succeeded allowed now

def machine (manifest : GroupFileManifest) : Machine GroupFileDownload Act Unit where
  step d a := (act manifest d a, ())

def run (manifest : GroupFileManifest) (acts : List Act) : GroupFileDownload :=
  (machine manifest).run GroupFileDownload.new acts

/-! ### One act -/

namespace GroupFileDownload

open GroupFileScheduler

variable {d e f : GroupFileDownload} {manifest : GroupFileManifest}
  {allowed : DartString → Bool → Bool} {request : GroupPieceRequest} {a : Act}

variable {s : GroupFileScheduler}

/-- The invariant of a download. -/
structure Sound (d : GroupFileDownload) : Prop where
  scheduled : d.scheduler.Scheduled
  ledger : d.scheduler.ledger.Sound
  sorted : d.issued.Pairwise fun q q' => q.identity < q'.identity
  numbered : ∀ q ∈ d.issued, q.identity ≤ d.scheduler.increments
  generation : ∀ q ∈ d.issued, q.generation = Int64.ofNat q.identity
  issued : ∀ piece q, d.scheduler.requests.get piece = some q → q ∈ d.issued

theorem sound_new : new.Sound where
  scheduled := scheduled_new
  ledger := ledger_new
  sorted := List.Pairwise.nil
  numbered := by
    intro q hq
    cases hq
  generation := by
    intro q hq
    cases hq
  issued := by
    intro piece q hget
    cases hget

/-- An act changes the scheduler, and what it makes is issued. -/
def Acts (d e : GroupFileDownload) : Prop :=
  ∃ made, Changes d.scheduler made e.scheduler ∧ e.issued = d.issued ++ made

theorem acts_of_changes (h : Changes d.scheduler [] e.scheduler) (hissued : e.issued = d.issued) :
    d.Acts e :=
  ⟨[], h, by rw [hissued, append_nil]⟩

theorem Acts.refl : d.Acts d := acts_of_changes Narrows.refl.changes rfl

theorem Acts.trans (h : d.Acts e) (h' : e.Acts f) : d.Acts f := by
  obtain ⟨made, hchanges, hissued⟩ := h
  obtain ⟨made', hchanges', hissued'⟩ := h'
  refine ⟨made ++ made', hchanges.trans hchanges', ?_⟩
  rw [hissued', hissued, append_assoc]

theorem Acts.sound (h : d.Acts e) (hd : d.Sound) : e.Sound := by
  obtain ⟨made, hchanges, hissued⟩ := h
  constructor
  · exact hchanges.scheduled hd.scheduled
  · exact hd.ledger.steps hchanges.steps
  · rw [hissued, pairwise_append]
    exact ⟨hd.sorted, hchanges.sorted, fun q hq q' hq' =>
      (hd.numbered q hq).trans_lt (hchanges.new q' hq').1⟩
  · rw [hissued]
    intro q hq
    rcases mem_append.mp hq with hq | hq
    · exact (hd.numbered q hq).trans hchanges.increments_le
    · exact (hchanges.new q hq).2
  · rw [hissued]
    intro q hq
    rcases mem_append.mp hq with hq | hq
    · exact hd.generation q hq
    · exact hchanges.generation hd.scheduled q hq
  · rw [hissued]
    intro piece q hget
    rcases hchanges.outstanding piece q hget with hget | hq
    · exact mem_append_left made (hd.issued piece q hget)
    · exact mem_append_right d.issued hq

theorem acts_startReceive (d : GroupFileDownload) (now : DateTime) :
    d.Acts (d.startReceive allowed now request) := by
  unfold startReceive
  split
  · exact acts_of_changes Narrows.refl.changes rfl
  · exact acts_of_changes (narrows_failed d.scheduler request now).changes rfl

theorem acts_giveUp (d : GroupFileDownload) (i : ℕ) (receive : Receive) (now : DateTime) :
    d.Acts (d.giveUp i receive now) :=
  acts_of_changes (narrows_failed d.scheduler receive.request now).changes rfl

theorem acts_moveTo (d : GroupFileDownload) (i : ℕ) (receive : Receive) (stage : Stage) :
    d.Acts (d.moveTo i receive stage) :=
  acts_of_changes Narrows.refl.changes rfl

theorem acts_resumeReceive (d : GroupFileDownload) (i : ℕ) (succeeded : Bool) (now : DateTime) :
    d.Acts (d.resumeReceive i succeeded allowed now) := by
  unfold resumeReceive
  cases d.receives[i]? with
  | none => exact Acts.refl
  | some receive =>
  obtain ⟨request, stage⟩ := receive
  cases succeeded with
  | false =>
    cases stage with
    | done => exact Acts.refl
    | authorize => exact acts_giveUp d i _ now
    | fetch => exact acts_giveUp d i _ now
    | reauthorize => exact acts_giveUp d i _ now
    | writePiece => exact acts_giveUp d i _ now
  | true =>
  cases stage with
  | authorize => exact acts_moveTo d i _ _
  | fetch =>
    simp only [if_true]
    split
    · exact acts_moveTo d i _ _
    · exact acts_giveUp d i _ now
  | reauthorize => exact acts_moveTo d i _ _
  | writePiece => exact acts_of_changes (changes_markDurable d.scheduler request) rfl
  | done => exact Acts.refl

theorem acts_reserve (manifest : GroupFileManifest) (d : GroupFileDownload) (now : DateTime)
    (allowed : DartString → Bool → Bool) (timeout : ℤ) :
    d.Acts (d.reserve manifest now allowed timeout) :=
  ⟨_, (changes_reserve manifest d.scheduler now allowed timeout).1, rfl⟩

theorem acts_pump (d : GroupFileDownload) (now clock : DateTime) :
    d.Acts (d.pump manifest now allowed clock) := by
  unfold pump
  split
  · exact Acts.refl
  have hreserve := acts_reserve manifest d now allowed defaultTimeout
  simp only
  split
  · -- the receives start one after another
    apply hreserve.trans
    generalize d.reserve manifest now allowed defaultTimeout = e
    induction (d.scheduler.reserve manifest now allowed defaultTimeout).made generalizing e with
    | nil => exact Acts.refl
    | cons request made ih => exact (acts_startReceive e clock).trans (ih _)
  · exact hreserve

theorem acts_act (manifest : GroupFileManifest) (d : GroupFileDownload) (a : Act) : d.Acts (act manifest d a) := by
  cases a with
  | updateProvider peer pieces lan =>
    exact acts_of_changes (changes_updateProvider manifest d.scheduler peer pieces lan) rfl
  | removeProvider peer => exact acts_of_changes (changes_removeProvider d.scheduler peer) rfl
  | reserve now allowed timeout => exact acts_reserve manifest d now allowed timeout
  | markDurable i =>
    simp only [act]
    cases d.issued[i]? with
    | none => exact Acts.refl
    | some request => exact acts_of_changes (changes_markDurable d.scheduler request) rfl
  | failed i now =>
    simp only [act]
    cases d.issued[i]? with
    | none => exact Acts.refl
    | some request => exact acts_of_changes (narrows_failed d.scheduler request now).changes rfl
  | restoreVerified pieces =>
    exact acts_of_changes (changes_restoreVerified manifest d.scheduler pieces) rfl
  | reset => exact acts_of_changes (changes_reset d.scheduler) rfl
  | setPaused paused => exact acts_of_changes Narrows.refl.changes rfl
  | pump now allowed clock => exact acts_pump d now clock
  | receive i allowed now =>
    simp only [act]
    cases d.issued[i]? with
    | none => exact Acts.refl
    | some request => exact acts_startReceive d now
  | resume i succeeded allowed now => exact acts_resumeReceive d i succeeded now

/-! ### Replies and verified pieces -/

/-- The act replies to the request: it reports an outcome of it, or starts or resumes a receive of
it. -/
def RepliesTo (d : GroupFileDownload) (a : Act) (request : GroupPieceRequest) : Prop :=
  match a with
  | .markDurable i => d.issued[i]? = some request
  | .failed i _ => d.issued[i]? = some request
  | .receive i _ _ => d.issued[i]? = some request
  | .resume i _ _ _ => ∃ stage, d.receives[i]? = some ⟨request, stage⟩
  | _ => False

/-- The act calls `markDurable` for the request. -/
def Completes (d : GroupFileDownload) (a : Act) (request : GroupPieceRequest) : Prop :=
  match a with
  | .markDurable i => d.issued[i]? = some request
  | .resume i succeeded _ _ => succeeded = true ∧ d.receives[i]? = some ⟨request, .writePiece⟩
  | _ => False

theorem verified_failed (s : GroupFileScheduler) (request : GroupPieceRequest) (now : DateTime) :
    (s.failed request now).verified = s.verified := (narrows_failed s request now).verified

theorem verified_startReceive (allowed : DartString → Bool → Bool) (now : DateTime)
    (d : GroupFileDownload) (request : GroupPieceRequest) :
    (d.startReceive allowed now request).scheduler.verified = d.scheduler.verified := by
  unfold startReceive
  split
  · rfl
  · exact verified_failed d.scheduler request now

theorem verified_reserve (manifest : GroupFileManifest) (d : GroupFileDownload) (now : DateTime)
    (allowed : DartString → Bool → Bool) (timeout : ℤ) :
    (d.reserve manifest now allowed timeout).scheduler.verified = d.scheduler.verified :=
  (changes_reserve manifest d.scheduler now allowed timeout).2

theorem verified_pump (d : GroupFileDownload) (now clock : DateTime) :
    (d.pump manifest now allowed clock).scheduler.verified = d.scheduler.verified := by
  unfold pump
  split
  · rfl
  simp only
  split
  · rw [← verified_reserve manifest d now allowed defaultTimeout]
    generalize d.reserve manifest now allowed defaultTimeout = e
    induction (d.scheduler.reserve manifest now allowed defaultTimeout).made generalizing e with
    | nil => rfl
    | cons request made ih =>
      rw [foldl_cons, ih, verified_startReceive]
  · exact verified_reserve manifest d now allowed defaultTimeout

theorem of_mem_verified_markDurable {piece : ℤ} (h : piece ∉ s.verified)
    (hmem : piece ∈ (s.markDurable request).1.verified) :
    request.piece = piece ∧ s.requests.get piece = some request := by
  rcases markDurable_cases s request with heq | ⟨hget, -, hverified⟩
  · rw [heq] at hmem
    exact absurd hmem h
  rw [hverified] at hmem
  rcases Finset.mem_insert.mp hmem with rfl | hold
  · exact ⟨rfl, hget⟩
  · exact absurd hold h

/-- **What verifies a piece** is a restoration, or the completion of the request that is
outstanding for it. -/
theorem verified_only {piece : ℤ} (h : piece ∉ d.scheduler.verified)
    (hmem : piece ∈ (act manifest d a).scheduler.verified) :
    (∃ pieces, a = .restoreVerified pieces ∧ piece ∈ pieces) ∨
      ∃ request, d.Completes a request ∧ d.scheduler.requests.get piece = some request := by
  have hkept (heq : (act manifest d a).scheduler.verified = d.scheduler.verified) :
      (∃ pieces, a = .restoreVerified pieces ∧ piece ∈ pieces) ∨
        ∃ request, d.Completes a request ∧ d.scheduler.requests.get piece = some request :=
    absurd (heq ▸ hmem) h
  cases a with
  | updateProvider peer pieces lan =>
    exact hkept (verified_updateProvider manifest d.scheduler peer pieces lan)
  | removeProvider peer => exact hkept rfl
  | reserve now allowed timeout => exact hkept (verified_reserve manifest d now allowed timeout)
  | markDurable i =>
    simp only [act] at hmem
    cases hi : d.issued[i]? with
    | none =>
      rw [hi] at hmem
      exact absurd hmem h
    | some request =>
      rw [hi] at hmem
      exact .inr ⟨request, hi, (of_mem_verified_markDurable h hmem).2⟩
  | failed i now =>
    refine hkept ?_
    simp only [act]
    cases d.issued[i]? with
    | none => rfl
    | some request => exact verified_failed d.scheduler request now
  | restoreVerified pieces =>
    rcases restoreVerified_cases manifest d.scheduler pieces with heq | ⟨-, hverified⟩
    · exact hkept (congrArg GroupFileScheduler.verified heq)
    change piece ∈ (d.scheduler.restoreVerified manifest pieces).verified at hmem
    rw [hverified] at hmem
    rcases Finset.mem_union.mp hmem with hold | hnew
    · exact absurd hold h
    · exact .inl ⟨pieces, rfl, mem_toFinset.mp hnew⟩
  | reset => cases hmem
  | setPaused paused => exact hkept rfl
  | pump now allowed clock => exact hkept (verified_pump d now clock)
  | receive i allowed now =>
    refine hkept ?_
    simp only [act]
    cases d.issued[i]? with
    | none => rfl
    | some request => exact verified_startReceive allowed now d request
  | resume i succeeded allowed now =>
    right
    simp only [act, resumeReceive] at hmem
    cases hi : d.receives[i]? with
    | none =>
      rw [hi] at hmem
      exact absurd hmem h
    | some receive =>
    obtain ⟨request, stage⟩ := receive
    have hgiveUp : piece ∉ (d.giveUp i ⟨request, stage⟩ now).scheduler.verified := by
      show piece ∉ (d.scheduler.failed request now).verified
      rw [verified_failed]
      exact h
    rw [hi] at hmem
    cases succeeded with
    | false =>
      -- a call that failed ends the receive
      simp only [Bool.false_eq_true, if_false] at hmem
      split at hmem
      · exact absurd hmem h
      · exact absurd hmem hgiveUp
    | true =>
    cases stage with
    | authorize => exact absurd hmem h
    | fetch =>
      simp only [if_true] at hmem
      split at hmem
      · exact absurd hmem h
      · exact absurd hmem hgiveUp
    | reauthorize => exact absurd hmem h
    | writePiece =>
      exact ⟨request, ⟨rfl, hi⟩, (of_mem_verified_markDurable h hmem).2⟩
    | done => exact absurd hmem h

/-! ### Late replies -/

theorem failed_of_not_outstanding (h : s.outstanding request = false) (now : DateTime) :
    s.failed request now = s := if_neg (by rw [h]; exact Bool.false_ne_true)

theorem markDurable_of_not_outstanding (h : s.outstanding request = false) :
    (s.markDurable request).1 = s := by
  unfold markDurable
  rw [if_neg (by rw [h]; exact Bool.false_ne_true)]

theorem scheduler_of_late (h : d.scheduler.outstanding request = false)
    (hreply : d.RepliesTo a request) : (act manifest d a).scheduler = d.scheduler := by
  cases a with
  | markDurable i =>
    have hi : d.issued[i]? = some request := hreply
    simp only [act, hi]
    exact markDurable_of_not_outstanding h
  | failed i now =>
    have hi : d.issued[i]? = some request := hreply
    simp only [act, hi]
    exact failed_of_not_outstanding h now
  | receive i allowed now =>
    have hi : d.issued[i]? = some request := hreply
    simp only [act, hi, startReceive]
    split
    · rfl
    · exact failed_of_not_outstanding h now
  | resume i succeeded allowed now =>
    obtain ⟨stage, hi⟩ := hreply
    have hgiveUp : (d.giveUp i ⟨request, stage⟩ now).scheduler = d.scheduler :=
      failed_of_not_outstanding h now
    simp only [act, resumeReceive, hi]
    cases succeeded with
    | false =>
      simp only [Bool.false_eq_true, if_false]
      split
      · rfl
      · exact hgiveUp
    | true =>
    cases stage with
    | authorize => rfl
    | fetch =>
      simp only [if_true]
      split
      · rfl
      · exact hgiveUp
    | reauthorize => rfl
    | writePiece => exact markDurable_of_not_outstanding h
    | done => rfl
  | updateProvider peer pieces lan => exact absurd hreply id
  | removeProvider peer => exact absurd hreply id
  | reserve now allowed timeout => exact absurd hreply id
  | restoreVerified pieces => exact absurd hreply id
  | reset => exact absurd hreply id
  | setPaused paused => exact absurd hreply id
  | pump now allowed clock => exact absurd hreply id

theorem outstanding_eq_true :
    s.outstanding request = true ↔ s.requests.get request.piece = some request := decide_eq_true_iff

theorem Sound.closed (hd : d.Sound) (hissued : request ∈ d.issued)
    (h : d.scheduler.outstanding request = false) :
    Ledger.Closed request.identity d.scheduler.ledger := by
  refine ⟨hd.numbered request hissued, fun piece hopen => ?_⟩
  obtain ⟨other, hget, hidentity⟩ := map_eq_some_iff.mp hopen
  -- an object has its number to itself
  have hnodup : (d.issued.map GroupPieceRequest.identity).Nodup :=
    pairwise_map.mpr (hd.sorted.imp fun hlt => ne_of_lt hlt)
  have hsame : other = request :=
    inj_on_of_nodup_map hnodup (hd.issued piece other hget) hissued hidentity
  subst hsame
  have hout : d.scheduler.outstanding other = true := by
    rw [outstanding_eq_true, hd.scheduled.filed piece other hget]
    exact hget
  rw [hout] at h
  cases h

theorem not_outstanding_of_closed
    (h : Ledger.Closed request.identity d.scheduler.ledger) :
    d.scheduler.outstanding request = false := by
  by_contra hnot
  rw [Bool.not_eq_false, outstanding_eq_true] at hnot
  exact h.2 request.piece (map_eq_some_iff.mpr ⟨request, hnot, rfl⟩)

theorem Sound.generations (hd : d.Sound) (h : d.scheduler.increments < 2 ^ 64) :
    d.issued.Pairwise fun q q' => q.generation ≠ q'.generation := by
  apply hd.sorted.imp_of_mem
  intro q q' hq hq' hlt hgeneration
  rw [hd.generation q hq, hd.generation q' hq'] at hgeneration
  have hsmall := (hd.numbered q hq).trans_lt h
  have hsmall' := (hd.numbered q' hq').trans_lt h
  -- below 2 ^ 64 the count can be read back from the 64 bits
  have hbits : BitVec.ofNat 64 q.identity = BitVec.ofNat 64 q'.identity :=
    congrArg Int64.toBitVec hgeneration
  have hnat := congrArg BitVec.toNat hbits
  rw [BitVec.toNat_ofNat, BitVec.toNat_ofNat, Nat.mod_eq_of_lt hsmall,
    Nat.mod_eq_of_lt hsmall'] at hnat
  exact ne_of_lt hlt hnat

end GroupFileDownload

/-! ### Runs -/

open GroupFileDownload

section

variable {manifest : GroupFileManifest} {acts : List Act} {d : GroupFileDownload}

theorem sound_run (manifest : GroupFileManifest) (acts : List Act) : (run manifest acts).Sound :=
  Machine.run_induction (fun d a _ hd => (acts_act manifest d a).sound hd) sound_new

theorem run_append (manifest : GroupFileManifest) (acts later : List Act) :
    run manifest (acts ++ later) = (machine manifest).run (run manifest acts) later :=
  (machine manifest).run_append new acts later

theorem closed_run (manifest : GroupFileManifest) {identity : ℕ} (h : Ledger.Closed identity d.scheduler.ledger)
    (later : List Act) :
    Ledger.Closed identity ((machine manifest).run d later).scheduler.ledger :=
  Machine.run_induction
    (I := fun d : GroupFileDownload => Ledger.Closed identity d.scheduler.ledger)
    (fun d a _ hd => by
      obtain ⟨made, hchanges, -⟩ := acts_act manifest d a
      exact hd.steps hchanges.steps) h

/-- **Group file scheduling**, for the state that a run reaches. -/
structure FileScheduling (manifest : GroupFileManifest) (acts : List Act)
    (d : GroupFileDownload) : Prop where
  four_requests : d.scheduler.requests.size ≤ 4
  three_peers : d.scheduler.active.card ≤ 3
  unverified : ∀ piece request, d.scheduler.requests.get piece = some request →
    piece ∉ d.scheduler.verified
  /-- A request is for its piece and of a provider that offers the piece. -/
  offered : ∀ piece request, d.scheduler.requests.get piece = some request →
    request.piece = piece ∧ d.scheduler.Offered request
  generations : d.scheduler.increments < 2 ^ 64 →
    d.issued.Pairwise fun q q' => q.generation ≠ q'.generation
  verified_only : ∀ a piece, piece ∉ d.scheduler.verified →
    piece ∈ (act manifest d a).scheduler.verified →
      (∃ pieces, a = .restoreVerified pieces ∧ piece ∈ pieces) ∨
        ∃ request, d.Completes a request ∧ d.scheduler.requests.get piece = some request
  /-- A request that is not outstanding any more never is again, and no reply to it changes the
  scheduler. -/
  late : ∀ request ∈ d.issued, d.scheduler.outstanding request = false → ∀ later,
    (run manifest (acts ++ later)).scheduler.outstanding request = false ∧
      ∀ a, (run manifest (acts ++ later)).RepliesTo a request →
        (act manifest (run manifest (acts ++ later)) a).scheduler =
          (run manifest (acts ++ later)).scheduler

theorem file_scheduling (manifest : GroupFileManifest) (acts : List Act) :
    FileScheduling manifest acts (run manifest acts) := by
  have hsound := sound_run manifest acts
  constructor
  · exact hsound.scheduled.size_le
  · exact hsound.scheduled.peers_le
  · intro piece request hget
    exact hsound.ledger.not_done piece request.identity
      (map_eq_some_iff.mpr ⟨request, hget, rfl⟩)
  · exact fun piece request hget =>
      ⟨hsound.scheduled.filed piece request hget, hsound.scheduled.offered piece request hget⟩
  · exact hsound.generations
  · exact fun a piece h hmem => GroupFileDownload.verified_only h hmem
  · intro request hissued hout later
    rw [run_append]
    have hclosed := closed_run manifest (hsound.closed hissued hout) later
    have hlater := not_outstanding_of_closed hclosed
    exact ⟨hlater, fun a hreply => scheduler_of_late hlater hreply⟩

end

namespace Sample

def oneByte : GroupFileManifest := ⟨1, [[]]⟩

def epoch : DateTime := ⟨0, Nat.zero_le _⟩

def ask : List Act := [.updateProvider [] [0] true, .reserve epoch (fun _ _ => true) 0]

def blank (n : ℕ) : GroupFileScheduler :=
  { GroupFileScheduler.new with generation := Int64.ofNat n, increments := n }

def offering (n : ℕ) : GroupFileScheduler := (blank n).updateProvider oneByte [] [0] true

def asked (n : ℕ) : GroupPieceRequest := (offering n).increment.request 0 [] epoch

theorem next_offering (n : ℕ) :
    (offering n).next oneByte epoch (fun _ _ => true) = some (0, []) := by
  have hcandidates : (offering n).candidates oneByte epoch (fun _ _ => true) = [(0, [[]])] := rfl
  unfold GroupFileScheduler.next
  rw [hcandidates]
  simp

theorem next_asked (n : ℕ) :
    ((offering n).increment.place (asked n)).next oneByte epoch (fun _ _ => true) = none := by
  have hcandidates : ((offering n).increment.place (asked n)).candidates oneByte epoch
      (fun _ _ => true) = [] := rfl
  unfold GroupFileScheduler.next
  rw [hcandidates]
  simp

theorem reserve_offering (n : ℕ) : (offering n).reserve oneByte epoch (fun _ _ => true) 0 =
    ⟨(offering n).increment.place (asked n), [asked n], true⟩ := by
  have hadd : epoch.add 0 = some epoch := rfl
  have hfew : (offering n).requests.size < 4 := Nat.zero_lt_succ 3
  have hreserve : (offering n).reserve oneByte epoch (fun _ _ => true) 0 =
    GroupFileScheduler.reserveLoop oneByte epoch 0 (fun _ _ => true) (offering n) := rfl
  rw [hreserve, GroupFileScheduler.reserveLoop_of_next hfew (next_offering n) hadd]
  have hstop := @GroupFileScheduler.reserveLoop_of_none _ oneByte epoch (fun _ _ => true) 0 (next_asked n)
  unfold asked at hstop ⊢
  simp only
  rw [hstop]

theorem run_ask (d : GroupFileDownload) (n : ℕ) (h : d.scheduler = blank n) :
    (machine oneByte).run d ask =
      { d with
        scheduler := (offering n).increment.place (asked n), issued := d.issued ++ [asked n] } := by
  have hrun : (machine oneByte).run d ask = GroupFileDownload.reserve oneByte
      { d with scheduler := d.scheduler.updateProvider oneByte [] [0] true } epoch
        (fun _ _ => true) 0 := rfl
  rw [hrun, h]
  show ({ d with
    scheduler := ((offering n).reserve oneByte epoch (fun _ _ => true) 0).scheduler
    issued := d.issued ++ ((offering n).reserve oneByte epoch (fun _ _ => true) 0).made } :
      GroupFileDownload) = _
  rw [reserve_offering]

theorem run_reset (d : GroupFileDownload) (n k : ℕ) (h : d.scheduler = blank n) :
    (machine oneByte).run d (replicate k .reset) = { d with scheduler := blank (n + k) } := by
  induction k generalizing d n with
  | zero =>
    cases d
    cases h
    rfl
  | succ k ih =>
  have hreset : d.scheduler.reset = blank (n + 1) := by
    rw [h]
    unfold blank GroupFileScheduler.reset
    rw [Int64.ofNat_add]
    rfl
  show (machine oneByte).run { d with scheduler := d.scheduler.reset } _ = _
  rw [ih { d with scheduler := d.scheduler.reset } (n + 1) hreset, Nat.add_right_comm]
  rfl

theorem issued_ask_reset_ask (k : ℕ) :
    (run oneByte (ask ++ (.reset :: replicate k .reset ++ ask))).issued =
      [asked 0, asked (k + 2)] := by
  have hreset : ((offering 0).increment.place (asked 0)).reset = blank 2 := rfl
  rw [run_append, show run oneByte ask = _ from run_ask GroupFileDownload.new 0 rfl, cons_append,
    Machine.run_cons, Machine.run_append]
  show ((machine oneByte).run ((machine oneByte).run (⟨_, false, [], [asked 0]⟩ : GroupFileDownload)
    _) ask).issued = _
  rw [run_reset _ 2 k hreset, run_ask _ (2 + k) rfl, Nat.add_comm 2 k]
  rfl

/-- **A generation comes back** when `generation` has been incremented 2 ^ 64 times. -/
theorem generation_comes_back :
    ¬ ∀ manifest acts, (run manifest acts).issued.Pairwise fun q q' =>
      q.generation ≠ q'.generation := by
  intro hall
  have hrun := hall oneByte (ask ++ (.reset :: replicate (2 ^ 64 - 2) .reset ++ ask))
  rw [issued_ask_reset_ask] at hrun
  apply rel_of_pairwise_cons hrun mem_cons_self
  decide

end Sample

end Files
end Conest
