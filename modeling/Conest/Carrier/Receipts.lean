import Conest.Carrier.Sending

/-!
# A receipt means that every frame was confirmed

`Registered` says how far a call is: the frames before `n` went out, and each of them is confirmed
or waits; the frame `n` may be in flight. The step lemmas follow the functions of the adapter:
`transmit` puts a frame in flight, `register` enters it, and an acknowledgement takes an id out of
`waiting` only where every frame with that id is confirmed. That is where the ids have to be
different while unconfirmed (`confirmed_of_distinct`): one acknowledgement confirms one frame.
-/

namespace Conest
namespace Carrier

open Lib List Option

/-! ### What the network has seen -/

variable {f : SentFrame}

/-- The same frame, perhaps confirmed meanwhile. -/
structure SentFrame.Becomes (f f' : SentFrame) : Prop where
  send : f'.send = f.send
  index : f'.index = f.index
  frameId : f'.frameId = f.frameId
  confirmed : f.confirmed = true → f'.confirmed = true

theorem SentFrame.Becomes.refl (f : SentFrame) : f.Becomes f := ⟨rfl, rfl, rfl, fun h => h⟩

theorem confirm_becomes (frameId : ℤ) (sent : List SentFrame) :
    List.Forall₂ SentFrame.Becomes sent (confirm frameId sent) := by
  induction sent with
  | nil => exact List.Forall₂.nil
  | cons f sent ih =>
  rw [confirm]
  split
  · refine List.Forall₂.cons ⟨rfl, rfl, rfl, fun _ => rfl⟩ ?_
    exact forall₂_same.mpr fun f _ => SentFrame.Becomes.refl f
  · exact List.Forall₂.cons (SentFrame.Becomes.refl f) ih

theorem mem_unconfirmedIds {sent : List SentFrame} (hf : f ∈ sent) (hopen : f.confirmed = false) :
    f.frameId ∈ unconfirmedIds sent := by
  refine mem_map_of_mem (mem_filter.mpr ⟨hf, ?_⟩)
  rw [hopen]
  rfl

/-- **One acknowledgement confirms every frame that is sent under its id**, where the ids are
different while unconfirmed. -/
theorem confirmed_of_distinct {frameId : ℤ} {sent : List SentFrame}
    (hdistinct : (unconfirmedIds sent).Nodup) (hf : f ∈ confirm frameId sent)
    (hid : f.frameId = frameId) : f.confirmed = true := by
  induction sent with
  | nil => cases hf
  | cons g sent ih =>
  rw [confirm] at hf
  have htail : (unconfirmedIds sent).Nodup := by
    exact hdistinct.sublist (((sublist_cons_self g sent).filter _).map _)
  split at hf
  · next hg =>
    rcases mem_cons.mp hf with rfl | hf
    · rfl
    -- the id is among the unconfirmed ones already
    by_contra hopen
    have hmem := mem_unconfirmedIds hf (Bool.not_eq_true _ ▸ hopen)
    have hcons : unconfirmedIds (g :: sent) = g.frameId :: unconfirmedIds sent := by
      unfold unconfirmedIds
      rw [filter_cons_of_pos (by rw [hg.2]; rfl), map_cons]
    rw [hcons, hg.1, ← hid] at hdistinct
    exact (nodup_cons.mp hdistinct).1 hmem
  next hg =>
  rcases mem_cons.mp hf with rfl | hf
  · by_contra hopen
    exact hg ⟨hid, Bool.not_eq_true _ ▸ hopen⟩
  · exact ih htail hf

/-- What a call has of its own among the frames stays, and none is added. -/
structure Keeps (i : ℕ) (sent sent' : List SentFrame) : Prop where
  forth : ∀ f ∈ sent, f.send = i → ∃ f' ∈ sent', f.Becomes f'
  back : ∀ f' ∈ sent', f'.send = i → ∃ f ∈ sent, f.Becomes f'

theorem Keeps.refl (i : ℕ) (sent : List SentFrame) : Keeps i sent sent where
  forth := fun f hf _ => ⟨f, hf, SentFrame.Becomes.refl f⟩
  back := fun f hf _ => ⟨f, hf, SentFrame.Becomes.refl f⟩

theorem Keeps.confirm (i : ℕ) (frameId : ℤ) (sent : List SentFrame) :
    Keeps i sent (confirm frameId sent) := by
  have h := confirm_becomes frameId sent
  constructor
  · intro f hf _
    obtain ⟨n, hn, rfl⟩ := mem_iff_getElem.mp hf
    exact ⟨_, getElem_mem (h.length_eq ▸ hn), h.get hn (h.length_eq ▸ hn)⟩
  · intro f hf _
    obtain ⟨n, hn, rfl⟩ := mem_iff_getElem.mp hf
    exact ⟨_, getElem_mem (h.length_eq ▸ hn), h.get (h.length_eq ▸ hn) hn⟩

theorem Keeps.concat {i : ℕ} (sent : List SentFrame) (hne : f.send ≠ i) :
    Keeps i sent (sent ++ [f]) where
  forth := fun g hg _ => ⟨g, mem_append_left _ hg, SentFrame.Becomes.refl g⟩
  back := by
    intro g hg hsend
    rcases mem_append.mp hg with hg | hg
    · exact ⟨g, hg, SentFrame.Becomes.refl g⟩
    · rw [mem_singleton.mp hg] at hsend
      exact absurd hsend hne

/-! ### How far a call is -/

/-- **The frames of call `i` before `n` went out**, each of them confirmed or waiting, and
`inFlight` is the id under which frame `n` is going out. -/
structure Registered (sent : List SentFrame) (i count : ℕ) (waiting : Finset ℤ) (n : ℕ)
    (inFlight : Option ℤ) : Prop where
  le : n ≤ count
  all : ∀ j < n, ∃ f ∈ sent, f.send = i ∧ f.index = j
  own : ∀ f ∈ sent, f.send = i →
    (f.index < n ∧ (f.confirmed = true ∨ f.frameId ∈ waiting)) ∨
      f.index = n ∧ inFlight = some f.frameId
  flying : ∀ frameId, inFlight = some frameId →
    n < count ∧ ∃ f ∈ sent, f.send = i ∧ f.index = n ∧ f.frameId = frameId

namespace Registered

variable {sent sent' : List SentFrame} {i count n : ℕ} {waiting : Finset ℤ} {inFlight : Option ℤ}

theorem keeps (h : Registered sent i count waiting n inFlight) (hkeeps : Keeps i sent sent') :
    Registered sent' i count waiting n inFlight where
  le := h.le
  all := by
    intro j hj
    obtain ⟨f, hf, hsend, hindex⟩ := h.all j hj
    obtain ⟨f', hf', hbecomes⟩ := hkeeps.forth f hf hsend
    exact ⟨f', hf', hbecomes.send.trans hsend, hbecomes.index.trans hindex⟩
  own := by
    intro f' hf' hsend'
    obtain ⟨f, hf, hbecomes⟩ := hkeeps.back f' hf' hsend'
    rw [hbecomes.index, hbecomes.frameId]
    refine (h.own f hf (hbecomes.send.symm.trans hsend')).imp_left fun hbefore => ?_
    exact ⟨hbefore.1, hbefore.2.imp_left hbecomes.confirmed⟩
  flying := by
    intro frameId hid
    obtain ⟨hlt, f, hf, hsend, hindex, hframe⟩ := h.flying frameId hid
    obtain ⟨f', hf', hbecomes⟩ := hkeeps.forth f hf hsend
    exact ⟨hlt, f', hf', hbecomes.send.trans hsend, hbecomes.index.trans hindex,
      hbecomes.frameId.trans hframe⟩

theorem transmit (h : Registered sent i count waiting n none) (hlt : n < count) (frameId : ℤ) :
    Registered (sent ++ [⟨i, n, frameId, false⟩]) i count waiting n (some frameId) where
  le := h.le
  all := by
    intro j hj
    obtain ⟨f, hf, hown⟩ := h.all j hj
    exact ⟨f, mem_append_left _ hf, hown⟩
  own := by
    intro f hf hsend
    rcases mem_append.mp hf with hf | hf
    · rcases h.own f hf hsend with hbefore | ⟨-, hnone⟩
      · exact .inl hbefore
      · cases hnone
    · rw [mem_singleton.mp hf]
      exact .inr ⟨rfl, rfl⟩
  flying := by
    intro id hid
    refine ⟨hlt, _, mem_append_right _ (mem_singleton_self _), rfl, rfl, ?_⟩
    exact some.inj hid

theorem register {frameId : ℤ} (h : Registered sent i count waiting n (some frameId)) :
    Registered sent i count (insert frameId waiting) (n + 1) none where
  le := (h.flying frameId rfl).1
  all := by
    intro j hj
    rcases Nat.lt_succ_iff_lt_or_eq.mp hj with hj | rfl
    · exact h.all j hj
    · obtain ⟨-, f, hf, hsend, hindex, -⟩ := h.flying frameId rfl
      exact ⟨f, hf, hsend, hindex⟩
  own := by
    intro f hf hsend
    left
    rcases h.own f hf hsend with ⟨hlt, hstate⟩ | ⟨rfl, hid⟩
    · exact ⟨Nat.lt_succ_of_lt hlt, hstate.imp_right (Finset.mem_insert_of_mem)⟩
    · refine ⟨Nat.lt_succ_self _, .inr ?_⟩
      rw [some.inj hid]
      exact Finset.mem_insert_self _ _
  flying := fun _ hid => nomatch hid

theorem acknowledged (h : Registered sent i count waiting n inFlight) {frameId : ℤ}
    (hall : ∀ f ∈ sent, f.frameId = frameId → f.confirmed = true) :
    Registered sent i count (waiting.erase frameId) n inFlight where
  le := h.le
  all := h.all
  own := by
    intro f hf hsend
    refine (h.own f hf hsend).imp_left fun hbefore => ⟨hbefore.1, ?_⟩
    by_cases hid : f.frameId = frameId
    · exact .inl (hall f hf hid)
    · exact hbefore.2.imp_right fun hmem => Finset.mem_erase.mpr ⟨hid, hmem⟩
  flying := h.flying

end Registered

/-! ### What an act does to a call -/

/-- How many frames of a call are entered, and the id of the one in flight. Of a call that threw
nothing is said. -/
def Send.progress (s : Send) : Option (ℕ × Option ℤ) :=
  match s.stage with
  | .sealing => some (0, none)
  | .spacing index => some (index, none)
  | .transmitting index frameId => some (index, some frameId)
  | .ended (.ok ()) => some (s.frames.length, none)
  | .ended (.error _) => none

/-- The frame a call is at. -/
def SendStage.index : SendStage → Option ℕ
  | .spacing index | .transmitting index _ => some index
  | _ => none

/-- **What holds of a call at any time.** -/
structure Send.Sound (sent : List SentFrame) (i : ℕ) (s : Send) : Prop where
  untracked : s.stage = .sealing → s.pending.tracked = false
  inRange : ∀ n, s.stage.index = some n → n < s.frames.length
  tracked : s.pending.tracked = true → s.acknowledging = true ∧ 0 < s.frames.length
  allSent : s.pending.allSent = true → s.stage = .ended (.ok ())
  registered : s.acknowledging = true → ∀ n inFlight, s.progress = some (n, inFlight) →
    Registered sent i s.frames.length s.pending.waiting n inFlight

/-- A call in its loop, before frame `n`. -/
structure Send.Ready (sent : List SentFrame) (i : ℕ) (s : Send) (n : ℕ) : Prop where
  tracked : s.pending.tracked = true → s.acknowledging = true ∧ 0 < s.frames.length
  notAllSent : s.pending.allSent = false
  registered : s.acknowledging = true →
    Registered sent i s.frames.length s.pending.waiting n none

/-- All `count` frames of call `i` went out, and each of them is confirmed. -/
structure AllConfirmed (sent : List SentFrame) (i count : ℕ) : Prop where
  pos : 0 < count
  all : ∀ j < count, ∃ f ∈ sent, f.send = i ∧ f.index = j
  confirmed : ∀ f ∈ sent, f.send = i → f.confirmed = true

theorem Send.Sound.keeps {sent sent' : List SentFrame} {i : ℕ} {s : Send} (h : s.Sound sent i)
    (hkeeps : Keeps i sent sent') : s.Sound sent' i where
  untracked := h.untracked
  inRange := h.inRange
  tracked := h.tracked
  allSent := h.allSent
  registered := fun hacknowledging n inFlight hprogress =>
    (h.registered hacknowledging n inFlight hprogress).keeps hkeeps

namespace CarrierTransportAdapter

variable {config : AdapterConfig} {a : CarrierTransportAdapter} {i : ℕ} {s : Send}

variable {x : CarrierTransportAdapter × Option CarrierDeliveryReceipt}

/-- **What a section of call `i` does**: it changes that call and its frames, and a receipt is for
that call, which had none and has all frames confirmed. -/
structure Moved (a : CarrierTransportAdapter) (i : ℕ) (pending : RadioEnvelope)
    (x : CarrierTransportAdapter × Option CarrierDeliveryReceipt) (s' : Send) : Prop where
  sends : x.1.sends = a.sends.set i s'
  sound : s'.Sound x.1.sent i
  others : ∀ j ≠ i, Keeps j a.sent x.1.sent
  own : ∀ f ∈ x.1.sent, (∃ f₀ ∈ a.sent, f₀.send = f.send) ∨ f.send = i
  envelopeId : s'.pending.envelopeId = pending.envelopeId
  deviceId : s'.pending.deviceId = pending.deviceId
  reported : pending.reported = true → s'.pending.reported = true
  receipt : ∀ r, x.2 = some r → r = ⟨i, pending.envelopeId, pending.deviceId⟩ ∧
    pending.reported = false ∧ s'.pending.reported = true ∧
      AllConfirmed x.1.sent i s'.frames.length

theorem moved_setSend {s' : Send} {pending : RadioEnvelope} (hsound : s'.Sound a.sent i)
    (henvelope : s'.pending.envelopeId = pending.envelopeId)
    (hdevice : s'.pending.deviceId = pending.deviceId)
    (hreported : s'.pending.reported = pending.reported) :
    Moved a i pending (a.setSend i s', none) s' where
  sends := rfl
  sound := hsound
  others := fun j _ => Keeps.refl j a.sent
  own := fun f hf => .inl ⟨f, hf, rfl⟩
  envelopeId := henvelope
  deviceId := hdevice
  reported := fun h => hreported.trans h
  receipt := fun _ h => nomatch h

theorem moved_fail
    (htracked : s.pending.tracked = true → s.acknowledging = true ∧ 0 < s.frames.length)
    (hnotAll : s.pending.allSent = false) (error : String) :
    ∃ s', Moved a i s.pending (a.fail i s error) s' := by
  refine ⟨_, moved_setSend ⟨(nomatch ·), fun _ hindex => (nomatch hindex), htracked, ?_, ?_⟩
    rfl rfl rfl⟩
  · intro hall
    cases hall.symm.trans hnotAll
  · intro _ n inFlight hprogress
    cases hprogress

theorem moved_maybeReceipt (h : s.Sound a.sent i) :
    ∃ s', Moved a i s.pending (a.maybeReceipt i s) s' := by
  unfold maybeReceipt
  split
  · exact ⟨s, moved_setSend h rfl rfl rfl⟩
  next hready =>
  simp only [Bool.or_eq_true, Bool.not_eq_eq_eq_not, Bool.not_true, decide_eq_true_eq, not_or,
    Bool.not_eq_false, Bool.not_eq_true, not_not] at hready
  obtain ⟨⟨⟨⟨htracked, hall⟩, -⟩, hreported⟩, hwaiting⟩ := hready
  obtain ⟨hacknowledging, hpos⟩ := h.tracked htracked
  have hprogress : s.progress = some (s.frames.length, none) := by
    rw [Send.progress, h.allSent hall]
  have hregistered := h.registered hacknowledging _ _ hprogress
  refine ⟨{ s with pending := { s.pending with reported := true } }, rfl, ⟨h.untracked, h.inRange,
    h.tracked, h.allSent, h.registered⟩, fun j _ => Keeps.refl j a.sent,
    fun f hf => .inl ⟨f, hf, rfl⟩, rfl, rfl, fun _ => rfl, ?_⟩
  intro r hr
  refine ⟨(some.inj hr).symm, hreported, rfl, hpos, hregistered.all, fun f hf hsend => ?_⟩
  rcases hregistered.own f hf hsend with ⟨-, hconfirmed | hwaits⟩ | ⟨-, hnone⟩
  · exact hconfirmed
  · rw [hwaiting] at hwaits
    exact absurd hwaits (Finset.notMem_empty _)
  · cases hnone

theorem moved_transmit {n : ℕ} (h : s.Ready a.sent i n) (hlt : n < s.frames.length)
    (frameId : ℤ) : ∃ s', Moved a i s.pending (a.transmit config i s n frameId) s' := by
  unfold transmit
  split
  · exact moved_fail h.tracked h.notAllSent _
  split
  · exact moved_fail h.tracked h.notAllSent _
  refine ⟨{ s with stage := .transmitting n frameId }, rfl,
    ⟨(nomatch ·), ?_, h.tracked, ?_, ?_⟩, ?_, ?_, rfl, rfl, fun h => h, fun _ h => nomatch h⟩
  · intro m hindex
    rwa [← some.inj hindex]
  · intro hall
    cases hall.symm.trans h.notAllSent
  · intro hacknowledging m inFlight hprogress
    obtain ⟨rfl, rfl⟩ := Prod.mk.inj (some.inj hprogress)
    show Registered (if s.acknowledging = true then _ else _) i _ _ _ _
    rw [if_pos hacknowledging]
    exact (h.registered hacknowledging).transmit hlt frameId
  · intro j hj
    show Keeps j a.sent (if s.acknowledging = true then _ else _)
    split
    · exact Keeps.concat a.sent hj.symm
    · exact Keeps.refl j a.sent
  · intro f hf
    by_cases hacknowledging : s.acknowledging = true
    · have hf : f ∈ a.sent ++ [⟨i, n, frameId, false⟩] := by
        simpa only [hacknowledging, if_true] using hf
      rcases mem_append.mp hf with hf | hf
      · exact .inl ⟨f, hf, rfl⟩
      · rw [mem_singleton.mp hf]
        exact .inr rfl
    · have hf : f ∈ a.sent := by
        simpa only [hacknowledging, Bool.false_eq_true, if_false] using hf
      exact .inl ⟨f, hf, rfl⟩

theorem moved_nextFrame {n : ℕ} (h : s.Ready a.sent i n) (hle : n ≤ s.frames.length)
    (frameId : ℤ) : ∃ s', Moved a i s.pending (a.nextFrame config i s n frameId) s' := by
  unfold nextFrame
  split
  next hlt =>
    split
    · refine ⟨_, moved_setSend ⟨(nomatch ·), ?_, h.tracked, ?_, ?_⟩ rfl rfl rfl⟩
      · intro m hindex
        rwa [← some.inj hindex]
      · intro hall
        cases hall.symm.trans h.notAllSent
      · intro hacknowledging m inFlight hprogress
        obtain ⟨rfl, rfl⟩ := Prod.mk.inj (some.inj hprogress)
        exact h.registered hacknowledging
    · exact moved_transmit h hlt frameId
  next hge =>
    obtain rfl : n = s.frames.length := Nat.le_antisymm hle (Nat.le_of_not_lt hge)
    have hsound : Send.Sound a.sent i
        { s with pending := { s.pending with allSent := true }, stage := .ended (.ok ()) } := by
      refine ⟨(nomatch ·), fun _ hindex => (nomatch hindex), h.tracked, fun _ => rfl,
        fun hacknowledging m inFlight hprogress => ?_⟩
      obtain ⟨rfl, rfl⟩ := Prod.mk.inj (some.inj hprogress)
      exact h.registered hacknowledging
    obtain ⟨s', hmoved⟩ := moved_maybeReceipt hsound
    exact ⟨s', hmoved.sends, hmoved.sound, hmoved.others, hmoved.own, hmoved.envelopeId,
      hmoved.deviceId, hmoved.reported, hmoved.receipt⟩

theorem Moved.of_same {pending pending' : RadioEnvelope} {s' : Send} (h : Moved a i pending' x s')
    (henvelope : pending'.envelopeId = pending.envelopeId)
    (hdevice : pending'.deviceId = pending.deviceId)
    (hreported : pending'.reported = pending.reported) : Moved a i pending x s' where
  sends := h.sends
  sound := h.sound
  others := h.others
  own := h.own
  envelopeId := h.envelopeId.trans henvelope
  deviceId := h.deviceId.trans hdevice
  reported := fun hrep => h.reported (hreported.trans hrep)
  receipt := by
    intro r hr
    obtain ⟨hnames, hfresh, hrest⟩ := h.receipt r hr
    exact ⟨by rw [hnames, henvelope, hdevice], hreported.symm.trans hfresh, hrest⟩

theorem notAllSent_of_stage (h : s.Sound a.sent i) (hstage : s.stage ≠ .ended (.ok ())) :
    s.pending.allSent = false := by
  by_contra hall
  rw [Bool.not_eq_false] at hall
  exact hstage (h.allSent hall)

theorem moved_sealed (h : s.Sound a.sent i) (hstage : s.stage = .sealing)
    (result : Except String Bytes) (random : ℕ → UInt8) (frameId : ℤ) :
    ∃ s', Moved a i s.pending (a.sealed config i s result random frameId) s' := by
  have hnotAll : s.pending.allSent = false := notAllSent_of_stage h (by rw [hstage]; exact nofun)
  have huntracked := h.untracked hstage
  -- no frame of the call is out, however many it will have
  have hready : ∀ frames, Send.Ready a.sent i { s with frames } 0 := by
    intro frames
    refine ⟨fun htracked => (nomatch huntracked.symm.trans htracked), hnotAll,
      fun hacknowledging => ?_⟩
    have hregistered := h.registered hacknowledging 0 none (by rw [Send.progress, hstage])
    exact ⟨Nat.zero_le _, hregistered.all, hregistered.own, fun _ hid => nomatch hid⟩
  unfold sealed
  split
  · exact moved_fail h.tracked hnotAll _
  split
  · exact moved_fail h.tracked hnotAll _
  next frames _ =>
  obtain ⟨s', hmoved⟩ := @moved_nextFrame config _ _ _ _ (hready frames) (Nat.zero_le _) frameId
  exact ⟨s', hmoved⟩

theorem moved_elapsed (h : s.Sound a.sent i) {index : ℕ} (hstage : s.stage = .spacing index)
    (frameId : ℤ) : ∃ s', Moved a i s.pending (a.transmit config i s index frameId) s' := by
  have hlt : index < s.frames.length := h.inRange index (by rw [hstage]; rfl)
  refine moved_transmit ⟨h.tracked, ?_, fun hacknowledging => ?_⟩ hlt frameId
  · exact notAllSent_of_stage h (by rw [hstage]; exact nofun)
  · exact h.registered hacknowledging index none (by rw [Send.progress, hstage])

@[simp] theorem register_sends (frameId : ℤ) : (a.register i frameId).sends = a.sends := by
  simp[register]

@[simp] theorem register_sent (frameId : ℤ) : (a.register i frameId).sent = a.sent := by
  simp[register]

theorem moved_transmitted (h : s.Sound a.sent i) {index : ℕ} {frameId : ℤ}
    (hstage : s.stage = .transmitting index frameId) (result : Except String Unit) (nextId : ℤ) :
    ∃ s', Moved a i s.pending (a.transmitted config i s index frameId result nextId) s' := by
  have hlt : index < s.frames.length := h.inRange index (by rw [hstage]; rfl)
  have hnotAll : s.pending.allSent = false := notAllSent_of_stage h (by rw [hstage]; exact nofun)
  unfold transmitted
  split
  · exact moved_fail h.tracked hnotAll _
  split
  · next hacknowledging =>
    have hregistered := h.registered hacknowledging index (some frameId)
      (by rw [Send.progress, hstage])
    have hready : Send.Ready (a.register i frameId).sent i
        { s with pending := { s.pending with
            tracked := true, waiting := insert frameId s.pending.waiting } } (index + 1) := by
      refine ⟨fun _ => ⟨hacknowledging, Nat.zero_lt_of_lt hlt⟩, hnotAll, fun _ => ?_⟩
      rw [register_sent]
      exact hregistered.register
    obtain ⟨s', hmoved⟩ := @moved_nextFrame config _ _ _ _ hready hlt nextId
    refine ⟨s', ?_, hmoved.sound, ?_, ?_, hmoved.envelopeId, hmoved.deviceId, hmoved.reported,
      hmoved.receipt⟩
    · rw [hmoved.sends, register_sends]
    · intro j hj
      have hothers := hmoved.others j hj
      rwa [register_sent] at hothers
    · have hown := hmoved.own
      rwa [register_sent] at hown
  next hplain =>
  refine moved_nextFrame ⟨h.tracked, hnotAll, fun hacknowledging => ?_⟩ hlt nextId
  exact absurd hacknowledging hplain

/-! ### What an act does -/

/-- **The invariant of the adapter.** -/
structure Sound (a : CarrierTransportAdapter) : Prop where
  sends : ∀ (i : ℕ) (s : Send), a.sends[i]? = some s → s.Sound a.sent i
  known : ∀ f ∈ a.sent, f.send < a.sends.length

theorem Sound.initial : Sound .initial where
  sends := fun _ _ hs => nomatch hs
  known := fun _ hf => absurd hf not_mem_nil

/-- **What one act does.** A call keeps its names and its report, and a receipt is for a call that
had none, with its names, where all of its frames are confirmed. -/
structure Effect (a : CarrierTransportAdapter)
    (x : CarrierTransportAdapter × Option CarrierDeliveryReceipt) : Prop where
  sound : x.1.Sound
  kept : ∀ (i : ℕ) (s : Send), a.sends[i]? = some s → ∃ s', x.1.sends[i]? = some s' ∧
    s'.pending.envelopeId = s.pending.envelopeId ∧ s'.pending.deviceId = s.pending.deviceId ∧
      (s.pending.reported = true → s'.pending.reported = true)
  receipt : ∀ r, x.2 = some r → ∃ s s', a.sends[r.send]? = some s ∧
    x.1.sends[r.send]? = some s' ∧
      (r.envelopeId = s'.pending.envelopeId ∧ r.deviceId = s'.pending.deviceId) ∧
        s.pending.reported = false ∧ s'.pending.reported = true ∧
          AllConfirmed x.1.sent r.send s'.frames.length

theorem Effect.same {x : CarrierTransportAdapter} (h : x.Sound) (hsends : x.sends = a.sends) :
    Effect a (x, none) where
  sound := h
  kept := fun i s hs => ⟨s, by rwa [hsends], rfl, rfl, fun hreported => hreported⟩
  receipt := fun _ hr => nomatch hr

theorem Effect.of_sends {b : CarrierTransportAdapter} (h : Effect b x)
    (hsends : b.sends = a.sends) : Effect a x where
  sound := h.sound
  kept := by
    rw [← hsends]
    exact h.kept
  receipt := by
    rw [← hsends]
    exact h.receipt

theorem Moved.effect {s' : Send} (h : Moved a i s.pending x s') (ha : a.Sound)
    (hs : a.sends[i]? = some s) : Effect a x := by
  have hlength := (List.getElem?_eq_some_iff.mp hs).1
  have hself : x.1.sends[i]? = some s' := by
    rw [h.sends, List.getElem?_set_self hlength]
  refine ⟨⟨?_, ?_⟩, ?_, ?_⟩
  · intro j t ht
    by_cases hij : i = j
    · subst hij
      obtain rfl := Option.some.inj (hself.symm.trans ht)
      exact h.sound
    · rw [h.sends, List.getElem?_set_ne hij] at ht
      exact (ha.sends j t ht).keeps (h.others j (Ne.symm hij))
  · intro f hf
    rw [h.sends, List.length_set]
    rcases h.own f hf with ⟨f₀, hf₀, hsend⟩ | hsend
    · exact hsend ▸ ha.known f₀ hf₀
    · exact hsend ▸ hlength
  · intro j t ht
    by_cases hij : i = j
    · subst hij
      obtain rfl := Option.some.inj (hs.symm.trans ht)
      exact ⟨s', hself, h.envelopeId, h.deviceId, h.reported⟩
    · refine ⟨t, ?_, rfl, rfl, fun hreported => hreported⟩
      rw [h.sends, List.getElem?_set_ne hij, ht]
  · intro r hr
    obtain ⟨rfl, hfresh, hreported, hall⟩ := h.receipt r hr
    exact ⟨s, s', hs, hself, ⟨h.envelopeId.symm, h.deviceId.symm⟩, hfresh, hreported, hall⟩

theorem Sound.acked (ha : a.Sound) (frameId : ℤ) :
    Sound { a with sent := confirm frameId a.sent } where
  sends := fun i s hs => (ha.sends i s hs).keeps (Keeps.confirm i frameId a.sent)
  known := by
    intro f hf
    obtain ⟨f₀, hf₀, hbecomes⟩ := (Keeps.confirm f.send frameId a.sent).back f hf rfl
    exact hbecomes.send ▸ ha.known f₀ hf₀

theorem effect_onFrameAck (ha : a.Sound) {frameId : ℤ} {ok : Bool}
    (hconfirmed : ok = true → ∀ f ∈ a.sent, f.frameId = frameId → f.confirmed = true) :
    Effect a (a.onFrameAck frameId ok) := by
  unfold onFrameAck
  split
  · exact Effect.same ha rfl
  next i hget =>
  have hb : Sound { a with unconfirmedFrames := a.unconfirmedFrames.remove frameId } :=
    ⟨ha.sends, ha.known⟩
  dsimp only
  split
  · exact Effect.same hb rfl
  next s hs =>
  have hsound := ha.sends i s hs
  split
  · next hok =>
    -- the id goes: every frame under it is confirmed
    have hsound' : Send.Sound a.sent i
        { s with pending := { s.pending with waiting := s.pending.waiting.erase frameId } } :=
      ⟨hsound.untracked, hsound.inRange, hsound.tracked, hsound.allSent,
        fun hacknowledging n inFlight hprogress =>
          (hsound.registered hacknowledging n inFlight hprogress).acknowledged (hconfirmed hok)⟩
    obtain ⟨s', hmoved⟩ := @moved_maybeReceipt
      { a with unconfirmedFrames := a.unconfirmedFrames.remove frameId } i _ hsound'
    have hmoved' : Moved _ i s.pending _ s' := hmoved.of_same rfl rfl rfl
    exact (hmoved'.effect hb hs).of_sends rfl
  · have hsound' : Send.Sound a.sent i { s with pending := { s.pending with refused := true } } :=
      ⟨hsound.untracked, hsound.inRange, hsound.tracked, hsound.allSent, hsound.registered⟩
    have hmoved := @moved_setSend
      { a with unconfirmedFrames := a.unconfirmedFrames.remove frameId } i _ s.pending hsound'
      rfl rfl rfl
    exact (hmoved.effect hb hs).of_sends rfl

theorem sound_begun (pending : RadioEnvelope) (acknowledging : Bool) (generation startedAt : ℕ)
    (stage : SendStage) (htracked : pending.tracked = false) (hall : pending.allSent = false)
    (hstage : stage = .sealing ∨ ∃ error, stage = .ended (.error error)) {sent : List SentFrame}
    (hnone : ∀ f ∈ sent, f.send ≠ i) :
    Send.Sound sent i ⟨acknowledging, generation, startedAt, [], pending, stage⟩ := by
  refine ⟨fun _ => htracked, ?_, fun h => (nomatch htracked.symm.trans h),
    fun h => (nomatch hall.symm.trans h), ?_⟩
  · rcases hstage with rfl | ⟨error, rfl⟩ <;> exact fun _ hindex => nomatch hindex
  · rcases hstage with rfl | ⟨error, rfl⟩
    · intro _ n inFlight hprogress
      obtain ⟨rfl, rfl⟩ := Prod.mk.inj (some.inj hprogress)
      exact ⟨le_rfl, fun _ hj => absurd hj (Nat.not_lt_zero _),
        fun f hf hsend => absurd hsend (hnone f hf), fun _ hid => nomatch hid⟩
    · intro _ n inFlight hprogress
      cases hprogress

theorem effect_concat (ha : a.Sound) {s : Send} (hs : s.Sound a.sent a.sends.length) :
    Effect a ({ a with sends := a.sends ++ [s] }, none) := by
  refine ⟨⟨?_, ?_⟩, ?_, fun _ hr => nomatch hr⟩
  · intro j t ht
    rw [List.getElem?_append] at ht
    split at ht
    · exact ha.sends j t ht
    next hge =>
    obtain ⟨hlt, rfl⟩ := List.getElem?_eq_some_iff.mp ht
    rw [List.length_singleton] at hlt
    obtain rfl : j = a.sends.length := by omega
    rw [List.getElem_singleton]
    exact hs
  · intro f hf
    rw [List.length_append]
    exact Nat.lt_add_right 1 (ha.known f hf)
  · intro j t ht
    refine ⟨t, ?_, rfl, rfl, fun hreported => hreported⟩
    rw [List.getElem?_append_left (List.getElem?_eq_some_iff.mp ht).1]
    exact ht

theorem effect_sendEnvelope (ha : a.Sound) (address : Option DartString)
    (deviceId envelopeId : DartString) (now : ℕ) :
    Effect a (a.sendEnvelope config address deviceId envelopeId now, none) := by
  have hnone : ∀ f ∈ a.sent, f.send ≠ a.sends.length := fun f hf => (ha.known f hf).ne
  unfold sendEnvelope
  split
  · split
    · exact effect_concat ha (sound_begun _ _ _ _ _ rfl rfl (.inl rfl) hnone)
    · exact effect_concat ha (sound_begun _ _ _ _ _ rfl rfl (.inr ⟨_, rfl⟩) hnone)
  · exact effect_concat ha (sound_begun _ _ _ _ _ rfl rfl (.inr ⟨_, rfl⟩) hnone)

theorem effect_step (ha : a.Sound) (hdistinct : (unconfirmedIds a.sent).Nodup) (act : AdapterAct) :
    Effect a (a.step config act) := by
  cases act with
  | attach channel => exact Effect.same ⟨ha.sends, ha.known⟩ rfl
  | detach => exact Effect.same ⟨ha.sends, ha.known⟩ rfl
  | detached => exact Effect.same ⟨ha.sends, ha.known⟩ rfl
  | start => exact Effect.same ⟨ha.sends, ha.known⟩ rfl
  | stop => exact Effect.same ⟨ha.sends, ha.known⟩ rfl
  | cancel operationId now =>
    have hsends : (a.cancel operationId now).sends = a.sends := by simp[cancel]
    have hsent : (a.cancel operationId now).sent = a.sent := by simp[cancel]
    refine Effect.same ⟨?_, ?_⟩ hsends
    · rw [hsends, hsent]
      exact ha.sends
    · rw [hsends, hsent]
      exact ha.known
  | sendEnvelope address deviceId envelopeId now =>
    exact effect_sendEnvelope ha address deviceId envelopeId now
  | frameAck frameId ok =>
    cases ok with
    | true =>
      refine (effect_onFrameAck (ha.acked frameId) fun _ f hf hid => ?_).of_sends rfl
      exact confirmed_of_distinct hdistinct hf hid
    | false => exact effect_onFrameAck ha fun h => nomatch h
  | sealed i result random frameId =>
    rw [step]
    split
    · next s hs =>
      split
      · next hstage =>
        obtain ⟨s', hmoved⟩ := moved_sealed (ha.sends i s hs) hstage result random frameId
        exact hmoved.effect ha hs
      · exact Effect.same ha rfl
    · exact Effect.same ha rfl
  | elapsed i frameId =>
    rw [step]
    split
    · next s hs =>
      split
      · next index hstage =>
        obtain ⟨s', hmoved⟩ := moved_elapsed (ha.sends i s hs) hstage frameId
        exact hmoved.effect ha hs
      · exact Effect.same ha rfl
    · exact Effect.same ha rfl
  | transmitted i result nextId =>
    rw [step]
    split
    · next s hs =>
      split
      · next index frameId hstage =>
        obtain ⟨s', hmoved⟩ := moved_transmitted (ha.sends i s hs) hstage result nextId
        exact hmoved.effect ha hs
      · exact Effect.same ha rfl
    · exact Effect.same ha rfl

end CarrierTransportAdapter

/-! ### Runs -/

section Runs

variable (config : AdapterConfig)

/-- After the act no two unconfirmed frames have one id. -/
def Distinct (a : CarrierTransportAdapter) (act : AdapterAct) : Prop :=
  (unconfirmedIds ((adapter config).step a act).1.sent).Nodup

instance (a : CarrierTransportAdapter) (act : AdapterAct) : Decidable (Distinct config a act) :=
  inferInstanceAs (Decidable (List.Nodup _))

variable {config} {acts : List AdapterAct} {k : ℕ} {a a' : CarrierTransportAdapter}
  {act : AdapterAct} {o : Option CarrierDeliveryReceipt}

theorem effect_at (hdistinct : (adapter config).Along (Distinct config) .initial acts)
    (hat : (adapter config).StepAt .initial acts k a act o a') :
    CarrierTransportAdapter.Effect a (a', o) := by
  have hstate : a.Sound ∧ (unconfirmedIds a.sent).Nodup := by
    have hstart : (unconfirmedIds CarrierTransportAdapter.initial.sent).Nodup := nodup_nil
    refine hat.induction (I := fun _ b => b.Sound ∧ (unconfirmedIds b.sent).Nodup)
      ⟨CarrierTransportAdapter.Sound.initial, hstart⟩ ?_
    intro n b bact u b' hn hb
    have heffect : CarrierTransportAdapter.Effect b (b.step config bact) :=
      CarrierTransportAdapter.effect_step hb.1 hb.2 bact
    have hnext := hn.along hdistinct
    have hstep : (b.step config bact).1 = b' := congrArg Prod.fst hn.step
    exact ⟨hstep ▸ heffect.sound, hstep ▸ hnext⟩
  have heffect : CarrierTransportAdapter.Effect a (a.step config act) :=
    CarrierTransportAdapter.effect_step hstate.1 hstate.2 act
  rwa [show a.step config act = (a', o) from hat.step] at heffect

theorem reported_later {k' n : ℕ} {b b' : CarrierTransportAdapter} {bact : AdapterAct}
    {u : Option CarrierDeliveryReceipt}
    (hdistinct : (adapter config).Along (Distinct config) .initial acts)
    (hat : (adapter config).StepAt .initial acts k a act o a')
    (hat' : (adapter config).StepAt .initial acts k' b bact u b') (hlt : k < k')
    (hreported : ∃ s, a'.sends[n]? = some s ∧ s.pending.reported = true) :
    ∃ s, b.sends[n]? = some s ∧ s.pending.reported = true := by
  refine hat.between hat' hlt (I := fun c => ∃ s, c.sends[n]? = some s ∧
    s.pending.reported = true) hreported ?_
  rintro m c cact v c' - - hm ⟨s, hs, hrep⟩
  obtain ⟨s', hs', -, -, hkept⟩ := (effect_at hdistinct hm).kept n s hs
  exact ⟨s', hs', hkept hrep⟩

/-- **A receipt means that every frame was confirmed.** In a run in which the ids of the frames are
different while unconfirmed, a receipt is for a call that exists, under its names, all of whose
frames went out and are confirmed; and no call has two. -/
theorem receipt_means_confirmed (config : AdapterConfig) (acts : List AdapterAct)
    (hdistinct : (adapter config).Along (Distinct config) .initial acts) :
    (∀ k a act r a', (adapter config).StepAt .initial acts k a act (some r) a' →
      ∃ s, a'.sends[r.send]? = some s ∧
        (r.envelopeId = s.pending.envelopeId ∧ r.deviceId = s.pending.deviceId) ∧
          AllConfirmed a'.sent r.send s.frames.length) ∧
    ∀ k k' a b act bact r r' a' b', (adapter config).StepAt .initial acts k a act (some r) a' →
      (adapter config).StepAt .initial acts k' b bact (some r') b' → r.send = r'.send → k = k' := by
  constructor
  · intro k a act r a' hat
    obtain ⟨_, s', -, hs', hnames, -, -, hall⟩ := (effect_at hdistinct hat).receipt r rfl
    exact ⟨s', hs', hnames, hall⟩
  -- the later receipt would find the call reported
  have hnever : ∀ k k' a b act bact r r' a' b',
      (adapter config).StepAt .initial acts k a act (some r) a' →
      (adapter config).StepAt .initial acts k' b bact (some r') b' → r.send = r'.send →
      ¬ k < k' := by
    intro k k' a b act bact r r' a' b' hat hat' hsame hlt
    obtain ⟨_, s', -, hs', -, -, hreported, -⟩ := (effect_at hdistinct hat).receipt r rfl
    obtain ⟨s, hs, hrep⟩ := reported_later hdistinct hat hat' hlt ⟨s', hs', hreported⟩
    obtain ⟨t, _, ht, -, -, hfresh, -, -⟩ := (effect_at hdistinct hat').receipt r' rfl
    rw [← hsame] at ht
    obtain rfl := some.inj (hs.symm.trans ht)
    cases hrep.symm.trans hfresh
  intro k k' a b act bact r r' a' b' hat hat' hsame
  rcases Nat.lt_trichotomy k k' with hlt | heq | hlt
  · exact absurd hlt (hnever k k' a b act bact r r' a' b' hat hat' hsame)
  · exact heq
  · exact absurd hlt (hnever k' k b a bact act r' r b' a' hat' hat hsame.symm)

end Runs

namespace Sample

def radio : AdapterConfig where
  label := "Radio"
  framing := ⟨4, 1, by decide, by decide⟩
  frameSpacing := 0
  isValidAddress := fun _ => true

def twoFrames : List AdapterAct :=
  [.attach ⟨true⟩, .start, .sendEnvelope (some (field "!a")) (field "peer") (field "e") 5,
    .sealed 0 (.ok [1, 2]) (fun _ => 0) 7, .transmitted 0 (.ok ()) 8, .frameAck 7 true,
    .transmitted 0 (.ok ()) 9, .frameAck 8 true]

theorem receipt_twoFrames :
    ∃ a a', (adapter radio).StepAt .initial twoFrames 7 a (.frameAck 8 true)
        (some ⟨0, field "e", field "peer"⟩) a' ∧
      ∃ s, a'.sends[0]? = some s ∧ AllConfirmed a'.sent 0 s.frames.length := by
  have hdistinct : (adapter radio).Along (Distinct radio) .initial twoFrames :=
    ⟨by decide, by decide, by decide, by decide, by decide, by decide, by decide, by decide,
      trivial⟩
  have hat : (adapter radio).StepAt .initial twoFrames 7 _ (.frameAck 8 true)
      (some ⟨0, field "e", field "peer"⟩) _ := Machine.stepAt_run (by decide)
  obtain ⟨s, hs, -, hall⟩ := (receipt_means_confirmed radio twoFrames hdistinct).1 7 _ _ _ _ hat
  exact ⟨_, _, hat, s, hs, hall⟩

end Sample

end Carrier
end Conest
