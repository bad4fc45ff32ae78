import Conest.Carrier.Keys

/-!
# Isolation

Strangers cannot be noticed by contacts: a run and the same run without the strangers' frames answer
the other frames alike (`without_strangers`). The strangers' pool is apart, and what their frames do
to the contacts' is a sweep, which the next frame of a contact would do anyway.

Contacts share a pool. A frame of a contact drops another's partial envelope only where it starts a
new one in a full pool (`Crowds`), or where one name followed by a bar begins the other. In a run
without such frames nothing of one contact is dropped by another (`not_dropped`), and an envelope
whose frames arrive in time is returned (`returned`).
-/

namespace Conest
namespace Carrier

open Lib CarrierReassembler List

/-! ### Strangers -/

section Strangers

variable {config : Config}

/-- The pools of contacts are the same from now on, once swept. -/
def SameContacts (config : Config) (coming : List Arrival) (r r' : CarrierReassembler) : Prop :=
  coming.Pairwise (fun a b => a.now ≤ b.now) ∧
    ∀ a ∈ coming, sweep config a.now r.pending = sweep config a.now r'.pending

theorem sweep_sweep {now later : ℤ} (h : now ≤ later)
    (pool : LinkedMap DartString PendingEnvelope) :
    sweep config later (sweep config now pool) = sweep config later pool := by
  unfold sweep
  rw [LinkedMap.filter_filter]
  apply LinkedMap.filter_congr
  intro key entry
  -- what has expired now has expired later
  by_cases hlater : config.expiry < later - entry.startedAt
  · simp [hlater]
  · have hnow : ¬ config.expiry < now - entry.startedAt := by omega
    simp [hlater, hnow]

theorem acceptPart_stranger {r : CarrierReassembler} {now : ℤ} {sender : DartString}
    (hstranger : isStranger config sender = true) (read : Option Part) :
    (r.acceptPart config now sender read).1.pending = r.pending ∨
      (r.acceptPart config now sender read).1.pending = sweep config now r.pending := by
  obtain hsame | ⟨part, -, -, -, pool, pool', -, -, hafter⟩ := acceptPart_cases r now sender read
  · rw [hsame]
    exact .inl rfl
  · rw [hafter, if_pos hstranger]
    exact .inr rfl

theorem acceptContact_congr {now : ℤ} {sender id : DartString} {index count : ℤ} {chunk : Bytes}
    (pool strangers strangers' : LinkedMap DartString PendingEnvelope) :
    (acceptContact config ⟨pool, strangers⟩ now sender id index count chunk).2 =
        (acceptContact config ⟨pool, strangers'⟩ now sender id index count chunk).2 ∧
      (acceptContact config ⟨pool, strangers⟩ now sender id index count chunk).1.pending =
        (acceptContact config ⟨pool, strangers'⟩ now sender id index count chunk).1.pending := by
  unfold acceptContact
  simp only
  split
  · exact ⟨rfl, rfl⟩
  split
  · exact ⟨rfl, rfl⟩
  split
  · exact ⟨rfl, rfl⟩
  · exact ⟨rfl, rfl⟩

theorem acceptPart_contact {r r' : CarrierReassembler} {now : ℤ} {sender : DartString}
    (hcontact : isStranger config sender = false)
    (hsame : sweep config now r.pending = sweep config now r'.pending) (read : Option Part) :
    (r.acceptPart config now sender read).2 = (r'.acceptPart config now sender read).2 ∧
      ((r.acceptPart config now sender read).1.pending =
          (r'.acceptPart config now sender read).1.pending ∨
        (r.acceptPart config now sender read).1 = r ∧
          (r'.acceptPart config now sender read).1 = r') := by
  cases read with
  | none => exact ⟨rfl, .inr ⟨rfl, rfl⟩⟩
  | some part =>
  by_cases hvalid : Valid config part
  swap
  · have hidle : ∀ s : CarrierReassembler, s.acceptPart config now sender (some part) =
        (s, .ok none) := fun s => if_pos (not_not.mp hvalid)
    rw [hidle r, hidle r']
    exact ⟨rfl, .inr ⟨rfl, rfl⟩⟩
  by_cases hsingle : part.count = 1
  · rw [acceptPart_single hvalid hsingle, acceptPart_single hvalid hsingle]
    exact ⟨rfl, .inr ⟨rfl, rfl⟩⟩
  rw [acceptPart_eq hvalid hsingle, acceptPart_eq hvalid hsingle, hcontact]
  rw [hsame]
  have hpools := @acceptContact_congr config now sender part.id part.index part.count part.chunk
    (sweep config now r'.pending) r.strangers r'.strangers
  exact ⟨hpools.1, .inl hpools.2⟩

/-- **Strangers are not noticed.** The frames of contacts are answered as if there were no others. -/
theorem without_strangers (config : Config) {arrivals : List Arrival}
    (hclock : arrivals.Pairwise fun a b => a.now ≤ b.now) :
    ((arrivals.zip ((machine config).outputs CarrierReassembler.initial arrivals)).filter
        fun answered => !isStranger config answered.1.sender) =
      (arrivals.filter fun a => !isStranger config a.sender).zip
        ((machine config).outputs CarrierReassembler.initial
          (arrivals.filter fun a => !isStranger config a.sender)) := by
  have hsim := Machine.sim_filter (m := machine config) (fun a => !isStranger config a.sender)
    (fun (a : Arrival) (o : Except String (Option Bytes)) => (a, o))
    (C := fun _ _ => True) (D := fun _ _ => True) ?_ ?_
    (t := CarrierReassembler.initial)
    (show SameContacts config arrivals _ _ from ⟨hclock, fun _ _ => rfl⟩) ?_ ?_
  · simpa using hsim
  · -- a frame of a contact
    rintro a coming r r' ⟨horder, hsame⟩ - - hkeep
    have hcontact : isStranger config a.sender = false := by simpa using hkeep
    obtain ⟨hanswers, hafter⟩ :=
      acceptPart_contact hcontact (hsame a mem_cons_self) a.frame.read
    rw [machine_step, machine_step]
    refine ⟨⟨horder.of_cons, fun b hb => ?_⟩, congrArg (Prod.mk a) hanswers⟩
    rcases hafter with hpools | ⟨hr, hr'⟩
    · rw [hpools]
    · rw [hr, hr']
      exact hsame b (mem_cons_of_mem a hb)
  · -- a frame of a stranger, in the first run only
    rintro a coming r r' ⟨horder, hsame⟩ - hdrop
    have hstranger : isStranger config a.sender = true := by simpa using hdrop
    refine ⟨horder.of_cons, fun b hb => ?_⟩
    rw [machine_step, ← hsame b (mem_cons_of_mem a hb)]
    rcases acceptPart_stranger hstranger a.frame.read with hr | hr
    · rw [hr]
    · rw [hr]
      exact sweep_sweep (rel_of_pairwise_cons horder hb) r.pending
  · exact (machine config).along_of_forall (fun _ _ => trivial) _ _
  · exact (machine config).along_of_forall (fun _ _ => trivial) _ _

end Strangers

/-! ### Contacts -/

section Contacts

variable {config : Config} {arrivals : List Arrival} {r : CarrierReassembler} {a : Arrival}
  {e : Envelope} {k : ℕ}

/-- Neither name begins the other, up to the bar. -/
def Apart (sender sender' : DartString) : Prop :=
  ¬ (sender ++ bar).isPrefixOf (sender' ++ bar) = true ∧
    ¬ (sender' ++ bar).isPrefixOf (sender ++ bar) = true

instance (sender sender' : DartString) : Decidable (Apart sender sender') := by
  unfold Apart
  infer_instance

/-- The contacts among the senders have names apart. -/
def ContactsApart (config : Config) (arrivals : List Arrival) : Prop :=
  ∀ a ∈ arrivals, ∀ b ∈ arrivals, isStranger config a.sender = false →
    isStranger config b.sender = false → a.sender ≠ b.sender → Apart a.sender b.sender

instance (config : Config) (arrivals : List Arrival) :
    Decidable (ContactsApart config arrivals) := by
  unfold ContactsApart
  infer_instance

/-- The frame of a contact that starts a partial envelope. -/
def Starts (config : Config) (r : CarrierReassembler) (a : Arrival) (part : Part) : Prop :=
  isStranger config a.sender = false ∧ Valid config part ∧ part.count ≠ 1 ∧
    (sweep config a.now r.pending).contains (a.sender ++ bar ++ part.id) = false

instance (config : Config) (r : CarrierReassembler) (a : Arrival) (part : Part) :
    Decidable (Starts config r a part) := by
  unfold Starts Valid
  infer_instance

theorem not_contains {pool : LinkedMap DartString PendingEnvelope} {key : DartString}
    (h : pool.get key = none) : pool.contains key = false := by
  unfold LinkedMap.contains
  rw [h]
  rfl

/-- How many partial envelopes its sender has pending. -/
def ownPending (config : Config) (r : CarrierReassembler) (a : Arrival) : ℕ :=
  ((sweep config a.now r.pending).keys.filter fun existing =>
    (a.sender ++ bar).isPrefixOf existing).length

/-- Where a contact below its own limit starts a partial envelope, the pool is not full. -/
def Roomful (config : Config) (r : CarrierReassembler) (a : Arrival) : Prop :=
  ∀ part ∈ a.frame.read, Starts config r a part →
    (ownPending config r a : ℤ) < config.maxPendingPerSender →
      ((sweep config a.now r.pending).size : ℤ) < config.maxPending

/-- A sender keeps to its own limit. -/
def WithinLimit (config : Config) (sender : DartString) (r : CarrierReassembler) (a : Arrival) :
    Prop :=
  a.sender = sender → ∀ part ∈ a.frame.read, Starts config r a part →
    (ownPending config r a : ℤ) < config.maxPendingPerSender

instance (config : Config) (r : CarrierReassembler) (a : Arrival) :
    Decidable (Roomful config r a) := by
  unfold Roomful
  infer_instance

instance (config : Config) (sender : DartString) (r : CarrierReassembler) (a : Arrival) :
    Decidable (WithinLimit config sender r a) := by
  unfold WithinLimit
  infer_instance

theorem Apart.not_isPrefixOf {sender sender' id : DartString} (h : Apart sender sender') :
    ¬ (sender ++ bar).isPrefixOf (sender' ++ bar ++ id) = true := by
  rw [ isPrefixOf_iff_prefix]
  intro hprefix
  rcases prefix_or_prefix_of_prefix hprefix (prefix_append (sender' ++ bar) id)
    with hle | hle
  · exact h.1 ( isPrefixOf_iff_prefix.mpr hle)
  · exact h.2 ( isPrefixOf_iff_prefix.mpr hle)

theorem Apart.key_ne {sender sender' id id' : DartString} (h : Apart sender sender') :
    sender' ++ bar ++ id' ≠ sender ++ bar ++ id := by
  intro heq
  have hprefix : (sender ++ bar).isPrefixOf (sender ++ bar ++ id) = true :=
    isPrefixOf_iff_prefix.mpr (prefix_append _ _)
  rw [← heq] at hprefix
  exact h.not_isPrefixOf hprefix

theorem makeRoom_eq : makeRoom config a.sender (sweep config a.now r.pending) =
    if config.maxPendingPerSender ≤ (ownPending config r a : ℤ) then
      removeFirst (sweep config a.now r.pending)
        ((sweep config a.now r.pending).keys.filter fun existing =>
          (a.sender ++ bar).isPrefixOf existing)
    else if config.maxPending ≤ ((sweep config a.now r.pending).size : ℤ) then
      removeFirst (sweep config a.now r.pending) (sweep config a.now r.pending).keys
    else .ok (sweep config a.now r.pending) := rfl

/-- **Room without eviction**: a contact drops nothing of another to make room. -/
theorem get_of_makeRoom {part : Part} {room : LinkedMap DartString PendingEnvelope}
    (hread : a.frame.read = some part) (hstarts : Starts config r a part)
    (hroomful : Roomful config r a)
    (hmade : makeRoom config a.sender (sweep config a.now r.pending) = .ok room)
    {sender id : DartString}
    (hlimit : sender = a.sender → (ownPending config r a : ℤ) < config.maxPendingPerSender)
    (hapart : sender ≠ a.sender → Apart a.sender sender) :
    room.get (sender ++ bar ++ id) =
      (sweep config a.now r.pending).get (sender ++ bar ++ id) := by
  rw [makeRoom_eq] at hmade
  by_cases hown : (ownPending config r a : ℤ) < config.maxPendingPerSender
  · have hroom := hroomful part hread hstarts hown
    rw [if_neg (Int.not_le.mpr hown), if_neg (Int.not_le.mpr hroom)] at hmade
    rw [Except.ok.inj hmade]
  -- the oldest of its own goes
  rw [if_pos (Int.not_lt.mp hown)] at hmade
  have hne : sender ≠ a.sender := fun heq => hown (hlimit heq)
  obtain ⟨key, hkey, rfl⟩ := removeFirst_cases hmade
  have hprefix : (a.sender ++ bar).isPrefixOf key = true :=
    (mem_filter.mp (mem_of_mem_head? hkey)).2
  rw [LinkedMap.get_remove, if_neg]
  intro heq
  rw [← heq] at hprefix
  exact (hapart hne).not_isPrefixOf hprefix

/-- **Nothing of another is dropped.** A frame of a contact leaves alone what is pending of another
and has not expired. -/
theorem not_dropped {sender id : DartString} {entry : PendingEnvelope}
    (hroomful : Roomful config r a) (hcontact : isStranger config a.sender = false)
    (hsender : isStranger config sender = false) (hapart : Apart a.sender sender)
    (hget : r.pending.get (sender ++ bar ++ id) = some entry)
    (halive : a.now - entry.startedAt ≤ config.expiry) :
    ((machine config).step r a).1.pending.get (sender ++ bar ++ id) = some entry := by
  have hpool : ∀ s : CarrierReassembler, s.poolOf config sender = s.pending := by
    intro s
    unfold poolOf
    rw [hsender]
    rfl
  have hstays : ((r.acceptPart config a.now a.sender a.frame.read).1.poolOf config sender).get
      (sender ++ bar ++ id) = (r.poolOf config sender).get (sender ++ bar ++ id) := by
    apply acceptPart_get
    · intro entry' hget'
      rw [hpool] at hget'
      rw [Option.some.inj (hget'.symm.trans hget)]
      exact halive
    · intro _ part _
      unfold keyOf
      rw [hcontact]
      exact hapart.key_ne
    intro hpools part hread room hvalid hsingle hnew hmade
    rw [poolOf_of_eq hpools, hpool] at hnew hmade ⊢
    unfold keyOf at hnew
    unfold roomFor at hmade
    rw [hcontact] at hnew hmade
    have hstarts : Starts config r a part := ⟨hcontact, hvalid, hsingle, not_contains hnew⟩
    refine get_of_makeRoom hread hstarts hroomful hmade (fun heq => ?_) fun _ => hapart
    rw [heq] at hapart
    exact absurd ( isPrefixOf_iff_prefix.mpr (prefix_refl _)) hapart.1
  rw [machine_step, ← hpool, hstays, hpool]
  exact hget

/-- What a contact's envelope needs to come through: its own frames under its id only, in time. -/
structure Sends (config : Config) (arrivals : List Arrival) (e : Envelope) : Prop where
  fits : e.Fits config.framing
  contact : isStranger config e.sender = false
  complete : Complete config.framing arrivals e
  /-- Nobody uses the id for anything else under the sender's name, before the last frame. -/
  genuine : ∀ (k : ℕ) (hk : k < arrivals.length), ¬ Complete config.framing (arrivals.take k) e →
    arrivals[k].sender = e.sender →
      (∀ part ∈ arrivals[k].frame.read, part.id = e.id → arrivals[k].isOf config.framing e = true)
  /-- All frames arrive within the expiry. -/
  inTime : ∀ (k : ℕ) (hk : k < arrivals.length), ¬ Complete config.framing (arrivals.take k) e →
    arrivals[k].isOf config.framing e = true →
      ∀ start ∈ startOf config.framing (arrivals.take k) e, arrivals[k].now - start ≤ config.expiry

theorem Sends.room {done : List Arrival} {index : ℕ} (hsends : Sends config arrivals e)
    (hroomful : Roomful config r a) (hlimit : WithinLimit config e.sender r a)
    (htracked : Tracked config done e r) (hpart : a.isPart config.framing e index = true)
    (hindex : index < e.count config.framing) (hnot : ¬ Incomplete config.framing done e)
    (hmany : 1 < e.count config.framing) :
    ∃ pool, roomFor config e.sender (sweep config a.now (r.poolOf config e.sender)) = .ok pool := by
  have hsender : a.sender = e.sender := (Arrival.isPart_iff.mp hpart).1
  have hpool : r.poolOf config e.sender = r.pending := by
    unfold poolOf
    rw [hsends.contact]
    rfl
  have hnew : (sweep config a.now r.pending).get
      (a.sender ++ bar ++ (e.part config.framing index).id) = none := by
    have hnothing := htracked.nothing hnot
    unfold entryOf keyOf at hnothing
    rw [hpool, hsends.contact] at hnothing
    have hget : r.pending.get (e.sender ++ bar ++ e.id) = none := hnothing
    rw [hsender]
    exact (get_sweep_of_alive fun entry hentry => nomatch hget.symm.trans hentry).trans hget
  have hread := Arrival.read_of_isPart hsends.fits hpart
  have hstarts : Starts config r a (e.part config.framing index) := by
    refine ⟨by rw [hsender]; exact hsends.contact, valid_part hsends.fits hindex, ?_,
      not_contains hnew⟩
    show (e.count config.framing : ℤ) ≠ 1
    omega
  have hown := hlimit hsender _ hread hstarts
  have hroom := hroomful _ hread hstarts hown
  refine ⟨sweep config a.now r.pending, ?_⟩
  unfold roomFor
  rw [hsends.contact, if_neg Bool.false_ne_true, hpool, ← hsender, makeRoom_eq,
    if_neg (Int.not_le.mpr hown), if_neg (Int.not_le.mpr hroom)]

section

variable (hsends : Sends config arrivals e) (hclock : arrivals.Pairwise fun a b => a.now ≤ b.now)
  (hapart : ContactsApart config arrivals)
  (hroomful : (machine config).Along (Roomful config) CarrierReassembler.initial arrivals)
  (hlimit : (machine config).Along (WithinLimit config e.sender) CarrierReassembler.initial
    arrivals)

include hsends hclock hapart hroomful hlimit

theorem Sends.tracked {last : ℕ} (hlast : last < arrivals.length)
    (hof : arrivals[last].isOf config.framing e = true)
    (hopen : ¬ Complete config.framing (arrivals.take last) e) (hk : k ≤ last) :
    Tracked config (arrivals.take k) e
      ((machine config).run CarrierReassembler.initial (arrivals.take k)) := by
  induction k with
  | zero => exact Tracked.initial config e
  | succ k ih =>
  have htracked := ih (by omega)
  have hlt : k < arrivals.length := by omega
  have hsplit : arrivals.take last =
      arrivals.take k ++ (arrivals.drop k).take (last - k) := by
    rw [← take_add, Nat.add_sub_cancel' (by omega)]
  have hopenk : ¬ Complete config.framing (arrivals.take k) e := by
    intro hcomplete
    apply hopen
    rw [hsplit]
    exact hcomplete.append _
  have hstep := Machine.stepAt_run (m := machine config) (s := CarrierReassembler.initial) hlt
  have hroomk := hstep.along hroomful
  have hlimitk := hstep.along hlimit
  have htake : arrivals.take (k + 1) = arrivals.take k ++ [arrivals[k]] := by
    rw [take_add_one, getElem?_eq_getElem hlt]
    rfl
  rw [htake, Machine.run_append]
  show Tracked config (arrivals.take k ++ [arrivals[k]]) e
    ((machine config).step ((machine config).run CarrierReassembler.initial (arrivals.take k))
      arrivals[k]).1
  generalize (machine config).run CarrierReassembler.initial (arrivals.take k) = r at *
  have hpool : r.poolOf config e.sender = r.pending := by
    unfold poolOf
    rw [hsends.contact]
    rfl
  have hlastsender : arrivals[last].sender = e.sender := by
    obtain ⟨index, -, hpart⟩ := any_eq_true.mp hof
    exact (Arrival.isPart_iff.mp hpart).1
  -- the clock leaves what is held alive up to the last frame
  have halive : ∀ start, Incomplete config.framing (arrivals.take k) e →
      startOf config.framing (arrivals.take k) e = some start →
        arrivals[k].now - start ≤ config.expiry := by
    intro start _ hstart
    have hlater : startOf config.framing (arrivals.take last) e = some start := by
      rw [hsplit]
      exact startOf_append hstart _
    have hend := hsends.inTime last hlast hopen hof start hlater
    have horder : arrivals[k].now ≤ arrivals[last].now :=
      pairwise_iff_getElem.mp hclock k last hlt hlast (by omega)
    omega
  by_cases hofk : arrivals[k].isOf config.framing e = true
  · obtain ⟨index, hrange, hpart⟩ := any_eq_true.mp hofk
    have hindex : index < e.count config.framing := mem_range.mp hrange
    exact (Tracked.own hsends.fits htracked hpart hindex hopenk halive
      (hsends.room hroomk hlimitk htracked hpart hindex)).1
  have happart : isStranger config arrivals[k].sender = false →
      e.sender ≠ arrivals[k].sender → Apart arrivals[k].sender e.sender := by
    intro hcontact hne
    have hnames := hapart arrivals[k] (getElem_mem hlt) arrivals[last]
      (getElem_mem hlast) hcontact (by rw [hlastsender]; exact hsends.contact)
    rw [hlastsender] at hnames
    exact hnames hne.symm
  refine htracked.other (by simpa using hofk) halive ?_ ?_
  · -- the key is another one
    intro hpools part hread
    have hcontact := hpools.trans hsends.contact
    unfold keyOf
    rw [hcontact, hsends.contact]
    by_cases hsame : arrivals[k].sender = e.sender
    · intro hkeys
      rw [hsame] at hkeys
      have hid : part.id = e.id := (append_cancel_left hkeys).symm
      exact hofk (hsends.genuine k hlt hopenk hsame part hread hid)
    · exact (happart hcontact fun heq => hsame heq.symm).key_ne
  · -- and it is not dropped
    intro hpools part hread room hvalid hsingle hnew hmade
    have hcontact := hpools.trans hsends.contact
    rw [poolOf_of_eq hpools, hpool] at hnew hmade ⊢
    unfold keyOf at hnew ⊢
    unfold roomFor at hmade
    rw [hcontact] at hnew hmade
    rw [hsends.contact]
    have hstarts : Starts config r arrivals[k] part :=
      ⟨hcontact, hvalid, hsingle, not_contains hnew⟩
    exact get_of_makeRoom hread hstarts hroomk hmade
      (fun heq => hlimitk heq.symm part hread hstarts) fun hne => happart hcontact hne

/-- **The envelope of a contact is returned**, with the last frame missing, whatever other contacts
and strangers send. -/
theorem Sends.returned : ∃ k, ∃ hk : k < arrivals.length, arrivals[k].isOf config.framing e = true ∧
      ((machine config).outputs CarrierReassembler.initial arrivals)[k]? =
        some (.ok (some e.sealed)) := by
  obtain ⟨last, hlast, hof, hopen, hdone⟩ := hsends.complete.exists_last hsends.fits
  have htracked := hsends.tracked hclock hapart hroomful hlimit hlast hof hopen (Nat.le_refl last)
  have hstep := Machine.stepAt_run (m := machine config) (s := CarrierReassembler.initial) hlast
  obtain ⟨index, hrange, hpart⟩ := any_eq_true.mp hof
  have hindex : index < e.count config.framing := mem_range.mp hrange
  have hown := Tracked.own hsends.fits htracked hpart hindex hopen
    (fun start _ hstart => hsends.inTime last hlast hopen hof start hstart)
    (hsends.room (hstep.along hroomful) (hstep.along hlimit) htracked hpart hindex)
  refine ⟨last, hlast, hof, ?_⟩
  have htake : arrivals.take last ++ [arrivals[last]] = arrivals.take (last + 1) := by
    rw [take_add_one, getElem?_eq_getElem hlast]
    rfl
  rw [Machine.outputs_getElem? _ hlast, hown.2, htake, if_pos hdone]

end

/-- **Isolation.** Strangers change no answer to a contact. And where no contact below its own limit
starts a partial envelope in a full pool, and names are apart, no frame of a contact drops what is
pending of another; and a contact that keeps to its own limit gets back every envelope whose frames
arrive in time. -/
theorem isolation (config : Config) (arrivals : List Arrival)
    (hclock : arrivals.Pairwise fun a b => a.now ≤ b.now) :
    (((arrivals.zip ((machine config).outputs CarrierReassembler.initial arrivals)).filter
        fun answered => !isStranger config answered.1.sender) =
      (arrivals.filter fun a => !isStranger config a.sender).zip
        ((machine config).outputs CarrierReassembler.initial
          (arrivals.filter fun a => !isStranger config a.sender))) ∧
    (ContactsApart config arrivals →
      (machine config).Along (Roomful config) CarrierReassembler.initial arrivals →
      (∀ (k : ℕ) (hk : k < arrivals.length) (sender id : DartString) (entry : PendingEnvelope),
        isStranger config arrivals[k].sender = false → isStranger config sender = false →
        Apart arrivals[k].sender sender →
        ((machine config).run CarrierReassembler.initial (arrivals.take k)).pending.get
          (sender ++ bar ++ id) = some entry →
        arrivals[k].now - entry.startedAt ≤ config.expiry →
        ((machine config).run CarrierReassembler.initial (arrivals.take (k + 1))).pending.get
          (sender ++ bar ++ id) = some entry) ∧
      ∀ e, Sends config arrivals e →
        (machine config).Along (WithinLimit config e.sender) CarrierReassembler.initial arrivals →
        ∃ k, ∃ hk : k < arrivals.length, arrivals[k].isOf config.framing e = true ∧
          ((machine config).outputs CarrierReassembler.initial arrivals)[k]? =
            some (.ok (some e.sealed))) := by
  refine ⟨without_strangers config hclock, fun hapart hroomful => ⟨?_, ?_⟩⟩
  · intro k hk sender id entry hcontact hsender hnames hget halive
    have hstep := Machine.stepAt_run (m := machine config) (s := CarrierReassembler.initial) hk
    have hafter : (machine config).run CarrierReassembler.initial (arrivals.take (k + 1)) =
        ((machine config).step ((machine config).run CarrierReassembler.initial (arrivals.take k))
          arrivals[k]).1 := (congrArg Prod.fst hstep.step).symm
    rw [hafter]
    exact not_dropped (hstep.along hroomful) hcontact hsender hnames hget halive
  · intro e hsends hlimit
    exact hsends.returned hclock hapart hroomful hlimit

end Contacts

/-! ### A run -/

namespace Sample

theorem one_le_three : 1 ≤ 3 := by decide

def crowded : Config where
  framing := ⟨3, 1, Nat.one_pos, one_le_three⟩
  expiry := 10
  maxPending := 2
  maxPendingPerSender := 2
  strangerPrefix := some (DartString.ofString "?")
  maxStrangerPending := 1

def note : Envelope := ⟨DartString.ofString "ana", .binary fun _ => 1, [1, 2]⟩

def reply (n : UInt8) : Envelope := ⟨DartString.ofString "bo", .binary fun _ => n, [3, 4]⟩

def knock : Envelope := ⟨DartString.ofString "?cy", .binary fun _ => 1, [5, 6]⟩

def comes (now : ℤ) (e : Envelope) (index : ℕ) : Arrival :=
  ⟨now, e.sender, (e.frameAt crowded.framing index).getD (.binary [])⟩

def between : List Arrival :=
  [comes 0 note 0, comes 1 (reply 1) 0, comes 2 knock 1, comes 3 note 1]

def pressed : List Arrival :=
  [comes 0 note 0, comes 1 (reply 1) 0, comes 2 (reply 2) 0, comes 3 note 1]

theorem sends_note : Sends crowded between note where
  fits := by decide
  contact := by decide
  complete := by decide
  genuine := by decide
  inTime := by decide

theorem sends_note_pressed : Sends crowded pressed note where
  fits := by decide
  contact := by decide
  complete := by decide
  genuine := by decide
  inTime := by decide

theorem isolation_between :
    (((between.zip ((machine crowded).outputs CarrierReassembler.initial between)).filter
        fun answered => !isStranger crowded answered.1.sender) =
      (between.filter fun a => !isStranger crowded a.sender).zip
        ((machine crowded).outputs CarrierReassembler.initial
          (between.filter fun a => !isStranger crowded a.sender))) ∧
    ∃ k, ∃ hk : k < between.length, between[k].isOf crowded.framing note = true ∧
      ((machine crowded).outputs CarrierReassembler.initial between)[k]? =
        some (.ok (some note.sealed)) := by
  have hclock : between.Pairwise fun a b => a.now ≤ b.now := by decide
  have hapart : ContactsApart crowded between := by decide
  have hroomful : (machine crowded).Along (Roomful crowded) CarrierReassembler.initial between :=
    ⟨by decide, by decide, by decide, by decide, trivial⟩
  have hlimit : (machine crowded).Along (WithinLimit crowded note.sender)
      CarrierReassembler.initial between :=
    ⟨by decide, by decide, by decide, by decide, trivial⟩
  exact ⟨(isolation crowded between hclock).1,
    ((isolation crowded between hclock).2 hapart hroomful).2 note sends_note hlimit⟩

/-- **Another contact drops the note**, though both keep to their own limits. -/
theorem note_dropped :
    (pressed.Pairwise fun a b => a.now ≤ b.now) ∧ ContactsApart crowded pressed ∧
      Sends crowded pressed note ∧
      (machine crowded).Along (WithinLimit crowded note.sender) CarrierReassembler.initial
        pressed ∧
      (machine crowded).Along (WithinLimit crowded (reply 1).sender) CarrierReassembler.initial
        pressed ∧
      (machine crowded).outputs CarrierReassembler.initial pressed =
        [.ok none, .ok none, .ok none, .ok none] :=
  ⟨by decide, by decide, sends_note_pressed,
    ⟨by decide, by decide, by decide, by decide, trivial⟩,
    ⟨by decide, by decide, by decide, by decide, trivial⟩, rfl⟩

end Sample

end Carrier
end Conest
