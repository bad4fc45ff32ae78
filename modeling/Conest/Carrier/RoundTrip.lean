import Conest.Carrier.Keys

/-!
# The round trip

A `Schedule` is any interleaving of the frames of finitely many envelopes, with repetitions, in
which the pools never run out of room and no envelope outlives the expiry. `reassembles` says what
the reassembler then answers: at each frame nothing, unless the frame is the last one missing of its
envelope, and then the envelope.

The invariant is `Tracked` for every envelope, together with the fact that every key in the pools is
that of one of the envelopes (`Known`); so the pools are as large as there are incomplete envelopes,
and no entry is ever dropped to make room.
-/

namespace Conest
namespace Carrier

open Lib CarrierReassembler List Option

/-- The incomplete envelopes among some. -/
def incomplete (framing : CarrierFraming) (envelopes : Finset Envelope) (done : List Arrival)
    (among : Envelope → Bool) : Finset Envelope :=
  envelopes.filter fun e => among e = true ∧ Incomplete framing done e

/-- **An interleaving of frames** that stays within the limits of a reassembler. -/
structure Schedule (config : Config) (envelopes : Finset Envelope) (arrivals : List Arrival) :
    Prop where
  fits : ∀ e ∈ envelopes, e.Fits config.framing
  names : ∀ e ∈ envelopes, Plain e.sender
  ids : ∀ e ∈ envelopes, ∀ e' ∈ envelopes, e.sender = e'.sender → e.id = e'.id → e = e'
  /-- Every arrival is a frame of an envelope that is not complete yet. -/
  frames : ∀ (k : ℕ) (hk : k < arrivals.length), ∃ e ∈ envelopes,
    arrivals[k].isOf config.framing e = true ∧ ¬ Complete config.framing (arrivals.take k) e
  /-- No envelope outlives the expiry. -/
  alive : ∀ (k : ℕ) (hk : k < arrivals.length), ∀ e ∈ envelopes,
    Incomplete config.framing (arrivals.take k) e →
      ∀ start ∈ startOf config.framing (arrivals.take k) e,
        arrivals[k].now - start ≤ config.expiry
  perSender : ∀ k ≤ arrivals.length, ∀ e ∈ envelopes, isStranger config e.sender = false →
    ((incomplete config.framing envelopes (arrivals.take k)
      fun e' => decide (e'.sender = e.sender)).card : ℤ) ≤ config.maxPendingPerSender
  total : ∀ k ≤ arrivals.length,
    ((incomplete config.framing envelopes (arrivals.take k)
      fun e => !isStranger config e.sender).card : ℤ) ≤ config.maxPending
  strangers : ∀ k ≤ arrivals.length,
    ((incomplete config.framing envelopes (arrivals.take k)
      fun e => isStranger config e.sender).card : ℤ) ≤ config.maxStrangerPending

section Counting

variable {framing : CarrierFraming} {envelopes : Finset Envelope} {done : List Arrival}
  {among : Envelope → Bool} {a : Arrival} {e : Envelope}

theorem mem_incomplete : e ∈ incomplete framing envelopes done among ↔
    e ∈ envelopes ∧ among e = true ∧ Incomplete framing done e := Finset.mem_filter

theorem length_le_card {K E : Type} [DecidableEq K] {keys : List K} (hnodup : keys.Nodup)
    {members : Finset E} (key : E → K) (h : ∀ k ∈ keys, ∃ e ∈ members, k = key e) :
    keys.length ≤ members.card := by
  have hsubset : keys.toFinset ⊆ members.image key := by
    intro k hk
    obtain ⟨e, he, rfl⟩ := h k (mem_toFinset.mp hk)
    exact Finset.mem_image_of_mem key he
  calc keys.length = keys.toFinset.card := (toFinset_card_of_nodup hnodup).symm
    _ ≤ (members.image key).card := Finset.card_le_card hsubset
    _ ≤ members.card := Finset.card_image_le

theorem incomplete_lt (hfits : e.Fits framing) (he : e ∈ envelopes) (hamong : among e = true)
    {index : ℕ} (hpart : a.isPart framing e index = true) (hindex : index < e.count framing)
    (hnew : gotten framing done e = ∅) (hmany : 1 < e.count framing)
    (hothers : ∀ e' ∈ envelopes, e' ≠ e → a.isOf framing e' = false) :
    (incomplete framing envelopes done among).card <
      (incomplete framing envelopes (done ++ [a]) among).card := by
  have hbefore : e ∉ incomplete framing envelopes done among := by
    rw [mem_incomplete]
    rintro ⟨-, -, hpos, -⟩
    rw [hnew] at hpos
    exact absurd hpos (Nat.lt_irrefl 0)
  have hafter : e ∈ incomplete framing envelopes (done ++ [a]) among := by
    have hone : (gotten framing (done ++ [a]) e).card = 1 := by
      rw [gotten_own hfits hpart hindex, hnew, insert_empty_eq, Finset.card_singleton]
    refine mem_incomplete.mpr ⟨he, hamong, ?_, ?_⟩
    · rw [hone]
      exact Nat.one_pos
    · rw [hone]
      exact hmany
  refine Finset.card_lt_card ((Finset.ssubset_iff_of_subset ?_).mpr ⟨e, hafter, hbefore⟩)
  intro e' he'
  by_cases hsame : e' = e
  · rw [hsame]
    exact hafter
  obtain ⟨hmem, hamong', hincomplete⟩ := mem_incomplete.mp he'
  refine mem_incomplete.mpr ⟨hmem, hamong', ?_⟩
  unfold Incomplete at hincomplete ⊢
  rwa [gotten_other (hothers e' hmem hsame)]

end Counting

/-! ### The run -/

namespace Schedule

variable {config : Config} {envelopes : Finset Envelope} {arrivals : List Arrival}

/-- Every key in the pools is that of an incomplete envelope. -/
def Known (config : Config) (envelopes : Finset Envelope) (done : List Arrival)
    (r : CarrierReassembler) : Prop :=
  ∀ s, ∀ k ∈ (r.poolOf config s).keys, ∃ e ∈ incomplete config.framing envelopes done
      fun e => decide (isStranger config e.sender = isStranger config s),
    k = keyOf config e.sender e.id (e.count config.framing)

theorem unique (h : Schedule config envelopes arrivals) {a : Arrival} {e e' : Envelope}
    (he : e ∈ envelopes) (he' : e' ∈ envelopes) (hof : a.isOf config.framing e = true)
    (hof' : a.isOf config.framing e' = true) : e = e' := by
  obtain ⟨index, -, hpart⟩ := any_eq_true.mp hof
  obtain ⟨index', -, hpart'⟩ := any_eq_true.mp hof'
  have hread := Arrival.read_of_isPart (h.fits e he) hpart
  have hread' := Arrival.read_of_isPart (h.fits e' he') hpart'
  have hsender := (Arrival.isPart_iff.mp hpart).1.symm.trans (Arrival.isPart_iff.mp hpart').1
  have hid : (e.part config.framing index).id = (e'.part config.framing index').id :=
    congrArg Part.id (some.inj (hread.symm.trans hread'))
  exact h.ids e he e' he' hsender hid

section Step

variable {k : ℕ} {r : CarrierReassembler} {e : Envelope} {index : ℕ}

section

variable (h : Schedule config envelopes arrivals) (hk : k < arrivals.length)

include h hk

theorem room (hknown : Known config envelopes (arrivals.take k) r) (he : e ∈ envelopes)
    (hpart : arrivals[k].isPart config.framing e index = true)
    (hindex : index < e.count config.framing)
    (hnew : gotten config.framing (arrivals.take k) e = ∅) (hmany : 1 < e.count config.framing) :
    roomFor config e.sender (sweep config arrivals[k].now (r.poolOf config e.sender)) =
      .ok (sweep config arrivals[k].now (r.poolOf config e.sender)) := by
  have hof := Arrival.isOf_of_isPart hpart hindex
  have hothers : ∀ e' ∈ envelopes, e' ≠ e → arrivals[k].isOf config.framing e' = false := by
    intro e' he' hne
    by_contra hof'
    exact hne (h.unique he' he (by simpa using hof') hof)
  have hgrows : ∀ among : Envelope → Bool, among e = true →
      (incomplete config.framing envelopes (arrivals.take k) among).card <
        (incomplete config.framing envelopes (arrivals.take (k + 1)) among).card := by
    intro among hamong
    rw [take_add_one, getElem?_eq_getElem hk]
    exact incomplete_lt (h.fits e he) he hamong hpart hindex hnew hmany hothers
  -- the pool of this sender, in numbers
  have hsize : ∀ among : Envelope → Bool,
      (∀ e', isStranger config e'.sender = isStranger config e.sender → among e' = true) →
      (sweep config arrivals[k].now (r.poolOf config e.sender)).size ≤
        (incomplete config.framing envelopes (arrivals.take k) among).card := by
    intro among hamong
    calc (sweep config arrivals[k].now (r.poolOf config e.sender)).size
        ≤ (r.poolOf config e.sender).size := LinkedMap.size_filter_le _ _
      _ = (r.poolOf config e.sender).keys.length := (length_map _).symm
      _ ≤ _ := by
        refine length_le_card (r.poolOf config e.sender).nodup
          (fun e' => keyOf config e'.sender e'.id (e'.count config.framing)) fun key hkey => ?_
        obtain ⟨e', he', hkeyed⟩ := hknown e.sender key hkey
        obtain ⟨hmem, hpool, hincomplete⟩ := mem_incomplete.mp he'
        exact ⟨e', mem_incomplete.mpr ⟨hmem, hamong e' (of_decide_eq_true hpool), hincomplete⟩,
          hkeyed⟩
  apply roomFor_of_lt
  · intro hstranger
    have hle := hsize (fun e => isStranger config e.sender) fun e' hsame => hsame.trans hstranger
    have hlt := hgrows (fun e => isStranger config e.sender) hstranger
    have hmax := h.strangers (k + 1) hk
    omega
  · intro hcontact
    have hle : ((sweep config arrivals[k].now (r.poolOf config e.sender)).keys.filter
        fun existing => (e.sender ++ bar).isPrefixOf existing).length ≤
        (incomplete config.framing envelopes (arrivals.take k)
          fun e' => decide (e'.sender = e.sender)).card := by
      refine length_le_card
        ((sweep config arrivals[k].now (r.poolOf config e.sender)).nodup.filter _)
        (fun e' => keyOf config e'.sender e'.id (e'.count config.framing)) fun key hkey => ?_
      obtain ⟨hmem, hprefix⟩ := mem_filter.mp hkey
      obtain ⟨e', he', rfl⟩ := hknown e.sender key (mem_keys_sweep hmem)
      obtain ⟨hmem', hpool, hincomplete⟩ := mem_incomplete.mp he'
      have hsender : e.sender = e'.sender :=
        sender_of_prefix (h.names e he) (h.names e' hmem')
          ((of_decide_eq_true hpool).trans hcontact) hprefix
      exact ⟨e', mem_incomplete.mpr ⟨hmem', decide_eq_true hsender.symm, hincomplete⟩, rfl⟩
    have hlt := hgrows (fun e' => decide (e'.sender = e.sender)) (decide_eq_true rfl)
    have hmax := h.perSender (k + 1) hk e he hcontact
    omega
  · intro hcontact
    have hle := hsize (fun e => !isStranger config e.sender) fun e' hsame => by
      rw [hsame, hcontact]
      rfl
    have hlt := hgrows (fun e => !isStranger config e.sender) (by rw [hcontact]; rfl)
    have hmax := h.total (k + 1) hk
    omega

/-- **One frame**: what is held of every envelope is kept, and the frame's own envelope is returned
if it is complete now. -/
theorem step
    (htracked : ∀ e ∈ envelopes, Tracked config (arrivals.take k) e r)
    (hknown : Known config envelopes (arrivals.take k) r) :
    (∀ e ∈ envelopes,
        Tracked config (arrivals.take (k + 1)) e ((machine config).step r arrivals[k]).1) ∧
      Known config envelopes (arrivals.take (k + 1)) ((machine config).step r arrivals[k]).1 ∧
      ∀ e ∈ envelopes, arrivals[k].isOf config.framing e = true →
        ((machine config).step r arrivals[k]).2 =
          .ok (if Complete config.framing (arrivals.take (k + 1)) e then some e.sealed else none) := by
  obtain ⟨e, he, hof, hopen⟩ := h.frames k hk
  obtain ⟨index, hrange, hpart⟩ := any_eq_true.mp hof
  have hindex : index < e.count config.framing := mem_range.mp hrange
  have hread := Arrival.read_of_isPart (h.fits e he) hpart
  have hsender : arrivals[k].sender = e.sender := (Arrival.isPart_iff.mp hpart).1
  have htake : arrivals.take (k + 1) = arrivals.take k ++ [arrivals[k]] := by
    rw [take_add_one, getElem?_eq_getElem hk]
    rfl
  have hnewroom : ¬ Incomplete config.framing (arrivals.take k) e → 1 < e.count config.framing →
      roomFor config e.sender (sweep config arrivals[k].now (r.poolOf config e.sender)) =
        .ok (sweep config arrivals[k].now (r.poolOf config e.sender)) :=
    fun hnot hmany => h.room hk hknown he hpart hindex (gotten_eq_empty hopen hnot) hmany
  have hown := Tracked.own (h.fits e he) (htracked e he) hpart hindex hopen
    (fun start hincomplete hstart => h.alive k hk e he hincomplete start hstart)
    fun hnot hmany => ⟨_, hnewroom hnot hmany⟩
  rw [← htake] at hown
  have hall : ∀ e' ∈ envelopes,
      Tracked config (arrivals.take (k + 1)) e' ((machine config).step r arrivals[k]).1 := by
    intro e' he'
    by_cases hsame : e' = e
    · rw [hsame]
      exact hown.1
    have hnot : arrivals[k].isOf config.framing e' = false := by
      by_contra hof'
      exact hsame (h.unique he' he (by simpa using hof') hof)
    rw [htake]
    refine (htracked e' he').other hnot
      (fun start hincomplete hstart => h.alive k hk e' he' hincomplete start hstart) ?_ ?_
    · -- the key is another one
      intro hpools part hpart'
      obtain rfl := some.inj (hread.symm.trans hpart')
      intro hkeys
      rw [hsender] at hkeys hpools
      obtain ⟨hnames, hids⟩ :=
        keyOf_injective (h.names e' he') (h.names e he) hpools.symm hkeys
      exact hsame (h.ids e' he' e he hnames hids)
    · -- and nothing is dropped
      intro _ part hpart' pool _ hsingle hget hmade
      obtain rfl := some.inj (hread.symm.trans hpart')
      rw [hsender] at hget hmade ⊢
      have hcount : e.count config.framing ≠ 1 := fun hone => hsingle (congrArg Nat.cast hone)
      have hincomplete : ¬ Incomplete config.framing (arrivals.take k) e := by
        intro hincomplete
        obtain ⟨entry, hentry, -, hstart⟩ := (htracked e he).held hincomplete
        have hstays : (sweep config arrivals[k].now (r.poolOf config e.sender)).get
            (keyOf config e.sender e.id (e.count config.framing)) = some entry := by
          rw [get_sweep_of_alive]
          · exact hentry
          · intro entry' hentry'
            rw [some.inj (hentry'.symm.trans hentry)]
            exact h.alive k hk e he hincomplete _ hstart
        rw [show keyOf config e.sender (e.part config.framing index).id
          (e.part config.framing index).count = keyOf config e.sender e.id (e.count config.framing)
          from rfl, hstays] at hget
        cases hget
      have hsame' := hnewroom hincomplete (by
        omega)
      rw [Except.ok.inj (hmade.symm.trans hsame')]
  refine ⟨hall, ?_, ?_⟩
  · -- keys come from the envelopes
    intro s key hkey
    have hsource : ∃ e' ∈ envelopes, isStranger config e'.sender = isStranger config s ∧
        key = keyOf config e'.sender e'.id (e'.count config.framing) := by
      rw [machine_step] at hkey
      obtain hold | ⟨hpools, part, hpart', -, hkeyed⟩ := mem_keys_acceptPart hkey
      · obtain ⟨e', he', hkeyed⟩ := hknown s key hold
        obtain ⟨hmem, hpool, -⟩ := mem_incomplete.mp he'
        exact ⟨e', hmem, of_decide_eq_true hpool, hkeyed⟩
      · obtain rfl := some.inj (hread.symm.trans hpart')
        rw [hsender] at hpools hkeyed
        exact ⟨e, he, hpools, hkeyed⟩
    obtain ⟨e', he', hpool, rfl⟩ := hsource
    refine ⟨e', mem_incomplete.mpr ⟨he', decide_eq_true hpool, ?_⟩, rfl⟩
    by_contra hnot
    have hnothing := (hall e' he').nothing hnot
    unfold entryOf at hnothing
    rw [poolOf_of_eq hpool, LinkedMap.get_eq_none] at hnothing
    exact hnothing hkey
  · intro e' he' hof'
    rw [h.unique he' he hof' hof]
    exact hown.2

end

end Step

section

variable (h : Schedule config envelopes arrivals) {k : ℕ}

include h

theorem tracked (hk : k ≤ arrivals.length) : (∀ e ∈ envelopes, Tracked config (arrivals.take k) e
        ((machine config).run CarrierReassembler.initial (arrivals.take k))) ∧
      Known config envelopes (arrivals.take k)
        ((machine config).run CarrierReassembler.initial (arrivals.take k)) := by
  induction k with
  | zero =>
    refine ⟨fun e _ => Tracked.initial config e, fun s key hkey => ?_⟩
    unfold poolOf at hkey
    split at hkey
    · cases hkey
    · cases hkey
  | succ k ih =>
  obtain ⟨htracked, hknown⟩ := ih (by omega)
  obtain ⟨htracked', hknown', -⟩ := h.step (by omega) htracked hknown
  have hrun : (machine config).run CarrierReassembler.initial (arrivals.take (k + 1)) =
      ((machine config).step
        ((machine config).run CarrierReassembler.initial (arrivals.take k)) arrivals[k]).1 := by
    rw [take_add_one, getElem?_eq_getElem (by omega), Machine.run_append]
    rfl
  rw [hrun]
  exact ⟨htracked', hknown'⟩

theorem answer (hk : k < arrivals.length) {e : Envelope} (he : e ∈ envelopes)
    (hof : arrivals[k].isOf config.framing e = true) :
    ((machine config).outputs CarrierReassembler.initial arrivals)[k]? =
      some (.ok (if Complete config.framing (arrivals.take (k + 1)) e then some e.sealed
        else none)) := by
  obtain ⟨htracked, hknown⟩ := h.tracked (Nat.le_of_lt hk)
  rw [Machine.outputs_getElem? _ hk, (h.step hk htracked hknown).2.2 e he hof]

end

/-- **The round trip.** The answer to a frame is its envelope, byte for byte, if the frame is the
last one missing, and nothing otherwise; and every envelope whose frames have all arrived is
returned by exactly one of them. -/
theorem reassembles (h : Schedule config envelopes arrivals) :
    (∀ (k : ℕ) (hk : k < arrivals.length), ∃ e ∈ envelopes,
      arrivals[k].isOf config.framing e = true ∧
      ((machine config).outputs CarrierReassembler.initial arrivals)[k]? =
        some (.ok (if Complete config.framing (arrivals.take (k + 1)) e then some e.sealed
          else none))) ∧
      ∀ e ∈ envelopes, Complete config.framing arrivals e →
        ∃! k, ∃ hk : k < arrivals.length, arrivals[k].isOf config.framing e = true ∧
          ((machine config).outputs CarrierReassembler.initial arrivals)[k]? =
            some (.ok (some e.sealed)) := by
  refine ⟨fun k hk => ?_, fun e he hcomplete => ?_⟩
  · obtain ⟨e, he, hof, -⟩ := h.frames k hk
    exact ⟨e, he, hof, h.answer hk he hof⟩
  obtain ⟨last, hlast, hof, -, hdone⟩ := hcomplete.exists_last (h.fits e he)
  refine ⟨last, ⟨hlast, hof, ?_⟩, ?_⟩
  · rw [h.answer hlast he hof, if_pos hdone]
  -- no frame of the envelope comes after the one that completes it
  have hnever : ∀ i j (hj : j < arrivals.length), i < j →
      arrivals[j].isOf config.framing e = true →
      ¬ Complete config.framing (arrivals.take (i + 1)) e := by
    intro i j hj hij hofj hcompletei
    obtain ⟨e', he', hof', hopen⟩ := h.frames j hj
    rw [h.unique he' he hof' hofj] at hopen
    apply hopen
    rw [← Nat.add_sub_cancel' (show i + 1 ≤ j from hij), take_add]
    exact hcompletei.append _
  rintro k ⟨hk, hofk, hanswer⟩
  rw [h.answer hk he hofk] at hanswer
  have hdonek : Complete config.framing (arrivals.take (k + 1)) e := by
    by_contra hnot
    rw [if_neg hnot] at hanswer
    cases hanswer
  rcases Nat.lt_trichotomy k last with hlt | heq | hgt
  · exact absurd hdonek (hnever k last hlast hlt hof)
  · exact heq
  · exact absurd hdone (hnever last k hk hgt hofk)

end Schedule

/-! ### A run -/

namespace Sample

theorem one_le_four : 1 ≤ 4 := by decide

def framing : CarrierFraming := ⟨4, 1, Nat.one_pos, one_le_four⟩

def config : Config where
  framing := framing
  expiry := 10
  maxPending := 2
  maxPendingPerSender := 2
  strangerPrefix := some (DartString.ofString "?")
  maxStrangerPending := 1

def letter : Envelope := ⟨DartString.ofString "ana", .json (DartString.ofString "x|1"), [1, 2]⟩

def request : Envelope := ⟨DartString.ofString "?bo", .binary fun _ => 7, [3, 4, 5]⟩

def arrival (now : ℤ) (e : Envelope) (index : ℕ) : Arrival :=
  ⟨now, e.sender, (e.frameAt framing index).getD (.binary [])⟩

def mixed : List Arrival :=
  [arrival 0 request 2, arrival 1 letter 1, arrival 2 request 0, arrival 3 request 2,
    arrival 4 letter 0, arrival 5 request 1]

theorem schedule_mixed : Schedule config {letter, request} mixed where
  fits := by decide
  names := by decide +kernel
  ids := by decide +kernel
  frames := by decide +kernel
  alive := by decide +kernel
  perSender := by decide +kernel
  total := by decide +kernel
  strangers := by decide

theorem reassembles_mixed :
    (∀ (k : ℕ) (hk : k < mixed.length), ∃ e ∈ ({letter, request} : Finset Envelope),
      mixed[k].isOf framing e = true ∧
      ((machine config).outputs CarrierReassembler.initial mixed)[k]? =
        some (.ok (if Complete framing (mixed.take (k + 1)) e then some e.sealed else none))) ∧
      ∀ e ∈ ({letter, request} : Finset Envelope), Complete framing mixed e →
        ∃! k, ∃ hk : k < mixed.length, mixed[k].isOf framing e = true ∧
          ((machine config).outputs CarrierReassembler.initial mixed)[k]? =
            some (.ok (some e.sealed)) :=
  schedule_mixed.reassembles

example : (machine config).outputs CarrierReassembler.initial mixed =
    [.ok none, .ok none, .ok none, .ok none, .ok (some [1, 2]), .ok (some [3, 4, 5])] := by
  rfl

def nameless : Envelope := ⟨DartString.ofString "ana", .json [], [1]⟩

def otherRequest : Envelope := ⟨DartString.ofString "?cy", .binary fun _ => 7, [6, 7]⟩

def crossed : List Arrival :=
  [arrival 0 request 0, arrival 1 otherRequest 0, arrival 2 otherRequest 1, arrival 3 request 1,
    arrival 4 request 2]

/-- A frame whose id is empty is refused; and a stranger's envelope pushes another out, although
fewer are incomplete than a pool of contacts holds. -/
theorem not_reassembled :
    (nameless.sealed ≠ [] ∧ nameless.sealed.length ≤ framing.maxSealedBytes ∧
      nameless.count framing ≤ 255 ∧ Plain nameless.sender ∧
      Complete framing [arrival 0 nameless 0] nameless ∧
      (machine config).outputs CarrierReassembler.initial [arrival 0 nameless 0] = [.ok none]) ∧
    (request.Fits framing ∧ otherRequest.Fits framing ∧ Plain request.sender ∧
      Plain otherRequest.sender ∧ Complete framing crossed request ∧
      (∀ k ≤ crossed.length, ((incomplete framing {request, otherRequest} (crossed.take k)
        fun _ => true).card : ℤ) ≤ config.maxPending) ∧
      (machine config).outputs CarrierReassembler.initial crossed =
        [.ok none, .ok none, .ok (some [6, 7]), .ok none, .ok none]) := by
  refine ⟨⟨?_, ?_, ?_, ?_, ?_, rfl⟩, ?_, ?_, ?_, ?_, ?_, ?_, rfl⟩
  all_goals decide

end Sample

end Carrier
end Conest
