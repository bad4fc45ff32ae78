import Conest.Carrier.Envelopes

/-!
# Collecting one envelope

What the reassembler holds of an envelope is a function of the frames of it that have arrived
(`Tracked`): nothing before the first and after the last, and otherwise the chunks so far, with the
time of the first. A frame of the envelope adds its chunk, or completes it and returns the sealed
bytes (`Tracked.own`). Any other frame leaves it alone, as long as it does not expire and is not the
one dropped to make room (`Tracked.other`).

Both pools are treated alike: `entryOf` looks up an envelope in the pool of its sender.
-/

namespace Conest
namespace Carrier

open Lib List Option

/-! ### What has arrived -/

section Arrived

variable (framing : CarrierFraming)

/-- Whether an arrival is the frame with an index of an envelope. -/
def Arrival.isPart (a : Arrival) (e : Envelope) (index : ℕ) : Bool :=
  decide (a.sender = e.sender ∧ e.frameAt framing index = some a.frame)

/-- Whether an arrival is a frame of an envelope. -/
def Arrival.isOf (a : Arrival) (e : Envelope) : Bool :=
  (List.range (e.count framing)).any (a.isPart framing e)

/-- The indexes of an envelope that have arrived. -/
def gotten (done : List Arrival) (e : Envelope) : Finset ℕ :=
  (Finset.range (e.count framing)).filter fun index =>
    (done.any fun a => a.isPart framing e index) = true

/-- When its first frame arrived. -/
def startOf (done : List Arrival) (e : Envelope) : Option ℤ :=
  (done.find? fun a => a.isOf framing e).map Arrival.now

def Complete (done : List Arrival) (e : Envelope) : Prop :=
  (gotten framing done e).card = e.count framing

/-- Some frames have arrived, but not all. -/
def Incomplete (done : List Arrival) (e : Envelope) : Prop :=
  0 < (gotten framing done e).card ∧ (gotten framing done e).card < e.count framing

instance (done : List Arrival) (e : Envelope) : Decidable (Complete framing done e) :=
  inferInstanceAs (Decidable (_ = _))

instance (done : List Arrival) (e : Envelope) : Decidable (Incomplete framing done e) :=
  inferInstanceAs (Decidable (_ ∧ _))

variable {framing} {done : List Arrival} {e : Envelope} {a : Arrival} {index : ℕ}

theorem Arrival.isPart_iff : a.isPart framing e index = true ↔
    a.sender = e.sender ∧ e.frameAt framing index = some a.frame := decide_eq_true_iff

theorem Arrival.read_of_isPart (hfits : e.Fits framing) (hpart : a.isPart framing e index = true) :
    a.frame.read = some (e.part framing index) :=
  Envelope.read_frameAt hfits (Arrival.isPart_iff.mp hpart).2

theorem Arrival.isOf_of_isPart (hpart : a.isPart framing e index = true)
    (hindex : index < e.count framing) : a.isOf framing e = true :=
  any_eq_true.mpr ⟨index, mem_range.mpr hindex, hpart⟩

theorem mem_gotten : index ∈ gotten framing done e ↔
    index < e.count framing ∧ ∃ a ∈ done, a.isPart framing e index = true := by
  unfold gotten
  rw [Finset.mem_filter, Finset.mem_range, List.any_eq_true]

theorem gotten_subset : gotten framing done e ⊆ Finset.range (e.count framing) :=
  Finset.filter_subset _ _

theorem card_gotten_le : (gotten framing done e).card ≤ e.count framing := by
  have hsubset : gotten framing done e ⊆ Finset.range (e.count framing) := gotten_subset
  calc (gotten framing done e).card ≤ (Finset.range (e.count framing)).card :=
        Finset.card_le_card hsubset
    _ = e.count framing := Finset.card_range _

theorem gotten_nil : gotten framing [] e = ∅ := by
  unfold gotten
  rw [Finset.filter_eq_empty_iff]
  intro index _
  simp

theorem Complete.append (h : Complete framing done e) (more : List Arrival) :
    Complete framing (done ++ more) e := by
  have hsubset : gotten framing done e ⊆ gotten framing (done ++ more) e := by
    intro index hindex
    obtain ⟨hlt, a, ha, hpart⟩ := mem_gotten.mp hindex
    exact mem_gotten.mpr ⟨hlt, a, mem_append_left more ha, hpart⟩
  have hle : (gotten framing (done ++ more) e).card ≤ e.count framing := card_gotten_le
  have hcard := Finset.card_le_card hsubset
  unfold Complete at h ⊢
  omega

theorem gotten_own (hfits : e.Fits framing) (hpart : a.isPart framing e index = true)
    (hindex : index < e.count framing) :
    gotten framing (done ++ [a]) e = insert index (gotten framing done e) := by
  ext j
  rw [Finset.mem_insert, mem_gotten, mem_gotten]
  constructor
  · rintro ⟨hj, b, hb, hbpart⟩
    rcases mem_append.mp hb with hold | hlast
    · exact .inr ⟨hj, b, hold, hbpart⟩
    rw [mem_singleton] at hlast
    subst hlast
    -- one frame has one index
    have hread := (Arrival.read_of_isPart hfits hpart).symm.trans
      (Arrival.read_of_isPart hfits hbpart)
    have hsame : (e.part framing index).index = (e.part framing j).index :=
      congrArg Part.index (some.inj hread)
    exact .inl (Nat.cast_inj.mp hsame).symm
  · rintro (rfl | ⟨hj, b, hb, hbpart⟩)
    · exact ⟨hindex, a, by simp, hpart⟩
    · exact ⟨hj, b, mem_append_left _ hb, hbpart⟩

theorem gotten_other (hnot : a.isOf framing e = false) :
    gotten framing (done ++ [a]) e = gotten framing done e := by
  ext j
  rw [mem_gotten, mem_gotten]
  constructor
  · rintro ⟨hj, b, hb, hbpart⟩
    rcases mem_append.mp hb with hold | hlast
    · exact ⟨hj, b, hold, hbpart⟩
    rw [mem_singleton] at hlast
    subst hlast
    rw [Arrival.isOf_of_isPart hbpart hj] at hnot
    cases hnot
  · rintro ⟨hj, b, hb, hbpart⟩
    exact ⟨hj, b, mem_append_left _ hb, hbpart⟩

/-- **The last missing frame.** A complete envelope was completed by one of its frames. -/
theorem Complete.exists_last (hfits : e.Fits framing) (hcomplete : Complete framing done e) :
    ∃ k, ∃ hk : k < done.length, done[k].isOf framing e = true ∧
      ¬ Complete framing (done.take k) e ∧ Complete framing (done.take (k + 1)) e := by
  have hex : ∃ n, Complete framing (done.take n) e := ⟨done.length, by rwa [take_length]⟩
  have hle : Nat.find hex ≤ done.length := Nat.find_min' hex (by rwa [take_length])
  have hfirst := Nat.find_spec hex
  cases hn : Nat.find hex with
  | zero =>
    -- nothing is complete before the first frame
    have hcount : 1 ≤ e.count framing :=
      framing.one_le_frameCount (length_pos_iff.mpr hfits.1)
    rw [hn] at hfirst
    unfold Complete at hfirst
    rw [take_zero, gotten_nil, Finset.card_empty] at hfirst
    omega
  | succ k =>
  rw [hn] at hfirst hle
  have hbefore : ¬ Complete framing (done.take k) e := Nat.find_min hex (by omega)
  refine ⟨k, hle, ?_, hbefore, hfirst⟩
  by_contra hnot
  apply hbefore
  unfold Complete at hfirst ⊢
  rw [take_add_one, getElem?_eq_getElem hle] at hfirst
  rwa [show (some done[k]).toList = [done[k]] from rfl,
    gotten_other (by simpa using hnot)] at hfirst

theorem startOf_append {start : ℤ} (h : startOf framing done e = some start)
    (more : List Arrival) : startOf framing (done ++ more) e = some start := by
  unfold startOf at h ⊢
  obtain ⟨b, hfind, hb⟩ := map_eq_some_iff.mp h
  rw [find?_append, hfind]
  exact congrArg some hb

theorem startOf_first (h : gotten framing done e = ∅) (hof : a.isOf framing e = true) :
    startOf framing (done ++ [a]) e = some a.now := by
  have hnone : done.find? (fun a => a.isOf framing e) = none := by
    rw [find?_eq_none]
    intro b hb hbof
    obtain ⟨index, hindex, hpart⟩ := any_eq_true.mp hbof
    have hmem : index ∈ gotten framing done e :=
      mem_gotten.mpr ⟨mem_range.mp hindex, b, hb, hpart⟩
    rw [h] at hmem
    exact absurd hmem (Finset.notMem_empty index)
  unfold startOf
  rw [find?_append, hnone]
  simp [hof]

end Arrived

/-! ### The pools -/

section Pools

variable (config : Config)

/-- The pool of a sender. -/
def CarrierReassembler.poolOf (r : CarrierReassembler) (sender : DartString) :
    LinkedMap DartString PendingEnvelope :=
  if isStranger config sender then r.strangers else r.pending

/-- The key of a part in the pool of its sender. -/
def keyOf (sender id : DartString) (count : ℤ) : DartString :=
  if CarrierReassembler.isStranger config sender then sender ++ bar ++ id ++ bar ++ digits count
  else sender ++ bar ++ id

/-- The partial envelope that the pool of its sender holds. -/
def entryOf (r : CarrierReassembler) (e : Envelope) : Option PendingEnvelope :=
  (r.poolOf config e.sender).get (keyOf config e.sender e.id (e.count config.framing))

/-- An entry holds exactly the chunks that have arrived. -/
structure Matches (e : Envelope) (indexes : Finset ℕ) (entry : PendingEnvelope) : Prop where
  count : entry.count = e.count config.framing
  chunks : ∀ j : ℕ, entry.chunks.get j =
    if j ∈ indexes then some (config.framing.chunk e.sealed j) else none
  negative : ∀ j : ℤ, j < 0 → entry.chunks.get j = none

/-- **What is held of an envelope** after the arrivals `done`. -/
structure Tracked (done : List Arrival) (e : Envelope) (r : CarrierReassembler) : Prop where
  held : Incomplete config.framing done e → ∃ entry, entryOf config r e = some entry ∧
    Matches config e (gotten config.framing done e) entry ∧
    startOf config.framing done e = some entry.startedAt
  nothing : ¬ Incomplete config.framing done e → entryOf config r e = none

variable {config} {e : Envelope} {indexes : Finset ℕ} {entry : PendingEnvelope}

theorem Matches.size (h : Matches config e indexes entry) : entry.chunks.size = indexes.card := by
  have hkeys : entry.chunks.keys = indexes.map Nat.castEmbedding := by
    ext j
    rw [entry.chunks.mem_keys, Finset.mem_map]
    constructor
    · intro hsome
      rcases lt_or_ge j 0 with hneg | hpos
      · rw [h.negative j hneg] at hsome
        cases hsome
      obtain ⟨n, rfl⟩ := Int.eq_ofNat_of_zero_le hpos
      rw [h.chunks] at hsome
      by_cases hmem : n ∈ indexes
      · exact ⟨n, hmem, rfl⟩
      · rw [if_neg hmem] at hsome
        cases hsome
    · rintro ⟨n, hmem, rfl⟩
      show (entry.chunks.get (n : ℤ)).isSome = true
      rw [h.chunks, if_pos hmem]
      rfl
  unfold FMap.size
  rw [hkeys, Finset.card_map]

theorem Matches.empty (e : Envelope) (now : ℤ) :
    Matches config e ∅ ⟨e.count config.framing, now, FMap.empty⟩ where
  count := rfl
  chunks j := by simp
  negative j _ := rfl

theorem Matches.insert (h : Matches config e indexes entry) (index : ℕ) :
    Matches config e (Insert.insert index indexes)
      { entry with
        chunks := entry.chunks.insert index (config.framing.chunk e.sealed index) } where
  count := h.count
  chunks j := by
    show (if (j : ℤ) = index then some _ else entry.chunks.get j) = _
    by_cases hj : j = index
    · subst hj
      rw [if_pos rfl, if_pos (Finset.mem_insert_self _ _)]
    · rw [if_neg fun hcast => hj (Nat.cast_inj.mp hcast), h.chunks]
      simp[Finset.mem_insert, hj, false_or]
  negative j hj := by
    show (if j = (index : ℤ) then some _ else entry.chunks.get j) = _
    rw [if_neg (by omega)]
    exact h.negative j hj

theorem Matches.assemble (h : Matches config e (Finset.range (e.count config.framing)) entry) :
    assemble entry (e.count config.framing) = e.sealed := by
  unfold Carrier.assemble
  calc (range (e.count config.framing)).flatMap
        (fun (part : ℕ) => (entry.chunks.get part).getD [])
      = (range (e.count config.framing)).flatMap (config.framing.chunk e.sealed) := by
        refine flatMap_congr fun j hj => ?_
        rw [h.chunks, if_pos (Finset.mem_range.mpr (mem_range.mp hj))]
        rfl
    _ = e.sealed := config.framing.flatMap_chunk e.sealed

end Pools

end Carrier
end Conest
