import Conest.Lib.Machine
import Conest.Lib.Slices
import Conest.Mesh.Codec
import Conest.Mesh.Fragments

/-!
# Fragments and what is made of them

`bitchatFragmentsFor` cuts the encoded packet in slices that fill the link to the last byte: the
header of a fragment is measured once, and it has the same length whatever the index and the number
of fragments are (`length_fragmentOf`).

A `Target` is a packet as the reassembler sees it: a key, a number of slices and the slices.
`Tracks` is what the reassembler holds of it, an entry with exactly the slices that have come.
Fragments of other packets leave it alone as long as there are fewer of them than places; fragments
that disagree about the number or the type find an entry that is not theirs. With the last slice the
entry is gone (`Tracks.own`), and from then on the packet is a new one to the reassembler: it
is given again when every slice has come again, and not before (`Missing.step`).
-/

namespace Conest
namespace Mesh

open Lib List Option

/-! ### The fragments of a packet -/

section Fragments

variable {original : BitchatPacket} {id : Bytes}

theorem encode_fragmentOf (original : BitchatPacket) (id : Bytes) (index total : ℕ) (chunk : Bytes) :
    (fragmentOf original id index total chunk).encode none =
      (fragmentOf original id index total chunk).raw := by
  have hplain : ¬ decide (BitchatType.fragment = BitchatType.noiseHandshake ∨
      BitchatType.fragment = BitchatType.noiseEncrypted) = true := by decide
  exact if_neg hplain

theorem length_fragmentOf (original : BitchatPacket) (id : Bytes) (index total : ℕ)
    (chunk : Bytes) :
    ((fragmentOf original id index total chunk).encode none).length =
      ((fragmentOf original id 0 1 []).encode none).length + chunk.length := by
  rw [encode_fragmentOf, encode_fragmentOf]
  unfold BitchatPacket.raw BitchatPacket.body BitchatPacket.hops fragmentOf BitchatFragment.encode
  simp only [length_cons, length_append, bigEndian_length, length_nil,
    getD_none]
  omega

theorem bitchatFragmentsFor_eq_some {maxPacketBytes : ℤ} {fragments : List BitchatPacket}
    (h : bitchatFragmentsFor original maxPacketBytes id = some fragments) :
    ∃ size : ℕ, bitchatMinFragmentChunk ≤ size ∧
      maxPacketBytes = ((fragmentOf original id 0 1 []).encode none).length + size ∧
      sliceCount size (original.encode none).length ≤ 0xffff ∧
      fragments = (range (sliceCount size (original.encode none).length)).map fun index =>
        fragmentOf original id index (sliceCount size (original.encode none).length)
          (slice size (original.encode none) index) := by
  unfold bitchatFragmentsFor at h
  dsimp only at h
  split at h
  · cases h
  next hsize =>
  split at h
  · cases h
  next htotal =>
  refine ⟨(maxPacketBytes - ((fragmentOf original id 0 1 []).encode none).length).toNat, ?_, ?_,
    Nat.le_of_not_lt htotal, (some.inj h).symm⟩
  · omega
  · omega

theorem decode_encode_fragment {index total : ℕ} {type : UInt8} {chunk : Bytes} (hid : id.length = 8)
    (hindex : index < total) (htotal : total ≤ 0xffff) (hchunk : chunk ≠ []) :
    BitchatFragment.decode (BitchatFragment.encode ⟨id, index, total, type, chunk⟩) =
      some ⟨id, index, total, type, chunk⟩ := by
  have hpos := length_pos_iff.mpr hchunk
  obtain ⟨i, j, hi⟩ : ∃ i j, bigEndian 2 index = [i, j] :=
    length_eq_two.mp (bigEndian_length 2 index)
  obtain ⟨k, l, hk⟩ : ∃ k l, bigEndian 2 total = [k, l] :=
    length_eq_two.mp (bigEndian_length 2 total)
  have hindex' : ofBigEndian [i, j] = index := by
    rw [← hi, ofBigEndian_bigEndian]
    exact Nat.mod_eq_of_lt (by omega)
  have htotal' : ofBigEndian [k, l] = total := by
    rw [← hk, ofBigEndian_bigEndian]
    exact Nat.mod_eq_of_lt (by omega)
  obtain ⟨a, b, c, d, e, f, g, h, rfl⟩ : ∃ a b c d e f g h, id = [a, b, c, d, e, f, g, h] := by
    match id, hid with
    | [a, b, c, d, e, f, g, h], _ => exact ⟨a, b, c, d, e, f, g, h, rfl⟩
  unfold BitchatFragment.encode
  rw [hi, hk]
  unfold BitchatFragment.decode
  have hlong : ¬ ([a, b, c, d, e, f, g, h] ++ ([i, j] ++ ([k, l] ++ type :: chunk))).length ≤
      fragmentHeaderBytes := by
    unfold fragmentHeaderBytes
    simp only [length_append, length_cons, length_nil]
    omega
  rw [if_neg hlong]
  show (if ofBigEndian [k, l] = 0 ∨ ofBigEndian [k, l] ≤ ofBigEndian [i, j] then none else
    some (⟨_, ofBigEndian [i, j], ofBigEndian [k, l], type, chunk⟩ : BitchatFragment)) = _
  rw [hindex', htotal', if_neg (by omega)]
  rfl

theorem wellFormed_fragmentOf (h : original.WellFormed) {index total : ℕ} {chunk : Bytes}
    (hchunk : (BitchatFragment.encode ⟨id, index, total, original.type, chunk⟩).length ≤
      1024 * 1024) :
    (fragmentOf original id index total chunk).WellFormed ↔ original.version = 2 ∨
      (fragmentOf original id index total chunk).payload.length ≤ 65535 := by
  constructor
  · intro hwell
    rcases h.version with hversion | hversion
    · refine .inr (hwell.payload.trans (le_of_eq ?_))
      exact if_pos hversion
    · exact .inl hversion
  intro hfits
  refine ⟨h.version, h.sender, h.recipient, (fun s hs => nomatch hs), h.route, ?_⟩
  split
  · next hversion =>
    refine hfits.resolve_left fun htwo => ?_
    have hone : original.version = 1 := hversion
    rw [hone] at htwo
    exact absurd htwo (by decide)
  · exact hchunk

end Fragments

/-! ### A packet in slices -/

/-- A packet as the reassembler sees it. -/
structure Target where
  key : Bytes × Bytes
  total : ℕ
  type : UInt8
  slices : ℕ → Bytes
  pos : 0 < total
  bytes : ∑ index ∈ Finset.range total, (slices index).length ≤ maxBytes
  room : ∀ index, total * (slices index).length ≤ maxBytes * 2

namespace Target

variable (t : Target)

/-- The bytes of the packet. -/
def whole : Bytes := (List.range t.total).flatMap t.slices

/-- The packet carries the slice at an index. -/
structure Carries (index : ℕ) (q : BitchatPacket) : Prop where
  lt : index < t.total
  sender : q.senderId = t.key.1
  decode : BitchatFragment.decode q.payload =
    some ⟨t.key.2, index, t.total, t.type, t.slices index⟩

/-- The packet carries a fragment of another packet, or none at all. -/
def Foreign (q : BitchatPacket) : Prop :=
  ∀ f, BitchatFragment.decode q.payload = some f → (q.senderId, f.fragmentId) ≠ t.key

/-- The packet carries a fragment with the key of this one that disagrees with it. -/
def Disagrees (q : BitchatPacket) : Prop :=
  ∃ f, BitchatFragment.decode q.payload = some f ∧ (q.senderId, f.fragmentId) = t.key ∧
    (f.total ≠ t.total ∨ f.originalType ≠ t.type)

/-- An entry with exactly these slices. -/
structure Held (indexes : Finset ℕ) (start : Int64) (entry : Pending) : Prop where
  total : entry.total = t.total
  type : entry.originalType = t.type
  started : entry.startedAt = start
  slices : ∀ index, entry.chunks.get index =
    if index ∈ indexes then some (t.slices index) else none
  bytes : entry.bytes = ∑ index ∈ indexes, (t.slices index).length

/-- What the reassembler holds when these slices have come, besides packets with keys among
`others`. -/
structure Tracks (others : Finset (Bytes × Bytes)) (indexes : Finset ℕ) (start : Int64)
    (r : BitchatReassembler) : Prop where
  keys : ∀ key ∈ r.pending.keys, key = t.key ∨ key ∈ others
  nothing : indexes = ∅ → r.pending.get t.key = none
  held : indexes ≠ ∅ → ∃ entry, r.pending.get t.key = some entry ∧ t.Held indexes start entry

end Target

/-- The reassembler as a machine: packets come at times. -/
def reassembler : Machine BitchatReassembler (Int64 × BitchatPacket) (Option (Bytes × UInt8)) where
  step r arrival := r.add arrival.1 arrival.2

namespace Target

variable {t : Target} {indexes : Finset ℕ} {start now : Int64} {entry : Pending}
  {others : Finset (Bytes × Bytes)} {r : BitchatReassembler} {q : BitchatPacket}

/-! ### One entry -/

theorem Held.size (h : t.Held indexes start entry) : entry.chunks.size = indexes.card := by
  have hkeys : entry.chunks.keys.toFinset = indexes := by
    ext index
    rw [List.mem_toFinset, ← LinkedMap.contains_iff, LinkedMap.contains, h.slices]
    by_cases hindex : index ∈ indexes
    · simp [hindex]
    · simp [hindex]
  rw [← LinkedMap.length_keys, ← hkeys, toFinset_card_of_nodup entry.chunks.keys_nodup]

theorem Held.place (h : t.Held indexes start entry) (hindexes : indexes ⊆ Finset.range t.total)
    {index : ℕ} (hindex : index < t.total) :
    ∃ entry', entry.place ⟨t.key.2, index, t.total, t.type, t.slices index⟩ = some entry' ∧
      t.Held (insert index indexes) start entry' := by
  unfold Pending.place
  by_cases hmem : index ∈ indexes
  · have hcontains : entry.chunks.contains index = true := by
      rw [LinkedMap.contains, h.slices, if_pos hmem]
      rfl
    refine ⟨entry, if_pos hcontains, ?_⟩
    rw [Finset.insert_eq_self.mpr hmem]
    exact h
  have hcontains : ¬ entry.chunks.contains index = true := by
    rw [LinkedMap.contains, h.slices, if_neg hmem]
    exact Bool.false_ne_true
  have hbytes : entry.bytes + (t.slices index).length =
      ∑ i ∈ insert index indexes, (t.slices i).length := by
    rw [Finset.sum_insert hmem, h.bytes, Nat.add_comm]
  have hle : ∑ i ∈ insert index indexes, (t.slices i).length ≤ maxBytes := by
    refine (Finset.sum_le_sum_of_subset ?_).trans t.bytes
    exact Finset.insert_subset (Finset.mem_range.mpr hindex) hindexes
  rw [if_neg hcontains]
  rw [if_neg (by rw [hbytes]; exact Nat.not_lt.mpr hle)]
  refine ⟨_, rfl, h.total, h.type, h.started, fun i => ?_, hbytes⟩
  rw [LinkedMap.get_put, h.slices]
  split
  next hi =>
    rw [hi, if_pos (Finset.mem_insert_self _ _)]
  next hi =>
    simp[Finset.mem_insert, hi, false_or]

theorem Held.whole (h : t.Held (Finset.range t.total) start entry) : entry.whole = t.whole := by
  unfold Pending.whole Target.whole
  rw [h.total]
  refine flatMap_congr fun index hindex => ?_
  rw [h.slices, if_pos (Finset.mem_range.mpr (mem_range.mp hindex))]
  rfl

end Target

/-! ### One arrival -/

namespace BitchatReassembler

variable {r : BitchatReassembler} {now : Int64} {q : BitchatPacket} {f : BitchatFragment}
  {pending : LinkedMap (Bytes × Bytes) Pending} {key : Bytes × Bytes} {keys : Finset (Bytes × Bytes)}

/-- The packets that have not been held for too long. -/
def alive (r : BitchatReassembler) (now : Int64) : LinkedMap (Bytes × Bytes) Pending :=
  r.pending.filter fun _ entry => decide (now.toInt - entry.startedAt.toInt ≤ lifetime)

/-- What is done with the entry that a fragment belongs to. -/
def addTo (pending : LinkedMap (Bytes × Bytes) Pending) (entry : Pending) (key : Bytes × Bytes)
    (fragment : BitchatFragment) : BitchatReassembler × Option (Bytes × UInt8) :=
  if entry.total ≠ fragment.total ∨ entry.originalType ≠ fragment.originalType then
    (⟨pending⟩, none)
  else
    match entry.place fragment with
    | none => (⟨pending.remove key⟩, none)
    | some entry =>
      if entry.chunks.size < entry.total then (⟨pending.put key entry⟩, none)
      else (⟨pending.remove key⟩, some (entry.whole, entry.originalType))

theorem add_none (h : BitchatFragment.decode q.payload = none) : r.add now q = (r, none) := by
  unfold add
  rw [h]

theorem add_large (h : BitchatFragment.decode q.payload = some f)
    (hlarge : maxBytes * 2 < f.total * f.chunk.length) : r.add now q = (r, none) := by
  unfold add
  rw [h]
  exact if_pos hlarge

theorem add_eq (h : BitchatFragment.decode q.payload = some f)
    (hlarge : ¬ maxBytes * 2 < f.total * f.chunk.length) :
    r.add now q =
      addTo (entryFor (r.alive now) (q.senderId, f.fragmentId) now f).1
        (entryFor (r.alive now) (q.senderId, f.fragmentId) now f).2 (q.senderId, f.fragmentId) f := by
  unfold add
  rw [h]
  exact if_neg hlarge

theorem addTo_frame (pending : LinkedMap (Bytes × Bytes) Pending) (entry : Pending)
    (key : Bytes × Bytes) (f : BitchatFragment) :
    (∀ key' ≠ key, (addTo pending entry key f).1.pending.get key' = pending.get key') ∧
      ∀ key' ∈ (addTo pending entry key f).1.pending.keys, key' ∈ pending.keys ∨ key' = key := by
  have hremove : (∀ key' ≠ key, (pending.remove key).get key' = pending.get key') ∧
      ∀ key' ∈ (pending.remove key).keys, key' ∈ pending.keys ∨ key' = key := by
    refine ⟨fun key' hne => by rw [LinkedMap.get_remove, if_neg hne], fun key' hmem => ?_⟩
    obtain ⟨entry, hentry, rfl⟩ := mem_map.mp hmem
    exact .inl (mem_map_of_mem (LinkedMap.mem_entries_filter.mp hentry).1)
  unfold addTo
  split
  · exact ⟨fun _ _ => rfl, fun _ hmem => .inl hmem⟩
  split
  · exact hremove
  split
  · exact ⟨fun key' hne => by rw [LinkedMap.get_put, if_neg hne],
      fun key' hmem => LinkedMap.mem_keys_put.mp hmem⟩
  · exact hremove

theorem makeRoom_eq (hkeys : ∀ key' ∈ pending.keys, key' ∈ keys) (hkey : key ∈ keys)
    (hnew : pending.get key = none) (hcard : keys.card ≤ maxPending) :
    makeRoom pending = pending := by
  have hlt : pending.size < maxPending := by
    calc pending.size = pending.keys.toFinset.card := by
          rw [toFinset_card_of_nodup pending.keys_nodup, LinkedMap.length_keys]
      _ < keys.card := by
          refine Finset.card_lt_card (Finset.ssubset_iff_subset_ne.mpr ⟨?_, ?_⟩)
          · exact fun key' hmem => hkeys key' (mem_toFinset.mp hmem)
          · intro heq
            rw [← heq, List.mem_toFinset] at hkey
            exact LinkedMap.get_eq_none.mp hnew hkey
      _ ≤ maxPending := hcard
  exact if_neg (Nat.not_le.mpr hlt)

theorem entryFor_frame (now : Int64) (f : BitchatFragment)
    (hkeys : ∀ key' ∈ pending.keys, key' ∈ keys) (hkey : key ∈ keys) (hcard : keys.card ≤ maxPending) :
    (entryFor pending key now f).1.get key = some (entryFor pending key now f).2 ∧
      (∀ key' ≠ key, (entryFor pending key now f).1.get key' = pending.get key') ∧
      ∀ key' ∈ (entryFor pending key now f).1.keys, key' ∈ keys := by
  unfold entryFor
  cases hget : pending.get key with
  | some entry => exact ⟨hget, fun _ _ => rfl, hkeys⟩
  | none =>
  rw [makeRoom_eq hkeys hkey hget hcard]
  refine ⟨by rw [LinkedMap.get_put, if_pos rfl], fun key' hne => ?_, fun key' hmem => ?_⟩
  · rw [LinkedMap.get_put, if_neg hne]
  · rcases LinkedMap.mem_keys_put.mp hmem with h | rfl
    · exact hkeys key' h
    · exact hkey

theorem mem_keys_alive (h : key ∈ (r.alive now).keys) : key ∈ r.pending.keys := by
  obtain ⟨entry, hentry, rfl⟩ := mem_map.mp h
  exact mem_map_of_mem (LinkedMap.mem_entries_filter.mp hentry).1

end BitchatReassembler

namespace Target

open BitchatReassembler

variable {t : Target} {indexes : Finset ℕ} {start now : Int64} {entry : Pending}
  {others : Finset (Bytes × Bytes)} {r : BitchatReassembler} {q : BitchatPacket}

theorem card_insert_le (t : Target) (hcard : others.card < maxPending) :
    (insert t.key others).card ≤ maxPending :=
  (Finset.card_insert_le _ _).trans hcard

section Arrivals

variable (h : t.Tracks others indexes start r) (hcard : others.card < maxPending)

include h

theorem Tracks.mem_keys : ∀ key ∈ (r.alive now).keys, key ∈ insert t.key others := by
  intro key hmem
  exact Finset.mem_insert.mpr (h.keys key (mem_keys_alive hmem))

theorem Tracks.get_alive (htime : indexes ≠ ∅ → now.toInt - start.toInt ≤ lifetime) :
    (r.alive now).get t.key = r.pending.get t.key := by
  unfold alive
  rw [LinkedMap.get_filter]
  by_cases hindexes : indexes = ∅
  · rw [h.nothing hindexes]
    rfl
  · obtain ⟨entry, hget, hheld⟩ := h.held hindexes
    rw [hget, filter_some, hheld.started, decide_eq_true (htime hindexes), if_pos rfl]

/-- **Step.** A fragment that disagrees is not put anywhere while there is an entry. -/
theorem Tracks.disagrees (hindexes : indexes ≠ ∅) (htime : now.toInt - start.toInt ≤ lifetime)
    (hdisagrees : t.Disagrees q) :
    (r.add now q).2 = none ∧ t.Tracks others indexes start (r.add now q).1 := by
  obtain ⟨f, hdecode, hkey, hdiffers⟩ := hdisagrees
  by_cases hlarge : maxBytes * 2 < f.total * f.chunk.length
  · rw [add_large hdecode hlarge]
    exact ⟨rfl, h⟩
  obtain ⟨entry, hget, hheld⟩ := h.held hindexes
  have halive : (r.alive now).get t.key = some entry := by
    rw [h.get_alive fun _ => htime, hget]
  have hentry : entryFor (r.alive now) t.key now f = (r.alive now, entry) := by
    unfold entryFor
    rw [halive]
  rw [add_eq hdecode hlarge, hkey, hentry]
  have hskip : addTo (r.alive now) entry t.key f = (⟨r.alive now⟩, none) := by
    unfold addTo
    rw [if_pos]
    rw [hheld.total, hheld.type]
    exact hdiffers.imp Ne.symm Ne.symm
  rw [hskip]
  exact ⟨rfl, fun key hmem => h.keys key (mem_keys_alive hmem), fun hempty =>
    absurd hempty hindexes, fun _ => ⟨entry, halive, hheld⟩⟩

include hcard

theorem Tracks.foreign (htime : indexes ≠ ∅ → now.toInt - start.toInt ≤ lifetime)
    (hforeign : t.Foreign q)
    (hothers : ∀ f, BitchatFragment.decode q.payload = some f →
      (q.senderId, f.fragmentId) = t.key ∨ (q.senderId, f.fragmentId) ∈ others) :
    t.Tracks others indexes start (r.add now q).1 := by
  cases hdecode : BitchatFragment.decode q.payload with
  | none =>
    rw [add_none hdecode]
    exact h
  | some f =>
  by_cases hlarge : maxBytes * 2 < f.total * f.chunk.length
  · rw [add_large hdecode hlarge]
    exact h
  have hne := hforeign f hdecode
  have hkey : (q.senderId, f.fragmentId) ∈ insert t.key others :=
    Finset.mem_insert.mpr (hothers f hdecode)
  obtain ⟨-, hframe, hkeys⟩ := entryFor_frame now f h.mem_keys hkey
    (card_insert_le t hcard)
  rw [add_eq hdecode hlarge]
  obtain ⟨hframe', hkeys'⟩ := addTo_frame
    (entryFor (r.alive now) (q.senderId, f.fragmentId) now f).1
    (entryFor (r.alive now) (q.senderId, f.fragmentId) now f).2 (q.senderId, f.fragmentId) f
  have hget : (addTo (entryFor (r.alive now) (q.senderId, f.fragmentId) now f).1
      (entryFor (r.alive now) (q.senderId, f.fragmentId) now f).2 (q.senderId, f.fragmentId)
      f).1.pending.get t.key = r.pending.get t.key := by
    rw [hframe' _ hne.symm, hframe _ hne.symm, h.get_alive htime]
  refine ⟨fun key hmem => ?_, fun hempty => ?_, fun hindexes => ?_⟩
  · rcases hkeys' key hmem with hmem | rfl
    · exact Finset.mem_insert.mp (hkeys key hmem)
    · exact Finset.mem_insert.mp hkey
  · rw [hget, h.nothing hempty]
  · rw [hget]
    exact h.held hindexes

theorem Tracks.finds (htime : indexes ≠ ∅ → now.toInt - start.toInt ≤ lifetime) (index : ℕ) :
    ∃ pending entry,
      entryFor (r.alive now) t.key now ⟨t.key.2, index, t.total, t.type, t.slices index⟩ =
        (pending, entry) ∧
      t.Held indexes (if indexes = ∅ then now else start) entry ∧
      ∀ key ∈ pending.keys, key = t.key ∨ key ∈ others := by
  obtain ⟨-, -, hkeys⟩ := entryFor_frame now
    ⟨t.key.2, index, t.total, t.type, t.slices index⟩ h.mem_keys
    (Finset.mem_insert_self t.key others) (card_insert_le t hcard)
  refine ⟨_, _, rfl, ?_, fun key hmem => Finset.mem_insert.mp (hkeys key hmem)⟩
  by_cases hindexes : indexes = ∅
  · rw [h.get_alive htime, h.nothing hindexes]
    subst hindexes
    exact ⟨rfl, rfl, rfl, fun i => rfl, rfl⟩
  · obtain ⟨entry, hget, hheld⟩ := h.held hindexes
    rw [h.get_alive htime, hget, if_neg hindexes]
    exact hheld

/-- **Step.** A slice is kept, and the last one that was missing gives the packet. -/
theorem Tracks.own (hindexes : indexes ⊆ Finset.range t.total)
    (htime : indexes ≠ ∅ → now.toInt - start.toInt ≤ lifetime) {index : ℕ}
    (hcarries : t.Carries index q) :
    (insert index indexes ≠ Finset.range t.total → (r.add now q).2 = none ∧
      t.Tracks others (insert index indexes) (if indexes = ∅ then now else start) (r.add now q).1) ∧
    (insert index indexes = Finset.range t.total →
      (r.add now q).2 = some (t.whole, t.type) ∧ t.Tracks others ∅ start (r.add now q).1) := by
  obtain ⟨hlt, hsender, hdecode⟩ := hcarries
  obtain ⟨pending, entry, hentry, hheld, hkeys⟩ := h.finds hcard htime index
  obtain ⟨entry', hplace, hheld'⟩ := hheld.place hindexes hlt
  have hkey : (q.senderId, t.key.2) = t.key := Prod.ext hsender rfl
  have hadd : r.add now q = if entry'.chunks.size < entry'.total then
      (⟨pending.put t.key entry'⟩, none)
      else (⟨pending.remove t.key⟩, some (entry'.whole, entry'.originalType)) := by
    rw [add_eq hdecode (Nat.not_lt.mpr (t.room index))]
    rw [hkey, hentry]
    unfold addTo
    have hagrees : ¬ (entry.total ≠ t.total ∨ entry.originalType ≠ t.type) := by
      rintro (hne | hne)
      · exact hne hheld.total
      · exact hne hheld.type
    rw [if_neg hagrees, hplace]
  have hsubset : insert index indexes ⊆ Finset.range t.total :=
    Finset.insert_subset (Finset.mem_range.mpr hlt) hindexes
  have hkeys' : ∀ key ∈ (pending.remove t.key).keys, key = t.key ∨ key ∈ others := by
    intro key hmem
    obtain ⟨e, he, rfl⟩ := mem_map.mp hmem
    exact hkeys _ (mem_map_of_mem (LinkedMap.mem_entries_filter.mp he).1)
  rw [hadd, hheld'.size, hheld'.total]
  constructor
  · intro hmissing
    have hless : (insert index indexes).card < t.total := by
      have hlt := Finset.card_lt_card (Finset.ssubset_iff_subset_ne.mpr ⟨hsubset, hmissing⟩)
      rwa [Finset.card_range] at hlt
    rw [if_pos hless]
    refine ⟨rfl, fun key hmem => ?_, fun hempty => ?_, fun _ => ⟨entry', ?_, hheld'⟩⟩
    · rcases LinkedMap.mem_keys_put.mp hmem with hmem | rfl
      · exact hkeys key hmem
      · exact .inl rfl
    · exact absurd hempty (Finset.insert_ne_empty _ _)
    · rw [LinkedMap.get_put, if_pos rfl]
  · intro hall
    have hcount : ¬ (insert index indexes).card < t.total := by
      rw [hall, Finset.card_range]
      exact Nat.lt_irrefl _
    rw [hall] at hheld'
    rw [if_neg hcount, hheld'.whole, hheld'.type]
    refine ⟨rfl, hkeys', fun _ => ?_, fun hne => absurd rfl hne⟩
    rw [LinkedMap.get_remove, if_pos rfl]

end Arrivals

/-! ### When a slice stays away -/

/-- An entry that passes for one of this packet has not got the slice. -/
def Lacks (t : Target) (missing : ℕ) (entry : Pending) : Prop :=
  entry.total = t.total → entry.originalType = t.type →
    entry.chunks.get missing = none ∧ ∀ index ∈ entry.chunks.keys, index < t.total

/-- What the reassembler holds under the key of the packet has not got the slice. -/
def Missing (t : Target) (missing : ℕ) (r : BitchatReassembler) : Prop :=
  ∀ entry, r.pending.get t.key = some entry → t.Lacks missing entry

theorem Tracks.missing (h : t.Tracks others ∅ start r) (missing : ℕ) : t.Missing missing r := by
  intro entry hget
  rw [h.nothing rfl] at hget
  cases hget

section Missing

variable {missing : ℕ} {f : BitchatFragment} {pending : LinkedMap (Bytes × Bytes) Pending}

theorem get_of_entryFor {key key' : Bytes × Bytes} (hne : key' ≠ key)
    (h : (entryFor pending key now f).1.get key' = some entry) :
    pending.get key' = some entry := by
  unfold entryFor at h
  cases hget : pending.get key with
  | some entry₀ =>
    rw [hget] at h
    exact h
  | none =>
  rw [hget] at h
  rw [LinkedMap.get_put, if_neg hne] at h
  unfold makeRoom at h
  split at h
  · split at h
    · rw [LinkedMap.get_remove] at h
      split at h
      · cases h
      · exact h
    · exact h
  · exact h

theorem get_of_alive {key : Bytes × Bytes} (h : (r.alive now).get key = some entry) :
    r.pending.get key = some entry := by
  unfold alive at h
  rw [LinkedMap.get_filter, filter_eq_some_iff] at h
  exact h.1

theorem entryFor_cases (pending : LinkedMap (Bytes × Bytes) Pending) (key : Bytes × Bytes)
    (now : Int64) (f : BitchatFragment) :
    pending.get key = some (entryFor pending key now f).2 ∨
      (entryFor pending key now f).2 = ⟨f.total, f.originalType, now, LinkedMap.empty, 0⟩ := by
  unfold entryFor
  cases hget : pending.get key with
  | some entry => exact .inl rfl
  | none => exact .inr rfl

theorem lacks_of_place {entry' : Pending} (h : t.Lacks missing entry)
    (hplace : entry.place f = some entry')
    (hf : f.total = t.total → f.originalType = t.type → f.index ≠ missing ∧ f.index < t.total)
    (hagrees : entry.total = f.total ∧ entry.originalType = f.originalType) :
    t.Lacks missing entry' := by
  unfold Pending.place at hplace
  split at hplace
  · cases hplace
    exact h
  dsimp only at hplace
  split at hplace
  · cases hplace
  cases hplace
  intro htotal htype
  obtain ⟨hnone, hkeys⟩ := h htotal htype
  obtain ⟨hne, hlt⟩ := hf (hagrees.1.symm.trans htotal) (hagrees.2.symm.trans htype)
  refine ⟨by rw [LinkedMap.get_put, if_neg hne.symm, hnone], fun index hmem => ?_⟩
  rcases LinkedMap.mem_keys_put.mp hmem with hmem | rfl
  · exact hkeys index hmem
  · exact hlt

theorem Lacks.size_lt (h : t.Lacks missing entry) (htotal : entry.total = t.total)
    (htype : entry.originalType = t.type) (hmissing : missing < t.total) :
    entry.chunks.size < entry.total := by
  obtain ⟨hnone, hkeys⟩ := h htotal htype
  calc entry.chunks.size = entry.chunks.keys.toFinset.card := by
        rw [toFinset_card_of_nodup entry.chunks.keys_nodup, LinkedMap.length_keys]
    _ ≤ ((Finset.range t.total).erase missing).card := by
        refine Finset.card_le_card fun index hmem => ?_
        rw [List.mem_toFinset] at hmem
        refine Finset.mem_erase.mpr ⟨?_, Finset.mem_range.mpr (hkeys index hmem)⟩
        rintro rfl
        exact LinkedMap.get_eq_none.mp hnone hmem
    _ < (Finset.range t.total).card :=
        Finset.card_erase_lt_of_mem (Finset.mem_range.mpr hmissing)
    _ = entry.total := by rw [Finset.card_range, htotal]

/-- A fragment that is not the missing slice leaves it missing, and completes nothing if it is a
slice of this packet. -/
theorem addTo_missing (hget : pending.get t.key = some entry) (h : t.Lacks missing entry)
    (hmissing : missing < t.total)
    (hf : f.total = t.total → f.originalType = t.type → f.index ≠ missing ∧ f.index < t.total) :
    t.Missing missing (addTo pending entry t.key f).1 ∧
      (f.total = t.total → f.originalType = t.type → (addTo pending entry t.key f).2 = none) := by
  have hgone : t.Missing missing ⟨pending.remove t.key⟩ := by
    intro entry' hget'
    rw [LinkedMap.get_remove, if_pos rfl] at hget'
    cases hget'
  unfold addTo
  split
  · refine ⟨fun entry' hget' => ?_, fun _ _ => rfl⟩
    rw [hget] at hget'
    cases hget'
    exact h
  next hagrees =>
  have hagrees' : entry.total = f.total ∧ entry.originalType = f.originalType :=
    ⟨not_not.mp (not_or.mp hagrees).1, not_not.mp (not_or.mp hagrees).2⟩
  cases hplace : entry.place f with
  | none => exact ⟨hgone, fun _ _ => rfl⟩
  | some entry' =>
  have hlacks := lacks_of_place h hplace hf hagrees'
  dsimp only
  split
  · refine ⟨fun entry₁ hget₁ => ?_, fun _ _ => rfl⟩
    rw [LinkedMap.get_put, if_pos rfl] at hget₁
    cases hget₁
    exact hlacks
  next hfull =>
  refine ⟨hgone, fun htotal htype => absurd ?_ hfull⟩
  have hkept : entry'.total = entry.total ∧ entry'.originalType = entry.originalType := by
    unfold Pending.place at hplace
    split at hplace
    · cases hplace
      exact ⟨rfl, rfl⟩
    dsimp only at hplace
    split at hplace
    · cases hplace
    · cases hplace
      exact ⟨rfl, rfl⟩
  exact hlacks.size_lt (hkept.1.trans (hagrees'.1.trans htotal))
    (hkept.2.trans (hagrees'.2.trans htype)) hmissing

/-- **Step.** As long as the slice stays away, no slice of the packet completes it. -/
theorem Missing.step (h : t.Missing missing r) (hmissing : missing < t.total)
    (hq : ¬ t.Carries missing q)
    (hkind : (∃ index, t.Carries index q) ∨ t.Foreign q ∨ t.Disagrees q) :
    t.Missing missing (r.add now q).1 ∧ ((∃ index, t.Carries index q) → (r.add now q).2 = none) := by
  cases hdecode : BitchatFragment.decode q.payload with
  | none =>
    rw [add_none hdecode]
    exact ⟨h, fun _ => rfl⟩
  | some f =>
  by_cases hlarge : maxBytes * 2 < f.total * f.chunk.length
  · rw [add_large hdecode hlarge]
    exact ⟨h, fun _ => rfl⟩
  rw [add_eq hdecode hlarge]
  by_cases hkey : (q.senderId, f.fragmentId) = t.key
  · rw [hkey]
    have hf : f.total = t.total → f.originalType = t.type →
        f.index ≠ missing ∧ f.index < t.total := by
      intro htotal htype
      rcases hkind with ⟨index, hcarries⟩ | hforeign | ⟨f', hf', -, hdiffers⟩
      · have hsame := hcarries.decode
        rw [hdecode] at hsame
        cases hsame
        refine ⟨?_, hcarries.lt⟩
        rintro rfl
        exact hq hcarries
      · exact absurd hkey (hforeign f hdecode)
      · rw [hdecode] at hf'
        cases hf'
        rcases hdiffers with hne | hne
        · exact absurd htotal hne
        · exact absurd htype hne
    have hget : (entryFor (r.alive now) t.key now f).1.get t.key =
        some (entryFor (r.alive now) t.key now f).2 := by
      unfold entryFor
      cases hget : (r.alive now).get t.key with
      | some entry => exact hget
      | none => exact (LinkedMap.get_put _).trans (if_pos rfl)
    have hlacks : t.Lacks missing (entryFor (r.alive now) t.key now f).2 := by
      rcases entryFor_cases (r.alive now) t.key now f with hold | hnew
      · exact h _ (get_of_alive hold)
      · rw [hnew]
        exact fun _ _ => ⟨rfl, fun index hmem => absurd hmem not_mem_nil⟩
    obtain ⟨hstill, hnone⟩ := addTo_missing hget hlacks hmissing hf
    refine ⟨hstill, fun ⟨index, hcarries⟩ => ?_⟩
    have hsame := hcarries.decode
    rw [hdecode] at hsame
    cases hsame
    exact hnone rfl rfl
  · refine ⟨fun entry hget => h entry ?_, fun ⟨index, hcarries⟩ => ?_⟩
    · rw [(addTo_frame _ _ _ _).1 t.key (Ne.symm hkey)] at hget
      exact get_of_alive (get_of_entryFor (Ne.symm hkey) hget)
    · have hsame := hcarries.decode
      rw [hdecode] at hsame
      cases hsame
      have hown : (q.senderId, t.key.2) = t.key := Prod.ext hcarries.sender rfl
      exact absurd hown hkey

end Missing

end Target

end Mesh
end Conest
