import Conest.Mesh.Reassembling

/-!
# Fragmentation

A packet is cut in fragments that the link can carry, and whoever has got all of them has the packet
again: `fragments_reassembled`. In between, the fragments may come in any order and more than once,
among fragments of other packets and among forgeries of this one. What carries a run is that the
reassembler has an entry with exactly the slices that have come (`tracks_run`).
-/

namespace Conest
namespace Mesh

open Lib List

namespace Target

variable (t : Target)

variable {q : BitchatPacket}

/-- The packet carries a slice of this one. -/
def IsOwn (q : BitchatPacket) : Prop := ∃ index, t.Carries index q

open scoped Classical in
/-- The slices that have come. -/
noncomputable def gathered (arrivals : List (Int64 × BitchatPacket)) : Finset ℕ :=
  (Finset.range t.total).filter fun index => ∃ a ∈ arrivals, t.Carries index a.2

/-- The first slice came at this time. -/
def StartedAt (arrivals : List (Int64 × BitchatPacket)) (start : Int64) : Prop :=
  ∃ before a between, arrivals = before ++ a :: between ∧ t.IsOwn a.2 ∧
    (∀ b ∈ before, ¬ t.IsOwn b.2) ∧ a.1 = start

/-- Slices of a packet among fragments of others and forgeries: no key besides its own and the
`others`, nothing forged before the first slice, and nothing later than the lifetime after it. -/
structure Feeding (others : Finset (Bytes × Bytes)) (arrivals : List (Int64 × BitchatPacket)) :
    Prop where
  kind : ∀ a ∈ arrivals, t.IsOwn a.2 ∨ t.Foreign a.2 ∨ t.Disagrees a.2
  keys : ∀ a ∈ arrivals, ∀ f, BitchatFragment.decode a.2.payload = some f →
    (a.2.senderId, f.fragmentId) = t.key ∨ (a.2.senderId, f.fragmentId) ∈ others
  later : ∀ before a after, arrivals = before ++ a :: after → t.Disagrees a.2 →
    ∃ b ∈ before, t.IsOwn b.2
  timely : ∀ before a after start, arrivals = before ++ a :: after → t.StartedAt before start →
    a.1.toInt - start.toInt ≤ lifetime

variable {t} {others : Finset (Bytes × Bytes)} {arrivals : List (Int64 × BitchatPacket)}
  {a : Int64 × BitchatPacket} {index : ℕ}

/-! ### What has come -/

theorem Carries.index_eq {index' : ℕ} (h : t.Carries index q) (h' : t.Carries index' q) :
    index' = index := by
  have hdecode := h'.decode
  rw [h.decode] at hdecode
  cases hdecode
  rfl

theorem mem_gathered : index ∈ t.gathered arrivals ↔ ∃ a ∈ arrivals, t.Carries index a.2 := by
  classical
  unfold gathered
  rw [Finset.mem_filter, Finset.mem_range]
  exact ⟨fun h => h.2, fun ⟨a, ha, hcarries⟩ => ⟨hcarries.lt, a, ha, hcarries⟩⟩

theorem gathered_subset (arrivals : List (Int64 × BitchatPacket)) :
    t.gathered arrivals ⊆ Finset.range t.total := by
  intro index hindex
  obtain ⟨a, -, hcarries⟩ := mem_gathered.mp hindex
  exact Finset.mem_range.mpr hcarries.lt

theorem gathered_nil : t.gathered [] = ∅ := by
  ext index
  rw [mem_gathered]
  exact ⟨fun ⟨a, ha, _⟩ => absurd ha not_mem_nil, fun h => absurd h (Finset.notMem_empty _)⟩

theorem gathered_own (h : t.Carries index a.2) :
    t.gathered (arrivals ++ [a]) = insert index (t.gathered arrivals) := by
  ext i
  rw [Finset.mem_insert, mem_gathered, mem_gathered]
  constructor
  · rintro ⟨b, hb, hcarries⟩
    rcases mem_append.mp hb with hb | hb
    · exact .inr ⟨b, hb, hcarries⟩
    · rw [mem_singleton.mp hb] at hcarries
      exact .inl (h.index_eq hcarries)
  · rintro (rfl | ⟨b, hb, hcarries⟩)
    · exact ⟨a, mem_append_right _ mem_cons_self, h⟩
    · exact ⟨b, mem_append_left _ hb, hcarries⟩

theorem gathered_other (h : ¬ t.IsOwn a.2) : t.gathered (arrivals ++ [a]) = t.gathered arrivals := by
  ext i
  rw [mem_gathered, mem_gathered]
  constructor
  · rintro ⟨b, hb, hcarries⟩
    rcases mem_append.mp hb with hb | hb
    · exact ⟨b, hb, hcarries⟩
    · rw [mem_singleton.mp hb] at hcarries
      exact absurd ⟨i, hcarries⟩ h
  · rintro ⟨b, hb, hcarries⟩
    exact ⟨b, mem_append_left _ hb, hcarries⟩

theorem gathered_ne_empty : t.gathered arrivals ≠ ∅ ↔ ∃ b ∈ arrivals, t.IsOwn b.2 := by
  rw [← Finset.nonempty_iff_ne_empty]
  constructor
  · rintro ⟨i, hi⟩
    obtain ⟨b, hb, hcarries⟩ := mem_gathered.mp hi
    exact ⟨b, hb, i, hcarries⟩
  · rintro ⟨b, hb, i, hcarries⟩
    exact ⟨i, mem_gathered.mpr ⟨b, hb, hcarries⟩⟩

theorem not_isOwn_of_foreign (h : t.Foreign q) : ¬ t.IsOwn q := by
  rintro ⟨index, hcarries⟩
  exact h _ hcarries.decode (Prod.ext hcarries.sender rfl)

theorem not_isOwn_of_disagrees (h : t.Disagrees q) : ¬ t.IsOwn q := by
  rintro ⟨index, hcarries⟩
  obtain ⟨f, hdecode, -, hdiffers⟩ := h
  rw [hcarries.decode] at hdecode
  cases hdecode
  rcases hdiffers with hne | hne
  · exact hne rfl
  · exact hne rfl

theorem StartedAt.append {start : Int64} (h : t.StartedAt arrivals start)
    (more : List (Int64 × BitchatPacket)) : t.StartedAt (arrivals ++ more) start := by
  obtain ⟨before, b, between, rfl, hown, hbefore, htime⟩ := h
  refine ⟨before, b, between ++ more, ?_, hown, hbefore, htime⟩
  rw [append_assoc, cons_append]

/-! ### Runs -/

theorem Feeding.left {more : List (Int64 × BitchatPacket)}
    (h : t.Feeding others (arrivals ++ more)) : t.Feeding others arrivals where
  kind a ha := h.kind a (mem_append_left _ ha)
  keys a ha := h.keys a (mem_append_left _ ha)
  later before a after heq := h.later before a (after ++ more) (by
    rw [heq, append_assoc, cons_append])
  timely before a after start heq := h.timely before a (after ++ more) start (by
    rw [heq, append_assoc, cons_append])

/-- **Run.** As long as a slice is missing, the reassembler holds those that have come. -/
theorem tracks_run (hcard : others.card < maxPending) (h : t.Feeding others arrivals)
    (hmissing : t.gathered arrivals ≠ Finset.range t.total) :
    ∃ start, t.Tracks others (t.gathered arrivals) start
      (reassembler.run BitchatReassembler.initial arrivals) ∧
        (t.gathered arrivals ≠ ∅ → t.StartedAt arrivals start) := by
  induction arrivals using reverseRecOn with
  | nil =>
    refine ⟨0, ?_, fun hne => absurd gathered_nil hne⟩
    rw [gathered_nil]
    exact ⟨fun key hmem => absurd hmem not_mem_nil, fun _ => rfl, fun hne => absurd rfl hne⟩
  | append_singleton arrivals a ih =>
  have hsubset : t.gathered arrivals ⊆ t.gathered (arrivals ++ [a]) := by
    intro i hi
    obtain ⟨b, hb, hcarries⟩ := mem_gathered.mp hi
    exact mem_gathered.mpr ⟨b, mem_append_left _ hb, hcarries⟩
  have hbefore : t.gathered arrivals ≠ Finset.range t.total := by
    intro heq
    rw [heq] at hsubset
    exact hmissing (Finset.Subset.antisymm (gathered_subset _) hsubset)
  obtain ⟨start, htracks, hstart⟩ := ih h.left hbefore
  have htime : t.gathered arrivals ≠ ∅ → a.1.toInt - start.toInt ≤ lifetime :=
    fun hne => h.timely arrivals a [] start rfl (hstart hne)
  have hrun : reassembler.run BitchatReassembler.initial (arrivals ++ [a]) =
      ((reassembler.run BitchatReassembler.initial arrivals).add a.1 a.2).1 := by
    rw [Machine.run_append]
    rfl
  have hmem : a ∈ arrivals ++ [a] := mem_append_right _ mem_cons_self
  rw [hrun]
  rcases h.kind a hmem with ⟨index, hcarries⟩ | hforeign | hdisagrees
  · rw [gathered_own hcarries] at hmissing ⊢
    have hstep := htracks.own hcard (gathered_subset _) htime hcarries
    refine ⟨_, (hstep.1 hmissing).2, fun _ => ?_⟩
    split
    next hempty =>
      refine ⟨arrivals, a, [], rfl, ⟨index, hcarries⟩, fun b hb hown => ?_, rfl⟩
      exact gathered_ne_empty.mpr ⟨b, hb, hown⟩ hempty
    next hempty =>
      exact (hstart hempty).append [a]
  · rw [gathered_other (not_isOwn_of_foreign hforeign)]
    exact ⟨start, htracks.foreign hcard htime hforeign (h.keys a hmem),
      fun hne => (hstart hne).append [a]⟩
  · rw [gathered_other (not_isOwn_of_disagrees hdisagrees)]
    have hne := gathered_ne_empty.mpr (h.later arrivals a [] rfl hdisagrees)
    exact ⟨start, (htracks.disagrees hne (htime hne) hdisagrees).2,
      fun hne => (hstart hne).append [a]⟩

theorem missing_run {r : BitchatReassembler} {missing : ℕ} (h : t.Missing missing r)
    (hmissing : missing < t.total) {rest : List (Int64 × BitchatPacket)}
    (hkind : ∀ a ∈ rest, t.IsOwn a.2 ∨ t.Foreign a.2 ∨ t.Disagrees a.2)
    (haway : ∀ a ∈ rest, ¬ t.Carries missing a.2) : t.Missing missing (reassembler.run r rest) :=
  Machine.run_induction (fun _ a ha hs => (hs.step hmissing (haway a ha) (hkind a ha)).1) h

/-- What is to be expected of arrivals of which `last` brings the last slice: no slice and no
forgery before it gives anything, it gives the packet, and after it no slice gives anything as long
as one of them has not come again. -/
structure Reassembles (t : Target) (first : List (Int64 × BitchatPacket))
    (last : Int64 × BitchatPacket) (rest : List (Int64 × BitchatPacket)) : Prop where
  early : ∀ before a after, first = before ++ a :: after → ¬ t.Foreign a.2 →
    (reassembler.step (reassembler.run BitchatReassembler.initial before) a).2 = none
  given : (reassembler.step (reassembler.run BitchatReassembler.initial first) last).2 =
    some (t.whole, t.type)
  once : ∀ missing < t.total, (∀ a ∈ rest, ¬ t.Carries missing a.2) →
    ∀ before a after, rest = before ++ a :: after → t.IsOwn a.2 →
      (reassembler.step (reassembler.run BitchatReassembler.initial (first ++ last :: before)) a).2 =
        none

theorem putsTogether (hcard : others.card < maxPending) {first rest : List (Int64 × BitchatPacket)}
    {last : Int64 × BitchatPacket} (h : t.Feeding others (first ++ [last]))
    (hmissing : t.gathered first ≠ Finset.range t.total)
    (hall : t.gathered (first ++ [last]) = Finset.range t.total)
    (hrest : ∀ a ∈ rest, t.IsOwn a.2 ∨ t.Foreign a.2 ∨ t.Disagrees a.2) :
    t.Reassembles first last rest := by
  have hown : ∃ index, t.Carries index last.2 := by
    by_contra hnot
    rw [gathered_other hnot] at hall
    exact hmissing hall
  obtain ⟨index, hcarries⟩ := hown
  have hlast : ∃ start, (reassembler.step (reassembler.run BitchatReassembler.initial first)
      last).2 = some (t.whole, t.type) ∧ t.Tracks others ∅ start
      (reassembler.step (reassembler.run BitchatReassembler.initial first) last).1 := by
    obtain ⟨start, htracks, hstart⟩ := tracks_run hcard h.left hmissing
    rw [gathered_own hcarries] at hall
    exact ⟨start, (htracks.own hcard (gathered_subset _)
      (fun hne => h.timely first last [] start rfl (hstart hne)) hcarries).2 hall⟩
  obtain ⟨start, hgives, hafter⟩ := hlast
  refine ⟨?_, hgives, ?_⟩
  · rintro before a after rfl hforeign
    have hleft : t.Feeding others (before ++ [a]) := by
      have hsplit : t.Feeding others ((before ++ [a]) ++ (after ++ [last])) := by
        rw [append_assoc, singleton_append, ← cons_append, ← append_assoc]
        exact h
      exact hsplit.left
    have hmem : a ∈ before ++ [a] := mem_append_right _ mem_cons_self
    -- what has come by then is no more than what has come before the last slice
    have hpart : t.gathered (before ++ [a]) ≠ Finset.range t.total := by
      intro heq
      apply hmissing
      refine Finset.Subset.antisymm (gathered_subset _) ?_
      rw [← heq]
      intro i hi
      obtain ⟨b, hb, hb'⟩ := mem_gathered.mp hi
      refine mem_gathered.mpr ⟨b, ?_, hb'⟩
      rw [mem_append, mem_singleton] at hb
      rw [mem_append, mem_cons]
      exact hb.imp id .inl
    have hbefore : t.gathered before ≠ Finset.range t.total := by
      intro heq
      apply hpart
      refine Finset.Subset.antisymm (gathered_subset _) ?_
      rw [← heq]
      intro i hi
      obtain ⟨b, hb, hb'⟩ := mem_gathered.mp hi
      exact mem_gathered.mpr ⟨b, mem_append_left _ hb, hb'⟩
    obtain ⟨start, htracks, hstart⟩ := tracks_run hcard hleft.left hbefore
    have htime : t.gathered before ≠ ∅ → a.1.toInt - start.toInt ≤ lifetime :=
      fun hne => hleft.timely before a [] start rfl (hstart hne)
    rcases hleft.kind a hmem with ⟨index, hcarries⟩ | hother | hdisagrees
    · rw [gathered_own hcarries] at hpart
      exact ((htracks.own hcard (gathered_subset _) htime hcarries).1 hpart).1
    · exact absurd hother hforeign
    · have hne := gathered_ne_empty.mpr (hleft.later before a [] rfl hdisagrees)
      exact (htracks.disagrees hne (htime hne) hdisagrees).1
  · rintro missing hlt haway before a after rfl hown
    have hstill : t.Missing missing
        (reassembler.run BitchatReassembler.initial (first ++ last :: before)) := by
      rw [Machine.run_append]
      exact missing_run (hafter.missing missing) hlt
        (fun b hb => hrest b (mem_append_left _ hb))
        (fun b hb => haway b (mem_append_left _ hb))
    have hmem : a ∈ before ++ a :: after := mem_append_right _ mem_cons_self
    exact (hstill.step hlt (haway a hmem) (.inl hown)).2 hown

/-- The packet, its id and its fragments. -/
structure IsOf (t : Target) (original : BitchatPacket) (id : Bytes) (fragments : List BitchatPacket) :
    Prop where
  key : t.key = (original.senderId, id)
  total : t.total = fragments.length
  type : t.type = original.type
  whole : t.whole = original.encode none
  carries : ∀ index q, t.Carries index q ↔
    ∃ f, fragments[index]? = some f ∧ q.senderId = f.senderId ∧ q.payload = f.payload

end Target

/-! ### The fragments of a packet -/

section Fragments

variable {original : BitchatPacket} {id : Bytes} {size : ℕ}

theorem encode_none_pos (p : BitchatPacket) : 0 < (p.encode none).length := by
  obtain ⟨tail, htail⟩ := p.encode_shape none
  rw [htail]
  exact Nat.succ_pos _

theorem sliceCount_mul_length_le (hsize : 0 < size) {bytes : Bytes} (h : bytes.length ≤ maxBytes)
    (index : ℕ) : sliceCount size bytes.length * (slice size bytes index).length ≤ maxBytes * 2 := by
  have hlt := sliceCount_mul_lt hsize bytes.length
  rcases Nat.le_total size bytes.length with hle | hle
  · calc sliceCount size bytes.length * (slice size bytes index).length
        ≤ sliceCount size bytes.length * size := Nat.mul_le_mul_left _ (length_slice_le _ _ _)
      _ ≤ maxBytes * 2 := by omega
  -- one slice is the whole
  have hone : sliceCount size bytes.length ≤ 1 := by
    by_contra hmore
    have htwo : 2 * size ≤ sliceCount size bytes.length * size :=
      Nat.mul_le_mul_right _ (Nat.lt_of_not_le hmore)
    omega
  calc sliceCount size bytes.length * (slice size bytes index).length
      ≤ 1 * bytes.length := Nat.mul_le_mul hone (length_slice_le_length _ _ _)
    _ ≤ maxBytes * 2 := by omega

/-- The target that a packet is when it is cut in slices of a size. -/
def targetOf (original : BitchatPacket) (id : Bytes) (size : ℕ) (hsize : 0 < size)
    (h : (original.encode none).length ≤ maxBytes) : Target where
  key := (original.senderId, id)
  total := sliceCount size (original.encode none).length
  type := original.type
  slices := slice size (original.encode none)
  pos := by
    have hle := le_sliceCount_mul hsize (original.encode none).length
    have hpos := encode_none_pos original
    exact Nat.pos_of_mul_pos_right (hpos.trans_le hle)
  bytes := (sum_length_slice hsize _).trans_le h
  room := sliceCount_mul_length_le hsize h

theorem encode_decode_fragment {payload : Bytes} {f : BitchatFragment}
    (h : BitchatFragment.decode payload = some f) : BitchatFragment.encode f = payload := by
  unfold BitchatFragment.decode at h
  split at h
  · cases h
  next hlong =>
  unfold fragmentHeaderBytes at hlong
  dsimp only at h
  split at h
  · cases h
  cases h
  have hpair : ∀ n, n + 2 ≤ payload.length →
      bigEndian 2 (ofBigEndian ((payload.drop n).take 2)) = (payload.drop n).take 2 := by
    intro n hn
    have hlength : ((payload.drop n).take 2).length = 2 := by
      rw [length_take, length_drop]
      omega
    have hback := bigEndian_ofBigEndian ((payload.drop n).take 2)
    rwa [hlength] at hback
  have htype : payload.getD 12 0 :: payload.drop fragmentHeaderBytes = payload.drop 12 := by
    rw [drop_eq_getElem_cons (by omega : 12 < payload.length), getD_eq_getElem _ _ (by omega)]
    rfl
  unfold BitchatFragment.encode
  rw [hpair 8 (by omega), hpair 10 (by omega), htype, ← drop_drop (i := 2) (j := 10),
    take_append_drop, ← drop_drop (i := 2) (j := 8), take_append_drop,
    take_append_drop]

theorem isOf_targetOf (hid : id.length = 8) (hsize : 0 < size)
    (h : (original.encode none).length ≤ maxBytes)
    (htotal : sliceCount size (original.encode none).length ≤ 0xffff) :
    (targetOf original id size hsize h).IsOf original id
      ((List.range (sliceCount size (original.encode none).length)).map fun index =>
        fragmentOf original id index (sliceCount size (original.encode none).length)
          (slice size (original.encode none) index)) where
  key := rfl
  total := by
    rw [List.length_map, List.length_range]
    rfl
  type := rfl
  whole := flatMap_slice hsize _
  carries index q := by
    rw [List.getElem?_map]
    constructor
    · rintro ⟨hlt, hsender, hdecode⟩
      have hlt' : index < sliceCount size (original.encode none).length := hlt
      rw [List.getElem?_range hlt']
      exact ⟨_, rfl, hsender, (encode_decode_fragment hdecode).symm⟩
    rintro ⟨f, hf, hsender, hpayload⟩
    obtain ⟨i, hi, rfl⟩ := Option.map_eq_some_iff.mp hf
    obtain ⟨hlt, rfl⟩ : index < sliceCount size (original.encode none).length ∧ index = i := by
      obtain ⟨hlt, heq⟩ := List.getElem?_eq_some_iff.mp hi
      rw [List.length_range] at hlt
      rw [List.getElem_range] at heq
      exact ⟨hlt, heq⟩
    refine ⟨hlt, hsender, ?_⟩
    rw [hpayload]
    exact decode_encode_fragment hid hlt htotal (slice_ne_nil hsize hlt)

/-- **Fragmentation.** A packet of the format, encoded in at most 64 KiB, is cut in fragments that
the link can carry and that are read back, in version 1 as far as the length of a payload goes.
Whoever is fed with them, in any order and more than once, among fragments of at most `maxPending -
1` other packets and among later fragments of the same id that disagree, is given the packet with
the last slice that was missing. -/
theorem fragments_reassembled {maxPacketBytes : ℤ} {fragments : List BitchatPacket}
    (hwell : original.WellFormed) (hfits : (original.encode none).length ≤ 64 * 1024)
    (hid : id.length = 8)
    (hcut : bitchatFragmentsFor original maxPacketBytes id = some fragments) :
    (∀ f ∈ fragments, ((f.encode none).length : ℤ) ≤ maxPacketBytes ∧
      (decode (f.encode none) = some f ↔ original.version = 2 ∨ f.payload.length ≤ 65535)) ∧
    ∃ t : Target, t.IsOf original id fragments ∧
      ∀ others first last rest, others.card ≤ maxPending - 1 →
        t.Feeding others (first ++ [last]) →
        t.gathered first ≠ Finset.range t.total →
        t.gathered (first ++ [last]) = Finset.range t.total →
        (∀ a ∈ rest, t.IsOwn a.2 ∨ t.Foreign a.2 ∨ t.Disagrees a.2) →
        t.Reassembles first last rest := by
  obtain ⟨size, hmin, rfl, htotal, rfl⟩ := bitchatFragmentsFor_eq_some hcut
  have hsize : 0 < size := Nat.lt_of_lt_of_le (by decide) hmin
  refine ⟨?_, targetOf original id size hsize hfits, isOf_targetOf hid hsize hfits htotal, ?_⟩
  · intro f hf
    obtain ⟨index, -, rfl⟩ := mem_map.mp hf
    have hslice := length_slice_le size (original.encode none) index
    have hslice' := length_slice_le_length size (original.encode none) index
    refine ⟨?_, ?_⟩
    · rw [length_fragmentOf]
      omega
    · rw [← wellFormed_fragmentOf hwell]
      · exact ⟨wellFormed_of_decode, fun h => BitchatPacket.decode_encode h none⟩
      · unfold BitchatFragment.encode
        simp only [length_append, bigEndian_length, length_cons, hid]
        omega
  · intro others first last rest hcard hfeeding hmissing hall hrest
    exact Target.putsTogether (Nat.lt_of_le_of_lt hcard (by decide)) hfeeding hmissing hall hrest

end Fragments

namespace Sample

def note : BitchatPacket where
  version := 1
  type := BitchatType.message
  ttl := 7
  timestamp := 0
  senderId := [1, 2, 3, 4, 5, 6, 7, 8]
  recipientId := none
  route := none
  payload := List.replicate 100 65
  compressed := false
  signature := none

theorem wellFormed_note : note.WellFormed where
  version := .inl rfl
  sender := rfl
  recipient _ h := nomatch h
  signature _ h := nomatch h
  route _ h := nomatch h
  payload := by decide

def noteId : Bytes := [8, 7, 6, 5, 4, 3, 2, 1]

def half (index : Fin 2) : BitchatPacket :=
  fragmentOf note noteId index.val 2 (slice 64 (note.encode none) index.val)

theorem cut_note : bitchatFragmentsFor note 99 noteId = some [half 0, half 1] := by
  decide +kernel

theorem length_note : (note.encode none).length ≤ 64 * 1024 := by
  decide

/-- **A packet in two halves**, the second one first. -/
theorem fragments_reassembled_note :
    (∀ f ∈ [half 0, half 1], ((f.encode none).length : ℤ) ≤ 99 ∧
      (decode (f.encode none) = some f ↔ note.version = 2 ∨ f.payload.length ≤ 65535)) ∧
    (reassembler.step (reassembler.run BitchatReassembler.initial [(0, half 1)]) (0, half 0)).2 =
      some (note.encode none, note.type) := by
  obtain ⟨hlink, t, hof, h⟩ := fragments_reassembled wellFormed_note length_note rfl cut_note
  refine ⟨hlink, ?_⟩
  have htotal : t.total = 2 := hof.total
  have hzero : t.Carries 0 (half 0) := (hof.carries 0 _).mpr ⟨half 0, rfl, rfl, rfl⟩
  have hone : t.Carries 1 (half 1) := (hof.carries 1 _).mpr ⟨half 1, rfl, rfl, rfl⟩
  have hown : ∀ a ∈ [((0 : Int64), half 1), (0, half 0)], t.IsOwn a.2 ∧ a.1 = 0 := by
    intro a ha
    rcases mem_cons.mp ha with rfl | ha
    · exact ⟨⟨1, hone⟩, rfl⟩
    · rw [mem_singleton.mp ha]
      exact ⟨⟨0, hzero⟩, rfl⟩
  have hfeeding : t.Feeding ∅ [(0, half 1), (0, half 0)] := by
    refine ⟨fun a ha => .inl (hown a ha).1, ?_, ?_, ?_⟩
    · intro a ha f hf
      obtain ⟨index, hcarries⟩ := (hown a ha).1
      rw [hcarries.decode] at hf
      cases hf
      exact .inl (Prod.ext hcarries.sender rfl)
    · intro before a after heq hdisagrees
      have ha : a ∈ [((0 : Int64), half 1), (0, half 0)] := by
        rw [heq]
        exact mem_append_right _ mem_cons_self
      exact absurd (hown a ha).1 (Target.not_isOwn_of_disagrees hdisagrees)
    · rintro before a after start heq ⟨before', b, between, rfl, -, -, rfl⟩
      have ha : a ∈ [((0 : Int64), half 1), (0, half 0)] := by
        rw [heq]
        exact mem_append_right _ mem_cons_self
      have hb : b ∈ [((0 : Int64), half 1), (0, half 0)] := by
        rw [heq]
        exact mem_append_left _ (mem_append_right _ mem_cons_self)
      rw [(hown a ha).2, (hown b hb).2]
      decide
  have hmissing : t.gathered [(0, half 1)] ≠ Finset.range t.total := by
    intro heq
    have hmem : 0 ∈ t.gathered [((0 : Int64), half 1)] := by
      rw [heq, htotal]
      decide
    obtain ⟨b, hb, hcarries⟩ := Target.mem_gathered.mp hmem
    rw [mem_singleton.mp hb] at hcarries
    exact absurd (hone.index_eq hcarries) (by decide)
  have hall : t.gathered [(0, half 1), (0, half 0)] = Finset.range t.total := by
    refine Finset.Subset.antisymm (Target.gathered_subset _) fun index hindex => ?_
    rw [htotal] at hindex
    rw [Target.mem_gathered]
    match index, hindex with
    | 0, _ => exact ⟨_, mem_cons_of_mem _ mem_cons_self, hzero⟩
    | 1, _ => exact ⟨_, mem_cons_self, hone⟩
  have hgiven := (h ∅ [(0, half 1)] (0, half 0) [] (by decide) hfeeding hmissing hall
    fun a ha => absurd ha not_mem_nil).given
  rwa [hof.whole, hof.type] at hgiven

def single : BitchatPacket := fragmentOf note noteId 0 1 (note.encode none)

theorem length_note_with (payload : Bytes) :
    (({ note with payload } : BitchatPacket).encode none).length = 22 + payload.length := by
  have hplain : ¬ decide (BitchatType.message = BitchatType.noiseHandshake ∨
      BitchatType.message = BitchatType.noiseEncrypted) = true := by decide
  have hraw : ({ note with payload } : BitchatPacket).encode none =
      ({ note with payload } : BitchatPacket).raw := if_neg hplain
  have hbody : ({ note with payload } : BitchatPacket).body = [1, 2, 3, 4, 5, 6, 7, 8] ++ payload := by
    show fixed note.senderId ++ ([] ++ ([] ++ (payload ++ []))) = _
    rw [append_nil]
    rfl
  rw [hraw]
  unfold BitchatPacket.raw
  rw [hbody]
  simp only [length_cons, length_append, bigEndian_length, length_nil]
  have hlength : lengthBytes note.version = 2 := rfl
  omega

theorem long_fragment {payload : Bytes} (h : payload.length = 65501) :
    ∃ f, bitchatFragmentsFor { note with payload } 70000 noteId = some [f] ∧
      decode (f.encode none) ≠ some f := by
  have hlength : (({ note with payload } : BitchatPacket).encode none).length = 65523 := by
    rw [length_note_with, h]
  have hoverhead : ((fragmentOf { note with payload } noteId 0 1 []).encode none).length = 35 := rfl
  have htotal : ((70000 : ℤ) - (35 : ℕ)).toNat = 69965 := rfl
  refine ⟨fragmentOf { note with payload } noteId 0 1
    (((({ note with payload } : BitchatPacket).encode none).drop (0 * 69965)).take 69965), ?_, ?_⟩
  · unfold bitchatFragmentsFor
    dsimp only
    rw [hoverhead, hlength]
    rfl
  · intro hread
    have hpayload := (wellFormed_of_decode hread).payload
    have hslice : (fragmentOf { note with payload } noteId 0 1 (((({ note with payload } :
        BitchatPacket).encode none).drop (0 * 69965)).take 69965)).payload.length = 65536 := by
      show (BitchatFragment.encode _).length = 65536
      unfold BitchatFragment.encode
      simp only [length_append, bigEndian_length, length_cons, Nat.zero_mul,
        drop_zero, length_take, hlength]
      rfl
    rw [hslice] at hpayload
    have hle : 65536 ≤ if (1 : UInt8) = 1 then 65535 else 1024 * 1024 := hpayload
    exact absurd hle (by decide)

/-- **What is not promised**: a fragment that comes again is a packet that comes again; fragments
half a minute and more apart are forgotten; and a packet of version 1 can be too long for one
fragment even where the link is not too small. -/
theorem fragments_not_reassembled :
    (bitchatFragmentsFor note 512 noteId = some [single] ∧
      reassembler.outputs BitchatReassembler.initial [(0, single), (0, single)] =
        [some (note.encode none, note.type), some (note.encode none, note.type)]) ∧
    reassembler.outputs BitchatReassembler.initial [(0, half 0), (30001, half 1)] = [none, none] ∧
    ∃ f, bitchatFragmentsFor { note with payload := List.replicate 65501 0 } 70000 noteId = some [f] ∧
      decode (f.encode none) ≠ some f :=
  ⟨⟨by decide +kernel, by decide +kernel⟩, by decide, long_fragment length_replicate⟩

end Sample

end Mesh
end Conest
