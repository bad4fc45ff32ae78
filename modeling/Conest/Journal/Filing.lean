import Conest.Journal.Mutations

/-!
# What the author index files

Inventories are read from the index by author and sequence, and not from the entries in their order.
The two are brought up to date by the same function, but an edit whose target is no text stops it in
between: the event is then in the maps, and its frame stands behind the end, where the next append
writes. `Filed` describes the maps by a list of entries, whichever way the appends have ended, and
`Whole` says that nothing was left in between, so that every entry of the maps reads back.

With the list, the queries for the authors and for a range of an author's events become functions of
lists (`Filed.select_authors`, `Filed.select_range`).
-/

namespace Conest
namespace Journal

open Lib Conest.Group List Option

variable {env : Env} {w : Worker} {index : Index} {l l' : List Entry}

/-! ### The maps -/

/-- **The maps file the entries `l`**, each under its identity and under its author and sequence. -/
structure Filed (index : Index) (l : List Entry) : Prop where
  nodup : l.Nodup
  entries : Indexes.Keyed (fun e : Entry => some e.id) l index.entries
  authors : Indexes.Nested Entry.author Entry.sequence l index.authors
  size_le : ∀ e ∈ l, e.size ≤ pageBytes

/-- No entry of the maps is missing in the order. -/
def Whole (index : Index) : Prop := ∀ id e, index.entries.get id = some e → e ∈ index.ordered

theorem Filed.empty : Filed Index.empty [] where
  nodup := nodup_nil
  entries := Indexes.Keyed.empty
  authors := Indexes.Nested.empty
  size_le := by intro e he; cases he

section

variable (h : Filed index l)

include h

theorem Filed.get_iff {id : DartString} {e : Entry} :
    index.entries.get id = some e ↔ e ∈ l ∧ e.id = id := by
  rw [h.entries.get_iff, some.injEq]

theorem Filed.contains_iff {id : DartString} :
    index.entries.contains id = true ↔ ∃ e ∈ l, e.id = id := by
  unfold FMap.contains
  rw [isSome_iff_exists]
  exact exists_congr fun e => h.get_iff

theorem Filed.of_mem_iff (hnodup : l'.Nodup) (hmem : ∀ e, e ∈ l' ↔ e ∈ l) : Filed index l' where
  nodup := hnodup
  entries := ⟨fun k a => by rw [h.entries.get_iff, hmem]⟩
  authors := ⟨fun k j a => by rw [h.authors.get_iff, hmem], h.authors.nonempty⟩
  size_le := fun e he => h.size_le e ((hmem e).mp he)

theorem Filed.of_entries (hnodup : l'.Nodup) (hget : ∀ e ∈ l', index.entries.get e.id = some e)
    (hkeys : ∀ id ∈ index.entries.keys, id ∈ l'.map Entry.id) : Filed index l' := by
  refine h.of_mem_iff hnodup fun e => ⟨fun he => (h.get_iff.mp (hget e he)).1, fun he => ?_⟩
  have hfound := h.get_iff.mpr ⟨he, rfl⟩
  obtain ⟨e', he', hid⟩ := mem_map.mp (hkeys e.id (FMap.mem_keys_iff.mpr ⟨e, hfound⟩))
  have hsame := hget e' he'
  rw [hid, hfound, some.injEq] at hsame
  rw [hsame]
  exact he'

/-- **Indexing an event that was admitted files it**, whether the search index takes it or not. -/
theorem Filed.indexEvent (text : TextFunctions) {event : GroupHistoryEvent}
    (hchain : index.checkChain event = .ok ())
    (hnew : index.entries.contains event.eventId = false) {size : ℕ} (hsize : size ≤ pageBytes) :
    Filed (index.indexEvent text event size).1 (l ++ [⟨event, size⟩]) := by
  have hother : ∀ e ∈ l, e.id ≠ event.eventId := by
    intro e he hid
    rw [Bool.eq_false_iff, ne_eq, h.contains_iff] at hnew
    exact hnew ⟨e, he, hid⟩
  -- what stands at the place of the event would be the event
  have hplace : ∀ e ∈ l, e.author = event.authorDeviceId → e.sequence ≠ event.sequence := by
    intro e he hauthor hsequence
    obtain ⟨-, hexisting, -⟩ := Index.checkChain_eq_ok_iff.mp hchain
    refine hother e he (hexisting e ?_)
    exact (h.authors.get_iff _ _ e).mpr ⟨he, hauthor, hsequence⟩
  have hmaps : Filed (index.indexMaps text ⟨event, size⟩) (l ++ [⟨event, size⟩]) := by
    refine ⟨?_, ?_, ?_, ?_⟩
    · refine nodup_append.mpr ⟨h.nodup, nodup_singleton _, ?_⟩
      intro e he e' he' heq
      rw [mem_singleton] at he'
      rw [he'] at heq
      exact hother e he (congrArg Entry.id heq)
    · refine h.entries.add fun k hk e he hk' => hother e he ?_
      exact some.inj (hk'.trans hk.symm)
    · exact h.authors.add fun e he hauthor => hplace e he hauthor
    · intro e he
      rcases mem_append.mp he with he | he
      · exact h.size_le e he
      · rw [mem_singleton.mp he]
        exact hsize
  unfold Index.indexEvent
  rw [hnew, if_neg Bool.false_ne_true]
  split
  · exact hmaps
  · exact ⟨hmaps.nodup, hmaps.entries, hmaps.authors, hmaps.size_le⟩

end

/-! ### Every worker that is reached files its entries -/

theorem maxFrame_le_pageBytes : maxFrame ≤ pageBytes := by decide

theorem indexAtEnd_index (env : Env) (w : Worker) (event : GroupHistoryEvent) (size : ℕ) :
    (w.indexAtEnd env event size).1.index = (w.index.indexEvent env.text event size).1 ∧
      (w.indexAtEnd env event size).2 = (w.index.indexEvent env.text event size).2 := by
  unfold Worker.indexAtEnd
  split
  · next hold =>
    unfold Index.indexEvent
    rw [if_pos hold]
    exact ⟨rfl, rfl⟩
  · exact ⟨rfl, rfl⟩

theorem chain_of_checkEvent {event : GroupHistoryEvent} (h : w.checkEvent env event = .ok ()) :
    w.index.checkChain event = .ok () := by
  unfold Worker.checkEvent at h
  split at h
  · cases h
  · exact h

/-- **What an append can do** to the indexes: nothing, and then it says `true` never, and `false`
of an event that is there; or it indexes the event that it has decoded, and says `true` if that
goes through. -/
theorem append_cases (env : Env) (w : Worker) (event : GroupHistoryEvent) (nonce : Nonce) (io : WriteOutcome) :
    ((w.append env event nonce io).1.index = w.index ∧
        ∀ new, (w.append env event nonce io).2 = .ok new →
          new = false ∧ ∃ decoded, env.decodeEvent (env.codec.encode event) = .ok decoded ∧
            w.index.entries.contains decoded.eventId = true) ∨
      ∃ decoded size, env.decodeEvent (env.codec.encode event) = .ok decoded ∧
        w.index.checkChain decoded = .ok () ∧
        w.index.entries.contains decoded.eventId = false ∧ size ≤ pageBytes ∧
        (w.append env event nonce io).1.index =
          (w.index.indexEvent env.text decoded size).1 ∧
        (w.append env event nonce io).2 =
          (w.index.indexEvent env.text decoded size).2.map fun _ => true := by
  unfold Worker.append
  split
  · exact .inl ⟨rfl, fun new hnew => by cases hnew⟩
  split
  · exact .inl ⟨rfl, fun new hnew => by cases hnew⟩
  next decoded hdecode =>
  split
  · exact .inl ⟨rfl, fun new hnew => by cases hnew⟩
  next hcheck =>
  split
  · next hold =>
    exact .inl ⟨rfl, fun new hnew => ⟨(Except.ok.inj hnew).symm, decoded, hdecode, hold⟩⟩
  next hfresh =>
  rw [Bool.not_eq_true] at hfresh
  cases io with
  | rolledBack => exact .inl ⟨rfl, fun new hnew => by cases hnew⟩
  | poisoned reached => exact .inl ⟨rfl, fun new hnew => by cases hnew⟩
  | written =>
  refine .inr ⟨decoded, (env.codec.encode event).length + 28, hdecode,
    chain_of_checkEvent hcheck, hfresh, ?_, ?_⟩
  · have hlarge : ¬ (env.codec.encode event).length > groupEventMaxBytes := by
      intro hlarge
      unfold Env.decodeEvent Codec.decode at hdecode
      rw [if_pos hlarge] at hdecode
      cases hdecode
    have hmax := maxFrame_le_pageBytes
    unfold maxFrame at hmax
    omega
  · have hlength : (env.sealFrame nonce w.endOffset (env.codec.encode event)).length =
        (env.codec.encode event).length + 28 := sealFrame_length _ _ _
    generalize env.sealFrame nonce w.endOffset (env.codec.encode event) = frame
      at hlength
    unfold Worker.writeFrame
    dsimp only
    rw [← hlength]
    obtain ⟨hindex, hresult⟩ := indexAtEnd_index env
      { w with
        file := Worker.overwrite w.file w.endOffset (setUint32 frame.length ++ frame) }
      decoded frame.length
    cases hend : (Worker.indexAtEnd env { w with
        file := Worker.overwrite w.file w.endOffset (setUint32 frame.length ++ frame) }
      decoded frame.length).2 with
    | error e =>
      rw [hend] at hresult
      exact ⟨hindex, by rw [← hresult]; rfl⟩
    | ok u =>
      rw [hend] at hresult
      exact ⟨hindex, by rw [← hresult]; rfl⟩

theorem Filed.append (h : Filed w.index l) (event : GroupHistoryEvent) (nonce : Nonce)
    (io : WriteOutcome) : ∃ l', Filed (w.append env event nonce io).1.index l' := by
  rcases append_cases env w event nonce io with
    ⟨hsame, -⟩ | ⟨decoded, size, -, hchain, hnew, hsize, hindex, -⟩
  · exact ⟨l, hsame ▸ h⟩
  · exact ⟨_, hindex ▸ h.indexEvent env.text hchain hnew hsize⟩

theorem openJournal_induction {P : Index → Prop} (hempty : P Index.empty)
    (hstep : ∀ index event size, P index → index.checkChain event = .ok () →
      index.entries.contains event.eventId = false → size ≤ pageBytes →
      (index.indexEvent env.text event size).2 = .ok () →
        P (index.indexEvent env.text event size).1)
    {file : Bytes} (hopen : Worker.openJournal env file = .ok w) : P w.index := by
  have hscan : ∀ (fuel : ℕ) (w w' : Worker), P w.index → Worker.scan env fuel w = .ok w' →
      P w'.index := by
    intro fuel
    induction fuel with
    | zero =>
      intro w w' hP hscan
      obtain rfl : w = w' := Except.ok.inj hscan
      exact hP
    | succ fuel ih =>
    intro w w' hP hscan
    unfold Worker.scan at hscan
    split at hscan
    · obtain rfl : w = w' := Except.ok.inj hscan
      exact hP
    split at hscan
    · rw [← Except.ok.inj hscan]
      exact hP
    dsimp only at hscan
    split at hscan
    · cases hscan
    next hsize =>
    split at hscan
    · rw [← Except.ok.inj hscan]
      exact hP
    split at hscan
    · cases hscan
    next event hdecode =>
    split at hscan
    · cases hscan
    next hcheck =>
    split at hscan
    · cases hscan
    next w₁ hindexed =>
    refine ih { w₁ with endOffset := _ } w' ?_ hscan
    obtain ⟨hindex, hresult⟩ := indexAtEnd_index env w event
      (getUint32 ((w.file.drop w.endOffset).take 4))
    rw [hindexed] at hindex hresult
    have hmax := maxFrame_le_pageBytes
    change P w₁.index
    rw [hindex]
    cases hnew : w.index.entries.contains event.eventId with
    | true =>
      unfold Index.indexEvent
      rw [if_pos hnew]
      exact hP
    | false =>
      have hsize_le : getUint32 ((w.file.drop w.endOffset).take 4) ≤ pageBytes := by omega
      exact hstep w.index event _ hP (chain_of_checkEvent hcheck) hnew hsize_le hresult.symm
  unfold Worker.openJournal at hopen
  dsimp only at hopen
  generalize (if file.length = 0 then magic else file) = file at hopen
  split at hopen
  · cases hopen
  · exact hscan _ (Worker.afterHeader file) w hempty hopen

theorem Reached.filed (h : Reached env w) : ∃ l, Filed w.index l := by
  induction h with
  | opened hopen =>
    refine openJournal_induction (P := fun index => ∃ l, Filed index l) ⟨[], Filed.empty⟩ ?_ hopen
    rintro index event size ⟨l, hl⟩ hchain hnew hsize -
    exact ⟨_, hl.indexEvent env.text hchain hnew hsize⟩
  | appended event nonce io _ ih =>
    obtain ⟨l, hl⟩ := ih
    exact hl.append event nonce io

/-! ### Which journals are whole -/

/-- The order has the entries of the maps that the search index takes, and no others. -/
structure Placed (index : Index) : Prop where
  ordered_iff : ∀ id e, index.entries.get id = some e →
    (e ∈ index.ordered ↔ ∃ target, searchTarget e.event = .ok target)
  entries : ∀ e ∈ index.ordered, index.entries.get e.id = some e
  id_eq : ∀ id e, index.entries.get id = some e → e.id = id

theorem Placed.indexEvent (h : Placed index) (text : TextFunctions) {event : GroupHistoryEvent}
    (hnew : index.entries.contains event.eventId = false) (size : ℕ) :
    Placed (index.indexEvent text event size).1 := by
  have hother : ∀ e ∈ index.ordered, e.id ≠ event.eventId := by
    intro e he hid
    rw [FMap.contains_eq_false, ← hid, h.entries e he] at hnew
    cases hnew
  have hentries := (indexEvent_cases text hnew size).1
  -- the entry is put in the order if and only if the search index takes its event
  have hordered : ∀ e, e ∈ (index.indexEvent text event size).1.ordered ↔
      e ∈ index.ordered ∨ e = ⟨event, size⟩ ∧ ∃ target, searchTarget event = .ok target := by
    intro e
    unfold Index.indexEvent
    rw [hnew]
    dsimp only
    cases htarget : searchTarget event with
    | error message => simp [Index.indexMaps]
    | ok target => simp [Index.indexMaps, Sorted.mem_insertSorted, or_comm]
  refine ⟨fun id e hget => ?_, fun e he => ?_, fun id e hget => ?_⟩
  · rw [hordered]
    rw [hentries, FMap.get_insert] at hget
    split at hget
    · obtain rfl : Entry.mk event size = e := some.inj hget
      constructor
      · rintro (hold | ⟨-, htarget⟩)
        · exact absurd rfl (hother _ hold)
        · exact htarget
      · exact fun htarget => .inr ⟨rfl, htarget⟩
    next hne =>
    rw [← h.ordered_iff id e hget]
    constructor
    · rintro (hold | ⟨rfl, -⟩)
      · exact hold
      · -- the maps have the new entry under its own identity only
        exact absurd (h.id_eq id _ hget).symm hne
    · exact .inl
  · rw [hentries, FMap.get_insert]
    rcases (hordered e).mp he with hold | ⟨rfl, -⟩
    · rw [if_neg (hother e hold)]
      exact h.entries e hold
    · exact if_pos rfl
  · rw [hentries, FMap.get_insert] at hget
    split at hget
    · next heq =>
      rw [← some.inj hget, heq]
      rfl
    · exact h.id_eq id e hget

/-- **In every worker that is reached, what the order misses is an event that the search index does
not take.** -/
theorem Reached.placed (h : Reached env w) : Placed w.index := by
  induction h with
  | opened hopen =>
    refine openJournal_induction ?_ ?_ hopen
    · refine ⟨?_, ?_, ?_⟩
      · intro id e hget
        cases hget
      · intro e he
        cases he
      · intro id e hget
        cases hget
    · intro index event size h _ hnew _ _
      exact h.indexEvent env.text hnew size
  | @appended w event nonce io _ ih =>
    rcases append_cases env w event nonce io with
      ⟨hsame, -⟩ | ⟨decoded, size, -, -, hnew, -, hindex, -⟩
    · rw [hsame]
      exact ih
    · rw [hindex]
      exact ih.indexEvent env.text hnew size

theorem whole_of_keys (h : ∀ id ∈ index.entries.keys,
    ((index.entries.get id).all fun e => decide (e ∈ index.ordered)) = true) : Whole index := by
  intro id e hget
  have hall := h id (FMap.mem_keys_iff.mpr ⟨e, hget⟩)
  rw [hget, all_some, decide_eq_true_eq] at hall
  exact hall

theorem Filed.mem_ordered_iff (h : Filed w.index l) (hserves : Serves env w) (hwhole : Whole w.index)
    {e : Entry} : e ∈ w.index.ordered ↔ e ∈ l := by
  constructor
  · intro he
    exact (h.get_iff.mp (hserves.entries e he)).1
  · intro he
    exact hwhole e.id e (h.get_iff.mpr ⟨he, rfl⟩)

/-! ### Queries over the list -/

/-- The authors of the entries, in order. -/
def authorsOf (l : List Entry) : List DartString := (l.map Entry.author).dedup.insertionSort (· ≤ ·)

/-- The entries of an author behind a sequence, in order. -/
def rangeOf (l : List Entry) (author : DartString) (after : ℤ) : List Entry :=
  (l.filter fun e => decide (e.author = author ∧ after < (e.sequence : ℤ))).insertionSort
    fun a b => a.sequence ≤ b.sequence

theorem mem_authorsOf {author : DartString} : author ∈ authorsOf l ↔ ∃ e ∈ l, e.author = author := by
  unfold authorsOf
  rw [List.mem_insertionSort, List.mem_dedup, List.mem_map]

theorem authorsOf_sorted (l : List Entry) : Sorted.SortedBy id (authorsOf l) := by
  have hsorted := pairwise_insertionSort (· ≤ · : DartString → DartString → Prop)
    (l.map Entry.author).dedup
  have hnodup : ((l.map Entry.author).dedup.insertionSort (· ≤ ·)).Nodup :=
    (perm_insertionSort _ _).nodup_iff.mpr (nodup_dedup _)
  exact (hsorted.and hnodup).imp fun hab => lt_of_le_of_ne hab.1 hab.2

theorem mem_rangeOf {author : DartString} {after : ℤ} {e : Entry} :
    e ∈ rangeOf l author after ↔ e ∈ l ∧ e.author = author ∧ after < (e.sequence : ℤ) := by
  unfold rangeOf
  rw [mem_insertionSort, mem_filter, decide_eq_true_eq]

theorem sortedBy_sequence {l : List Entry} (hnodup : l.Nodup)
    (hsequence : ∀ a ∈ l, ∀ b ∈ l, a.sequence = b.sequence → a = b) :
    Sorted.SortedBy Entry.sequence (l.insertionSort fun a b => a.sequence ≤ b.sequence) := by
  have hsorted := pairwise_insertionSort (fun a b : Entry => a.sequence ≤ b.sequence) l
  have hnodup' : (l.insertionSort fun a b => a.sequence ≤ b.sequence).Nodup :=
    (perm_insertionSort _ _).nodup_iff.mpr hnodup
  refine (hsorted.and hnodup').imp_of_mem fun {a b} ha hb hab => lt_of_le_of_ne hab.1 fun heq => ?_
  rw [mem_insertionSort] at ha hb
  exact hab.2 (hsequence a ha b hb heq)

namespace Filed

variable (h : Filed index l)

include h

theorem eq_of_place {a b : Entry} (ha : a ∈ l) (hb : b ∈ l) (hauthor : a.author = b.author)
    (hsequence : a.sequence = b.sequence) : a = b := by
  have hgeta := (h.authors.get_iff b.author b.sequence a).mpr ⟨ha, hauthor, hsequence⟩
  have hgetb := (h.authors.get_iff b.author b.sequence b).mpr ⟨hb, rfl, rfl⟩
  rw [hgeta] at hgetb
  exact some.inj hgetb

theorem rangeOf_sorted (author : DartString) (after : ℤ) :
    Sorted.SortedBy Entry.sequence (rangeOf l author after) := by
  refine sortedBy_sequence (h.nodup.filter _) ?_
  intro a ha b hb hsequence
  obtain ⟨ha, hauthor⟩ := mem_filter.mp ha
  obtain ⟨hb, hauthor'⟩ := mem_filter.mp hb
  rw [decide_eq_true_eq] at hauthor hauthor'
  exact h.eq_of_place ha hb (hauthor.1.trans hauthor'.1.symm) hsequence

theorem select_authors (text : TextFunctions) (after : Option DartString) :
    index.select text (.authors after 1) =
      .ok (.answer (.ids (((authorsOf l).filter fun author => after.all fun a => a < author).take
        1))) := by
  have hkeys : index.authors.keys.sort (· ≤ ·) = authorsOf l := by
    have hsorted : Sorted.SortedBy id (index.authors.keys.sort (· ≤ ·)) := by
      have hle := Finset.pairwise_sort index.authors.keys (· ≤ ·)
      have hnodup := Finset.sort_nodup index.authors.keys (· ≤ ·)
      exact (hle.and hnodup).imp fun hab => lt_of_le_of_ne hab.1 hab.2
    refine Sorted.eq_of_sorted hsorted (authorsOf_sorted l) fun author => ?_
    · rw [Finset.mem_sort, FMap.mem_keys_iff, mem_authorsOf]
      constructor
      · rintro ⟨sub, hget⟩
        obtain ⟨j, e, hsub⟩ := h.authors.nonempty author sub hget
        obtain ⟨he, hauthor, -⟩ := (h.authors.get_iff author j e).mp (by rw [hget]; exact hsub)
        exact ⟨e, he, hauthor⟩
      · rintro ⟨e, he, hauthor⟩
        obtain ⟨sub, hget, -⟩ := bind_eq_some_iff.mp
          ((h.authors.get_iff author e.sequence e).mpr ⟨he, hauthor, rfl⟩)
        exact ⟨sub, hget⟩
  rw [Index.select, hkeys]
  rfl

theorem mem_values {author : DartString} {e : Entry} :
    e ∈ ((index.authors.get author).map valuesOf).getD [] ↔ e ∈ l ∧ e.author = author := by
  have hget := fun j => h.authors.get_iff author j e
  cases hsub : index.authors.get author with
  | none =>
    simp only [hsub, bind_none] at hget
    refine iff_of_false (not_mem_nil) fun ⟨he, hauthor⟩ => ?_
    cases (hget e.sequence).mpr ⟨he, hauthor, rfl⟩
  | some sub =>
  simp only [hsub, bind_some] at hget
  rw [map_some, getD_some, valuesOf, mem_filterMap]
  constructor
  · rintro ⟨j, -, hj⟩
    exact ⟨((hget j).mp hj).1, ((hget j).mp hj).2.1⟩
  · rintro ⟨he, hauthor⟩
    have hj := (hget e.sequence).mpr ⟨he, hauthor, rfl⟩
    refine ⟨e.sequence, ?_, hj⟩
    rw [Finset.mem_sort, FMap.mem_keys_iff]
    exact ⟨e, hj⟩

theorem values_nodup (author : DartString) :
    (((index.authors.get author).map valuesOf).getD []).Nodup := by
  cases hsub : index.authors.get author with
  | none => exact nodup_nil
  | some sub =>
  refine List.Nodup.filterMap ?_ (Finset.sort_nodup _ _)
  intro j j' e hj hj'
  have hget := fun j => h.authors.get_iff author j e
  simp only [hsub, bind_some] at hget
  rw [← ((hget j).mp hj).2.2, ← ((hget j').mp hj').2.2]

theorem select_range (text : TextFunctions) (author : DartString) {after : ℤ} (hafter : 0 ≤ after)
    (hbound : after < groupEventMaxCounter) (limit : ℤ) :
    index.select text (.range author (after + 1) groupEventMaxCounter limit) =
      .ok (.entries (rangeOf l author after) limit) := by
  have hmem : ∀ e : Entry, (e ∈ (((index.authors.get author).map valuesOf).getD []).filter
      fun entry => decide (after + 1 ≤ (entry.sequence : ℤ) ∧
        (entry.sequence : ℤ) ≤ (groupEventMaxCounter : ℤ))) ↔
      e ∈ l ∧ e.author = author ∧ after < (e.sequence : ℤ) := by
    intro e
    have hsequence : e.sequence ≤ groupEventMaxCounter :=
      e.event.sequence_le_lamport.trans e.event.lamport_le
    rw [mem_filter, h.mem_values, decide_eq_true_eq, and_assoc]
    refine and_congr_right fun _ => and_congr_right fun _ => ?_
    omega
  rw [Index.select, if_neg (by omega)]
  refine congrArg (fun entries => Except.ok (Selection.entries entries limit)) ?_
  refine Sorted.eq_of_sorted ?_ (h.rangeOf_sorted author after) fun e => ?_
  · refine sortedBy_sequence ((h.values_nodup author).filter _) ?_
    intro a ha b hb hsequence
    obtain ⟨ha, hauthor, -⟩ := (hmem a).mp ha
    obtain ⟨hb, hauthor', -⟩ := (hmem b).mp hb
    exact h.eq_of_place ha hb (hauthor.trans hauthor'.symm) hsequence
  · rw [mem_insertionSort, hmem, mem_rangeOf]

end Filed

end Journal
end Conest
