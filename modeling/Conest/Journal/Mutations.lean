import Conest.Journal.OrderIndependence
import Conest.Journal.MessageProjection

/-!
# The mutation index and the full history

To show a message, its latest mutations are read from an index and reduced. The index keeps the
newest well-shaped mutation of each author, kind and emoji, and the query reads its selection from
the oldest on, up to 128 events and a page of bytes. The full history reduces to the same look
unless one of the two goes wrong: the newest event that may change the message is not the newest of
its author and kind, so that the index has dropped it for one that the reducer skips; or older
entries fill the page before it (`mutation_index_agrees_iff`).

The statement is about every worker that some file opens to, after any appends, whatever becomes of
their writes. `Serves` is what all of these have in common: the entries in their order are the ones
whose frames read back, and the mutation index is over exactly these.
-/

namespace Conest
namespace Journal

open Lib Conest.Group List Option

/-! ### Workers that are reached -/

/-- The workers that some file opens to, and those after appends. -/
inductive Reached (env : Env) : Worker → Prop
  | opened {file : Bytes} {w : Worker} : Worker.openJournal env file = .ok w → Reached env w
  | appended {w : Worker} (event : GroupHistoryEvent) (nonce : Nonce) (io : WriteOutcome) :
      Reached env w → Reached env (w.append env event nonce io).1

/-- **What a worker serves from**: the entries in their order, each read back from a frame before
the end, and the mutation index over them. -/
structure Serves (env : Env) (w : Worker) : Prop where
  sorted : Sorted.SortedBy Entry.key w.index.ordered
  entries : ∀ e ∈ w.index.ordered, w.index.entries.get e.id = some e
  mutations :
    Indexes.Best (mutationKeyOf env.text) Entry.key w.index.ordered w.index.messageMutations
  frames : ∀ e ∈ w.index.ordered, ∃ offset, w.offsets.get e.id = some offset ∧
    offset + 4 + e.size ≤ w.endOffset ∧
      env.decodeFrame ((w.file.drop (offset + 4)).take e.size) offset = .ok e.event
  end_le : w.endOffset ≤ w.file.length

variable {env : Env} {w : Worker}

theorem take_drop_of_take_eq {α : Type} {l l' : List α} {n a s : ℕ} (h : l'.take n = l.take n)
    (hle : a + s ≤ n) : (l'.drop a).take s = (l.drop a).take s := by
  have hcut : ∀ k : List α, (k.drop a).take s = ((k.take n).drop a).take s := by
    intro k
    rw [drop_take, take_take, Nat.min_eq_left (by omega)]
  rw [hcut l', hcut l, h]

section

variable {file bytes : Bytes} {n : ℕ} (hn : n ≤ file.length)

include hn

theorem overwrite_take : (Worker.overwrite file n bytes).take n = file.take n := by
  unfold Worker.overwrite
  rw [append_assoc, take_left' (length_take_of_le hn)]

theorem le_overwrite_length : n + bytes.length ≤ (Worker.overwrite file n bytes).length := by
  unfold Worker.overwrite
  rw [length_append, length_append, length_take_of_le hn]
  omega

end

theorem Serves.of_file (h : Serves env w) (file : Bytes) (poisoned : Bool)
    (hfile : file.take w.endOffset = w.file.take w.endOffset) (hle : w.endOffset ≤ file.length) :
    Serves env { w with file := file, poisoned := poisoned } where
  sorted := h.sorted
  entries := h.entries
  mutations := h.mutations
  frames := by
    intro e he
    obtain ⟨offset, hoffset, hend, hdecode⟩ := h.frames e he
    refine ⟨offset, hoffset, hend, ?_⟩
    rw [← hdecode]
    change env.decodeFrame ((file.drop (offset + 4)).take e.size) offset = _
    rw [take_drop_of_take_eq hfile (by omega)]
  end_le := hle

theorem Serves.of_end (h : Serves env w) {endOffset : ℕ} (hend : w.endOffset ≤ endOffset)
    (hle : endOffset ≤ w.file.length) : Serves env { w with endOffset := endOffset } where
  sorted := h.sorted
  entries := h.entries
  mutations := h.mutations
  frames := by
    intro e he
    obtain ⟨offset, hoffset, hbefore, hdecode⟩ := h.frames e he
    exact ⟨offset, hoffset, hbefore.trans hend, hdecode⟩
  end_le := hle

section

variable {text : TextFunctions} {event : GroupHistoryEvent} (h : isMutation text event = true)

include h

theorem target_of_isMutation : ∃ target, event.stringAt "targetEventId" = some target := by
  rw [← isSome_iff_exists, ← ne_none_iff_isSome]
  intro hnone
  unfold isMutation at h
  dsimp only at h
  rw [hnone] at h
  split at h
  · cases h
  · simp at h

theorem searchTarget_of_isMutation : ∃ target, searchTarget event = .ok target := by
  obtain ⟨target, htarget⟩ := target_of_isMutation h
  obtain ⟨value, hvalue, hstring⟩ := bind_eq_some_iff.mp htarget
  unfold searchTarget
  rcases kind_of_isMutation h with hkind | hkind | hkind
  · rw [hkind, hvalue]
    cases value with
    | str s => exact ⟨some s, rfl⟩
    | null => cases hstring
    | bool b => cases hstring
    | int n => cases hstring
    | list elements => cases hstring
    | obj entries => cases hstring
  · rw [hkind]
    exact ⟨none, rfl⟩
  · rw [hkind]
    exact ⟨none, rfl⟩

end

/-! ### One more event -/

theorem Serves.ne_of_new (h : Serves env w) {event : GroupHistoryEvent}
    (hnew : w.index.entries.contains event.eventId = false) {e : Entry}
    (he : e ∈ w.index.ordered) : e.id ≠ event.eventId := by
  intro hid
  rw [FMap.contains_eq_false, ← hid, h.entries e he] at hnew
  cases hnew

theorem indexEvent_cases (text : TextFunctions) {index : Index} {event : GroupHistoryEvent}
    (hnew : index.entries.contains event.eventId = false) (size : ℕ) :
    (index.indexEvent text event size).1.entries =
        index.entries.insert event.eventId ⟨event, size⟩ ∧
      (index.indexEvent text event size).1.messageMutations =
        Indexes.addBest (mutationKeyOf text) Entry.key ⟨event, size⟩ index.messageMutations ∧
      ((index.indexEvent text event size).2 = .ok () ∧
          (index.indexEvent text event size).1.ordered =
            Sorted.insertSorted Entry.key ⟨event, size⟩ index.ordered ∨
        (index.indexEvent text event size).2 ≠ .ok () ∧
          mutationKeyOf text ⟨event, size⟩ = none ∧
          (index.indexEvent text event size).1.ordered = index.ordered) := by
  unfold Index.indexEvent
  rw [hnew]
  dsimp only
  cases htarget : searchTarget event with
  | error message =>
    refine ⟨rfl, rfl, .inr ⟨(by simp), ?_, rfl⟩⟩
    unfold mutationKeyOf
    rw [if_neg]
    intro hmutation
    obtain ⟨target, hok⟩ := searchTarget_of_isMutation hmutation
    rw [htarget] at hok
    cases hok
  | ok target => exact ⟨rfl, rfl, .inl ⟨rfl, rfl⟩⟩

theorem best_of_mem_iff {text : TextFunctions} {l l' : List Entry}
    {m : FMap (List DartString) Entry} (h : Indexes.Best (mutationKeyOf text) Entry.key l m)
    (hmem : ∀ e, e ∈ l' ↔ e ∈ l) : Indexes.Best (mutationKeyOf text) Entry.key l' m where
  best := by
    intro k a hget
    obtain ⟨ha, hk, hmax⟩ := h.best k a hget
    exact ⟨(hmem a).mpr ha, hk, fun b hb => hmax b ((hmem b).mp hb)⟩
  isSome := fun k a ha => h.isSome k a ((hmem a).mp ha)

/-- **Indexing an event whose frame is in the file.** If it cannot be indexed for the search, the
maps have it and the order does not; it is no mutation, so what is served stays the same. -/
theorem Serves.indexAtEnd (h : Serves env w) {event : GroupHistoryEvent} {size : ℕ}
    (hfile : w.endOffset + 4 + size ≤ w.file.length)
    (hframe : env.decodeFrame ((w.file.drop (w.endOffset + 4)).take size) w.endOffset =
      .ok event) :
    ((w.indexAtEnd env event size).2 = .ok () →
        Serves env { (w.indexAtEnd env event size).1 with
          endOffset := w.endOffset + 4 + size }) ∧
      ((w.indexAtEnd env event size).2 ≠ .ok () → Serves env (w.indexAtEnd env event size).1) := by
  unfold Worker.indexAtEnd
  cases hnew : w.index.entries.contains event.eventId with
  | true =>
    exact ⟨fun _ => h.of_end (by omega) hfile, fun _ => h⟩
  | false =>
  rw [if_neg Bool.false_ne_true]
  have hne : ∀ e ∈ w.index.ordered, e.id ≠ event.eventId := fun e he => h.ne_of_new hnew he
  obtain ⟨hentries, hmutations, hcases⟩ := indexEvent_cases env.text hnew size
  generalize w.index.indexEvent env.text event size = indexed at hentries hmutations hcases
  obtain ⟨index, result⟩ := indexed
  -- an entry that was there is found as before
  have hold : ∀ e ∈ w.index.ordered, index.entries.get e.id = some e := by
    intro e he
    rw [hentries, FMap.get_insert, if_neg (hne e he), h.entries e he]
  have hframes : ∀ e ∈ w.index.ordered, ∃ offset,
      (w.offsets.insert event.eventId w.endOffset).get e.id = some offset ∧
        offset + 4 + e.size ≤ w.endOffset ∧
          env.decodeFrame ((w.file.drop (offset + 4)).take e.size) offset = .ok e.event := by
    intro e he
    obtain ⟨offset, hoffset, hrest⟩ := h.frames e he
    exact ⟨offset, by rw [FMap.get_insert, if_neg (hne e he), hoffset], hrest⟩
  rcases hcases with ⟨hok, hordered⟩ | ⟨hfailed, hkey, hordered⟩
  · refine ⟨fun _ => ⟨?_, ?_, ?_, ?_, hfile⟩, fun hfailed => absurd hok hfailed⟩
    · rw [hordered]
      refine h.sorted.insertSorted fun e he hkey => hne e he ?_
      exact Entry.id_eq_of_key_eq hkey
    · intro e he
      change e ∈ index.ordered at he
      rw [hordered, Sorted.mem_insertSorted] at he
      rcases he with rfl | he
      · exact hentries ▸ (FMap.get_insert _ _ _ _).trans (if_pos rfl)
      · exact hold e he
    · change Indexes.Best _ _ index.ordered index.messageMutations
      rw [hordered, hmutations]
      refine best_of_mem_iff (h.mutations.add ⟨event, size⟩) fun e => ?_
      rw [Sorted.mem_insertSorted, mem_append, mem_singleton, or_comm]
    · intro e he
      change e ∈ index.ordered at he
      rw [hordered, Sorted.mem_insertSorted] at he
      rcases he with rfl | he
      · exact ⟨w.endOffset, (FMap.get_insert _ _ _ _).trans (if_pos rfl), Nat.le_refl _, hframe⟩
      · obtain ⟨offset, hoffset, hbefore, hdecode⟩ := hframes e he
        exact ⟨offset, hoffset, by change _ ≤ w.endOffset + 4 + size; omega, hdecode⟩
  · refine ⟨fun hok => absurd hok hfailed, fun _ => ⟨?_, ?_, ?_, ?_, h.end_le⟩⟩
    · rw [hordered]
      exact h.sorted
    · intro e he
      change e ∈ index.ordered at he
      rw [hordered] at he
      exact hold e he
    · change Indexes.Best _ _ index.ordered index.messageMutations
      rw [hordered, hmutations]
      unfold Indexes.addBest
      rw [hkey]
      exact h.mutations
    · intro e he
      change e ∈ index.ordered at he
      rw [hordered] at he
      exact hframes e he

/-! ### Every worker that is reached serves -/

theorem Serves.scan (h : Serves env w) {fuel : ℕ} {w' : Worker}
    (hscan : Worker.scan env fuel w = .ok w') : Serves env w' := by
  induction fuel generalizing w with
  | zero =>
    obtain rfl : w = w' := Except.ok.inj hscan
    exact h
  | succ fuel ih =>
  -- a torn frame is cut off behind the end
  have htruncated : Serves env { w with file := w.file.take w.endOffset } := by
    refine h.of_file (w.file.take w.endOffset) w.poisoned ?_ ?_
    · rw [take_take, Nat.min_self]
    · rw [length_take_of_le h.end_le]
  unfold Worker.scan at hscan
  split at hscan
  · obtain rfl : w = w' := Except.ok.inj hscan
    exact h
  split at hscan
  · rw [← Except.ok.inj hscan]
    exact htruncated
  dsimp only at hscan
  split at hscan
  · cases hscan
  split at hscan
  · rw [← Except.ok.inj hscan]
    exact htruncated
  next hlong hfour hsize hfits =>
  split at hscan
  · cases hscan
  next event hdecode =>
  split at hscan
  · cases hscan
  split at hscan
  · cases hscan
  next w₁ hindexed =>
  refine ih ?_ hscan
  have hserves := (h.indexAtEnd (by omega) hdecode).1
  rw [hindexed] at hserves
  exact hserves rfl

theorem Serves.afterHeader {file : Bytes} (hmagic : file.take magic.length = magic) :
    Serves env (Worker.afterHeader file) where
  sorted := List.Pairwise.nil
  entries := by intro e he; cases he
  mutations := Indexes.Best.empty
  frames := by intro e he; cases he
  end_le := by
    have hlength := congrArg length hmagic
    rw [length_take] at hlength
    change magic.length ≤ file.length
    omega

theorem Serves.opened {file : Bytes} (hopen : Worker.openJournal env file = .ok w) :
    Serves env w := by
  unfold Worker.openJournal at hopen
  dsimp only at hopen
  generalize (if file.length = 0 then magic else file) = file at hopen
  split at hopen
  · cases hopen
  next hmagic => exact (Serves.afterHeader (not_not.mp hmagic)).scan hopen

theorem groupId_of_checkEvent {event : GroupHistoryEvent} (h : w.checkEvent env event = .ok ()) :
    event.groupId = env.groupId := by
  unfold Worker.checkEvent Env.checkSignature at h
  by_contra hne
  rw [if_pos (.inl hne)] at h
  cases h

theorem Serves.append (h : Serves env w) (event : GroupHistoryEvent) (nonce : Nonce)
    (io : WriteOutcome) : Serves env (w.append env event nonce io).1 := by
  unfold Worker.append
  split
  · exact h
  split
  · exact h
  next decoded hdecode =>
  split
  · exact h
  next hcheck =>
  split
  · exact h
  -- the frame is written over whatever is behind the end
  have hframe := decodeFrame_sealFrame hdecode (groupId_of_checkEvent hcheck) nonce
    w.endOffset
  generalize env.sealFrame nonce w.endOffset (env.codec.encode event) = frame at hframe
  have hover : ∀ bytes poisoned, Serves env { w with
      file := Worker.overwrite w.file w.endOffset bytes, poisoned := poisoned } := by
    intro bytes poisoned
    refine h.of_file _ poisoned (overwrite_take h.end_le) ?_
    have hle : w.endOffset + bytes.length ≤ _ := le_overwrite_length h.end_le
    omega
  unfold Worker.writeFrame
  cases io with
  | rolledBack =>
    refine h.of_file (w.file.take w.endOffset) w.poisoned ?_ ?_
    · rw [take_take, Nat.min_self]
    · rw [length_take_of_le h.end_le]
  | poisoned reached => exact hover _ true
  | written =>
  have hserves := hover (setUint32 frame.length ++ frame) w.poisoned
  have hle : w.endOffset + 4 + frame.length ≤
      (Worker.overwrite w.file w.endOffset
        (setUint32 frame.length ++ frame)).length := by
    refine le_trans ?_ (le_overwrite_length h.end_le)
    rw [length_append, setUint32_length]
    omega
  have hread : ((Worker.overwrite w.file w.endOffset
      (setUint32 frame.length ++ frame)).drop (w.endOffset + 4)).take frame.length =
        frame := by
    unfold Worker.overwrite
    rw [← drop_drop, append_assoc,
      drop_left' (length_take_of_le h.end_le), append_assoc,
      drop_left' (setUint32_length _), take_left' rfl]
  rw [← hread] at hframe
  obtain ⟨hok, hfailed⟩ := hserves.indexAtEnd hle hframe
  dsimp only
  split
  · next e herror =>
    refine hfailed ?_
    rw [herror]
    exact fun hcontra => by cases hcontra
  next hwritten => exact hok hwritten

theorem Reached.serves (h : Reached env w) : Serves env w := by
  induction h with
  | opened hopen => exact Serves.opened hopen
  | appended event nonce io _ ih => exact ih.append event nonce io

/-! ### What the query reads -/

/-- Whether the query for a message selects a mutation: a reaction to it, or by its author. -/
def concerns (original : GroupHistoryEvent) (entry : Entry) : Bool :=
  decide (entry.event.stringAt "targetEventId" = some original.eventId ∧
    (entry.kind = .reaction ∨ entry.event.authorAccountId = original.authorAccountId ∧
      entry.event.authorDeviceId = original.authorDeviceId ∧
      entry.event.signingPublicKeyBase64 = original.signingPublicKeyBase64))

/-- The entry is a mutation, the newest of its author and kind, and for a reaction of its emoji. -/
def NewestOfKind (text : TextFunctions) (entries : List Entry) (entry : Entry) : Prop :=
  isMutation text entry.event = true ∧ ∀ other ∈ entries,
    mutationKeyOf text other = mutationKeyOf text entry → other.key ≤ entry.key

instance (text : TextFunctions) (entries : List Entry) :
    DecidablePred (NewestOfKind text entries) :=
  fun _ => inferInstanceAs (Decidable (_ ∧ _))

/-- The mutations of a message that the index keeps, the oldest first. -/
def candidates (text : TextFunctions) (original : GroupHistoryEvent) (entries : List Entry) :
    List Entry :=
  entries.filter fun entry => concerns original entry && decide (NewestOfKind text entries entry)

/-- The candidates up to an entry. -/
def upTo (text : TextFunctions) (original : GroupHistoryEvent) (entries : List Entry)
    (entry : Entry) : List Entry :=
  (candidates text original entries).filter fun e => decide (e.key ≤ entry.key)

/-- **The entry is read**: the index keeps it, and with the candidates before it it fits in the
page. -/
def Fits (text : TextFunctions) (original : GroupHistoryEvent) (entries : List Entry)
    (entry : Entry) : Prop :=
  entry ∈ candidates text original entries ∧
    (upTo text original entries entry).length ≤ 128 ∧
    ((upTo text original entries entry).map Entry.size).sum ≤ pageBytes

instance (text : TextFunctions) (original : GroupHistoryEvent) (entries : List Entry) :
    DecidablePred (Fits text original entries) :=
  fun _ => inferInstanceAs (Decidable (_ ∧ _ ∧ _))

/-- The mutations of a message, as the journal returns them. -/
def Worker.messageMutations (w : Worker) (env : Env) (original : GroupHistoryEvent) :
    Except String Answer :=
  w.execute env (.messageMutations original.eventId original.authorAccountId
    original.authorDeviceId original.signingPublicKeyBase64)

theorem mem_pageOf {limit : ℕ} {entries : List Entry} {count bytes : ℕ} (hcount : count ≤ limit)
    {event : GroupHistoryEvent} :
    event ∈ pageOf limit entries count bytes ↔
      ∃ before entry after, entries = before ++ entry :: after ∧ entry.event = event ∧
        count + before.length < limit ∧
        bytes + (before.map Entry.size).sum + entry.size ≤ pageBytes := by
  induction entries generalizing count bytes with
  | nil =>
    refine iff_of_false not_mem_nil ?_
    rintro ⟨before, entry, after, hsplit, -⟩
    exact absurd hsplit.symm (by simp)
  | cons first entries ih =>
  rw [pageOf]
  split
  · next hfull =>
    -- nothing more fits
    refine iff_of_false not_mem_nil ?_
    rintro ⟨before, entry, after, hsplit, -, hlt, hbytes⟩
    cases before with
    | nil =>
      obtain ⟨rfl, rfl⟩ := cons.inj hsplit
      omega
    | cons x before =>
      obtain ⟨rfl, -⟩ := cons.inj hsplit
      rw [map_cons, sum_cons] at hbytes
      omega
  next hroom =>
  rw [mem_cons, ih (by omega)]
  constructor
  · rintro (rfl | ⟨before, entry, after, rfl, hevent, hlt, hbytes⟩)
    · refine ⟨[], first, entries, rfl, rfl, ?_, ?_⟩
      · rw [length_nil]
        omega
      · rw [map_nil, sum_nil]
        omega
    · refine ⟨first :: before, entry, after, rfl, hevent, ?_, ?_⟩
      · rw [length_cons]
        omega
      · rw [map_cons, sum_cons]
        omega
  · rintro ⟨before, entry, after, hsplit, hevent, hlt, hbytes⟩
    cases before with
    | nil =>
      obtain ⟨rfl, rfl⟩ := cons.inj hsplit
      exact .inl hevent.symm
    | cons x before =>
      obtain ⟨rfl, rfl⟩ := cons.inj hsplit
      rw [length_cons] at hlt
      rw [map_cons, sum_cons] at hbytes
      exact .inr ⟨before, entry, after, rfl, hevent, by omega, by omega⟩

theorem filter_upTo {before after : List Entry} {entry : Entry}
    (h : Sorted.SortedBy Entry.key (before ++ entry :: after)) :
    (before ++ entry :: after).filter (fun e => decide (e.key ≤ entry.key)) = before ++ [entry] := by
  obtain ⟨-, htail, hacross⟩ := pairwise_append.mp h
  obtain ⟨hafter, -⟩ := pairwise_cons.mp htail
  rw [filter_append, filter_cons_of_pos (by simp)]
  congr 1
  · rw [filter_eq_self]
    intro e he
    exact decide_eq_true (le_of_lt (hacross e he entry mem_cons_self))
  · congr 1
    rw [filter_eq_nil_iff]
    intro e he
    rw [decide_eq_true_eq, not_le]
    exact hafter e he

namespace Serves

variable (h : Serves env w)

include h

theorem key_injective {a b : Entry} (ha : a ∈ w.index.ordered) (hb : b ∈ w.index.ordered)
    (hkey : a.key = b.key) : a = b := by
  have hget := h.entries a ha
  rw [Entry.id_eq_of_key_eq hkey, h.entries b hb] at hget
  exact (some.inj hget).symm

theorem mem_values {entry : Entry} :
    entry ∈ valuesOf w.index.messageMutations ↔
      entry ∈ w.index.ordered ∧ NewestOfKind env.text w.index.ordered entry := by
  have hkeyOf : ∀ {e : Entry} {k : List DartString}, mutationKeyOf env.text e = some k →
      isMutation env.text e.event = true := by
    intro e k hk
    unfold mutationKeyOf at hk
    split at hk
    · assumption
    · cases hk
  constructor
  · intro hvalue
    obtain ⟨k, hget⟩ := mem_valuesOf hvalue
    obtain ⟨hmem, hk, hmax⟩ := h.mutations.best k entry hget
    exact ⟨hmem, hkeyOf hk, fun other hother hsame => hmax other hother (hsame.trans hk)⟩
  rintro ⟨hmem, hmutation, hmax⟩
  have hk : mutationKeyOf env.text entry = some (mutationKey entry.event) := if_pos hmutation
  obtain ⟨top, hget⟩ := isSome_iff_exists.mp (h.mutations.isSome _ entry hmem hk)
  obtain ⟨htop, hktop, hbest⟩ := h.mutations.best _ top hget
  have hsame : top = entry := h.key_injective htop hmem
    (le_antisymm (hmax top htop (hktop.trans hk.symm)) (hbest entry hmem hk))
  rw [← hsame]
  refine mem_filterMap.mpr ⟨_, ?_, hget⟩
  rw [Finset.mem_sort, FMap.mem_keys_iff]
  exact ⟨top, hget⟩

theorem sort_values (original : GroupHistoryEvent) :
    sortEntries ((valuesOf w.index.messageMutations).filter (concerns original)) =
      candidates env.text original w.index.ordered := by
  have hmem : ∀ e, e ∈ sortEntries ((valuesOf w.index.messageMutations).filter
      (concerns original)) ↔ e ∈ candidates env.text original w.index.ordered := by
    intro e
    unfold sortEntries candidates
    rw [mem_insertionSort, mem_filter, mem_filter, h.mem_values, Bool.and_eq_true,
      decide_eq_true_eq]
    tauto
  refine Sorted.eq_of_sorted ?_ (h.sorted.filter _) hmem
  -- different keys of the map hold different entries, so the sorted list has no two alike
  have hnodup : (valuesOf w.index.messageMutations).Nodup := by
    unfold valuesOf
    rw [List.Nodup, pairwise_filterMap]
    refine (Finset.sort_nodup _ _).imp fun hne a ha b hb hsame => hne ?_
    subst hsame
    obtain ⟨-, hka, -⟩ := h.mutations.best _ a ha
    obtain ⟨-, hkb, -⟩ := h.mutations.best _ a hb
    exact some.inj (hka.symm.trans hkb)
  have hsorted : (sortEntries ((valuesOf w.index.messageMutations).filter
      (concerns original))).Pairwise fun a b => a.key ≤ b.key :=
    pairwise_insertionSort _ _
  have hnodup' : (sortEntries ((valuesOf w.index.messageMutations).filter
      (concerns original))).Nodup := by
    unfold sortEntries
    rw [(perm_insertionSort _ _).nodup_iff]
    exact hnodup.filter _
  refine (hsorted.and hnodup').imp_of_mem fun {a b} ha hb hab => lt_of_le_of_ne hab.1 fun hkey => ?_
  have hin : ∀ {e}, e ∈ candidates env.text original w.index.ordered → e ∈ w.index.ordered :=
    fun he => (mem_filter.mp he).1
  exact hab.2 (h.key_injective (hin ((hmem a).mp ha)) (hin ((hmem b).mp hb)) hkey)

theorem readEntry {entry : Entry} (hmem : entry ∈ w.index.ordered) :
    w.readEntry env entry = .ok entry.event := by
  obtain ⟨offset, hoffset, -, hdecode⟩ := h.frames entry hmem
  unfold Worker.readEntry
  rw [hoffset]
  exact hdecode

/-- **The answer of the query**: the first candidates, up to 128 and a page of bytes. -/
theorem messageMutations_eq (hhealthy : w.poisoned = false) (original : GroupHistoryEvent) :
    w.messageMutations env original =
      .ok (.events (pageOf 128 (candidates env.text original w.index.ordered) 0 0)) := by
  have hread : ∀ e ∈ candidates env.text original w.index.ordered,
      w.readEntry env e = .ok e.event :=
    fun e he => h.readEntry (mem_filter.mp he).1
  have hselect : w.index.select env.text (.messageMutations original.eventId
      original.authorAccountId original.authorDeviceId original.signingPublicKeyBase64) =
        .ok (.entries (candidates env.text original w.index.ordered) 128) := by
    rw [← h.sort_values]
    rfl
  unfold Worker.messageMutations Worker.execute
  rw [hhealthy, hselect]
  dsimp only
  rw [Worker.answer, read_eq hread]
  rfl

theorem mem_page {original : GroupHistoryEvent} {entry : Entry} (hmem : entry ∈ w.index.ordered) :
    entry.event ∈ pageOf 128 (candidates env.text original w.index.ordered) 0 0 ↔
      Fits env.text original w.index.ordered entry := by
  have hsorted : Sorted.SortedBy Entry.key (candidates env.text original w.index.ordered) :=
    h.sorted.filter _
  unfold Fits upTo
  rw [mem_pageOf (Nat.zero_le _)]
  constructor
  · rintro ⟨before, e, after, hsplit, hevent, hlt, hbytes⟩
    have he : e ∈ w.index.ordered := by
      have hcandidate : e ∈ candidates env.text original w.index.ordered := by
        rw [hsplit]
        exact mem_append_right _ mem_cons_self
      exact (mem_filter.mp hcandidate).1
    obtain rfl : e = entry := h.key_injective he hmem (congrArg compareKey hevent)
    rw [hsplit] at hsorted ⊢
    rw [filter_upTo hsorted, length_append, length_singleton, map_append,
      sum_append, map_singleton, sum_singleton]
    exact ⟨mem_append_right _ mem_cons_self, by omega, by omega⟩
  · rintro ⟨hcandidate, hlength, hbytes⟩
    obtain ⟨before, after, hsplit⟩ := append_of_mem hcandidate
    rw [hsplit] at hsorted hlength hbytes
    rw [filter_upTo hsorted, length_append, length_singleton] at hlength
    rw [filter_upTo hsorted, map_append, sum_append, map_singleton,
      sum_singleton] at hbytes
    exact ⟨before, entry, after, hsplit, rfl, by omega, by omega⟩

end Serves

/-! ### When the two agree -/

/-- **Nothing that shapes the message is lost.** The newest event that may edit it and the newest
that may delete it are read; and a newest reaction that is not read shows what the newest one shows
that is. -/
structure Covered (text : TextFunctions) (original : GroupHistoryEvent) (entries : List Entry) :
    Prop where
  edit : ∀ entry ∈ entries, Indexes.Newest (Edits text original) compareKey
    (entries.map Entry.event) entry.event → Fits text original entries entry
  deletion : ∀ entry ∈ entries, Indexes.Newest (Deletes text original) compareKey
    (entries.map Entry.event) entry.event → Fits text original entries entry
  reactions : ∀ entry ∈ entries, ∀ key, Indexes.Newest
      (fun e => reactionKeyOf text original e = some key) compareKey (entries.map Entry.event)
        entry.event →
    Fits text original entries entry ∨
      ∀ pair, shownBy entry.event = some pair ↔
        Shows text original ((entries.filter (Fits text original entries)).map Entry.event) key pair

theorem mem_held {event : GroupHistoryEvent} :
    event ∈ w.held ↔ ∃ entry ∈ w.index.ordered, entry.event = event :=
  mem_map

section

variable {p : GroupHistoryEvent → Prop}

theorem newest_congr {l l' : List GroupHistoryEvent} (hmem : ∀ e, e ∈ l ↔ e ∈ l')
    {event : GroupHistoryEvent} :
    Indexes.Newest p compareKey l event ↔ Indexes.Newest p compareKey l' event := by
  unfold Indexes.Newest
  simp only [hmem]

theorem exists_newest {l : List GroupHistoryEvent} {event : GroupHistoryEvent} (hmem : event ∈ l)
    (hp : p event) : ∃ newest, Indexes.Newest p compareKey l newest := by
  classical
  obtain ⟨newest, hnewest, hmax⟩ := Finset.exists_max_image (l.toFinset.filter p) compareKey
    ⟨event, Finset.mem_filter.mpr ⟨mem_toFinset.mpr hmem, hp⟩⟩
  rw [Finset.mem_filter, List.mem_toFinset] at hnewest
  refine ⟨newest, hnewest.1, hnewest.2, fun b hb hpb => hmax b ?_⟩
  exact Finset.mem_filter.mpr ⟨mem_toFinset.mpr hb, hpb⟩

end

theorem newest_mem_page_iff {original : GroupHistoryEvent} {page : List GroupHistoryEvent}
    (hpage : ∀ entry ∈ w.index.ordered,
      entry.event ∈ page ↔ Fits env.text original w.index.ordered entry)
    (p : GroupHistoryEvent → Prop) :
    (∀ event, Indexes.Newest p compareKey w.held event → event ∈ page) ↔
      ∀ entry ∈ w.index.ordered, Indexes.Newest p compareKey w.held entry.event →
        Fits env.text original w.index.ordered entry := by
  constructor
  · intro hall entry hentry hnewest
    exact (hpage entry hentry).mp (hall entry.event hnewest)
  · intro hall event hnewest
    obtain ⟨entry, hentry, rfl⟩ := mem_held.mp hnewest.1
    exact (hpage entry hentry).mpr (hall entry hentry hnewest)

namespace Serves

variable (h : Serves env w) {original : GroupHistoryEvent} {page : List GroupHistoryEvent}

include h

theorem separated : Separated w.held := by
  intro a ha b hb hkey
  obtain ⟨e, he, rfl⟩ := mem_held.mp ha
  obtain ⟨e', he', rfl⟩ := mem_held.mp hb
  rw [h.key_injective he he' hkey]

/-- The newest reactions of the page show what those of the journal show if and only if each one
that is not read shows what the newest one shows that is. -/
theorem shows_page_iff (hsub : page ⊆ w.held)
    (hpage : ∀ entry ∈ w.index.ordered,
      entry.event ∈ page ↔ Fits env.text original w.index.ordered entry) :
    (∀ key pair, Shows env.text original w.held key pair ↔ Shows env.text original page key pair) ↔
      ∀ entry ∈ w.index.ordered, ∀ key, Indexes.Newest
          (fun e => reactionKeyOf env.text original e = some key) compareKey w.held entry.event →
        Fits env.text original w.index.ordered entry ∨
          ∀ pair, shownBy entry.event = some pair ↔ Shows env.text original page key pair := by
  -- the newest reaction of the journal is the only one
  have hshown : ∀ {entry : Entry} {key : DartString}, Indexes.Newest
      (fun e => reactionKeyOf env.text original e = some key) compareKey w.held entry.event →
        ∀ pair, Shows env.text original w.held key pair ↔ shownBy entry.event = some pair := by
    intro entry key hnewest pair
    constructor
    · rintro ⟨event, hother, hpair⟩
      have hsame : event = entry.event := h.separated event hother.1 entry.event hnewest.1
        (le_antisymm (hnewest.2.2 event hother.1 hother.2.1)
          (hother.2.2 entry.event hnewest.1 hnewest.2.1))
      rw [← hsame]
      exact hpair
    · intro hpair
      exact ⟨entry.event, hnewest, hpair⟩
  constructor
  · intro hall entry hentry key hnewest
    refine .inr fun pair => ?_
    rw [← hshown hnewest, hall]
  intro hall key pair
  by_cases hsome : ∃ event, Indexes.Newest
    (fun e => reactionKeyOf env.text original e = some key) compareKey w.held event
  · obtain ⟨event, hnewest⟩ := hsome
    obtain ⟨entry, hentry, rfl⟩ := mem_held.mp hnewest.1
    rw [hshown hnewest]
    rcases hall entry hentry key hnewest with hfits | hsame
    · -- it is read, and then it is the newest of the page too
      have hin := (hpage entry hentry).mpr hfits
      constructor
      · intro hpair
        refine ⟨entry.event, ⟨hin, hnewest.2.1, ?_⟩, hpair⟩
        exact fun b hb => hnewest.2.2 b (hsub hb)
      rintro ⟨event, hother, hpair⟩
      have heq : event = entry.event := h.separated event (hsub hother.1) entry.event hnewest.1
        (le_antisymm (hnewest.2.2 event (hsub hother.1) hother.2.1)
          (hother.2.2 entry.event hin hnewest.2.1))
      rw [← heq]
      exact hpair
    · exact hsame pair
  · -- no reaction under this key, neither in the journal nor on the page
    refine iff_of_false ?_ ?_
    · rintro ⟨event, hnewest, -⟩
      exact hsome ⟨event, hnewest⟩
    · rintro ⟨event, hnewest, -⟩
      exact hsome (exists_newest (hsub hnewest.1) hnewest.2.1)

end Serves

/-- **When the index agrees with the full history.** In every journal that is reached, the query
for a message returns events, and they reduce it as all events of the journal do if and only if
nothing that shapes it is lost. -/
theorem mutation_index_agrees_iff (env : Env) (w : Worker) (hreached : Reached env w)
    (hhealthy : w.poisoned = false) (original : GroupHistoryEvent)
    (hkind : original.kind = .message) :
    ∃ page, w.messageMutations env original = .ok (.events page) ∧
      (reduce env.text original page = reduce env.text original w.held ↔
        ((original.stringAt "body").isSome → Covered env.text original w.index.ordered)) := by
  have h := hreached.serves
  refine ⟨_, h.messageMutations_eq hhealthy original, ?_⟩
  have hpage : ∀ entry ∈ w.index.ordered,
      entry.event ∈ pageOf 128 (candidates env.text original w.index.ordered) 0 0 ↔
        Fits env.text original w.index.ordered entry := fun entry hentry => h.mem_page hentry
  have hsub : pageOf 128 (candidates env.text original w.index.ordered) 0 0 ⊆ w.held := by
    intro event hevent
    obtain ⟨before, entry, after, hsplit, rfl, -⟩ := (mem_pageOf (Nat.zero_le _)).mp hevent
    refine mem_held.mpr ⟨entry, ?_, rfl⟩
    have hcandidate : entry ∈ candidates env.text original w.index.ordered := by
      rw [hsplit]
      exact mem_append_right _ mem_cons_self
    exact (mem_filter.mp hcandidate).1
  generalize pageOf 128 (candidates env.text original w.index.ordered) 0 0 = page at hpage hsub
  cases hbody : (original.stringAt "body").isSome with
  | false =>
    -- without a body there is nothing to show
    rw [isSome_eq_false_iff, isNone_iff_eq_none] at hbody
    refine iff_of_true ?_ (fun hcontra => absurd hcontra Bool.false_ne_true)
    unfold reduce
    rw [hbody]
  | true =>
  rw [reduce_eq_iff hkind hbody hsub h.separated, newest_mem_page_iff hpage,
    newest_mem_page_iff hpage, h.shows_page_iff hsub hpage]
  -- the page has the events of the entries that fit
  have hread : ∀ key pair, Shows env.text original page key pair ↔
      Shows env.text original ((w.index.ordered.filter
        (Fits env.text original w.index.ordered)).map Entry.event) key pair := by
    intro key pair
    refine exists_congr fun event => and_congr_left' (newest_congr fun e => ?_)
    rw [List.mem_map]
    constructor
    · intro he
      obtain ⟨entry, hentry, rfl⟩ := mem_held.mp (hsub he)
      exact ⟨entry, mem_filter.mpr ⟨hentry, decide_eq_true ((hpage entry hentry).mp he)⟩, rfl⟩
    · rintro ⟨entry, hentry, rfl⟩
      obtain ⟨hmem, hfits⟩ := mem_filter.mp hentry
      exact (hpage entry hmem).mpr (of_decide_eq_true hfits)
  simp only [hread, true_imp_iff]
  constructor
  · rintro ⟨hedit, hdeletion, hreactions⟩
    exact ⟨hedit, hdeletion, hreactions⟩
  · intro hcovered
    exact ⟨hcovered.edit, hcovered.deletion, hcovered.reactions⟩

namespace Sample

open Group.Sample

def greeting : GroupHistoryEvent :=
  { event byOwner 2 2 (digest 0) isDigest_zero with
    kind := .message
    payload := [(DartString.ofString "body", .str (DartString.ofString "hi"))]
    payload_frozen := by rfl }

def editPayload (body : String) : List (DartString × Json) :=
  [(DartString.ofString "body", .str (DartString.ofString body)),
    (DartString.ofString "changedAt", .str (DartString.ofString "2026-01-01T00:00:00.000Z")),
    (DartString.ofString "targetEventId", .str (digest 2))]

def edits : GroupHistoryEvent :=
  { event byOwner 4 4 (digest 0) isDigest_zero with
    kind := .edit
    payload := editPayload "ho"
    payload_frozen := by rfl }

def backdated : GroupHistoryEvent :=
  { event byOwner 0 0 (digest 0) isDigest_zero with
    kind := .edit
    payload := editPayload "no"
    payload_frozen := by rfl
    lamport := 9
    sequence_le_lamport := by decide
    lamport_le := by decide }

def editing : Env where
  groupId := groupId
  crypto := crypto
  aead := aead
  codec := codec [greeting, edits, backdated]
  text := ⟨fun _ => [], fun _ => true⟩

def edited : Worker :=
  ((Worker.fresh.append editing greeting nonce .written).1.append editing edits nonce .written).1

def shadowed : Worker := (edited.append editing backdated nonce .written).1

theorem reached_edited : Reached editing edited :=
  .appended _ _ _ (.appended _ _ _ (.opened (openJournal_nil editing)))

example : edited.held = [greeting, edits] := by decide +kernel

theorem mutation_index_agrees_edited :
    Reached editing edited ∧ edited.poisoned = false ∧ greeting ∈ edited.held ∧
      ∃ page, edited.messageMutations editing greeting = .ok (.events page) ∧
        reduce editing.text greeting page = reduce editing.text greeting edited.held := by
  have hhealthy : edited.poisoned = false := by decide
  have hheld : greeting ∈ edited.held := by decide
  obtain ⟨page, hpage, hiff⟩ :=
    mutation_index_agrees_iff editing edited reached_edited hhealthy greeting (by decide)
  refine ⟨reached_edited, hhealthy, hheld, page, hpage, hiff.mpr fun _ => ⟨?_, ?_, ?_⟩⟩
  · have hfits : ∀ entry ∈ edited.index.ordered, Edits editing.text greeting entry.event →
        Fits editing.text greeting edited.index.ordered entry := by decide +kernel
    exact fun entry hentry hnewest => hfits entry hentry hnewest.2.1
  · have hnone : ∀ entry ∈ edited.index.ordered,
        ¬ Deletes editing.text greeting entry.event := by decide
    exact fun entry hentry hnewest => absurd hnewest.2.1 (hnone entry hentry)
  have hnone : ∀ entry ∈ edited.index.ordered,
      reactionKeyOf editing.text greeting entry.event = none := by decide
  intro entry hentry key hnewest
  have hkey : reactionKeyOf editing.text greeting entry.event = some key := hnewest.2.1
  rw [hnone entry hentry] at hkey
  cases hkey

/-- **An edit is shadowed.** The index keeps the later edit of the two, which the reducer skips as
it is from before the message; so the message is shown without the edit that changes it. -/
theorem edit_shadowed :
    Reached editing shadowed ∧ shadowed.poisoned = false ∧ greeting ∈ shadowed.held ∧
      shadowed.messageMutations editing greeting = .ok (.events [backdated]) ∧
      reduce editing.text greeting [backdated] ≠ reduce editing.text greeting shadowed.held := by
  have hbodies : (reduce editing.text greeting [backdated]).map GroupMessageProjection.body =
        some (DartString.ofString "hi") ∧
      (reduce editing.text greeting shadowed.held).map GroupMessageProjection.body =
        some (DartString.ofString "ho") := by decide
  refine ⟨.appended _ _ _ reached_edited, by decide, by decide,
    by decide +kernel, fun hsame => ?_⟩
  have hbody := hbodies.1
  rw [hsame, hbodies.2] at hbody
  exact absurd hbody (by decide)

end Sample

end Journal
end Conest
