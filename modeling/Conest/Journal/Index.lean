import Conest.Lib.Indexes
import Conest.Lib.Sorted
import Conest.Group.Event

/-!
# The indexes of the journal

The worker of a group's journal keeps, beside the file, the entries by event, by author and
sequence, the last entry of each author, the source messages, the latest mutation of each kind, the
search terms and all entries in their order. `checkChain` refuses an event that conflicts with one
of them, and `indexEvent` brings them up to date with one more event.

`Describes` says what the indexes hold when the journal holds given entries, each index as a
function of the set of entries: it determines them (`Describes.unique`). `checkChain` refuses
nothing but a conflict with one of the entries (`checkChain_ok_iff`), and adding an entry that has
none keeps the description (`Describes.indexEvent`).
-/

namespace Conest
namespace Journal

open Lib Conest.Group Option

/-- What the index takes from the text library: the words of a text, lower-cased, and whether a
text is a date. -/
structure TextFunctions where
  tokens : DartString → List DartString
  parsesAsDateTime : DartString → Bool

/-- An event in the journal with the size of its frame. -/
structure Entry where
  event : GroupHistoryEvent
  size : ℕ
deriving DecidableEq

namespace Entry

variable (entry : Entry)

def id : DartString := entry.event.eventId

def author : DartString := entry.event.authorDeviceId

def sequence : ℕ := entry.event.sequence

def previousId : Option DartString := entry.event.previousEventId

def lamport : ℕ := entry.event.lamport

def kind : GroupEventKind := entry.event.kind

/-- What `compareTo` compares, in its order. -/
def key : ℕ ×ₗ DartString ×ₗ ℕ ×ₗ DartString :=
  toLex (entry.lamport, toLex (entry.author, toLex (entry.sequence, entry.id)))

variable {entry}

theorem id_eq_of_key_eq {a b : Entry} (h : a.key = b.key) : a.id = b.id := by
  unfold key at h
  simp only [EmbeddingLike.apply_eq_iff_eq, Prod.mk.injEq] at h
  exact h.2.2.2

end Entry

/-! ### What an event says -/

/-- The identity of a message at its source. -/
def sourceOf (event : GroupHistoryEvent) : Option DartString :=
  if event.kind = .message then event.stringAt "messageId" else none

/-- Whether an edit, a deletion or a reaction has the shape of one. -/
def isMutation (text : TextFunctions) (event : GroupHistoryEvent) : Bool :=
  let editing := decide (event.kind = .edit)
  let reacting := decide (event.kind = .reaction)
  if !editing && !reacting && decide (event.kind ≠ .deletion) then false
  else if event.payload.length ≠ (if editing then 3 else if reacting then 4 else 2) then false
  else
    match event.stringAt "targetEventId", event.stringAt "changedAt" with
    | some target, some changedAt =>
      if !target.isDigest || decide (changedAt.length > 40) ||
          decide (changedAt.getLast? ≠ some 90) || !text.parsesAsDateTime changedAt then false
      else if reacting then
        match event.stringAt "emoji", event.payloadAt (DartString.ofString "active") with
        | some emoji, some (.bool _) => !emoji.isEmpty && decide (emoji.length ≤ 32)
        | _, _ => false
      else if !editing then true
      else
        match event.stringAt "body" with
        | some body => !body.trim.isEmpty
        | none => false
    | _, _ => false

/-- The key of a mutation: its target, its author, its kind and for a reaction the emoji. -/
def mutationKey (event : GroupHistoryEvent) : List DartString :=
  [(event.stringAt "targetEventId").getD [], event.authorAccountId, event.authorDeviceId,
    event.signingPublicKeyBase64, event.kind.name] ++
    if event.kind = .reaction then [(event.stringAt "emoji").getD []] else []

/-- The event that a search hit on this one leads to. An edit's target is cast to `String?`, which
throws on anything else. -/
def searchTarget (event : GroupHistoryEvent) : Except String (Option DartString) :=
  match event.kind with
  | .message | .attachment => .ok (some event.eventId)
  | .edit =>
    match event.payloadAt (DartString.ofString "targetEventId") with
    | none | some .null => .ok none
    | some (.str target) => .ok (some target)
    | some _ => .error "the target is not a subtype of type 'String?' in type cast"
  | _ => .ok none

/-- The words of a text, each once and in order. -/
def searchTerms (text : TextFunctions) (value : DartString) : List DartString :=
  (text.tokens value).dedup.insertionSort (· ≤ ·)

/-- The text of an event that is searched. -/
def searchText (event : GroupHistoryEvent) : DartString :=
  List.intercalate (DartString.ofString " ")
    (["body", "text", "fileName", "mimeType", "senderDisplayName"].filterMap event.stringAt)

/-! ### The indexes -/

/-- The rebuildable indexes of the worker. -/
structure Index where
  entries : FMap DartString Entry
  authors : FMap DartString (FMap ℕ Entry)
  authorHeads : FMap DartString Entry
  sourceMessages : FMap (DartString × DartString) Entry
  messageMutations : FMap (List DartString) Entry
  searchIndex : FMap DartString (Finset DartString)
  ordered : List Entry

/-- The key of a source message: its author and its identity there. -/
def sourceKey (entry : Entry) : Option (DartString × DartString) :=
  (sourceOf entry.event).map fun source => (entry.author, source)

/-- The key under which an entry competes as a mutation. -/
def mutationKeyOf (text : TextFunctions) (entry : Entry) : Option (List DartString) :=
  if isMutation text entry.event then some (mutationKey entry.event) else none

namespace Index

variable {e a b : Entry} {target : Option DartString}

def empty : Index where
  entries := FMap.empty
  authors := FMap.empty
  authorHeads := FMap.empty
  sourceMessages := FMap.empty
  messageMutations := FMap.empty
  searchIndex := FMap.empty
  ordered := []

/-- The entry of an author at a sequence. -/
def authorEntry (index : Index) (author : DartString) (sequence : ℕ) : Option Entry :=
  (index.authors.get author).bind fun sequences => sequences.get sequence

/-- Refuse an event that conflicts with an entry. The second text goes on with the author and the
sequence. -/
def checkChain (index : Index) (event : GroupHistoryEvent) : Except String Unit :=
  let sourceTaken := (sourceOf event).any fun source =>
    (index.sourceMessages.get (event.authorDeviceId, source)).any fun existing =>
      decide (existing.id ≠ event.eventId)
  if sourceTaken then .error "Conflicting group source message identity."
  else
    let existing := index.authorEntry event.authorDeviceId event.sequence
    let previous := index.authorEntry event.authorDeviceId (event.sequence - 1)
    let next := index.authorEntry event.authorDeviceId (event.sequence + 1)
    if (existing.any fun e => decide (e.id ≠ event.eventId)) ||
        (previous.any fun e =>
          decide (some e.id ≠ event.previousEventId ∨ e.lamport ≥ event.lamport)) ||
        (next.any fun e =>
          decide (e.previousId ≠ some event.eventId ∨ e.lamport ≤ event.lamport)) then
      .error "Conflicting group author history."
    else .ok ()

/-- The indexes that are maps of entries, with one more entry. -/
def indexMaps (text : TextFunctions) (index : Index) (entry : Entry) : Index :=
  { index with
    entries := index.entries.insert entry.id entry
    authors := Indexes.addNested Entry.author Entry.sequence entry index.authors
    authorHeads :=
      if ((index.authorHeads.get entry.author).map Entry.sequence).getD 0 < entry.sequence then
        index.authorHeads.insert entry.author entry
      else index.authorHeads
    sourceMessages := Indexes.addKeyed sourceKey entry index.sourceMessages
    messageMutations :=
      Indexes.addBest (mutationKeyOf text) Entry.key entry index.messageMutations }

/-- Add a target to the hits of each term. -/
def addTerms (target : DartString) (searchIndex : FMap DartString (Finset DartString))
    (terms : List DartString) : FMap DartString (Finset DartString) :=
  terms.foldl (fun hits term => Indexes.addValue hits (term, target)) searchIndex

/-- Add the terms of an event to the hits for its target, if it has one. -/
def indexSearchTerms (text : TextFunctions) (event : GroupHistoryEvent)
    (target : Option DartString) (searchIndex : FMap DartString (Finset DartString)) :
    FMap DartString (Finset DartString) :=
  match target with
  | some target => addTerms target searchIndex (searchTerms text (searchText event))
  | none => searchIndex

/-- Bring the indexes up to date with an event, whose frame has the given size. A cast that throws
leaves the maps changed and the order not. -/
def indexEvent (text : TextFunctions) (index : Index) (event : GroupHistoryEvent) (size : ℕ) :
    Index × Except String Unit :=
  if index.entries.contains event.eventId then (index, .ok ())
  else
    let entry : Entry := ⟨event, size⟩
    let maps := index.indexMaps text entry
    match searchTarget event with
    | .error e => (maps, .error e)
    | .ok target =>
      ({ maps with
          searchIndex := indexSearchTerms text event target maps.searchIndex
          ordered := Sorted.insertSorted Entry.key entry maps.ordered }, .ok ())

/-! ### What the indexes hold -/

/-- The search hits that an entry gives: its terms, each with its target. -/
def searchPairs (text : TextFunctions) (entry : Entry) : List (DartString × DartString) :=
  match searchTarget entry.event with
  | .ok (some target) =>
    (searchTerms text (searchText entry.event)).map fun term => (term, target)
  | _ => []

/-- **The indexes of a journal that holds the entries `l`.** -/
structure Describes (text : TextFunctions) (index : Index) (l : List Entry) : Prop where
  entries : Indexes.Keyed (fun e : Entry => some e.id) l index.entries
  authors : Indexes.Nested Entry.author Entry.sequence l index.authors
  authorHeads : Indexes.Best (fun e : Entry => some e.author) Entry.sequence l index.authorHeads
  sourceMessages : Indexes.Keyed sourceKey l index.sourceMessages
  messageMutations : Indexes.Best (mutationKeyOf text) Entry.key l index.messageMutations
  searchIndex : Indexes.Grouped (searchPairs text) l index.searchIndex
  ordered_sorted : Sorted.SortedBy Entry.key index.ordered
  ordered_mem : ∀ e, e ∈ index.ordered ↔ e ∈ l

variable {text : TextFunctions} {index index' : Index} {l l' : List Entry}

theorem Describes.initial (text : TextFunctions) : Describes text empty [] where
  entries := Indexes.Keyed.empty
  authors := Indexes.Nested.empty
  authorHeads := Indexes.Best.empty
  sourceMessages := Indexes.Keyed.empty
  messageMutations := Indexes.Best.empty
  searchIndex := Indexes.Grouped.empty
  ordered_sorted := List.Pairwise.nil
  ordered_mem _ := Iff.rfl

section

variable (hd : Describes text index l)

include hd

theorem Describes.get_iff {id : DartString} :
    index.entries.get id = some e ↔ e ∈ l ∧ e.id = id := by
  rw [hd.entries.get_iff, some.injEq]

theorem Describes.eq_of_id (ha : a ∈ l) (hb : b ∈ l) (hid : a.id = b.id) : a = b := by
  have hgeta := hd.get_iff.mpr ⟨ha, rfl⟩
  have hgetb := hd.get_iff.mpr ⟨hb, rfl⟩
  rw [hid, hgetb] at hgeta
  exact (some.inj hgeta).symm

theorem Describes.authorEntry_iff {author : DartString} {n : ℕ} :
    index.authorEntry author n = some e ↔ e ∈ l ∧ e.author = author ∧ e.sequence = n :=
  hd.authors.get_iff author n e

theorem Describes.unique (hd' : Describes text index' l') (hmem : ∀ e, e ∈ l ↔ e ∈ l') :
    index = index' := by
  have hheads : index.authorHeads = index'.authorHeads := by
    refine hd.authorHeads.unique hd'.authorHeads hmem ?_
    intro a ha b hb hauthor hsequence
    rw [some.injEq] at hauthor
    have hgeta := hd.authorEntry_iff.mpr ⟨ha, hauthor, hsequence⟩
    have hgetb := hd.authorEntry_iff.mpr ⟨hb, rfl, rfl⟩
    exact some.inj (hgeta.symm.trans hgetb)
  have hmutations : index.messageMutations = index'.messageMutations := by
    refine hd.messageMutations.unique hd'.messageMutations hmem ?_
    intro a ha b hb _ hkey
    exact hd.eq_of_id ha hb (Entry.id_eq_of_key_eq hkey)
  have hordered : index.ordered = index'.ordered := by
    refine Sorted.eq_of_sorted hd.ordered_sorted hd'.ordered_sorted fun e => ?_
    rw [hd.ordered_mem, hd'.ordered_mem, hmem]
  cases index
  cases index'
  simp only [Index.mk.injEq]
  exact ⟨hd.entries.unique hd'.entries hmem, hd.authors.unique hd'.authors hmem, hheads,
    hd.sourceMessages.unique hd'.sourceMessages hmem, hmutations,
    hd.searchIndex.unique hd'.searchIndex hmem, hordered⟩

end

/-! ### Conflicts -/

/-- Two events of one author do not conflict: not under one source identity, not at one sequence,
and next to each other only as a chain. -/
structure Chained (a b : GroupHistoryEvent) : Prop where
  source : a.authorDeviceId = b.authorDeviceId → ∀ source, sourceOf a = some source →
    sourceOf b = some source → a.eventId = b.eventId
  place : a.authorDeviceId = b.authorDeviceId → a.sequence = b.sequence → a.eventId = b.eventId
  follows : a.authorDeviceId = b.authorDeviceId → a.sequence + 1 = b.sequence →
    b.previousEventId = some a.eventId ∧ a.lamport < b.lamport
  precedes : a.authorDeviceId = b.authorDeviceId → b.sequence + 1 = a.sequence →
    a.previousEventId = some b.eventId ∧ b.lamport < a.lamport

theorem Chained.symm {a b : GroupHistoryEvent} (h : Chained a b) : Chained b a where
  source hauthor source hb ha := (h.source hauthor.symm source ha hb).symm
  place hauthor hsequence := (h.place hauthor.symm hsequence.symm).symm
  follows hauthor hnext := h.precedes hauthor.symm hnext
  precedes hauthor hnext := h.follows hauthor.symm hnext

/-- The two entries are of different events that do not conflict. -/
def Compatible (a b : Entry) : Prop := a.id ≠ b.id ∧ Chained a.event b.event

theorem Compatible.symm (h : Compatible a b) : Compatible b a :=
  ⟨h.1.symm, h.2.symm⟩

theorem checkChain_eq_ok_iff {event : GroupHistoryEvent} :
    index.checkChain event = .ok () ↔
      (∀ source e, sourceOf event = some source →
        index.sourceMessages.get (event.authorDeviceId, source) = some e → e.id = event.eventId) ∧
      (∀ e, index.authorEntry event.authorDeviceId event.sequence = some e →
        e.id = event.eventId) ∧
      (∀ e, index.authorEntry event.authorDeviceId (event.sequence - 1) = some e →
        event.previousEventId = some e.id ∧ e.lamport < event.lamport) ∧
      ∀ e, index.authorEntry event.authorDeviceId (event.sequence + 1) = some e →
        e.previousId = some event.eventId ∧ event.lamport < e.lamport := by
  have hsource : ((sourceOf event).any fun source =>
      (index.sourceMessages.get (event.authorDeviceId, source)).any fun existing =>
        decide (existing.id ≠ event.eventId)) = false ↔
      ∀ source e, sourceOf event = some source →
        index.sourceMessages.get (event.authorDeviceId, source) = some e →
          e.id = event.eventId := by
    cases sourceOf event with
    | none => simp
    | some source =>
    rw [any_some]
    cases hget : index.sourceMessages.get (event.authorDeviceId, source) with
    | none =>
      refine iff_of_true rfl ?_
      rintro _ e ⟨rfl⟩ hsome
      rw [hget] at hsome
      cases hsome
    | some existing =>
    rw [any_some, decide_eq_false_iff_not, not_not]
    constructor
    · rintro hid _ e ⟨rfl⟩ hsome
      rw [hget, some.injEq] at hsome
      rw [← hsome]
      exact hid
    · intro hall
      exact hall source existing rfl hget
  have hany : ∀ (o : Option Entry) (bad : Entry → Prop) [DecidablePred bad],
      (o.any fun e => decide (bad e)) = false ↔ ∀ e, o = some e → ¬ bad e := by
    intro o bad _
    cases o with
    | none => simp
    | some e => simp
  unfold checkChain
  dsimp only
  split
  · next htaken =>
    rw [← hsource, htaken]
    simp
  next hfree =>
  rw [Bool.not_eq_true] at hfree
  split
  · next hbad =>
    simp only [reduceCtorEq, false_iff]
    rintro ⟨-, hplace, hprevious, hnext⟩
    rw [Bool.or_eq_true, Bool.or_eq_true] at hbad
    rcases hbad with (hbad | hbad) | hbad
    · rw [(hany _ _).mpr fun e he => not_not_intro (hplace e he)] at hbad
      cases hbad
    · rw [(hany _ _).mpr fun e he => ?_] at hbad
      · cases hbad
      · obtain ⟨hid, hlt⟩ := hprevious e he
        rw [not_or, not_not, not_le]
        exact ⟨hid.symm, hlt⟩
    · rw [(hany _ _).mpr fun e he => ?_] at hbad
      · cases hbad
      · obtain ⟨hid, hlt⟩ := hnext e he
        rw [not_or, not_not, not_le]
        exact ⟨hid, hlt⟩
  next hgood =>
  rw [Bool.not_eq_true, Bool.or_eq_false_iff, Bool.or_eq_false_iff, hany, hany, hany] at hgood
  obtain ⟨⟨hplace, hprevious⟩, hnext⟩ := hgood
  refine iff_of_true rfl ⟨hsource.mp hfree, fun e he => not_not.mp (hplace e he), ?_, ?_⟩
  · intro e he
    have hnot := hprevious e he
    rw [not_or, not_not, not_le] at hnot
    exact ⟨hnot.1.symm, hnot.2⟩
  · intro e he
    have hnot := hnext e he
    rw [not_or, not_not, not_le] at hnot
    exact hnot

/-- **`checkChain` refuses exactly the events that conflict with an entry.** -/
theorem Describes.checkChain_ok_iff (hd : Describes text index l) {event : GroupHistoryEvent} :
    index.checkChain event = .ok () ↔ ∀ e ∈ l, Chained e.event event := by
  rw [checkChain_eq_ok_iff]
  constructor
  · rintro ⟨hsource, hplace, hprevious, hnext⟩ e he
    refine ⟨?_, ?_, ?_, ?_⟩
    · intro hauthor source hs hs'
      refine hsource source e hs' ((hd.sourceMessages.get_iff _ e).mpr ⟨he, ?_⟩)
      unfold sourceKey
      rw [hs, ← hauthor]
      rfl
    · intro hauthor hsequence
      exact hplace e (hd.authorEntry_iff.mpr ⟨he, hauthor, hsequence⟩)
    · intro hauthor hsucc
      refine hprevious e (hd.authorEntry_iff.mpr ⟨he, hauthor, ?_⟩)
      rw [← hsucc]
      rfl
    · intro hauthor hsucc
      exact hnext e (hd.authorEntry_iff.mpr ⟨he, hauthor, hsucc.symm⟩)
  · intro hall
    refine ⟨?_, ?_, ?_, ?_⟩
    · intro source e hs hget
      obtain ⟨he, hkey⟩ := (hd.sourceMessages.get_iff _ e).mp hget
      unfold sourceKey at hkey
      obtain ⟨source', hs', hpair⟩ := map_eq_some_iff.mp hkey
      rw [Prod.mk.injEq] at hpair
      obtain ⟨hauthor, rfl⟩ := hpair
      exact (hall e he).source hauthor source' hs' hs
    · intro e hget
      obtain ⟨he, hauthor, hsequence⟩ := hd.authorEntry_iff.mp hget
      exact (hall e he).place hauthor hsequence
    · intro e hget
      obtain ⟨he, hauthor, hsequence⟩ := hd.authorEntry_iff.mp hget
      refine (hall e he).follows hauthor ?_
      -- a sequence starts at one, so the place before the first is never taken
      have hpos := e.event.one_le_sequence
      change e.event.sequence = event.sequence - 1 at hsequence
      omega
    · intro e hget
      obtain ⟨he, hauthor, hsequence⟩ := hd.authorEntry_iff.mp hget
      exact (hall e he).precedes hauthor hsequence.symm

/-! ### One more entry -/

theorem indexMaps_authorHeads (text : TextFunctions) (index : Index) (entry : Entry) :
    (index.indexMaps text entry).authorHeads =
      Indexes.addBest (fun e : Entry => some e.author) Entry.sequence entry index.authorHeads := by
  have hpos : 0 < entry.sequence := entry.event.one_le_sequence
  unfold indexMaps Indexes.addBest
  dsimp only
  cases index.authorHeads.get entry.author with
  | none => simp [hpos]
  | some head => simp

theorem indexSearchTerms_eq {event : GroupHistoryEvent}
    (htarget : searchTarget event = .ok target) (size : ℕ)
    (hits : FMap DartString (Finset DartString)) : indexSearchTerms text event target hits =
      (searchPairs text ⟨event, size⟩).foldl Indexes.addValue hits := by
  unfold indexSearchTerms searchPairs addTerms
  rw [htarget]
  cases target with
  | none => rfl
  | some target =>
    rw [List.foldl_map]

theorem Describes.indexEvent (hd : Describes text index l) {event : GroupHistoryEvent} {size : ℕ}
    (hnew : ∀ e ∈ l, Compatible e ⟨event, size⟩) (htarget : searchTarget event = .ok target) :
    (index.indexEvent text event size).2 = .ok () ∧
      Describes text (index.indexEvent text event size).1 (l ++ [⟨event, size⟩]) := by
  have hfresh : index.entries.contains event.eventId = false := by
    rw [FMap.contains_eq_false, eq_none_iff_forall_ne_some]
    intro e hget
    obtain ⟨he, hid⟩ := hd.get_iff.mp hget
    exact (hnew e he).1 hid
  unfold Index.indexEvent
  rw [hfresh]
  simp only [Bool.false_eq_true, if_false, htarget, true_and]
  refine ⟨?_, ?_, ?_, ?_, ?_, ?_, ?_, ?_⟩
  · refine hd.entries.add fun id hid e he hkey => ?_
    rw [some.injEq] at hid hkey
    exact (hnew e he).1 (hkey.trans hid.symm)
  · refine hd.authors.add fun e he hauthor hsequence => ?_
    exact (hnew e he).1 ((hnew e he).2.place hauthor hsequence)
  · rw [indexMaps_authorHeads]
    exact hd.authorHeads.add ⟨event, size⟩
  · refine hd.sourceMessages.add fun key hkey e he hkey' => ?_
    obtain ⟨source, hs, rfl⟩ := map_eq_some_iff.mp hkey
    obtain ⟨source', hs', hpair⟩ := map_eq_some_iff.mp hkey'
    rw [Prod.mk.injEq] at hpair
    obtain ⟨hauthor, rfl⟩ := hpair
    exact (hnew e he).1 ((hnew e he).2.source hauthor source' hs' hs)
  · exact hd.messageMutations.add ⟨event, size⟩
  · rw [indexSearchTerms_eq htarget]
    exact hd.searchIndex.add ⟨event, size⟩
  · refine hd.ordered_sorted.insertSorted fun e he hkey => ?_
    exact (hnew e ((hd.ordered_mem e).mp he)).1 (Entry.id_eq_of_key_eq hkey)
  · intro e
    rw [Sorted.mem_insertSorted, List.mem_append, List.mem_singleton, or_comm]
    exact or_congr_left (hd.ordered_mem e)

end Index

end Journal
end Conest
