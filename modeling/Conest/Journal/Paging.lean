import Conest.Journal.CatchUp
import Conest.Journal.Filing
import Conest.Lib.Paging
import Conest.Lib.Runs

/-!
# Paging through a journal

Pages are cut by a count and by a budget of bytes, and the next page is asked for with the last event
of the one before as its cursor. A single frame always fits the budget, so a page is empty only where
nothing remains; what remains at a cursor is what the order has behind it. So the pages of events, of
membership events and of ranges are exact (`pages_of_ordered`, `membershipPages_exact`,
`ranges_exact`).

The pages of events read the order, though, while `retained` and the ranges read the maps. An edit
whose target is no text is filed in the maps when its append throws and never gets into the order, so
the pages are exact if and only if the journal is whole (`paging_exact_iff`).
-/

namespace Conest
namespace Journal

open Lib Conest.Group List Option

/-! ### The calls of the journal -/

section Calls

variable (env : Env) (w : Worker)

/-- `readPage`. -/
def Worker.readPage (beforeEventId : Option DartString) (limit : ℤ) :
    Except String (List GroupHistoryEvent) :=
  eventsOfAnswer (w.execute env (.page beforeEventId limit))

/-- `readMembershipPage`. -/
def Worker.readMembershipPage (afterEventId : Option DartString) (limit : ℤ) :
    Except String (List GroupHistoryEvent) :=
  eventsOfAnswer (w.execute env (.memberships afterEventId limit))

/-- `rangesForAuthor`. -/
def Worker.rangesForAuthor (authorDeviceId : DartString) (afterSequence limit : ℤ) :
    Except String (List (ℕ × ℕ)) :=
  match w.execute env (.ranges authorDeviceId afterSequence limit) with
  | .error e => .error e
  | .ok (.ranges ranges) => .ok ranges
  | .ok _ => .error "the answer is not a subtype of type 'List' in type cast"

/-- The journal has the event: the query `retained` finds its identifier. -/
def Worker.Retains (event : GroupHistoryEvent) : Prop :=
  ∃ entry, w.index.entries.get event.eventId = some entry ∧ entry.event = event

/-- **The pages of events**, newest first, each event once and none missing. -/
def PagesExact (limit : ℤ) : Prop :=
  ∃ pages, Paging.Follows (fun before => w.readPage env before limit)
      (fun event => some event.eventId) none pages ∧
    pages.flatten.Pairwise (fun a b => compareKey b < compareKey a) ∧
    ∀ event, event ∈ pages.flatten ↔ w.Retains event

/-- **The pages of membership events**, oldest first. -/
def MembershipPagesExact (limit : ℤ) : Prop :=
  ∃ pages, Paging.Follows (fun after => w.readMembershipPage env after limit)
      (fun event => some event.eventId) none pages ∧
    pages.flatten.Pairwise (fun a b => compareKey a < compareKey b) ∧
    ∀ event, event ∈ pages.flatten ↔ w.Retains event ∧ event.kind = .membership

/-- The sequences at which the journal has an event of the author. -/
def Worker.Sequences (author : DartString) (n : ℕ) : Prop :=
  ∃ event, w.Retains event ∧ event.authorDeviceId = author ∧ event.sequence = n

/-- **The ranges of an author**: the longest intervals of sequences, in order. -/
def RangesExact (author : DartString) (limit : ℤ) : Prop :=
  ∃ pages, Paging.Follows (fun after : ℕ => w.rangesForAuthor env author after limit) Prod.snd 0
      pages ∧
    pages.flatten.Pairwise (fun r s => r.2 < s.1) ∧
    ∀ run, run ∈ pages.flatten ↔ Runs.IsRun (w.Sequences author) run

end Calls

variable {env : Env} {w : Worker} {limit : ℤ}

/-! ### Pages of entries -/

theorem serves_entries {C : Type} {c : C} {next : C → Except String (List GroupHistoryEvent)}
    {entries : List Entry} (hlimit : 1 ≤ limit ∧ limit ≤ 128)
    (hread : ∀ e ∈ entries, w.readEntry env e = .ok e.event)
    (hsize : ∀ e ∈ entries, e.size ≤ pageBytes)
    (hnext : next c = eventsOfAnswer (w.answer env (.entries entries limit))) :
    Paging.Serves next c (entries.map Entry.event) := by
  have hanswer : next c = .ok (pageOf limit.toNat entries 0 0) := by
    rw [hnext, Worker.answer, read_eq hread, withLimit, checkLimit, if_neg (by omega)]
    rfl
  refine ⟨_, hanswer, ?_, fun hne => ?_⟩
  · obtain ⟨k, -, hpage⟩ := pageOf_eq_take limit.toNat entries 0 0
    rw [hpage]
    exact ( take_prefix k entries).map Entry.event
  · cases entries with
    | nil => exact absurd rfl hne
    | cons entry entries => exact pageOf_ne_nil (by omega) (hsize entry mem_cons_self)

section Pages

variable (hreached : Reached env w) (hhealthy : w.poisoned = false)
  (hlimit : 1 ≤ limit ∧ limit ≤ 128)

include hreached hhealthy hlimit

theorem serves_query {query : Query} {entries : List Entry}
    (hselect : w.index.select env.text query = .ok (.entries entries limit))
    (hsub : ∀ e ∈ entries, e ∈ w.index.ordered) {C : Type} {c : C}
    {next : C → Except String (List GroupHistoryEvent)}
    (hnext : next c = eventsOfAnswer (w.execute env query)) :
    Paging.Serves next c (entries.map Entry.event) := by
  obtain ⟨l, hl⟩ := hreached.filed
  refine serves_entries hlimit (fun e he => hreached.serves.readEntry (hsub e he)) ?_ ?_
  · intro e he
    exact hl.size_le e (hl.get_iff.mp (hreached.serves.entries e (hsub e he))).1
  · rw [hnext, Worker.execute, hhealthy, if_neg Bool.false_ne_true, hselect]

theorem pages_of_ordered : ∃ pages,
    Paging.Follows (fun before => w.readPage env before limit) (fun event => some event.eventId)
        none pages ∧
      pages.flatten = w.index.ordered.reverse.map Entry.event := by
  have hsorted : Sorted.SortedBy (fun e : Entry => OrderDual.toDual e.key) w.index.ordered.reverse :=
    pairwise_reverse.mpr hreached.serves.sorted
  refine Paging.exists_follows_sorted hsorted ?_ fun x hx => ?_
  · refine serves_query hreached hhealthy hlimit rfl (fun e he => mem_reverse.mp he) rfl
  have hget : w.index.entries.get x.event.eventId = some x :=
    hreached.serves.entries x (mem_reverse.mp hx)
  have hselect : w.index.select env.text (.page (some x.event.eventId) limit) =
      .ok (.entries (w.index.ordered.reverse.filter fun entry => entry.key < x.key) limit) := by
    rw [Index.select, hget]
  refine serves_query hreached hhealthy hlimit hselect (fun e he => ?_) rfl
  exact mem_reverse.mp (mem_filter.mp he).1

theorem membershipPages_of_ordered : ∃ pages,
    Paging.Follows (fun after => w.readMembershipPage env after limit)
        (fun event => some event.eventId) none pages ∧
      pages.flatten = w.memberships.map Entry.event := by
  have hsorted : Sorted.SortedBy Entry.key w.memberships := hreached.serves.sorted.filter _
  refine Paging.exists_follows_sorted hsorted ?_ fun x hx => ?_
  · exact serves_query hreached hhealthy hlimit rfl (fun e he => (mem_filter.mp he).1) rfl
  have hget : w.index.entries.get x.event.eventId = some x :=
    hreached.serves.entries x (mem_filter.mp hx).1
  have hsame : (w.index.ordered.filter fun entry => entry.kind = .membership ∧ x.key < entry.key) =
      w.memberships.filter fun y => x.key < y.key := by
    unfold Worker.memberships
    rw [List.filter_filter]
    refine filter_congr fun e _ => ?_
    rw [← Bool.decide_and]
    exact decide_eq_decide.mpr and_comm
  have hselect : w.index.select env.text (.memberships (some x.event.eventId) limit) =
      .ok (.entries (w.memberships.filter fun y => x.key < y.key) limit) := by
    rw [Index.select, hget, ← hsame]
  refine serves_query hreached hhealthy hlimit hselect (fun e he => ?_) rfl
  exact (mem_filter.mp (mem_filter.mp he).1).1

theorem membershipPages_exact : MembershipPagesExact env w limit := by
  obtain ⟨pages, hfollows, hflatten⟩ := membershipPages_of_ordered hreached hhealthy hlimit
  refine ⟨pages, hfollows, ?_, fun event => ?_⟩
  · rw [hflatten, pairwise_map]
    exact hreached.serves.sorted.filter _
  rw [hflatten, List.mem_map]
  constructor
  · rintro ⟨entry, hentry, rfl⟩
    obtain ⟨hordered, hkind⟩ := mem_filter.mp hentry
    exact ⟨⟨entry, hreached.serves.entries entry hordered, rfl⟩, of_decide_eq_true hkind⟩
  · rintro ⟨⟨entry, hget, rfl⟩, hkind⟩
    refine ⟨entry, mem_filter.mpr ⟨?_, decide_eq_true hkind⟩, rfl⟩
    refine (hreached.placed.ordered_iff _ _ hget).mpr ⟨none, ?_⟩
    unfold searchTarget
    rw [hkind]

/-- **The pages of events are exact if and only if nothing was left in between.** -/
theorem pages_exact_iff : PagesExact env w limit ↔ Whole w.index := by
  obtain ⟨pages, hfollows, hflatten⟩ := pages_of_ordered hreached hhealthy hlimit
  have hmem : ∀ event, event ∈ pages.flatten ↔ ∃ entry ∈ w.index.ordered, entry.event = event := by
    intro event
    rw [hflatten, List.mem_map]
    simp only [mem_reverse]
  constructor
  · rintro ⟨pages', hfollows', -, hretains⟩ id entry hget
    obtain rfl := hfollows.unique hfollows'
    have hid := hreached.placed.id_eq id entry hget
    have hretained : w.Retains entry.event := ⟨entry, by rw [← hid] at hget; exact hget, rfl⟩
    -- what a page shows is in the order under its identifier
    obtain ⟨entry', hordered, hevent⟩ := (hmem _).mp ((hretains _).mpr hretained)
    have hget' := hreached.serves.entries entry' hordered
    have hid' : entry'.id = id := (congrArg GroupHistoryEvent.eventId hevent).trans hid
    rw [hid', hget, some.injEq] at hget'
    exact hget' ▸ hordered
  · intro hwhole
    refine ⟨pages, hfollows, ?_, fun event => ?_⟩
    · rw [hflatten, pairwise_map]
      exact pairwise_reverse.mpr hreached.serves.sorted
    rw [hmem]
    constructor
    · rintro ⟨entry, hordered, rfl⟩
      exact ⟨entry, hreached.serves.entries entry hordered, rfl⟩
    · rintro ⟨entry, hget, rfl⟩
      exact ⟨entry, hwhole _ entry hget, rfl⟩

end Pages

/-! ### Ranges -/

theorem rangesOf_append (limit : ℕ) (l : List ℕ) (ranges : List (ℕ × ℕ)) (first last : ℕ)
    (hlength : ranges.length + 1 ≤ limit) :
    rangesOf limit l (ranges ++ [(first, last)]) =
      (ranges ++ Runs.runsFrom first last l).take limit := by
  induction l generalizing ranges first last with
  | nil =>
    rw [rangesOf, Runs.runsFrom, take_of_length_le]
    rw [length_append]
    exact hlength
  | cons n l ih =>
  rw [rangesOf, getLast?_concat, Runs.runsFrom]
  dsimp only
  split
  · rw [dropLast_concat]
    exact ih ranges first n hlength
  have hsplit : ranges ++ (first, last) :: Runs.runsFrom n n l =
      (ranges ++ [(first, last)]) ++ Runs.runsFrom n n l := append_cons _ _ _
  have hcount : (ranges ++ [(first, last)]).length = ranges.length + 1 := by
    rw [length_append, length_singleton]
  rw [hsplit]
  split
  next hfull => exact (take_left' hfull).symm
  next hroom => exact ih (ranges ++ [(first, last)]) n n (by omega)

theorem rangesOf_eq {limit : ℕ} (hlimit : limit ≠ 0) (l : List ℕ) :
    rangesOf limit l [] = (Runs.runs l).take limit := by
  cases l with
  | nil => rw [rangesOf, Runs.runs, take_nil]
  | cons n l =>
    rw [rangesOf, getLast?_nil]
    rw [length_nil, if_neg (Ne.symm hlimit)]
    exact rangesOf_append limit l [] n n (by rw [length_nil]; omega)

/-- The sequences of an author in the index, in order. -/
def Index.sequencesOf (index : Index) (author : DartString) : List ℕ :=
  ((index.authors.get author).map fun sequences => sequences.keys.sort (· ≤ ·)).getD []

theorem Index.sequencesOf_sorted (index : Index) (author : DartString) :
    (index.sequencesOf author).Pairwise (· < ·) := by
  unfold Index.sequencesOf
  cases index.authors.get author with
  | none => exact List.Pairwise.nil
  | some sub =>
    have hle := Finset.pairwise_sort sub.keys (· ≤ ·)
    have hnodup := Finset.sort_nodup sub.keys (· ≤ ·)
    exact (hle.and hnodup).imp fun hab => lt_of_le_of_ne hab.1 hab.2

section Ranges

variable (hreached : Reached env w)

include hreached

theorem mem_sequencesOf {author : DartString} {n : ℕ} :
    n ∈ w.index.sequencesOf author ↔ w.Sequences author n := by
  obtain ⟨l, hl⟩ := hreached.filed
  have hin : n ∈ w.index.sequencesOf author ↔ ∃ e ∈ l, e.author = author ∧ e.sequence = n := by
    have hget := hl.authors.get_iff author n
    unfold Index.sequencesOf
    cases hsub : w.index.authors.get author with
    | none =>
      simp only [hsub, bind_none] at hget
      refine iff_of_false not_mem_nil ?_
      rintro ⟨e, he, hplace⟩
      cases (hget e).mpr ⟨he, hplace⟩
    | some sub =>
      simp only [hsub, bind_some] at hget
      rw [map_some, getD_some, Finset.mem_sort, FMap.mem_keys_iff]
      exact exists_congr hget
  rw [hin]
  constructor
  · rintro ⟨e, he, hauthor, hsequence⟩
    exact ⟨e.event, ⟨e, hl.get_iff.mpr ⟨he, rfl⟩, rfl⟩, hauthor, hsequence⟩
  · rintro ⟨event, ⟨e, hget, rfl⟩, hauthor, hsequence⟩
    exact ⟨e, (hl.get_iff.mp hget).1, hauthor, hsequence⟩

theorem sequence_bounds {author : DartString} {n : ℕ} (hn : n ∈ w.index.sequencesOf author) :
    1 ≤ n ∧ n ≤ groupEventMaxCounter := by
  obtain ⟨event, -, -, rfl⟩ := (mem_sequencesOf hreached).mp hn
  exact ⟨event.one_le_sequence, event.sequence_le_lamport.trans event.lamport_le⟩

variable (hhealthy : w.poisoned = false) (hlimit : 1 ≤ limit ∧ limit ≤ 64)

include hhealthy hlimit

omit hreached in
theorem serves_ranges {author : DartString} {after : ℕ} (hafter : after ≤ groupEventMaxCounter) :
    Paging.Serves (fun after : ℕ => w.rangesForAuthor env author after limit) after
      (Runs.runs ((w.index.sequencesOf author).filter fun n => decide (after < n))) := by
  have hsequences : ((w.index.sequencesOf author).filter fun n : ℕ =>
      decide ((after : ℤ) < (n : ℤ))) =
        (w.index.sequencesOf author).filter fun n => decide (after < n) :=
    filter_congr fun n _ => decide_eq_decide.mpr Int.ofNat_lt
  have hanswer : w.rangesForAuthor env author after limit =
      .ok ((Runs.runs ((w.index.sequencesOf author).filter fun n => decide (after < n))).take
        limit.toNat) := by
    rw [← rangesOf_eq (by omega), ← hsequences]
    unfold Worker.rangesForAuthor Worker.execute
    rw [hhealthy, if_neg Bool.false_ne_true, Index.select, withLimit, checkLimit,
      if_neg (by omega)]
    rw [if_neg (by omega)]
    rfl
  refine ⟨_, hanswer, take_prefix _ _, fun hne => ?_⟩
  rw [Ne, take_eq_nil_iff, not_or]
  exact ⟨by omega, hne⟩

theorem ranges_exact (author : DartString) : RangesExact env w author limit := by
  have hsorted := w.index.sequencesOf_sorted author
  have hstart : Paging.Serves (fun after : ℕ => w.rangesForAuthor env author after limit) 0
      ((Runs.runs (w.index.sequencesOf author)).map id) := by
    have hall : ((w.index.sequencesOf author).filter fun n => decide (0 < n)) =
        w.index.sequencesOf author :=
      List.filter_eq_self.mpr fun n hn => decide_eq_true (sequence_bounds hreached hn).1
    have hserves := @serves_ranges env w limit hhealthy hlimit author 0 (Nat.zero_le _)
    rw [hall] at hserves
    rw [List.map_id]
    exact hserves
  have hbehind : ∀ run ∈ Runs.runs (w.index.sequencesOf author),
      Paging.Serves (fun after : ℕ => w.rangesForAuthor env author after limit) run.2
        (((Runs.runs (w.index.sequencesOf author)).filter fun r => decide (run.1 < r.1)).map
          id) := by
    intro run hrun
    -- the end of a run is a sequence, so it is a valid cursor
    have hisRun := (Runs.mem_runs hsorted run).mp hrun
    have hend := (sequence_bounds hreached (hisRun.inside run.2 hisRun.le le_rfl)).2
    have hserves := @serves_ranges env w limit hhealthy hlimit author run.2 hend
    rw [Runs.runs_filter hsorted hrun] at hserves
    rw [List.map_id]
    exact hserves
  obtain ⟨pages, hfollows, hflatten⟩ :=
    Paging.exists_follows_sorted (Runs.runs_sortedBy hsorted) hstart hbehind
  rw [List.map_id] at hflatten
  refine ⟨pages, hfollows, ?_, fun run => ?_⟩
  · rw [hflatten]
    exact Runs.runs_sorted hsorted
  · have hset : (fun n => n ∈ w.index.sequencesOf author) = w.Sequences author :=
      funext fun n => propext (mem_sequencesOf hreached)
    rw [hflatten, Runs.mem_runs hsorted, hset]

end Ranges

/-! ### All three -/

/-- **Paging is exact if and only if the journal is whole**: for a journal that is open and healthy,
and limits in their ranges. -/
theorem paging_exact_iff (env : Env) (w : Worker) (hreached : Reached env w)
    (hhealthy : w.poisoned = false) (limit : ℤ) (hlimit : 1 ≤ limit ∧ limit ≤ 128) :
    (PagesExact env w limit ∧ MembershipPagesExact env w limit ∧
      ∀ author rangesLimit, 1 ≤ rangesLimit ∧ rangesLimit ≤ 64 →
        RangesExact env w author rangesLimit) ↔ Whole w.index := by
  rw [← pages_exact_iff hreached hhealthy hlimit]
  refine ⟨fun h => h.1, fun h => ⟨h, membershipPages_exact hreached hhealthy hlimit, ?_⟩⟩
  exact fun author _ hranges => ranges_exact hreached hhealthy hranges author

namespace Sample

open Group.Sample

theorem paging_exact_edited :
    Reached editing edited ∧ edited.poisoned = false ∧ PagesExact editing edited 50 := by
  have hhealthy : edited.poisoned = false := by decide +kernel
  have hwhole : Whole edited.index := whole_of_keys (by decide +kernel)
  exact ⟨reached_edited, hhealthy,
    ((paging_exact_iff editing edited reached_edited hhealthy 50 (by decide)).mpr hwhole).1⟩

def numberTarget : List (DartString × Json) := [(DartString.ofString "targetEventId", .int 5)]

theorem numberTarget_frozen : freeze (.obj numberTarget) 1 = .ok (.obj numberTarget) := by rfl

def untargeted : GroupHistoryEvent :=
  { edits with
    payload := numberTarget
    payload_frozen := numberTarget_frozen }

def untargeting : Env := { editing with codec := codec [greeting, untargeted] }

def halfIndexed : Worker :=
  ((Worker.fresh.append untargeting greeting nonce .written).1.append untargeting untargeted nonce
    .written).1

theorem reached_halfIndexed : Reached untargeting halfIndexed :=
  .appended _ _ _ (.appended _ _ _ (.opened (openJournal_nil untargeting)))

/-- **A retained event is on no page.** The journal retains the edit at its sequence, and the
pages of events end without it. -/
theorem retained_on_no_page :
    Reached untargeting halfIndexed ∧ halfIndexed.poisoned = false ∧
      halfIndexed.Retains untargeted ∧ halfIndexed.Sequences owner.deviceId 5 ∧
      halfIndexed.readPage untargeting none 50 = .ok [greeting] ∧
      halfIndexed.readPage untargeting (some greeting.eventId) 50 = .ok [] ∧
      ¬ PagesExact untargeting halfIndexed 50 := by
  have hretained : halfIndexed.Retains untargeted := ⟨⟨untargeted, 29⟩, by decide +kernel, rfl⟩
  have hfirst : halfIndexed.readPage untargeting none 50 = .ok [greeting] := by decide +kernel
  have hsecond : halfIndexed.readPage untargeting (some greeting.eventId) 50 = .ok [] := by
    decide +kernel
  refine ⟨reached_halfIndexed, by decide +kernel, hretained, ⟨untargeted, hretained, rfl, rfl⟩,
    hfirst, hsecond, ?_⟩
  rintro ⟨pages, hfollows, -, hmem⟩
  -- the reading stops behind the message
  obtain rfl := hfollows.unique (Paging.Follows.more hfirst rfl (Paging.Follows.stop hsecond))
  have hon := (hmem untargeted).mpr hretained
  exact absurd hon (by decide)

end Sample

end Journal
end Conest
