import Conest.Journal.Recovery

/-!
# Arrival order does not matter to the journal

Events reach the journal of a device in the order in which peers send them, with gaps that later
events fill. Whether an event is accepted depends on the event alone and on conflicts with events
that are there; conflicts are symmetric, so a set of events is accepted in one order if and only if
it is accepted in all of them. The indexes are a function of the set of entries
(`Index.Describes.unique`), so they come out the same.

The frames do not: they are sealed with other nonces, for other offsets. But a query selects its
entries from the indexes alone, every entry it selects is one of the journal (`select_mem`), and
reading an entry gives its event whatever its offset. So all queries have the same answers
(`journal_order_independent`).
-/

namespace Conest
namespace Journal

open Lib Conest.Group List Option

variable {env : Env} {w w' : Worker} {rs rs' : List Stored}
variable {calls calls' : List (GroupHistoryEvent × Nonce)}

/-! ### Acceptance -/

/-- The entry that an event becomes. -/
def entryOf (env : Env) (event : GroupHistoryEvent) : Option Entry :=
  match env.decodeEvent (env.codec.encode event) with
  | .ok decoded => some ⟨decoded, (env.codec.encode event).length + 28⟩
  | .error _ => none

theorem map_entry_storedOf (env : Env) (call : GroupHistoryEvent × Nonce) :
    (storedOf env call).map Stored.entry = entryOf env call.1 := by
  unfold storedOf entryOf
  cases env.decodeEvent (env.codec.encode call.1) with
  | error e => rfl
  | ok decoded => rfl

theorem entries_of_calls (env : Env) (calls : List (GroupHistoryEvent × Nonce)) :
    (calls.filterMap (storedOf env)).map Stored.entry =
      (calls.map Prod.fst).filterMap (entryOf env) := by
  rw [map_filterMap, filterMap_map]
  refine filterMap_congr fun call _ => ?_
  exact map_entry_storedOf env call

theorem good_of_other_nonce {event : GroupHistoryEvent} {nonce nonce' : Nonce} {r : Stored}
    (hstored : storedOf env (event, nonce) = some r) (hgood : r.Good env) :
    ∃ r', storedOf env (event, nonce') = some r' ∧ r'.Good env := by
  unfold storedOf at hstored ⊢
  cases hdecodes : env.decodeEvent (env.codec.encode event) with
  | error e => rw [hdecodes] at hstored; cases hstored
  | ok decoded =>
    rw [hdecodes, some.injEq] at hstored
    subst hstored
    exact ⟨_, rfl, hgood.decodes, hgood.signed, hgood.searchable⟩

/-- **Events that are good and do not conflict are appended**, one after another. -/
theorem Holds.append_all (h : Holds env w rs)
    (hgood : ∀ call ∈ calls, ∃ r, storedOf env call = some r ∧ r.Good env)
    (hcompat : ((rs ++ calls.filterMap (storedOf env)).map Stored.entry).Pairwise
      Index.Compatible) :
    ∃ w', appendAll env w calls = some w' ∧ Holds env w' (rs ++ calls.filterMap (storedOf env)) := by
  induction calls generalizing w rs with
  | nil =>
    rw [filterMap_nil, append_nil]
    exact ⟨w, rfl, h⟩
  | cons call calls ih =>
  obtain ⟨event, nonce⟩ := call
  obtain ⟨r, hstored, hr⟩ := hgood (event, nonce) mem_cons_self
  rw [filterMap_cons_some hstored] at hcompat ⊢
  have hnew : NoConflict rs r := by
    intro r' hr'
    rw [map_append, pairwise_append] at hcompat
    exact hcompat.2.2 r'.entry (mem_map_of_mem hr') r.entry
      (mem_map_of_mem mem_cons_self)
  have hparts : r.nonce = nonce ∧ r.clear = env.codec.encode event := by
    unfold storedOf at hstored
    split at hstored
    · rw [some.injEq] at hstored
      rw [← hstored]
      exact ⟨rfl, rfl⟩
    · cases hstored
  obtain ⟨w₁, happend, hholds⟩ := h.append hr hnew hparts.2
  rw [hparts.1] at happend
  rw [append_cons] at hcompat ⊢
  obtain ⟨w₂, hrest, hholds₂⟩ := ih hholds
    (fun call hcall => hgood call (mem_cons_of_mem _ hcall)) hcompat
  refine ⟨w₂, ?_, hholds₂⟩
  rw [appendAll, happend]
  exact hrest

theorem Holds.good_of_appendAll (h : Holds env w rs) (hall : appendAll env w calls = some w') :
    ∀ call ∈ calls, ∃ r, storedOf env call = some r ∧ r.Good env := by
  induction calls generalizing w rs with
  | nil => intro call hcall; cases hcall
  | cons call calls ih =>
  rw [appendAll] at hall
  split at hall
  swap
  · cases hall
  next w₁ happend =>
  obtain ⟨r, hnonce, hclear, hgood, -, hholds⟩ := h.of_append happend
  intro call hcall
  rcases mem_cons.mp hcall with rfl | hcall
  · exact ⟨r, storedOf_eq hgood hnonce hclear, hgood⟩
  · exact ih hholds hall call hcall

/-! ### What a query selects -/

/-- The entries that are read for a selection. -/
def selectedOf : Selection → List Entry
  | Selection.entries entries _ => entries
  | Selection.single entry => entry.toList
  | Selection.answer _ => []

theorem mem_valuesOf {K : Type} [LinearOrder K] {m : FMap K Entry} {e : Entry}
    (he : e ∈ valuesOf m) : ∃ k, m.get k = some e := by
  obtain ⟨k, -, hget⟩ := mem_filterMap.mp he
  exact ⟨k, hget⟩

theorem of_withLimit {α : Type} {limit maximum : ℤ} {next : Except String α} {a : α}
    (hok : withLimit limit maximum next = .ok a) : next = .ok a := by
  unfold withLimit at hok
  split at hok
  · cases hok
  · exact hok

theorem select_mem {text : TextFunctions} {index : Index} {l : List Entry}
    (hd : index.Describes text l) {query : Query} {selection : Selection}
    (hselect : index.select text query = .ok selection) : ∀ e ∈ selectedOf selection, e ∈ l := by
  intro e he
  cases query with
  | messageMutations target authorAccount authorDevice signingKey =>
    obtain rfl := Except.ok.inj hselect
    have hfiltered := (mem_insertionSort _).mp he
    obtain ⟨key, hget⟩ := mem_valuesOf (mem_filter.mp hfiltered).1
    exact (hd.messageMutations.best key e hget).1
  | authorHead author =>
    obtain rfl := Except.ok.inj hselect
    exact (hd.authorHeads.best author e (mem_toList.mp he)).1
  | sourceMessage author messageId =>
    obtain rfl := Except.ok.inj hselect
    exact ((hd.sourceMessages.get_iff _ e).mp (mem_toList.mp he)).1
  | retained ids =>
    obtain rfl := Except.ok.inj (of_withLimit hselect)
    cases he
  | events ids =>
    obtain rfl := Except.ok.inj (of_withLimit hselect)
    obtain ⟨id, -, hget⟩ := mem_filterMap.mp he
    exact (hd.get_iff.mp hget).1
  | search query limit =>
    have hnext := of_withLimit hselect
    split at hnext
    · obtain rfl := Except.ok.inj hnext
      cases he
    · obtain rfl := Except.ok.inj hnext
      obtain ⟨id, -, hget⟩ := mem_filterMap.mp ((mem_insertionSort _).mp he)
      exact (hd.get_iff.mp hget).1
  | memberships after limit =>
    cases after with
    | none =>
      obtain rfl := Except.ok.inj hselect
      exact (hd.ordered_mem e).mp (mem_filter.mp he).1
    | some afterId =>
    rw [Index.select] at hselect
    cases hget : index.entries.get afterId with
    | none => rw [hget] at hselect; cases hselect
    | some after =>
      rw [hget] at hselect
      obtain rfl := Except.ok.inj hselect
      exact (hd.ordered_mem e).mp (mem_filter.mp he).1
  | page before limit =>
    cases before with
    | none =>
      obtain rfl := Except.ok.inj hselect
      exact (hd.ordered_mem e).mp (mem_reverse.mp he)
    | some beforeId =>
    rw [Index.select] at hselect
    cases hget : index.entries.get beforeId with
    | none => rw [hget] at hselect; cases hselect
    | some before =>
      rw [hget] at hselect
      obtain rfl := Except.ok.inj hselect
      exact (hd.ordered_mem e).mp (mem_reverse.mp (mem_filter.mp he).1)
  | authors after limit =>
    obtain rfl := Except.ok.inj (of_withLimit hselect)
    cases he
  | ranges author after limit =>
    have hnext := of_withLimit hselect
    split at hnext
    · cases hnext
    · obtain rfl := Except.ok.inj hnext
      cases he
  | range author start stop limit =>
    rw [Index.select] at hselect
    split at hselect
    · cases hselect
    obtain rfl := Except.ok.inj hselect
    have hvalue := (mem_filter.mp ((mem_insertionSort _).mp he)).1
    cases hget : index.authors.get author with
    | none => rw [hget] at hvalue; cases hvalue
    | some sequences =>
    rw [hget] at hvalue
    obtain ⟨n, hn⟩ := mem_valuesOf hvalue
    have hentry : index.authorEntry author n = some e := by
      unfold Index.authorEntry
      rw [hget]
      exact hn
    exact (hd.authorEntry_iff.mp hentry).1

/-! ### Answers -/

/-- The page that reading entries gives when each reads back as its event. -/
def pageOf (limit : ℕ) : List Entry → ℕ → ℕ → List GroupHistoryEvent
  | [], _, _ => []
  | entry :: entries, count, bytes =>
    if count = limit ∨ bytes + entry.size > pageBytes then []
    else entry.event :: pageOf limit entries (count + 1) (bytes + entry.size)

section

variable {entries : List Entry} (hread : ∀ e ∈ entries, w.readEntry env e = .ok e.event)

include hread

theorem readEntries_eq (limit count bytes : ℕ) :
    w.readEntries env limit entries count bytes = .ok (pageOf limit entries count bytes) := by
  induction entries generalizing count bytes with
  | nil => rfl
  | cons entry entries ih =>
  rw [Worker.readEntries, pageOf]
  split
  · rfl
  · rw [hread entry mem_cons_self]
    rw [ih fun e he => hread e (mem_cons_of_mem entry he)]

theorem read_eq (limit : ℤ) :
    w.read env entries limit = withLimit limit 128 (.ok (pageOf limit.toNat entries 0 0)) := by
  unfold Worker.read
  rw [readEntries_eq hread]

end

theorem answer_eq {selection : Selection}
    (hread : ∀ e ∈ selectedOf selection, w.readEntry env e = .ok e.event)
    (hread' : ∀ e ∈ selectedOf selection, w'.readEntry env e = .ok e.event) :
    w.answer env selection = w'.answer env selection := by
  cases selection with
  | entries entries limit =>
    replace hread : ∀ e ∈ entries, w.readEntry env e = .ok e.event := hread
    replace hread' : ∀ e ∈ entries, w'.readEntry env e = .ok e.event := hread'
    rw [Worker.answer, Worker.answer, read_eq hread, read_eq hread']
  | single entry =>
    cases entry with
    | none => rfl
    | some entry =>
      replace hread : ∀ e ∈ [entry], w.readEntry env e = .ok e.event := hread
      replace hread' : ∀ e ∈ [entry], w'.readEntry env e = .ok e.event := hread'
      rw [Worker.answer, Worker.answer, read_eq hread, read_eq hread']
  | answer answer => rfl

theorem Holds.execute_eq (h : Holds env w rs) (h' : Holds env w' rs')
    (hmem : ∀ e, e ∈ rs.map Stored.entry ↔ e ∈ rs'.map Stored.entry) (query : Query) :
    w.execute env query = w'.execute env query := by
  have hindex : w.index = w'.index := h.describes.unique h'.describes hmem
  unfold Worker.execute
  rw [h.healthy, h'.healthy, ← hindex]
  cases hselect : w.index.select env.text query with
  | error e => rfl
  | ok selection =>
    have hselected := select_mem h.describes hselect
    exact answer_eq (fun e he => h.readEntry (hselected e he))
      fun e he => h'.readEntry ((hmem e).mp (hselected e he))

/-- **Order independence.** If a new journal accepts events in some order, it accepts them in every
order, and all queries have the same answers, whatever the nonces. -/
theorem journal_order_independent (env : Env) (calls calls' : List (GroupHistoryEvent × Nonce))
    (hperm : (calls.map Prod.fst).Perm (calls'.map Prod.fst)) (w : Worker)
    (hall : appendAll env Worker.fresh calls = some w) :
    ∃ w', appendAll env Worker.fresh calls' = some w' ∧
      ∀ query, w'.execute env query = w.execute env query := by
  obtain ⟨hholds, -⟩ := (Holds.initial env).of_appendAll hall
  have hgood := (Holds.initial env).good_of_appendAll hall
  -- the entries of both orders are those of the events
  have hentries : ((calls.filterMap (storedOf env)).map Stored.entry).Perm
      ((calls'.filterMap (storedOf env)).map Stored.entry) := by
    rw [entries_of_calls, entries_of_calls]
    exact hperm.filterMap _
  have hgood' : ∀ call ∈ calls', ∃ r, storedOf env call = some r ∧ r.Good env := by
    rintro ⟨event, nonce'⟩ hcall
    have hevent := hperm.mem_iff.mpr (mem_map_of_mem hcall)
    obtain ⟨⟨event', nonce⟩, hcall', rfl⟩ := mem_map.mp hevent
    obtain ⟨r, hstored, hr⟩ := hgood (event', nonce) hcall'
    exact good_of_other_nonce hstored hr
  have hcompat' : (([] ++ calls'.filterMap (storedOf env)).map Stored.entry).Pairwise
      Index.Compatible := by
    exact (hentries.pairwise_iff fun hab => hab.symm).mp hholds.compatible
  obtain ⟨w', hall', hholds'⟩ := (Holds.initial env).append_all hgood' hcompat'
  refine ⟨w', hall', fun query => ?_⟩
  exact hholds'.execute_eq hholds (fun e => hentries.symm.mem_iff) query

namespace Sample

open Group.Sample

theorem order_independent_reversed :
    ∃ w w', appendAll twoEvents Worker.fresh appends = some w ∧
      appendAll twoEvents Worker.fresh appends.reverse = some w' ∧
      ∀ query, w'.execute twoEvents query = w.execute twoEvents query := by
  have hruns : (appendAll twoEvents Worker.fresh appends).isSome = true := by decide
  obtain ⟨w, hall⟩ := isSome_iff_exists.mp hruns
  have hperm : (appends.map Prod.fst).Perm (appends.reverse.map Prod.fst) :=
    appends.reverse_perm.symm.map Prod.fst
  obtain ⟨w', hall', hsame⟩ :=
    journal_order_independent twoEvents appends appends.reverse hperm w hall
  exact ⟨w, w', hall, hall', hsame⟩

end Sample

end Journal
end Conest
