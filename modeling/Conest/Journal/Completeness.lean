import Conest.Journal.Filing
import Conest.Journal.Learning
import Conest.Journal.Restart

/-!
# What a pull brings

A pull that starts with no saved progress, from a peer whose journal does not change and which has
the same undisputed head, brings every ordinary event that the peer may forward, and nothing else
(`pull_complete`). The inventory is walked by cursors of author and sequence. A page covers what
stands between its cursor and the next one (`Serving.inventory_covers`): behind the last event that
was read when there is one, and at the next author when there is none. So what lies behind the
cursor is held at every round, and at the end everything is (`inventoryPhase_complete`).

For this, what the peer reads under an author and a sequence has to be the event that it filed there.
An edit that stopped the index is filed, and its frame is overwritten by the next append; a page that
ends with it advances the cursor to the sequence of another event, and skips what is in between
(`events_skipped`).
-/

namespace Conest
namespace Journal

open Lib Conest.Group List Option

variable {d peer : Device} {o : Writes} {w w' : Worker} {replica : Replica}

/-! ### The replicas of a run -/

variable {s s' : Session} {imported imported' budget : ℕ} {cursor : Option GroupSyncCursor}
  {page : List GroupHistoryEvent} {head : GroupMembershipRecord}

/-- **What holds of a replica in every run**: its history is well formed, and knows the membership
events of the journal. -/
structure Kept (d : Device) (replica : Replica) : Prop where
  wf : replica.membership.WF
  reached : Reached d.env replica.worker
  recorded : ∀ e ∈ replica.worker.index.ordered, e.kind = .membership → replica.Knows e.id

theorem importAll_knows {h h' : GroupMembershipHistory} {proofs : List GroupHistoryEvent}
    (himport : d.importAll h proofs = .ok h') (hwf : h.WF) :
    h'.WF ∧ (∀ id, (h.records.get id).isSome → (h'.records.get id).isSome) ∧
      ∀ proof ∈ proofs, (h'.records.get proof.eventId).isSome := by
  induction proofs generalizing h with
  | nil =>
    obtain rfl : h = h' := Except.ok.inj himport
    exact ⟨hwf, fun id hid => hid, fun proof hproof => by cases hproof⟩
  | cons proof proofs ih =>
  rw [Device.importAll] at himport
  cases hrecord : d.recordOf proof with
  | error e => rw [hrecord] at himport; cases himport
  | ok record =>
  rw [hrecord] at himport
  dsimp only at himport
  have hid : record.id = proof.eventId := by
    rw [← recordOf_proof hrecord]
    rfl
  have hnext : (h.importRecord d.env.crypto record).1.WF := hwf.importRecord record
  cases hstep : h.importRecord d.env.crypto record with
  | mk h₁ result =>
  rw [hstep] at himport hnext
  -- the record is known after the step, and what was known stays so
  have hknown : result ≠ .ok .missingParents → result.isOk = true →
      (∀ id, (h.records.get id).isSome → (h₁.records.get id).isSome) ∧
        (h₁.records.get proof.eventId).isSome := by
    intro hmissing hok
    rcases GroupMembershipHistory.importRecord_cases d.env.crypto h record with
      ⟨-, haccepted⟩ | ⟨-, hsame, hnot⟩
    · rw [hstep, Prod.mk.injEq] at haccepted
      rw [haccepted.1]
      refine ⟨fun id hsome => ?_, ?_⟩
      · rw [GroupMembershipHistory.accept_get]
        split
        · rfl
        · exact hsome
      · rw [GroupMembershipHistory.accept_get, ← hid, if_pos rfl]
        rfl
    · rw [hstep] at hsame hnot
      obtain rfl : h₁ = h := hsame
      refine ⟨fun id hsome => hsome, ?_⟩
      cases result with
      | error e => cases hok
      | ok outcome =>
      cases outcome with
      | accepted => exact absurd rfl hnot
      | missingParents => exact absurd rfl hmissing
      | duplicate =>
        have hcontains := contains_of_duplicate (congrArg Prod.snd hstep)
        rw [hid] at hcontains
        exact hcontains
  split at himport
  · cases himport
  · cases himport
  next h₂ outcome hnot hpair =>
  obtain ⟨rfl, rfl⟩ := hpair
  obtain ⟨hkept, hthis⟩ := hknown (fun hcontra => hnot (Except.ok.inj hcontra)) rfl
  obtain ⟨hwf', hmono, hall⟩ := ih himport hnext
  refine ⟨hwf', fun id hsome => hmono id (hkept id hsome), ?_⟩
  intro other hother
  rcases mem_cons.mp hother with rfl | hother
  · exact hmono _ hthis
  · exact hall other hother

/-- **Restoring makes every membership event known** that the journal lists behind the cursor. -/
theorem restoreFrom_knows (hserves : Serves d.env w) (hhealthy : w.poisoned = false)
    (hsizes : ∀ e ∈ w.index.ordered, e.size ≤ pageBytes) {fuel : ℕ} {after : Option DartString}
    {entries : List Entry} (hlisted : w.listedAfter after = some entries)
    (hfuel : entries.length < fuel) {h h' : GroupMembershipHistory} (hwf : h.WF)
    (hrestore : d.restoreFrom w fuel after h = .ok h') :
    h'.WF ∧ (∀ id, (h.records.get id).isSome → (h'.records.get id).isSome) ∧
      ∀ e ∈ entries, (h'.records.get e.id).isSome := by
  induction fuel generalizing after entries h with
  | zero => exact absurd hfuel (Nat.not_lt_zero _)
  | succ fuel ih =>
  rw [Device.restoreFrom, hserves.execute_memberships hhealthy hlisted] at hrestore
  obtain ⟨-, hmember, -⟩ := hserves.listedAfter_suffix hlisted
  cases hpage : pageOf 32 entries 0 0 with
  | nil =>
    rw [hpage] at hrestore
    obtain rfl : h = h' := Except.ok.inj hrestore
    cases entries with
    | nil => exact ⟨hwf, fun id hid => hid, fun e he => by cases he⟩
    | cons entry entries =>
      have hin := (mem_filter.mp (hmember entry mem_cons_self)).1
      exact absurd hpage (pageOf_ne_nil (by decide) (hsizes entry hin))
  | cons first page =>
  obtain ⟨last, hlast⟩ : ∃ last, (pageOf 32 entries 0 0).getLast? = some last := by
    rw [hpage]
    exact ⟨_, getLast?_eq_some_getLast (cons_ne_nil _ _)⟩
  obtain ⟨hrest, -⟩ := hserves.listedAfter_last hlisted hlast
  obtain ⟨k, hk, hpageOf⟩ := pageOf_eq_take 32 entries 0 0
  have hlength : (pageOf 32 entries 0 0).length = k := by
    rw [hpageOf, length_map, length_take_of_le hk]
  have hpos : 0 < k := by
    rw [← hlength, hpage]
    exact Nat.succ_pos _
  rw [hpage] at hrestore
  dsimp only at hrestore
  rw [← hpage, hlast] at hrestore
  cases himport : d.importAll h (pageOf 32 entries 0 0) with
  | error e => rw [himport] at hrestore; cases hrestore
  | ok h₁ =>
  rw [himport] at hrestore
  obtain ⟨hwf₁, hmono₁, hall₁⟩ := importAll_knows himport hwf
  have hless : (entries.drop (pageOf 32 entries 0 0).length).length < fuel := by
    rw [length_drop]
    omega
  obtain ⟨hwf', hmono, hall⟩ := ih hrest hless hwf₁ hrestore
  refine ⟨hwf', fun id hid => hmono id (hmono₁ id hid), fun e he => ?_⟩
  rw [← take_append_drop k entries, mem_append] at he
  rcases he with he | he
  · refine hmono _ (hall₁ e.event ?_)
    rw [hpageOf]
    exact mem_map_of_mem he
  · rw [hlength] at hall
    exact hall e he

theorem Reached.sizes {env : Env} (h : Reached env w) : ∀ e ∈ w.index.ordered, e.size ≤ pageBytes := by
  intro e he
  obtain ⟨l, hl⟩ := h.filed
  exact hl.size_le e (hl.get_iff.mp (h.serves.entries e he)).1

theorem healthy_of_execute {env : Env} {query : Query} {answer : Answer}
    (h : w.execute env query = .ok answer) : w.poisoned = false := by
  unfold Worker.execute at h
  split at h
  · cases h
  next hhealthy => exact Bool.eq_false_iff.mpr hhealthy

theorem Kept.restored {file : Bytes} (hrestore : d.restore file = .ok replica) :
    Kept d replica := by
  unfold Device.restore at hrestore
  split at hrestore
  · cases hrestore
  next w hopen =>
  split at hrestore
  · cases hrestore
  next h hfrom =>
  rw [← Except.ok.inj hrestore]
  have hreached : Reached d.env w := .opened hopen
  have hfuel : w.memberships.length < w.index.ordered.length + 1 :=
    Nat.lt_succ_of_le (length_filter_le _ _)
  have hhealthy : w.poisoned = false := by
    rw [Device.restoreFrom] at hfrom
    split at hfrom
    · cases hfrom
    next hpage => exact healthy_of_execute hpage
    next hpage => exact healthy_of_execute hpage
    · cases hfrom
  obtain ⟨hwf, -, hall⟩ := restoreFrom_knows hreached.serves hhealthy hreached.sizes
    rfl hfuel (GroupMembershipHistory.WF.initial _ _) hfrom
  refine ⟨hwf, hreached, fun e he hkind => hall e ?_⟩
  exact mem_filter.mpr ⟨he, decide_eq_true hkind⟩

theorem ordered_append {env : Env} {event : GroupHistoryEvent} {nonce : Nonce} {io : WriteOutcome}
    (hreads : ∀ decoded, env.decodeEvent (env.codec.encode event) = .ok decoded → decoded = event)
    {e : Entry} (he : e ∈ (w.append env event nonce io).1.index.ordered) :
    e ∈ w.index.ordered ∨
      e.event = event ∧ (w.append env event nonce io).2 = .ok true := by
  rcases append_cases env w event nonce io with
    ⟨hsame, -⟩ | ⟨decoded, size, hdecode, -, hnew, -, hindex, hresult⟩
  · rw [hsame] at he
    exact .inl he
  · obtain rfl := hreads decoded hdecode
    rw [hindex] at he
    obtain ⟨-, -, ⟨hok, hordered⟩ | ⟨-, -, hordered⟩⟩ := indexEvent_cases env.text hnew size
    · rw [hordered, Sorted.mem_insertSorted] at he
      rcases he with rfl | he
      · exact .inr ⟨rfl, by rw [hresult, hok]; rfl⟩
      · exact .inl he
    · rw [hordered] at he
      exact .inl he

theorem Reached.importEvent (h : Reached d.env replica.worker) (event : GroupHistoryEvent)
    (carrierDeviceId : DartString) (nonce : Nonce) (io : WriteOutcome) :
    Reached d.env (d.importEvent replica event carrierDeviceId nonce io).1.worker := by
  unfold Device.importEvent
  split
  · exact h
  · exact .appended event nonce io h

theorem Kept.importMembership (h : Kept d replica) {proof : GroupHistoryEvent}
    (hreads : ∀ decoded, d.env.decodeEvent (d.env.codec.encode proof) = .ok decoded →
      decoded = proof) (nonce : Nonce) (io : WriteOutcome) :
    Kept d (d.importMembership replica proof nonce io).1 := by
  refine ⟨?_, h.reached.importMembership proof nonce io, ?_⟩
  · unfold Device.importMembership
    split
    · exact h.wf
    next record _ =>
    have hwf : (replica.membership.importRecord d.env.crypto record).1.WF := h.wf.importRecord record
    split
    · next hstep =>
      rw [hstep] at hwf
      split
      · exact hwf
      · exact h.wf
    · exact h.wf
  · intro e he hkind
    unfold Device.importMembership at he ⊢
    cases hrecord : d.recordOf proof with
    | error _ => rw [hrecord] at he; exact h.recorded e he hkind
    | ok record =>
    rw [hrecord] at he
    dsimp only at he ⊢
    have hid : record.id = proof.eventId := by
      rw [← recordOf_proof hrecord]
      rfl
    rcases GroupMembershipHistory.importRecord_cases d.env.crypto replica.membership record with
      ⟨-, haccepted⟩ | ⟨-, hsame, hnot⟩
    · rw [haccepted] at he ⊢
      have hordered : e ∈ (replica.worker.append d.env proof nonce io).1.index.ordered →
          e ∈ replica.worker.index.ordered ∨
            e.event = proof ∧ (replica.worker.append d.env proof nonce io).2 = .ok true :=
        ordered_append hreads
      cases happend : replica.worker.append d.env proof nonce io with
      | mk w' result =>
      rw [happend] at he hordered
      cases result with
      | error _ =>
        rcases hordered he with hold | ⟨-, hcontra⟩
        · exact h.recorded e hold hkind
        · cases hcontra
      | ok new =>
      unfold Replica.Knows
      rw [GroupMembershipHistory.accept_get]
      split
      · rfl
      next hother =>
      rcases hordered he with hold | ⟨hevent, -⟩
      · exact h.recorded e hold hkind
      · refine absurd ?_ hother
        rw [hid, ← hevent]
        rfl
    · cases hstep : replica.membership.importRecord d.env.crypto record with
      | mk candidate result =>
        rw [hstep] at he hnot
        split at he
        next hpair => exact absurd (Prod.mk.inj hpair).2 hnot
        · exact h.recorded e he hkind

theorem Kept.importEvent (h : Kept d replica) {event : GroupHistoryEvent}
    (hreads : ∀ decoded, d.env.decodeEvent (d.env.codec.encode event) = .ok decoded →
      decoded = event) (carrierDeviceId : DartString) (nonce : Nonce) (io : WriteOutcome) :
    Kept d (d.importEvent replica event carrierDeviceId nonce io).1 := by
  refine ⟨?_, h.reached.importEvent event carrierDeviceId nonce io, ?_⟩
  · unfold Device.importEvent
    split
    · exact h.wf
    · exact h.wf
  intro e he hkind
  unfold Device.importEvent at he ⊢
  split at he
  · next hrefused =>
    rw [if_pos hrefused]
    exact h.recorded e he hkind
  next hadmitted =>
  rw [if_neg hadmitted]
  rw [Bool.not_eq_true, Bool.not_eq_false'] at hadmitted
  rcases ordered_append hreads he with hold | ⟨hevent, -⟩
  · exact h.recorded e hold hkind
  · refine absurd ?_ (GroupMembershipHistory.kind_ne_of_canForward hadmitted)
    rw [← hevent]
    exact hkind

theorem Kept.run {calls : List Device.Call} (hg : Genuine d (eventsOf calls)) :
    Kept d (d.machine.run d.fresh calls) := by
  have hreads : ∀ call ∈ calls, ∀ event, call.event? = some event →
      ∀ decoded, d.env.decodeEvent (d.env.codec.encode event) = .ok decoded → decoded = event := by
    intro call hcall event hevent decoded hdecode
    exact hg.eq_of_decodes (mem_filterMap.mpr ⟨call, hcall, hevent⟩) hdecode
  refine Machine.run_induction ?_ (Kept.restored (restore_nil d))
  intro replica call hcall h
  cases call with
  | importMembership proof nonce io =>
    exact h.importMembership (hreads _ hcall proof rfl) nonce io
  | importEvent event carrierDeviceId nonce io =>
    exact h.importEvent (hreads _ hcall event rfl) carrierDeviceId nonce io
  | restart =>
  change Kept d (d.restart replica).1
  unfold Device.restart
  split
  · exact h
  next hrestore => exact Kept.restored hrestore

/-! ### What a peer offers -/

/-- The cursor has gone by the entry. -/
def GroupSyncCursor.Past (cursor : GroupSyncCursor) (e : Entry) : Prop :=
  e.author < cursor.authorDeviceId ∨
    e.author = cursor.authorDeviceId ∧ (e.sequence : ℤ) ≤ cursor.afterSequence

/-- **A peer that serves**: its maps file the entries `l`, all of which read back. -/
structure Serving (peer : Device) (serving : Replica) (l : List Entry) : Prop where
  healthy : serving.worker.poisoned = false
  filed : Filed serving.worker.index l
  reads : ∀ e ∈ l, serving.worker.readEntry peer.env e = .ok e.event

/-- The peer brings the event to the device that asks. -/
def Offers (peer : Device) (serving : Replica) (requester : DartString)
    (event : GroupHistoryEvent) : Prop :=
  event ∈ serving.worker.held ∧ peer.forwards serving requester event = true

theorem Reached.serving {serving : Replica} (h : Reached peer.env serving.worker)
    (hhealthy : serving.worker.poisoned = false) (hwhole : Whole serving.worker.index) :
    ∃ l, Serving peer serving l ∧ ∀ e, e ∈ serving.worker.index.ordered ↔ e ∈ l := by
  obtain ⟨l, hl⟩ := h.filed
  have hmem : ∀ e, e ∈ serving.worker.index.ordered ↔ e ∈ l := fun e =>
    hl.mem_ordered_iff h.serves hwhole
  exact ⟨l, ⟨hhealthy, hl, fun e he => h.serves.readEntry ((hmem e).mpr he)⟩, hmem⟩

theorem mem_take_of_le {l : List Entry} (hsorted : Sorted.SortedBy Entry.sequence l) {k : ℕ}
    {last e : Entry} (hlast : (l.take k).getLast? = some last) (he : e ∈ l)
    (hle : e.sequence ≤ last.sequence) : e ∈ l.take k := by
  rw [← take_append_drop k l, mem_append] at he
  rcases he with he | he
  · exact he
  · rw [← take_append_drop k l] at hsorted
    have hlt := (pairwise_append.mp hsorted).2.2 last (mem_of_getLast? hlast) e he
    exact absurd hle (Nat.not_le.mpr hlt)

section Queries

variable {serving : Replica} {l : List Entry} (h : Filed serving.worker.index l)
  (hhealthy : serving.worker.poisoned = false)

include h hhealthy

theorem Filed.execute_authors (after : Option DartString) :
    serving.worker.execute peer.env (.authors after 1) =
      .ok (.ids (((authorsOf l).filter fun author => after.all fun a => a < author).take 1)) := by
  unfold Worker.execute
  rw [hhealthy, h.select_authors]
  rfl

/-- **A page of an author's events** is read from the entries behind the sequence. -/
theorem Filed.authorPage_eq (author : DartString) {after : ℤ} (hafter : 0 ≤ after)
    (hbound : after ≤ groupEventMaxCounter) :
    peer.authorPage serving author after =
      serving.worker.read peer.env (rangeOf l author after) groupSyncPageSize := by
  unfold Device.authorPage
  split
  · next hend =>
    -- no sequence is behind the largest one
    have hnone : rangeOf l author after = [] := by
      refine eq_nil_iff_forall_not_mem.mpr fun e he => ?_
      obtain ⟨-, -, hlt⟩ := mem_rangeOf.mp he
      have hsequence : e.sequence ≤ groupEventMaxCounter :=
        e.event.sequence_le_lamport.trans e.event.lamport_le
      omega
    rw [hnone]
    rfl
  next hnot =>
  unfold Worker.execute
  rw [hhealthy, h.select_range _ author hafter (by omega)]
  dsimp only
  rw [Worker.answer]
  cases serving.worker.read peer.env (rangeOf l author after) groupSyncPageSize with
  | error e => rfl
  | ok page => rfl

end Queries

namespace Serving

variable {serving : Replica} {l : List Entry} (h : Serving peer serving l) {requester : DartString}

variable {cursor : Option GroupSyncCursor}

include h

theorem page_eq {author : DartString} {after : ℤ}
    (hafter : 0 ≤ after) (hbound : after ≤ groupEventMaxCounter) {page : List GroupHistoryEvent}
    (hpage : peer.authorPage serving author after = .ok page) :
    page = pageOf 32 (rangeOf l author after) 0 0 := by
  have hread : ∀ e ∈ rangeOf l author after,
      serving.worker.readEntry peer.env e = .ok e.event :=
    fun e he => h.reads e (mem_rangeOf.mp he).1
  rw [h.filed.authorPage_eq h.healthy author hafter hbound, read_eq hread] at hpage
  exact (Except.ok.inj hpage).symm

theorem past_nextAuthor {after : Option DartString} {ids : List DartString}
    (hids : idsOfAnswer (serving.worker.execute peer.env (.authors after 1)) = .ok ids) {e : Entry}
    (he : e ∈ l) (hafter : ∀ a ∈ after, a < e.author) :
    ∃ next, ids = [next] ∧ next ≤ e.author := by
  rw [h.filed.execute_authors h.healthy] at hids
  rw [← Except.ok.inj hids]
  have hmem : e.author ∈ (authorsOf l).filter fun author => after.all fun a => a < author := by
    refine mem_filter.mpr ⟨mem_authorsOf.mpr ⟨e, he, rfl⟩, ?_⟩
    cases after with
    | none => rfl
    | some a => exact decide_eq_true (hafter a rfl)
  have hsorted : Sorted.SortedBy id ((authorsOf l).filter fun author =>
      after.all fun a => a < author) := (authorsOf_sorted l).filter _
  cases hlist : (authorsOf l).filter fun author => after.all fun a => a < author with
  | nil => rw [hlist] at hmem; cases hmem
  | cons next rest =>
  refine ⟨next, rfl, ?_⟩
  rw [hlist] at hmem hsorted
  rcases mem_cons.mp hmem with heq | hrest
  · exact le_of_eq heq.symm
  · exact le_of_lt ((pairwise_cons.mp hsorted).1 e.author hrest)

theorem start_le {start : Option GroupSyncCursor}
    (hstart : peer.inventoryStart serving cursor = .ok start) {e : Entry} (he : e ∈ l)
    (hahead : ∀ c ∈ cursor, ¬ c.Past e) :
    ∃ c, start = some c ∧ ¬ c.Past e ∧ (cursor = some c ∨ c.afterSequence = 0) := by
  cases cursor with
  | some c =>
    obtain rfl : some c = start := Except.ok.inj hstart
    exact ⟨c, rfl, hahead c rfl, .inl rfl⟩
  | none =>
  unfold Device.inventoryStart at hstart
  cases hids : idsOfAnswer (serving.worker.execute peer.env (.authors none 1)) with
  | error _ => rw [hids] at hstart; cases hstart
  | ok ids =>
  obtain ⟨first, rfl, hle⟩ := h.past_nextAuthor hids he (fun a ha => by cases ha)
  rw [hids] at hstart
  obtain rfl : some (GroupSyncCursor.mk first 0) = start := Except.ok.inj hstart
  refine ⟨⟨first, 0⟩, rfl, ?_, .inr rfl⟩
  have hsequence : 1 ≤ e.sequence := e.event.one_le_sequence
  rintro (hlt | ⟨-, hzero⟩)
  · exact absurd hle (not_le.mpr hlt)
  · change (e.sequence : ℤ) ≤ 0 at hzero
    omega

theorem inventory_covers {page : GroupSyncInventory}
    (hpage : (peer.serve serving requester).inventory cursor = .ok page) {e : Entry} (he : e ∈ l)
    (hforwards : peer.forwards serving requester e.event = true)
    (hahead : ∀ c ∈ cursor, ¬ c.Past e) (hpast : ∀ c ∈ page.next, c.Past e) :
    e.id ∈ page.entries.map GroupSyncInventoryEntry.eventId := by
  change peer.inventory serving requester cursor = .ok page at hpage
  unfold Device.inventory at hpage
  split at hpage
  · cases hpage
  split at hpage
  · cases hpage
  next hvalid =>
  cases hstart : peer.inventoryStart serving cursor with
  | error _ => rw [hstart] at hpage; cases hpage
  | ok start =>
  obtain ⟨c, rfl, hnot, hfrom⟩ := h.start_le hstart he hahead
  have hbounds : 0 ≤ c.afterSequence ∧ c.afterSequence ≤ (groupEventMaxCounter : ℤ) := by
    rcases hfrom with rfl | hzero
    · rw [any_some, decide_eq_true_eq] at hvalid
      omega
    · rw [hzero]
      decide
  rw [hstart] at hpage
  dsimp only at hpage
  cases hread : peer.authorPage serving c.authorDeviceId c.afterSequence with
  | error _ => rw [hread] at hpage; cases hpage
  | ok events =>
  rw [hread] at hpage
  have hevents := h.page_eq hbounds.1 hbounds.2 hread
  dsimp only at hpage
  -- of the cursor's author, what is left stands behind its sequence
  have hrange : e.author = c.authorDeviceId →
      e ∈ rangeOf l c.authorDeviceId c.afterSequence := by
    intro hauthor
    refine mem_rangeOf.mpr ⟨he, hauthor, ?_⟩
    by_contra hle
    exact hnot (.inr ⟨hauthor, not_lt.mp hle⟩)
  have hsorted := h.filed.rangeOf_sorted c.authorDeviceId c.afterSequence
  obtain ⟨k, -, htake⟩ := pageOf_eq_take 32 (rangeOf l c.authorDeviceId c.afterSequence) 0 0
  rw [htake] at hevents
  unfold Device.inventoryNext at hpage
  cases hlast : events.getLast? with
  | some last =>
    rw [hlast] at hpage
    rw [← Except.ok.inj hpage] at hpast ⊢
    rw [hevents, getLast?_map] at hlast
    obtain ⟨lastEntry, hlastEntry, rfl⟩ := map_eq_some_iff.mp hlast
    rcases hpast _ rfl with hlt | ⟨hauthor, hle⟩
    · exact absurd (.inl hlt) hnot
    have hin := mem_take_of_le hsorted hlastEntry (hrange hauthor) (Int.ofNat_le.mp hle)
    refine mem_map.mpr ⟨Device.entryOfEvent e.event, mem_map_of_mem ?_, rfl⟩
    refine mem_filter.mpr ⟨?_, hforwards⟩
    rw [hevents]
    exact mem_map_of_mem hin
  | none =>
    -- the author has nothing left, so the entry is of a later one
    rw [hlast] at hpage
    rw [getLast?_eq_none_iff] at hlast
    have hlater : c.authorDeviceId < e.author := by
      rcases lt_trichotomy e.author c.authorDeviceId with hlt | heq | hgt
      · exact absurd (.inl hlt) hnot
      · have hin := hrange heq
        cases hlist : rangeOf l c.authorDeviceId c.afterSequence with
        | nil => rw [hlist] at hin; cases hin
        | cons first rest =>
        have hfirst : first ∈ rangeOf l c.authorDeviceId c.afterSequence := by
          rw [hlist]
          exact mem_cons_self
        have hne : pageOf 32 (first :: rest) 0 0 ≠ [] :=
          pageOf_ne_nil (by decide) (h.filed.size_le first (mem_rangeOf.mp hfirst).1)
        rw [← hlist, htake, ← hevents] at hne
        exact absurd hlast hne
      · exact hgt
    cases hids : idsOfAnswer (serving.worker.execute peer.env
        (.authors (some c.authorDeviceId) 1)) with
    | error _ => rw [hids] at hpage; cases hpage
    | ok ids =>
      obtain ⟨next, rfl, hle⟩ := h.past_nextAuthor hids he (fun a ha => by
        rw [← some.inj ha]
        exact hlater)
      rw [hids] at hpage
      rw [← Except.ok.inj hpage] at hpast
      have hsequence : 1 ≤ e.sequence := e.event.one_le_sequence
      rcases hpast _ rfl with hlt | ⟨-, hzero⟩
      · exact absurd hle (not_le.mpr hlt)
      · change (e.sequence : ℤ) ≤ 0 at hzero
        omega

theorem events_offers (hmem : ∀ e, e ∈ serving.worker.index.ordered ↔ e ∈ l) {ids : List DartString}
    {received : List GroupHistoryEvent}
    (hevents : (peer.serve serving requester).events ids = .ok received) :
    ∀ event ∈ received, Offers peer serving requester event := by
  change peer.events serving requester ids = .ok received at hevents
  unfold Device.events at hevents
  split at hevents
  · cases hevents
  split at hevents
  · cases hevents
  split at hevents
  · cases hevents
  next found hfound =>
  intro event hevent
  rw [← Except.ok.inj hevents] at hevent
  obtain ⟨hin, hforwards⟩ := mem_filter.mp hevent
  refine ⟨?_, hforwards⟩
  cases hexecute : serving.worker.execute peer.env (.events ids) with
  | error _ => rw [hexecute] at hfound; cases hfound
  | ok answer =>
  have hread : ∀ e ∈ ids.dedup.filterMap serving.worker.index.entries.get,
      e ∈ l ∧ serving.worker.readEntry peer.env e = .ok e.event := by
    intro e he
    obtain ⟨id, -, hget⟩ := mem_filterMap.mp he
    have hl := (h.filed.get_iff.mp hget).1
    exact ⟨hl, h.reads e hl⟩
  unfold Worker.execute at hfound
  rw [healthy_of_execute hexecute, Index.select] at hfound
  unfold withLimit at hfound
  cases hlimit : checkLimit ids.length 128 with
  | error _ => rw [hlimit] at hfound; cases hfound
  | ok u =>
  rw [hlimit] at hfound
  dsimp only at hfound
  rw [Worker.answer, read_eq fun e he => (hread e he).2] at hfound
  have hpage := (Except.ok.inj hfound).symm
  obtain ⟨k, -, htake⟩ := pageOf_eq_take 128
    (ids.dedup.filterMap serving.worker.index.entries.get) 0 0
  change found = pageOf 128 _ 0 0 at hpage
  rw [hpage, htake] at hin
  obtain ⟨e, he, rfl⟩ := mem_map.mp hin
  exact mem_held.mpr ⟨e, (hmem e).mpr (hread e (mem_of_mem_take he)).1, rfl⟩

end Serving

/-! ### What the journal gains -/

/-- **The journal gains events**: it keeps its entries, and every new one is of an event with `P`. -/
structure Gains (env : Env) (P : GroupHistoryEvent → Prop) (w w' : Worker) : Prop where
  kept : ∀ id e, w.index.entries.get id = some e → w'.index.entries.get id = some e
  fresh : ∀ id e, w'.index.entries.get id = some e →
    w.index.entries.get id = some e ∨ P e.event
  reached : Reached env w → Reached env w'

namespace Gains

variable {env : Env} {P : GroupHistoryEvent → Prop} {w'' : Worker}

theorem refl (w : Worker) : Gains env P w w :=
  ⟨fun _ _ hget => hget, fun _ _ hget => .inl hget, fun hreached => hreached⟩

theorem trans (h : Gains env P w w') (h' : Gains env P w' w'') : Gains env P w w'' where
  kept id e hget := h'.kept id e (h.kept id e hget)
  fresh id e hget := by
    rcases h'.fresh id e hget with hold | hnew
    · exact h.fresh id e hold
    · exact .inr hnew
  reached hreached := h'.reached (h.reached hreached)

theorem contains (h : Gains env P w w') {id : DartString}
    (hcontains : w.index.entries.contains id = true) : w'.index.entries.contains id = true := by
  obtain ⟨e, hget⟩ := isSome_iff_exists.mp hcontains
  exact isSome_iff_exists.mpr ⟨e, h.kept id e hget⟩

end Gains

section Pulling

variable {exchange : GroupHistoryExchange} {carrierDeviceId : DartString}
  {P : GroupHistoryEvent → Prop}
  (hreads : ∀ event, P event → ∀ decoded,
    d.env.decodeEvent (d.env.codec.encode event) = .ok decoded → decoded = event)

include hreads

theorem importEvent_gains {event : GroupHistoryEvent} {nonce : Nonce} {io : WriteOutcome}
    {new : Bool} (hP : P event)
    (hok : (d.importEvent replica event carrierDeviceId nonce io).2 = .ok new) :
    Gains d.env P replica.worker
        (d.importEvent replica event carrierDeviceId nonce io).1.worker ∧
      (d.importEvent replica event carrierDeviceId nonce io).1.worker.index.entries.contains
        event.eventId = true := by
  have hreached : Reached d.env replica.worker →
      Reached d.env (d.importEvent replica event carrierDeviceId nonce io).1.worker :=
    fun h => h.importEvent event carrierDeviceId nonce io
  unfold Device.importEvent at hok hreached ⊢
  split at hok
  · cases hok
  next hadmitted =>
  rw [if_neg hadmitted] at hreached ⊢
  rcases append_cases d.env replica.worker event nonce io with
    ⟨hsame, hresult⟩ | ⟨decoded, size, hdecode, -, hnew, -, hindex, -⟩
  · obtain ⟨-, decoded, hdecode, hcontains⟩ := hresult new hok
    obtain rfl := hreads event hP decoded hdecode
    refine ⟨⟨?_, ?_, hreached⟩, ?_⟩
    · rw [hsame]
      exact fun id e hget => hget
    · rw [hsame]
      exact fun id e hget => .inl hget
    · rw [hsame]
      exact hcontains
  · obtain rfl := hreads event hP decoded hdecode
    obtain ⟨hentries, -, -⟩ := indexEvent_cases d.env.text hnew size
    rw [← hindex] at hentries
    refine ⟨⟨fun id e hget => ?_, fun id e hget => ?_, hreached⟩, ?_⟩
    · rw [hentries, FMap.get_insert, if_neg, hget]
      rintro rfl
      rw [FMap.contains_eq_false, hget] at hnew
      cases hnew
    · rw [hentries, FMap.get_insert] at hget
      split at hget
      · rw [← some.inj hget]
        exact .inr hP
      · exact .inl hget
    · unfold FMap.contains
      rw [hentries, FMap.get_insert, if_pos rfl]
      rfl

theorem importReceived_gains (entries : List GroupSyncInventoryEntry)
    {received : List GroupHistoryEvent} (hP : ∀ event ∈ received, P event)
    {wanted wanted' : List DartString}
    (hok : d.importReceived o carrierDeviceId entries received s wanted imported =
      (s', .ok (wanted', imported'))) : Gains d.env P s.replica.worker s'.replica.worker ∧
      ∀ id ∈ wanted, id ∈ wanted' ∨ s'.replica.worker.index.entries.contains id = true := by
  induction received generalizing s wanted imported with
  | nil =>
    obtain ⟨rfl, rfl, -⟩ := hok
    exact ⟨Gains.refl _, fun id hid => .inl hid⟩
  | cons event received ih =>
  rw [Device.importReceived] at hok
  split at hok
  · cases hok
  split at hok
  · cases hok
  split at hok
  · cases hok
  dsimp only at hok
  split at hok
  · cases hok
  next new himport =>
  obtain ⟨hfirst, hcontains⟩ := importEvent_gains hreads (hP event mem_cons_self) himport
  obtain ⟨hrest, hwanted⟩ := ih (fun e he => hP e (mem_cons_of_mem event he)) hok
  refine ⟨hfirst.trans hrest, fun id hid => ?_⟩
  by_cases heq : id = event.eventId
  · rw [heq]
    exact .inr (hrest.contains hcontains)
  · exact hwanted id ((mem_erase_of_ne heq).mpr hid)

theorem fetch_gains
    (hP : ∀ ids received, exchange.events ids = .ok received → ∀ event ∈ received, P event)
    (entries : List GroupSyncInventoryEntry) {rounds : ℕ} {wanted : List DartString}
    (hok : d.fetch o exchange carrierDeviceId entries rounds s wanted imported =
      (s', .ok imported')) : Gains d.env P s.replica.worker s'.replica.worker ∧
      ∀ id ∈ wanted, s'.replica.worker.index.entries.contains id = true := by
  induction rounds generalizing s wanted imported with
  | zero =>
    cases wanted with
    | nil =>
      obtain ⟨rfl, -⟩ := hok
      exact ⟨Gains.refl _, fun id hid => by cases hid⟩
    | cons id ids =>
      rw [Prod.mk.injEq] at hok
      cases hok.2
  | succ rounds ih =>
  cases wanted with
  | nil =>
    obtain ⟨rfl, -⟩ := hok
    exact ⟨Gains.refl _, fun id hid => by cases hid⟩
  | cons id ids =>
  rw [Device.fetch] at hok
  swap
  · exact cons_ne_nil _ _
  split at hok
  · cases hok
  next received hreceived =>
  split at hok
  · cases hok
  split at hok
  · cases hok
  split at hok
  · cases hok
  next s₁ wanted₁ imported₁ himports =>
  obtain ⟨hfirst, hwanted⟩ := importReceived_gains hreads entries (hP _ _ hreceived) himports
  obtain ⟨hrest, hall⟩ := ih hok
  refine ⟨hfirst.trans hrest, fun id hid => ?_⟩
  rcases hwanted id hid with hleft | hcontains
  · exact hall id hleft
  · exact hrest.contains hcontains

end Pulling

theorem missingIds_covers {ids missing : List DartString}
    (hmissing : d.missingIds s ids = .ok missing) {id : DartString} (hid : id ∈ ids) :
    id ∈ missing ∨ s.replica.worker.index.entries.contains id = true := by
  unfold Device.missingIds at hmissing
  split at hmissing
  · next hnil =>
    rw [hnil] at hid
    cases hid
  split at hmissing
  · cases hmissing
  next retained hretained =>
  rw [← Except.ok.inj hmissing]
  by_cases hin : id ∈ retained
  · refine .inr ?_
    cases hexecute : s.replica.worker.execute d.env (.retained ids) with
    | error _ => rw [hexecute] at hretained; cases hretained
    | ok answer =>
    unfold Worker.execute at hretained
    rw [healthy_of_execute hexecute, Index.select] at hretained
    unfold withLimit at hretained
    cases hlimit : checkLimit ids.length 128 with
    | error _ => rw [hlimit] at hretained; cases hretained
    | ok u =>
    rw [hlimit] at hretained
    have hfilter : ids.filter s.replica.worker.index.entries.contains = retained :=
      Except.ok.inj hretained
    rw [← hfilter] at hin
    exact (mem_filter.mp hin).2
  · exact .inl (mem_filter.mpr ⟨hid, decide_eq_true hin⟩)

section Complete

variable {serving : Replica} {l : List Entry} {carrierDeviceId : DartString}

/-- **The inventory phase is complete.** What lies behind the cursor is held at the start of every
round; a page brings what lies between its cursor and the next. -/
theorem inventoryPhase_complete (h : Serving peer serving l)
    (hmem : ∀ e, e ∈ serving.worker.index.ordered ↔ e ∈ l)
    (hreads : ∀ event, Offers peer serving d.localDeviceId event → ∀ decoded,
      d.env.decodeEvent (d.env.codec.encode event) = .ok decoded → decoded = event)
    (hok : d.inventoryPhase o (peer.serve serving d.localDeviceId) carrierDeviceId budget s cursor
      imported = (s', .ok imported'))
    (hbehind : ∀ e ∈ l, peer.forwards serving d.localDeviceId e.event = true →
      (∃ c ∈ cursor, c.Past e) → s.replica.worker.index.entries.contains e.id = true) :
    Gains d.env (Offers peer serving d.localDeviceId) s.replica.worker s'.replica.worker ∧
      ∀ e ∈ l, peer.forwards serving d.localDeviceId e.event = true →
        s'.replica.worker.index.entries.contains e.id = true := by
  induction budget generalizing s cursor imported with
  | zero =>
    rw [Prod.mk.injEq] at hok
    cases hok.2
  | succ budget ih =>
  have hround := @inventoryPhase_cases d o (peer.serve serving d.localDeviceId) carrierDeviceId
    budget s cursor imported
  obtain ⟨e, hfailed⟩ | ⟨page, missing, hpage, -, hmissing, hrest⟩ := hround
  · rw [hok, Prod.mk.injEq] at hfailed
    cases hfailed.2
  rcases hrest with ⟨s₁, e, -, hfailed⟩ | ⟨s₁, imported₁, hfetch, hend⟩
  · rw [hok, Prod.mk.injEq] at hfailed
    cases hfailed.2
  obtain ⟨hgains, hwanted⟩ := fetch_gains hreads
    (fun ids received hreceived => h.events_offers hmem hreceived) page.entries hfetch
  -- after the page everything up to its next cursor is held
  have hcovered : ∀ e ∈ l, peer.forwards serving d.localDeviceId e.event = true →
      (∀ c ∈ page.next, c.Past e) → s₁.replica.worker.index.entries.contains e.id = true := by
    intro e he hforwards hpast
    by_cases hahead : ∃ c ∈ cursor, c.Past e
    · exact hgains.contains (hbehind e he hforwards hahead)
    have hlisted := h.inventory_covers hpage he hforwards
      (fun c hc hcpast => hahead ⟨c, hc, hcpast⟩) hpast
    rcases missingIds_covers hmissing hlisted with hmissed | hcontains
    · exact hwanted e.id hmissed
    · exact hgains.contains hcontains
  rw [hok] at hend
  generalize hresult : (s', Except.ok imported') = result at hend
  cases hend with
  | failed e _ => cases (Prod.mk.inj hresult).2
  | @goesOn s₂ following hsame hnext _ =>
    rw [← hsame] at hgains hcovered
    obtain ⟨hmore, hall⟩ := ih hresult.symm <| by
      rintro e he hforwards ⟨c, hc, hcpast⟩
      refine hcovered e he hforwards fun c' hc' => ?_
      rw [hnext] at hc'
      rw [← some.inj hc', some.inj hc]
      exact hcpast
    exact ⟨hgains.trans hmore, hall⟩
  | @done s₂ hsame hnext =>
  obtain ⟨rfl, -⟩ := Prod.mk.inj hresult
  rw [← hsame] at hgains hcovered
  refine ⟨hgains, fun e he hforwards => hcovered e he hforwards fun c hc => ?_⟩
  rw [hnext] at hc
  cases hc

end Complete

/-! ### The membership phase under the same head -/

theorem importMembership_of_known {proof : GroupHistoryEvent} (hknows : replica.Knows proof.eventId)
    (nonce : Nonce) (io : WriteOutcome) :
    (d.importMembership replica proof nonce io).1 = replica := by
  unfold Device.importMembership
  cases hrecord : d.recordOf proof with
  | error _ => rfl
  | ok record =>
  dsimp only
  rcases GroupMembershipHistory.importRecord_cases d.env.crypto replica.membership record with
    ⟨haccepts, -⟩ | ⟨-, -, hnot⟩
  · have hfresh := haccepts.fresh
    rw [← recordOf_proof hrecord] at hknows
    change (replica.membership.records.get record.id).isSome = true at hknows
    rw [hfresh] at hknows
    cases hknows
  · split
    · next hpair =>
      rw [hpair] at hnot
      exact absurd rfl hnot
    · rfl

theorem importProofs_of_known {proofs : List GroupHistoryEvent}
    (hknows : ∀ proof ∈ proofs, s.replica.Knows proof.eventId) :
    (d.importProofs o s proofs).1.replica = s.replica := by
  induction proofs generalizing s with
  | nil => rfl
  | cons proof proofs ih =>
  have hsame := importMembership_of_known (d := d) (hknows proof mem_cons_self)
    (o.nonce s.imports) (o.io s.imports)
  rw [Device.importProofs]
  split
  · exact hsame
  · exact hsame
  refine (ih ?_).trans hsame
  intro other hother
  change (d.importMembership s.replica proof (o.nonce s.imports) (o.io s.imports)).1.Knows _
  rw [hsame]
  exact hknows other (mem_cons_of_mem proof hother)

/-- **With a peer that lists known records only**, the membership phase leaves the replica as it is,
and no cursor appears. The peer has answered. -/
theorem membershipPhase_of_known {exchange : GroupHistoryExchange} (known : DartString → Prop)
    (hpages : ∀ after page, exchange.membershipPage after = .ok page →
      ∀ proof ∈ page, known proof.eventId) (beforeHead : Option DartString)
    (hknows : ∀ id, known id → s.replica.Knows id) {after : Option DartString} {left : ℕ}
    (hok : d.membershipPhase o exchange beforeHead budget s after none = (s', .ok (left, cursor))) :
    s'.replica = s.replica ∧ cursor = none ∧
      ∃ after page, exchange.membershipPage after = .ok page := by
  induction budget generalizing s after with
  | zero =>
    rw [Prod.mk.injEq] at hok
    cases hok.2
  | succ budget ih =>
  rw [Device.membershipPhase] at hok
  split at hok
  · cases hok
  next page hpage =>
  split at hok
  · cases hok
  split at hok
  · rw [Prod.mk.injEq, Except.ok.injEq, Prod.mk.injEq] at hok
    exact ⟨congrArg Session.replica hok.1.symm, hok.2.2.symm, after, page, hpage⟩
  next last hlast =>
  have himports : (d.importProofs o s page).1.replica = s.replica :=
    importProofs_of_known fun proof hproof => hknows _ (hpages after page hpage proof hproof)
  split at hok
  · cases hok
  next s₁ hs₁ =>
  rw [hs₁] at himports
  split at hok
  · cases hok
  rw [ite_self] at hok
  dsimp only at hok
  have hsaved := saveProgress_replica (o := o) s₁
    (Device.progressOf s₁ false (some last.eventId) none)
  split at hok
  · cases hok
  next s₂ hs₂ =>
  rw [hs₂] at hsaved
  have hsame : s₂.replica = s.replica := hsaved.trans himports
  obtain ⟨hrest, hcursor, -⟩ := ih (fun id hid => by rw [hsame]; exact hknows id hid) hok
  exact ⟨hrest.trans hsame, hcursor, after, page, hpage⟩

theorem exists_head {h : GroupMembershipHistory} (hwf : h.WF) {id : DartString}
    {r : GroupMembershipRecord} (hget : h.records.get id = some r) :
    ∃ head ∈ h.heads, h.Reaches head id := by
  classical
  -- among the records that reach it, one of the latest time is a head
  obtain ⟨top, htop, hmax⟩ := Finset.exists_max_image
    (h.records.keys.filter fun k => h.Reaches k id)
    (fun k => ((h.records.get k).map fun r => r.proof.lamport).getD 0)
    ⟨id, Finset.mem_filter.mpr ⟨FMap.mem_keys_iff.mpr ⟨r, hget⟩, Relation.ReflTransGen.refl⟩⟩
  rw [Finset.mem_filter, FMap.mem_keys_iff] at htop
  obtain ⟨⟨rtop, hrtop⟩, hreaches⟩ := htop
  refine ⟨top, (hwf.heads_iff top).mpr ⟨⟨rtop, hrtop⟩, ?_⟩, hreaches⟩
  intro k rk hk hparent
  obtain ⟨rp, hrp, hlt⟩ := hwf.parent_before k rk hk top hparent
  have hstep : h.Reaches k id := by
    refine Relation.ReflTransGen.head ?_ hreaches
    rw [GroupMembershipHistory.parentsOf_of_get hk]
    exact hparent
  have hle := hmax k (Finset.mem_filter.mpr ⟨FMap.mem_keys_iff.mpr ⟨rk, hk⟩, hstep⟩)
  rw [hrtop] at hrp
  rw [hk, hrtop, hrp] at hle
  exact absurd hlt (Nat.not_lt.mpr hle)

theorem heads_of_current {h : GroupMembershipHistory} (hwf : h.WF)
    (hcurrent : h.current = some head) :
    h.records.get head.id = some head ∧ ∀ id ∈ h.heads, id = head.id := by
  unfold GroupMembershipHistory.current at hcurrent
  split at hcurrent
  · next id hsort =>
    have hid := hwf.id_eq id head hcurrent
    refine ⟨hid ▸ hcurrent, fun other hother => ?_⟩
    rw [← Finset.mem_sort (· ≤ ·), hsort, mem_singleton] at hother
    rw [hother, hid]
  · cases hcurrent

theorem knows_of_same_head {h h' : GroupMembershipHistory} (hwf : h.WF) (hwf' : h'.WF)
    (hcurrent : h.current = some head) (hcurrent' : h'.current = some head)
    (hsame : ∀ id r r', h.records.get id = some r → h'.records.get id = some r' → r = r')
    {id : DartString} (hknown : (h.records.get id).isSome) : (h'.records.get id).isSome := by
  obtain ⟨r, hget⟩ := isSome_iff_exists.mp hknown
  obtain ⟨top, htop, hreaches⟩ := exists_head hwf hget
  obtain ⟨hhead, honly⟩ := heads_of_current hwf hcurrent
  obtain ⟨hhead', -⟩ := heads_of_current hwf' hcurrent'
  rw [honly top htop] at hreaches
  -- down from the head, each record has its parents in both
  have hdown : ∀ {a b : DartString}, h.Reaches a b → (h.records.get a).isSome →
      (h'.records.get a).isSome → (h'.records.get b).isSome := by
    intro a b hab
    induction hab using Relation.ReflTransGen.head_induction_on with
    | refl => exact fun _ hknown' => hknown'
    | @head a c hac _ ih =>
    intro hknown hknown'
    obtain ⟨ra, hra⟩ := isSome_iff_exists.mp hknown
    obtain ⟨ra', hra'⟩ := isSome_iff_exists.mp hknown'
    rw [GroupMembershipHistory.parentsOf_of_get hra] at hac
    obtain ⟨rc, hrc, -⟩ := hwf.parent_before a ra hra c hac
    obtain rfl := hsame a ra ra' hra hra'
    obtain ⟨rc', hrc', -⟩ := hwf'.parent_before a ra hra' c hac
    exact ih (isSome_iff_exists.mpr ⟨rc, hrc⟩) (isSome_iff_exists.mpr ⟨rc', hrc'⟩)
  exact hdown hreaches (isSome_iff_exists.mpr ⟨head, hhead⟩)
    (isSome_iff_exists.mpr ⟨head, hhead'⟩)

theorem Kept.membershipPage_mem {serving : Replica} (h : Kept peer serving)
    {requester : DartString} {after : Option DartString}
    (hpage : (peer.serve serving requester).membershipPage after = .ok page)
    {proof : GroupHistoryEvent} (hproof : proof ∈ page) :
    ∃ e ∈ serving.worker.memberships, e.event = proof := by
  change peer.membershipPage serving requester after = .ok page at hpage
  unfold Device.membershipPage at hpage
  split at hpage
  · cases hpage
  change eventsOfAnswer (serving.worker.execute peer.env (.memberships after 32)) = .ok page at hpage
  cases hexecute : serving.worker.execute peer.env (.memberships after 32) with
  | error _ => rw [hexecute] at hpage; cases hpage
  | ok answer =>
  cases hlisted : serving.worker.listedAfter after with
  | none =>
    -- an unknown cursor is an error
    cases after with
    | none => cases hlisted
    | some afterId =>
    have hget := map_eq_none_iff.mp hlisted
    have hhealthy := healthy_of_execute hexecute
    unfold Worker.execute at hexecute
    rw [hhealthy, Index.select, hget] at hexecute
    cases hexecute
  | some entries =>
  rw [h.reached.serves.execute_memberships (healthy_of_execute hexecute) hlisted] at hpage
  have hevents : pageOf 32 entries 0 0 = page := Except.ok.inj hpage
  obtain ⟨k, -, htake⟩ := pageOf_eq_take 32 entries 0 0
  rw [← hevents, htake] at hproof
  obtain ⟨e, he, rfl⟩ := mem_map.mp hproof
  exact ⟨e, (h.reached.serves.listedAfter_suffix hlisted).2.1 e (mem_of_mem_take he), rfl⟩

theorem healthy_of_membershipPage {serving : Replica} {requester : DartString}
    {after : Option DartString}
    (hpage : (peer.serve serving requester).membershipPage after = .ok page) :
    serving.worker.poisoned = false := by
  change peer.membershipPage serving requester after = .ok page at hpage
  unfold Device.membershipPage at hpage
  split at hpage
  · cases hpage
  cases hexecute : serving.worker.execute peer.env (.memberships after groupSyncPageSize) with
  | error _ => rw [hexecute] at hpage; cases hpage
  | ok answer => exact healthy_of_execute hexecute

/-! ### The whole pull -/

/-- **One group on two devices**: the same program reads and writes the events, the JSON library
reads back what it writes, and the digests tell events and records apart. -/
structure SameGroup (d peer : Device) (replica serving : Replica) : Prop where
  codec_eq : d.env.codec = peer.env.codec
  reads_back : ∀ event ∈ serving.worker.held,
    peer.env.codec.jsonDecode (peer.env.codec.jsonEncode event.canonicalJson) =
      .ok event.canonicalJson
  same_event : ∀ id e, replica.worker.index.entries.get id = some e →
    ∀ event ∈ serving.worker.held, event.eventId = id → e.event = event
  same_record : ∀ id r r', serving.membership.records.get id = some r →
    replica.membership.records.get id = some r' → r = r'

theorem SameGroup.reads {serving : Replica} (hgroup : SameGroup d peer replica serving)
    (hreached : Reached peer.env serving.worker) {event : GroupHistoryEvent}
    (hheld : event ∈ serving.worker.held) {decoded : GroupHistoryEvent}
    (hdecode : d.env.decodeEvent (d.env.codec.encode event) = .ok decoded) : decoded = event := by
  obtain ⟨e, he, rfl⟩ := mem_held.mp hheld
  obtain ⟨offset, -, -, hframe⟩ := hreached.serves.frames e he
  obtain ⟨encoded, hdecoded⟩ : ∃ encoded, peer.env.codec.decode encoded = .ok e.event := by
    unfold Env.decodeFrame at hframe
    split at hframe
    · cases hframe
    next clear _ =>
    split at hframe
    · cases hframe
    next decodedFrame hclear =>
    split at hframe
    · cases hframe
    · rw [Except.ok.inj hframe] at hclear
      exact ⟨clear, hclear⟩
  unfold Env.decodeEvent at hdecode
  rw [hgroup.codec_eq] at hdecode
  rcases Codec.decode_encode hdecoded (hgroup.reads_back e.event hheld) with hsame | htoolarge
  · rw [hsame] at hdecode
    exact (Except.ok.inj hdecode).symm
  · rw [htoolarge] at hdecode
    cases hdecode

/-- A pull without saved progress, from a peer that lists known records only, is an inventory phase
from the start. -/
theorem pullFrom_nothing {exchange : GroupHistoryExchange} {carrierDeviceId : DartString}
    {maxPages : ℤ} (hprogress : s.progress = Progress.nothing) (hhead : s.headId ≠ none)
    (hpages : ∀ after page, exchange.membershipPage after = .ok page →
      ∀ proof ∈ page, s.replica.Knows proof.eventId)
    (hok : d.pullFrom o exchange carrierDeviceId s maxPages = (s', .ok imported)) :
    ∃ (budget : ℕ) (t : Session), t.replica = s.replica ∧
      (∃ after page, exchange.membershipPage after = .ok page) ∧
      d.inventoryPhase o exchange carrierDeviceId budget t none 0 = (s', .ok imported) := by
  have hcomplete : Device.membershipComplete s = false := by
    unfold Device.membershipComplete
    rw [hprogress]
    rfl
  have hcursor : Device.savedCursor s = none := by
    unfold Device.savedCursor
    rw [hprogress, if_neg]
    exact fun heq => hhead heq.symm
  unfold Device.pullFrom at hok
  split at hok
  · cases hok
  dsimp only at hok
  unfold Device.learnMembership at hok
  rw [hcomplete, hcursor] at hok
  split at hok
  · cases hok
  next t budget cursor hphase =>
  obtain ⟨hsame, rfl, hanswered⟩ := membershipPhase_of_known s.replica.Knows hpages s.headId
    (fun id hid => hid) hphase
  rw [ite_self] at hok
  have hsaved := saveProgress_replica (o := o) t (Device.progressOf t true none none)
  split at hok
  · cases hok
  next t' hsave =>
  rw [hsave] at hsaved
  split at hok
  · cases hok
  · exact ⟨budget, t', hsaved.trans hsame, hanswered, hok⟩

/-- **A pull is complete.** The peer and this device are replicas of any runs, with the same
undisputed head, and there is no saved progress. If no append of the peer has stopped in between, a
pull that returns brings every ordinary event that the peer may forward to this device, and it
imports no other event. -/
theorem pull_complete (d peer : Device) (o : Writes) (calls localCalls : List Device.Call)
    (hgenuine : Genuine peer (eventsOf calls)) (hlocal : Genuine d (eventsOf localCalls))
    (serving : Replica) (hserving : serving = peer.machine.run peer.fresh calls)
    (s : Session) (hreplica : s.replica = d.machine.run d.fresh localCalls)
    (hgroup : SameGroup d peer s.replica serving) (head : GroupMembershipRecord)
    (hhead : serving.membership.current = some head)
    (hsamehead : s.replica.membership.current = some head)
    (hprogress : s.progress = Progress.nothing) (hwhole : Whole serving.worker.index)
    (maxPages : ℤ) (s' : Session) (imported : ℕ)
    (hok : d.pullFrom o (peer.serve serving d.localDeviceId) peer.localDeviceId s maxPages =
      (s', .ok imported)) :
    (∀ event ∈ serving.worker.held, event.kind ≠ .membership →
        serving.membership.canForward peer.env.crypto event peer.localDeviceId d.localDeviceId =
          true → event ∈ s'.replica.worker.held) ∧
      ∀ event ∈ s'.replica.worker.held, event ∈ s.replica.worker.held ∨
        event ∈ serving.worker.held ∧ event.kind ≠ .membership ∧
          serving.membership.canForward peer.env.crypto event peer.localDeviceId
            d.localDeviceId = true := by
  have hkept : Kept peer serving := hserving ▸ Kept.run hgenuine
  have hkept' : Kept d s.replica := hreplica ▸ Kept.run hlocal
  -- the membership phase finds nothing new
  have hpages : ∀ after page,
      (peer.serve serving d.localDeviceId).membershipPage after = .ok page →
        ∀ proof ∈ page, s.replica.Knows proof.eventId := by
    intro after page hpage proof hproof
    obtain ⟨e, he, rfl⟩ := hkept.membershipPage_mem hpage hproof
    obtain ⟨hordered, hkind⟩ := mem_filter.mp he
    exact knows_of_same_head hkept.wf hkept'.wf hhead hsamehead hgroup.same_record
      (hkept.recorded e hordered (of_decide_eq_true hkind))
  have hheadId : s.headId ≠ none := by
    unfold Session.headId
    rw [hsamehead]
    exact some_ne_none _
  obtain ⟨budget, t, hsame, ⟨after, page, hpage⟩, hphase⟩ :=
    pullFrom_nothing hprogress hheadId hpages hok
  obtain ⟨l, hl, hmem⟩ := hkept.reached.serving (healthy_of_membershipPage hpage) hwhole
  have hreads : ∀ event, Offers peer serving d.localDeviceId event → ∀ decoded,
      d.env.decodeEvent (d.env.codec.encode event) = .ok decoded → decoded = event :=
    fun event hoffers decoded hdecode => hgroup.reads hkept.reached hoffers.1 hdecode
  obtain ⟨hgains, hall⟩ := inventoryPhase_complete hl hmem hreads hphase
    (fun e he hforwards ⟨c, hc, _⟩ => by cases hc)
  rw [hsame] at hgains
  have hplaced := (hgains.reached hkept'.reached).placed
  have hplaced' := hkept'.reached.placed
  refine ⟨fun event hheld hkind hcan => ?_, fun event hheld => ?_⟩
  · obtain ⟨e, he, rfl⟩ := mem_held.mp hheld
    have hforwards : peer.forwards serving d.localDeviceId e.event = true := by
      unfold Device.forwards
      rw [decide_eq_true hkind, hcan]
      rfl
    obtain ⟨e', hget⟩ := isSome_iff_exists.mp (hall e ((hmem e).mp he) hforwards)
    -- what is held under the identity of the event is the event
    have hsameEvent : e'.event = e.event := by
      rcases hgains.fresh e.id e' hget with hold | hoffers
      · exact hgroup.same_event e.id e' hold e.event hheld rfl
      obtain ⟨e'', he'', hevent⟩ := mem_held.mp hoffers.1
      have hid : e''.id = e.id := by
        rw [← hplaced.id_eq e.id e' hget]
        exact congrArg GroupHistoryEvent.eventId hevent
      have hfirst := hkept.reached.serves.entries e'' he''
      rw [hid, hkept.reached.serves.entries e he, some.injEq] at hfirst
      rw [hfirst, hevent]
    refine mem_held.mpr ⟨e', (hplaced.ordered_iff e.id e' hget).mpr ?_, hsameEvent⟩
    rw [hsameEvent]
    exact (hkept.reached.placed.ordered_iff e.id e
      (hkept.reached.serves.entries e he)).mp he
  · obtain ⟨e, he, rfl⟩ := mem_held.mp hheld
    have hget := hplaced.entries e he
    rcases hgains.fresh e.id e hget with hold | ⟨hoffered, hforwards⟩
    · refine .inl (mem_held.mpr ⟨e, (hplaced'.ordered_iff e.id e hold).mpr ?_, rfl⟩)
      exact (hplaced.ordered_iff e.id e hget).mp he
    · unfold Device.forwards at hforwards
      rw [Bool.and_eq_true, decide_eq_true_eq] at hforwards
      exact .inr ⟨hoffered, hforwards⟩

/-! ### A peer on its list -/

/-- The inventory of a peer as a function of the entries that its maps file. -/
def Device.inventoryOver (peer : Device) (serving : Replica) (requester : DartString)
    (l : List Entry) (cursor : Option GroupSyncCursor) : Except String GroupSyncInventory :=
  match peer.requirePeer serving requester with
  | .error e => .error e
  | .ok () =>
    if cursor.any fun c =>
        decide (c.afterSequence < 0 ∨ c.afterSequence > (groupEventMaxCounter : ℤ)) then
      .error "Invalid inventory cursor."
    else
      match cursor.or ((authorsOf l).head?.map fun author => ⟨author, 0⟩) with
      | none => .ok ⟨[], none⟩
      | some start =>
        match serving.worker.read peer.env (rangeOf l start.authorDeviceId start.afterSequence)
            groupSyncPageSize with
        | .error e => .error e
        | .ok page =>
          .ok ⟨(page.filter (peer.forwards serving requester)).map Device.entryOfEvent,
            (page.getLast?.map fun last => ⟨start.authorDeviceId, last.sequence⟩).or
              (((authorsOf l).filter fun author => start.authorDeviceId < author).head?.map
                fun author => ⟨author, 0⟩)⟩

theorem Filed.inventory_eq {serving : Replica} {l : List Entry} (h : Filed serving.worker.index l)
    (hhealthy : serving.worker.poisoned = false) (requester : DartString)
    (cursor : Option GroupSyncCursor) :
    peer.inventory serving requester cursor = peer.inventoryOver serving requester l cursor := by
  have hstart : peer.inventoryStart serving cursor =
      .ok (cursor.or ((authorsOf l).head?.map fun author => ⟨author, 0⟩)) := by
    cases cursor with
    | some c => rfl
    | none =>
    have hall : (authorsOf l).filter (fun author => (none : Option DartString).all
        fun a => a < author) = authorsOf l := filter_eq_self.mpr fun _ _ => rfl
    unfold Device.inventoryStart
    rw [h.execute_authors hhealthy]
    cases authorsOf l with
    | nil => rfl
    | cons author rest => rfl
  have hnext : ∀ author page, peer.inventoryNext serving author page =
      .ok ((page.getLast?.map fun last => ⟨author, last.sequence⟩).or
        (((authorsOf l).filter fun other => author < other).head?.map
          fun other => ⟨other, 0⟩)) := by
    intro author page
    unfold Device.inventoryNext
    cases page.getLast? with
    | some last => rfl
    | none =>
    have hlater : ((authorsOf l).filter fun other => (some author).all fun a => a < other) =
        (authorsOf l).filter fun other => author < other := rfl
    rw [h.execute_authors hhealthy, hlater]
    cases (authorsOf l).filter fun other => author < other with
    | nil => rfl
    | cons other rest => rfl
  unfold Device.inventory Device.inventoryOver
  cases peer.requirePeer serving requester with
  | error e => rfl
  | ok u =>
  cases u
  change (if _ then _ else _) = (if _ then _ else _)
  split
  · rfl
  next hvalid =>
  rw [hstart]
  cases hcursor : cursor.or ((authorsOf l).head?.map fun author => GroupSyncCursor.mk author 0) with
  | none => rfl
  | some start =>
  have hbounds : 0 ≤ start.afterSequence ∧ start.afterSequence ≤ (groupEventMaxCounter : ℤ) := by
    cases cursor with
    | some c =>
      rw [some_or, some.injEq] at hcursor
      rw [any_some, decide_eq_true_eq, hcursor] at hvalid
      omega
    | none =>
      obtain ⟨author, -, rfl⟩ := map_eq_some_iff.mp hcursor
      exact ⟨Int.le_refl 0, Int.natCast_nonneg _⟩
  dsimp only
  rw [h.authorPage_eq hhealthy _ hbounds.1 hbounds.2]
  cases serving.worker.read peer.env (rangeOf l start.authorDeviceId start.afterSequence)
      groupSyncPageSize with
  | error e => rfl
  | ok page =>
    dsimp only
    rw [hnext]

/-- The peer with its inventory taken from the list. -/
def Device.serveOver (peer : Device) (serving : Replica) (requester : DartString)
    (l : List Entry) : GroupHistoryExchange :=
  { peer.serve serving requester with inventory := peer.inventoryOver serving requester l }

theorem Filed.serve_eq {serving : Replica} {l : List Entry} (h : Filed serving.worker.index l)
    (hhealthy : serving.worker.poisoned = false) (requester : DartString) :
    peer.serve serving requester = peer.serveOver serving requester l := by
  unfold Device.serveOver
  rw [← funext (h.inventory_eq hhealthy requester)]
  rfl

theorem reached_run (d : Device) (calls : List Device.Call) :
    Reached d.env (d.machine.run d.fresh calls).worker := by
  refine Machine.run_induction (I := fun r : Replica => Reached d.env r.worker) ?_
    (.opened (openJournal_nil _))
  intro replica call _ h
  cases call with
  | importMembership proof nonce io => exact h.importMembership proof nonce io
  | importEvent event carrierDeviceId nonce io =>
    exact h.importEvent event carrierDeviceId nonce io
  | restart =>
  change Reached d.env (d.restart replica).1.worker
  unfold Device.restart
  split
  · exact h
  next hrestore => exact (Kept.restored hrestore).reached

namespace Sample

open Group.Sample

instance instNeZeroHundred : NeZero 100 := ⟨by decide⟩

def longDigest (n : Fin 100) : DartString :=
  [Fin.ofNat 65536 (48 + n / 10), Fin.ofNat 65536 (48 + n % 10)] ++ List.replicate 62 48

theorem isDigest_longDigest (n : Fin 100) : (longDigest n).isDigest = true := by
  revert n
  decide +kernel

def remark (n : Fin 100) : GroupHistoryEvent :=
  { event byOwner 2 2 (digest 1) isDigest_one with
    eventId := longDigest n
    eventId_digest := isDigest_longDigest n
    kind := .message
    sequence := 2 * n + 4
    lamport := 2 * n + 4
    one_le_sequence := Nat.le_add_left 1 _
    sequence_le_lamport := Nat.le_refl _
    lamport_le := by
      revert n
      decide +kernel
    previous := by
      revert n
      decide +kernel }

def strayEdit : GroupHistoryEvent :=
  { remark 30 with
    kind := .edit
    payload := [(DartString.ofString "targetEventId", .int 5)]
    payload_frozen := by rfl }

def conversation : List GroupHistoryEvent :=
  ((List.range 29).map fun n => remark (Fin.ofNat 100 (n + 1))) ++
    [strayEdit, remark 41, remark 35]

def longCodec : Codec where
  jsonEncode := sequenceByte
  jsonDecode bytes :=
    match (proofOf root 0 :: proofOf admits 1 :: conversation).find? fun event =>
        UInt8.ofNat event.sequence == bytes.getLastD 0 with
    | some event => .ok event.canonicalJson
    | none => .error "Unexpected character"
  sha256 bytes :=
    let n := (bytes.getLastD 0).toNat
    if n < 4 then digest (Fin.ofNat 10 (n - 1)) else longDigest (Fin.ofNat 100 ((n - 4) / 2))

def talker (member : GroupMemberProfile) : Device :=
  { deviceOf member with env := { twoEvents with codec := longCodec } }

def founding : List Device.Call :=
  [.importMembership (proofOf root 0) nonce .written,
    .importMembership (proofOf admits 1) nonce .written]

def talk (events : List GroupHistoryEvent) : List Device.Call :=
  founding ++ events.map fun event => .importEvent event owner.deviceId nonce .written

def ownersReplica (events : List GroupHistoryEvent) : Replica :=
  (talker owner).machine.run (talker owner).fresh (talk events)

def newcomer : Session :=
  ⟨(talker friend).machine.run (talker friend).fresh founding, Progress.nothing, 0, 0⟩

def catchUp (events : List GroupHistoryEvent) : Session × Except String ℕ :=
  (talker friend).pullFrom writes ((talker owner).serve (ownersReplica events)
    (talker friend).localDeviceId) (talker owner).localDeviceId newcomer 8

theorem catchUp_eq (events : List GroupHistoryEvent) (l : List Entry) (hnodup : l.Nodup)
    (hget : ∀ e ∈ l, (ownersReplica events).worker.index.entries.get e.id = some e)
    (hkeys : ∀ id ∈ (ownersReplica events).worker.index.entries.keys, id ∈ l.map Entry.id)
    (hhealthy : (ownersReplica events).worker.poisoned = false) :
    catchUp events = (talker friend).pullFrom writes ((talker owner).serveOver
      (ownersReplica events) (talker friend).localDeviceId l) (talker owner).localDeviceId
        newcomer 8 := by
  obtain ⟨l₀, hfiled⟩ := (reached_run (talker owner) (talk events)).filed
  have hl : Filed (ownersReplica events).worker.index l := hfiled.of_entries hnodup hget hkeys
  unfold catchUp
  rw [hl.serve_eq hhealthy]

def filedEntries : List Entry :=
  ⟨strayEdit, 29⟩ :: (ownersReplica conversation).worker.index.ordered

def skipping : Session × Except String ℕ :=
  (talker friend).pullFrom writes ((talker owner).serveOver (ownersReplica conversation)
    (talker friend).localDeviceId filedEntries) (talker owner).localDeviceId newcomer 8

-- one evaluation for everything that is said of the conversation
theorem skipping_facts :
    ((∀ e ∈ filedEntries,
          (ownersReplica conversation).worker.index.entries.get e.id = some e) ∧
        (∀ id ∈ (ownersReplica conversation).worker.index.entries.keys,
          id ∈ filedEntries.map Entry.id) ∧
        filedEntries.Nodup ∧ (ownersReplica conversation).worker.poisoned = false) ∧
      (((ownersReplica conversation).membership.current.map GroupMembershipRecord.id) =
          some (digest 1) ∧
        (newcomer.replica.membership.current.map GroupMembershipRecord.id) = some (digest 1)) ∧
      (remark 35 ∈ (ownersReplica conversation).worker.held ∧
        (ownersReplica conversation).membership.canForward crypto (remark 35) owner.deviceId
          friend.deviceId = true) ∧
      skipping.2 = .ok 30 ∧ remark 35 ∉ skipping.1.replica.worker.held := by decide +kernel

theorem catchUp_conversation : catchUp conversation = skipping := by
  obtain ⟨hget, hkeys, hnodup, hhealthy⟩ := skipping_facts.1
  exact catchUp_eq conversation filedEntries hnodup hget hkeys hhealthy

/-- **Events are skipped.** The owner's edit is refused after it was filed, and message 41 overwrites
its frame. On the first page of the inventory it is entry 32, and reads as message 41; so the cursor
goes on behind message 41, and the pull returns without message 35. -/
theorem events_skipped :
    ((ownersReplica conversation).membership.current.map GroupMembershipRecord.id) =
        some (digest 1) ∧
      (newcomer.replica.membership.current.map GroupMembershipRecord.id) = some (digest 1) ∧
      newcomer.progress = Progress.nothing ∧ (catchUp conversation).2 = .ok 30 ∧
      remark 35 ∈ (ownersReplica conversation).worker.held ∧ (remark 35).kind ≠ .membership ∧
      (ownersReplica conversation).membership.canForward crypto (remark 35) owner.deviceId
        friend.deviceId = true ∧
      remark 35 ∉ (catchUp conversation).1.replica.worker.held := by
  rw [catchUp_conversation]
  obtain ⟨-, ⟨howner, hfriend⟩, ⟨hheld, hforwards⟩, hreturns, hskipped⟩ := skipping_facts
  exact ⟨howner, hfriend, rfl, hreturns, hheld, by decide, hforwards, hskipped⟩

/-! With one message instead, nothing is skipped. -/

theorem talker_codec (member : GroupMemberProfile) : (talker member).env.codec = longCodec := rfl

theorem genuine_brief (member : GroupMemberProfile) :
    Genuine (talker member) [proofOf root 0, proofOf admits 1, remark 1] where
  decoded := by
    have hdecoded : longCodec.decode [1] = .ok (proofOf root 0) ∧
        longCodec.decode [2] = .ok (proofOf admits 1) ∧
        longCodec.decode [6] = .ok (remark 1) := by decide +kernel
    rw [forall_mem_cons, forall_mem_cons, forall_mem_singleton]
    exact ⟨⟨[1], hdecoded.1⟩, ⟨[2], hdecoded.2.1⟩, ⟨[6], hdecoded.2.2⟩⟩
  reads_back := by
    rw [talker_codec]
    decide +kernel
  no_collision := by
    rw [talker_codec]
    decide +kernel

theorem founding_membership :
    ((talker owner).machine.run (talker owner).fresh founding).membership =
      newcomer.replica.membership := by
  change ((talker owner).machine.run (talker owner).fresh founding).membership =
    ((talker friend).machine.run (talker friend).fresh founding).membership
  rfl

theorem brief_membership :
    (ownersReplica [remark 1]).membership = newcomer.replica.membership := by
  have hrun : ownersReplica [remark 1] = ((talker owner).importEvent
      ((talker owner).machine.run (talker owner).fresh founding) (remark 1) owner.deviceId nonce
        .written).1 := by
    unfold ownersReplica talk
    rfl
  rw [hrun, importEvent_membership, founding_membership]

theorem brief_facts :
    ((∀ e ∈ (ownersReplica [remark 1]).worker.index.ordered,
          (ownersReplica [remark 1]).worker.index.entries.get e.id = some e) ∧
        (∀ id ∈ (ownersReplica [remark 1]).worker.index.entries.keys,
          id ∈ (ownersReplica [remark 1]).worker.index.ordered.map Entry.id) ∧
        (ownersReplica [remark 1]).worker.index.ordered.Nodup ∧
        (ownersReplica [remark 1]).worker.poisoned = false) ∧
      (remark 1 ∈ (ownersReplica [remark 1]).worker.held ∧
        (ownersReplica [remark 1]).membership.canForward crypto (remark 1) owner.deviceId
          friend.deviceId = true) ∧
      ((talker friend).pullFrom writes ((talker owner).serveOver (ownersReplica [remark 1])
        (talker friend).localDeviceId (ownersReplica [remark 1]).worker.index.ordered)
          (talker owner).localDeviceId newcomer 8).2 = .ok 1 ∧
      newcomer.replica.membership.current.isSome = true ∧
      (∀ id ∈ (ownersReplica [remark 1]).worker.index.entries.keys,
        (((ownersReplica [remark 1]).worker.index.entries.get id).all fun e =>
          decide (e ∈ (ownersReplica [remark 1]).worker.index.ordered)) = true) ∧
      (∀ event ∈ (ownersReplica [remark 1]).worker.held, longCodec.jsonDecode
        (longCodec.jsonEncode event.canonicalJson) = .ok event.canonicalJson) ∧
      ∀ id ∈ newcomer.replica.worker.index.entries.keys,
        ∀ event ∈ (ownersReplica [remark 1]).worker.held, event.eventId = id →
          (newcomer.replica.worker.index.entries.get id).map Entry.event = some event := by
  decide +kernel

theorem brief_whole : Whole (ownersReplica [remark 1]).worker.index :=
  whole_of_keys brief_facts.2.2.2.2.1

theorem brief_sameGroup : SameGroup (talker friend) (talker owner) newcomer.replica
    (ownersReplica [remark 1]) where
  codec_eq := rfl
  reads_back := by
    rw [talker_codec]
    exact brief_facts.2.2.2.2.2.1
  same_event := by
    intro id e hget event hevent hid
    have hfound := brief_facts.2.2.2.2.2.2 id (FMap.mem_keys_iff.mpr ⟨e, hget⟩) event hevent hid
    rw [hget] at hfound
    exact some.inj hfound
  same_record := by
    intro id r r' hr hr'
    rw [brief_membership, hr'] at hr
    exact (some.inj hr).symm

theorem pull_complete_remark :
    (catchUp [remark 1]).2 = .ok 1 ∧ remark 1 ∈ (ownersReplica [remark 1]).worker.held ∧
      remark 1 ∈ (catchUp [remark 1]).1.replica.worker.held := by
  obtain ⟨⟨hget, hkeys, hnodup, hhealthy⟩, ⟨hheld, hforwards⟩, hreturns, hsome, -⟩ := brief_facts
  have heq := catchUp_eq [remark 1] _ hnodup hget hkeys hhealthy
  have hresult : (catchUp [remark 1]).2 = .ok 1 := by
    rw [heq]
    exact hreturns
  obtain ⟨head, hhead⟩ : ∃ head, newcomer.replica.membership.current = some head :=
    isSome_iff_exists.mp hsome
  have hhead' : (ownersReplica [remark 1]).membership.current = some head := by
    rw [brief_membership]
    exact hhead
  have hfounding : Genuine (talker friend) [proofOf root 0, proofOf admits 1] :=
    (genuine_brief friend).subset
      (take_subset 2 [proofOf root 0, proofOf admits 1, remark 1])
  have hok : catchUp [remark 1] = ((catchUp [remark 1]).1, .ok 1) := by
    rw [← hresult]
  have hpulled := pull_complete (talker friend) (talker owner) writes (talk [remark 1]) founding
    (genuine_brief owner) hfounding (ownersReplica [remark 1]) rfl newcomer rfl brief_sameGroup head
    hhead' hhead rfl brief_whole 8 _ 1 hok
  exact ⟨hresult, hheld, hpulled.1 (remark 1) hheld (by decide) hforwards⟩

end Sample

end Journal
end Conest
