import Conest.Group.Signing
import Conest.Journal.Completeness
import Conest.Journal.FileManifest
import Conest.Journal.Paging
import Conest.Journal.Retention

/-!
# Publishing a file

`publishFile` signs an attachment event and imports it. Under an operation identifier it first searches
the journal for the event of an earlier call: backwards in pages of 128, up to the first page that is
shorter. A page is also shorter where 128 events exceed its budget of bytes, and the search ends there
(`findScheduled_of_first`). So the earlier event is found again if and only if every 128 events from the
newest one down to it fit a page (`BlocksFit`).

`prepareMembership`, which the source runs before, is a write of its own: what it appends is among the
other events of the journal.
-/

namespace Conest
namespace Journal

open Lib Conest.Group List Option

/-! ### The coordinator -/

/-- The identity of the device, as far as it signs. -/
structure Identity where
  accountId : DartString
  keyPair : Option KeyPair

/-- What the query for one event answers. -/
def eventOfAnswer : Except String Answer → Except String (Option GroupHistoryEvent)
  | .error e => .error e
  | .ok (.event event) => .ok event
  | .ok _ => .error "the answer is not a subtype of type 'GroupHistoryEvent?' in type cast"

namespace Device

variable (d : Device) (identity : Identity) {toLowerCase : DartString → DartString}
  (manifest : GroupFileManifest toLowerCase)

/-- `_sign`, with nothing seen outside the journal. -/
def sign (w : Worker) (membershipId : DartString) (kind : GroupEventKind)
    (payload : List (DartString × Json)) : Except String GroupHistoryEvent :=
  match eventOfAnswer (w.execute d.env (.authorHead d.localDeviceId)) with
  | .error e => .error e
  | .ok previous =>
    match w.readPage d.env none 1 with
    | .error e => .error e
    | .ok latest =>
      match identity.keyPair with
      | none => .error "Signing identity is unavailable."
      | some keyPair =>
        d.env.codec.sign keyPair
          { eventId := []
            groupId := d.env.groupId
            authorAccountId := identity.accountId
            authorDeviceId := d.localDeviceId
            signingPublicKeyBase64 := keyPair.publicKeyBase64
            sequence := (previous.map GroupHistoryEvent.sequence).getD 0 + 1
            previousEventId := previous.map GroupHistoryEvent.eventId
            lamport := (latest.head?.map GroupHistoryEvent.lamport).getD 0 + 1
            membershipId := membershipId
            kind := kind
            payload := payload
            signatureBase64 := [] }

/-- Whether an event is that of the operation. -/
def isScheduled (operationId : DartString) (event : GroupHistoryEvent) : Bool :=
  decide (event.kind = .attachment) && event.authorDeviceId == d.localDeviceId &&
    decide (fieldAt event.payload "scheduledOperationId" = .str operationId)

/-- What becomes of an event of the operation: it is returned if its manifest is the same. -/
def reuse (event : GroupHistoryEvent) : Except String (Option GroupHistoryEvent) :=
  match GroupFileManifest.fromEvent toLowerCase event with
  | .error e => .error e
  | .ok prior =>
    if prior.description.toPayload ≠ manifest.description.toPayload then
      .error "This scheduled file identity was already used for different content."
    else .ok (some event)

/-- The search for the event of an earlier call. Every page but the last one moves the cursor, so one
round more than there are events is enough. -/
def findScheduled (operationId : DartString) (w : Worker) : ℕ → Option DartString →
    Except String (Option GroupHistoryEvent)
  | 0, _ => .ok none
  | fuel + 1, before =>
    match w.readPage d.env before 128 with
    | .error e => .error e
    | .ok page =>
      match page.find? (d.isScheduled operationId) with
      | some event => reuse manifest event
      | none =>
        if page.length < 128 then .ok none
        else findScheduled operationId w fuel (page.getLast?.map GroupHistoryEvent.eventId)

/-- Sign the event and import it. -/
def publishNew (membershipId : DartString) (payload : List (DartString × Json))
    (replica : Replica) (nonce : Nonce) (io : WriteOutcome) :
    Replica × Except String GroupHistoryEvent :=
  match d.sign identity replica.worker membershipId .attachment payload with
  | .error e => (replica, .error e)
  | .ok event =>
    match d.importEvent replica event d.localDeviceId nonce io with
    | (replica', .error e) => (replica', .error e)
    | (replica', .ok _) => (replica', .ok event)

/-- `publishFile`, when it gets its turn to write. `current` is the group as the device has it. -/
def publishFile (current : GroupRecord) (scheduledOperationId : Option DartString)
    (replica : Replica) (nonce : Nonce) (io : WriteOutcome) :
    Replica × Except String GroupHistoryEvent :=
  if scheduledOperationId.any fun operationId =>
      operationId.isEmpty || decide (160 < operationId.length) then
    (replica, .error "Invalid scheduled file operation id.")
  else if current.localRemovedAt.isSome || !current.hasActiveMember d.localDeviceId then
    (replica, .error "You are no longer a member of this group.")
  else
    match replica.membership.current with
    | none => (replica, .error "Waiting for signed membership history.")
    | some membership =>
      match scheduledOperationId with
      | none =>
        d.publishNew identity membership.id manifest.description.toPayload replica nonce io
      | some operationId =>
        match d.findScheduled manifest operationId replica.worker
            (replica.worker.index.ordered.length + 1) none with
        | .error e => (replica, .error e)
        | .ok (some event) => (replica, .ok event)
        | .ok none =>
          d.publishNew identity membership.id (manifest.description.scheduledPayload operationId)
            replica nonce io

end Device

/-! ### Pages that are full -/

section Pages

variable {limit count bytes n : ℕ} {entries : List Entry}

theorem pageOf_take (hfits : bytes + ((entries.take n).map Entry.size).sum ≤ pageBytes)
    (hcount : count + n ≤ limit) :
    (pageOf limit entries count bytes).take n = (entries.take n).map Entry.event := by
  induction entries generalizing n count bytes with
  | nil => rw [pageOf, take_nil, take_nil, map_nil]
  | cons entry entries ih =>
  cases n with
  | zero => rw [take_zero, take_zero, map_nil]
  | succ n =>
    rw [take_succ_cons, map_cons, sum_cons] at hfits
    rw [pageOf, if_neg (by omega), take_succ_cons, take_succ_cons, map_cons,
      ih (by omega) (by omega)]

theorem pageOf_length_lt (hbytes : bytes ≤ pageBytes)
    (hover : pageBytes < bytes + ((entries.take n).map Entry.size).sum) :
    (pageOf limit entries count bytes).length < n := by
  induction entries generalizing n count bytes with
  | nil =>
    rw [take_nil, map_nil, sum_nil] at hover
    omega
  | cons entry entries ih =>
  cases n with
  | zero =>
    rw [take_zero, map_nil, sum_nil] at hover
    omega
  | succ n =>
  rw [pageOf]
  split
  · exact Nat.succ_pos n
  next hroom =>
  rw [take_succ_cons, map_cons, sum_cons] at hover
  exact Nat.succ_lt_succ (ih (by omega) (by omega))

theorem pageOf_eq_take_length :
    pageOf limit entries 0 0 = (entries.take (pageOf limit entries 0 0).length).map Entry.event := by
  obtain ⟨k, hk, hpage⟩ := pageOf_eq_take limit entries 0 0
  have hlength : (pageOf limit entries 0 0).length = k := by
    rw [hpage, length_map, length_take_of_le hk]
  rw [hlength]
  exact hpage

end Pages

/-- **Every 128 of the sizes fit a page.** -/
def BlocksFit (sizes : List ℕ) : Prop :=
  ∀ j, ((sizes.drop (128 * j)).take 128).sum ≤ pageBytes

theorem blocksFit_iff {sizes : List ℕ} :
    BlocksFit sizes ↔ (sizes.take 128).sum ≤ pageBytes ∧ BlocksFit (sizes.drop 128) := by
  constructor
  · intro h
    refine ⟨h 0, fun j => ?_⟩
    rw [drop_drop, Nat.add_comm]
    exact h (j + 1)
  rintro ⟨hfirst, hrest⟩ j
  cases j with
  | zero => exact hfirst
  | succ j =>
    rw [Nat.mul_succ, Nat.add_comm, ← drop_drop]
    exact hrest j

theorem blocksFit_iff_of_le {sizes : List ℕ} (hlength : sizes.length ≤ 128) :
    BlocksFit sizes ↔ sizes.sum ≤ pageBytes := by
  rw [blocksFit_iff, take_of_length_le hlength, drop_eq_nil_of_le hlength]
  refine and_iff_left fun j => ?_
  rw [drop_nil, take_nil]
  exact Nat.zero_le _

/-! ### The search -/

section Search

variable {d : Device} {toLowerCase : DartString → DartString}
  (manifest : GroupFileManifest toLowerCase) (operationId : DartString) {w : Worker}

/-- What a page at the cursor is taken from. -/
def PageAt (d : Device) (w : Worker) (before : Option DartString) (rest : List Entry) : Prop :=
  w.readPage d.env before 128 = .ok (pageOf 128 rest 0 0)

section Reading

variable (hreached : Reached d.env w) (hhealthy : w.poisoned = false)

include hreached hhealthy

theorem readPage_of_select {before : Option DartString} {limit : ℤ} (hlimit : 1 ≤ limit)
    (hmax : limit ≤ 128) {rest : List Entry}
    (hselect : w.index.select d.env.text (.page before limit) = .ok (.entries rest limit))
    (hsub : ∀ e ∈ rest, e ∈ w.index.ordered) :
    w.readPage d.env before limit = .ok (pageOf limit.toNat rest 0 0) := by
  have hread : ∀ e ∈ rest, w.readEntry d.env e = .ok e.event :=
    fun e he => hreached.serves.readEntry (hsub e he)
  unfold Worker.readPage Worker.execute
  rw [hhealthy, if_neg Bool.false_ne_true, hselect]
  dsimp only
  rw [Worker.answer, read_eq hread, withLimit, checkLimit, if_neg (by omega)]
  rfl

theorem pageAt_none : PageAt d w none w.index.ordered.reverse :=
  readPage_of_select hreached hhealthy (by decide) (by decide) rfl
    fun _ he => mem_reverse.mp he

theorem pageAt_some {before rest : List Entry} {x : Entry}
    (hsplit : w.index.ordered.reverse = before ++ x :: rest) :
    PageAt d w (some x.event.eventId) rest := by
  have hsub : ∀ e ∈ rest, e ∈ w.index.ordered := fun e he =>
    mem_reverse.mp (hsplit ▸ mem_append_right _ (mem_cons_of_mem _ he))
  have hx : x ∈ w.index.ordered :=
    mem_reverse.mp (hsplit ▸ mem_append_right _ mem_cons_self)
  have hsorted : Sorted.SortedBy (fun e : Entry => OrderDual.toDual e.key)
      w.index.ordered.reverse := pairwise_reverse.mpr hreached.serves.sorted
  have hrest : (w.index.ordered.reverse.filter fun e => decide (e.key < x.key)) = rest := by
    rw [hsplit] at hsorted ⊢
    exact hsorted.filter_after
  have hget : w.index.entries.get x.event.eventId = some x := hreached.serves.entries x hx
  refine readPage_of_select hreached hhealthy (by decide) (by decide) ?_ hsub
  rw [Index.select, hget]
  dsimp only
  rw [hrest]

end Reading

/-- **What the search finds**: the newest event of the operation, if every 128 events from the newest
one down to it fit a page, and nothing else. -/
theorem findScheduled_of_first (hreached : Reached d.env w) (hhealthy : w.poisoned = false)
    {entry : Entry} {after : List Entry} (hentry : d.isScheduled operationId entry.event = true)
    {fuel : ℕ} {cursor : Option DartString} {seen before : List Entry}
    (hall : w.index.ordered.reverse = seen ++ (before ++ entry :: after))
    (hpage : PageAt d w cursor (before ++ entry :: after))
    (hbefore : ∀ e ∈ before, d.isScheduled operationId e.event = false)
    (hfuel : before.length < fuel) :
    (BlocksFit ((before ++ [entry]).map Entry.size) →
        d.findScheduled manifest operationId w fuel cursor = Device.reuse manifest entry.event) ∧
      (¬ BlocksFit ((before ++ [entry]).map Entry.size) →
        d.findScheduled manifest operationId w fuel cursor = .ok none) := by
  induction fuel generalizing cursor seen before with
  | zero => omega
  | succ fuel ih =>
  have hnone : ∀ k ≤ before.length,
      (((before ++ entry :: after).take k).map Entry.event).find? (d.isScheduled operationId) =
        none := by
    intro k hk
    rw [find?_eq_none]
    intro event hevent
    obtain ⟨e, he, rfl⟩ := mem_map.mp hevent
    rw [take_append_of_le_length hk] at he
    rw [hbefore e (mem_of_mem_take he)]
    exact Bool.false_ne_true
  have hcut : ∀ l : List Entry, (l ++ entry :: after).take (l.length + 1) = l ++ [entry] := by
    intro l
    rw [append_cons, take_left' (by rw [length_append, length_singleton])]
  unfold Device.findScheduled
  rw [hpage]
  dsimp only
  by_cases hshort : before.length < 128
  · -- the event is among the first 128, so this page decides
    have hsum : BlocksFit ((before ++ [entry]).map Entry.size) ↔
        ((before ++ [entry]).map Entry.size).sum ≤ pageBytes := by
      refine blocksFit_iff_of_le ?_
      rw [length_map, length_append]
      exact hshort
    rw [hsum]
    constructor
    · intro hfits
      have htake : (pageOf 128 (before ++ entry :: after) 0 0).take (before.length + 1) =
          (before ++ [entry]).map Entry.event := by
        rw [← hcut before]
        refine pageOf_take ?_ (by omega)
        rw [hcut, Nat.zero_add]
        exact hfits
      have hfind : (pageOf 128 (before ++ entry :: after) 0 0).find?
          (d.isScheduled operationId) = some entry.event := by
        rw [← take_append_drop (before.length + 1) (pageOf 128 _ 0 0), htake,
          find?_append, map_append, find?_append]
        have hhead := hnone before.length le_rfl
        rw [take_left' rfl] at hhead
        rw [hhead, none_or, map_singleton, find?_singleton, if_pos hentry,
          some_or]
      rw [hfind]
    · intro hover
      have hlength : (pageOf 128 (before ++ entry :: after) 0 0).length < before.length + 1 := by
        refine pageOf_length_lt (Nat.zero_le _) ?_
        rw [hcut, Nat.zero_add]
        exact not_le.mp hover
      rw [pageOf_eq_take_length, hnone _ (by omega)]
      rw [if_pos]
      rw [length_map, length_take]
      omega
  · -- the event is behind the first 128
    have hlong : 128 ≤ before.length := not_lt.mp hshort
    have hmax : (pageOf 128 (before ++ entry :: after) 0 0).length ≤ 128 :=
      pageOf_length_le _ (Nat.zero_le _)
    have hblocks : BlocksFit ((before ++ [entry]).map Entry.size) ↔
        ((before.take 128).map Entry.size).sum ≤ pageBytes ∧
          BlocksFit ((before.drop 128 ++ [entry]).map Entry.size) := by
      rw [blocksFit_iff, ← map_take, ← map_drop,
        take_append_of_le_length hlong, drop_append_of_le_length hlong]
    have hfirst : (before ++ entry :: after).take 128 = before.take 128 :=
      take_append_of_le_length hlong
    have hfound : (pageOf 128 (before ++ entry :: after) 0 0).find?
        (d.isScheduled operationId) = none := by
      rw [pageOf_eq_take_length]
      exact hnone _ (hmax.trans hlong)
    rw [hfound]
    rw [hblocks]
    by_cases hfits : ((before.take 128).map Entry.size).sum ≤ pageBytes
    · have hfull : pageOf 128 (before ++ entry :: after) 0 0 =
          (before.take 128).map Entry.event := by
        have htake : (pageOf 128 (before ++ entry :: after) 0 0).take 128 =
            ((before ++ entry :: after).take 128).map Entry.event := by
          refine pageOf_take ?_ (by omega)
          rw [hfirst, Nat.zero_add]
          exact hfits
        rw [take_of_length_le hmax, hfirst] at htake
        exact htake
      have hcount : (before.take 128).length = 128 := length_take_of_le hlong
      rw [hfull, length_map, hcount]
      -- the next page is behind the last event of this one
      obtain ⟨init, x, hinit⟩ : ∃ init x, before.take 128 = init ++ [x] := by
        rcases eq_nil_or_concat (before.take 128) with hnil | ⟨init, x, hconcat⟩
        · rw [hnil] at hcount
          cases hcount
        · exact ⟨init, x, by rw [hconcat, concat_eq_append]⟩
      have hsplit : before = init ++ x :: before.drop 128 := by
        rw [append_cons, ← hinit, take_append_drop]
      have hcursor : (((before.take 128).map Entry.event).getLast?.map
          GroupHistoryEvent.eventId) = some x.event.eventId := by
        rw [hinit, map_append, map_singleton, getLast?_concat]
        rfl
      have hall' : w.index.ordered.reverse =
          (seen ++ init ++ [x]) ++ (before.drop 128 ++ entry :: after) := by
        rw [hall]
        nth_rewrite 1 [hsplit]
        simp
      have hpage' : PageAt d w (some x.event.eventId) (before.drop 128 ++ entry :: after) := by
        have hsplit' : w.index.ordered.reverse =
            (seen ++ init) ++ x :: (before.drop 128 ++ entry :: after) := by
          rw [hall']
          simp
        exact pageAt_some hreached hhealthy hsplit'
      have hdrop : (before.drop 128).length < fuel := by
        rw [length_drop]
        omega
      have hih := ih hall' hpage' (fun e he => hbefore e (mem_of_mem_drop he)) hdrop
      rw [hcursor]
      exact ⟨fun h => hih.1 h.2, fun h => hih.2 fun hrest => h ⟨hfits, hrest⟩⟩
    · refine ⟨fun h => absurd h.1 hfits, fun _ => ?_⟩
      have hlength : (pageOf 128 (before ++ entry :: after) 0 0).length < 128 := by
        refine pageOf_length_lt (Nat.zero_le _) ?_
        rw [hfirst, Nat.zero_add]
        exact not_le.mp hfits
      rw [if_pos hlength]

end Search

/-! ### What is signed -/

section Signing

variable {d : Device} {identity : Identity} {w : Worker} {membershipId : DartString}
  {kind : GroupEventKind} {payload : List (DartString × Json)} {event : GroupHistoryEvent}

/-- A signed event is by this device, of the kind, has the frozen payload, and a time after that of the
newest event of the journal. -/
theorem sign_facts (hok : d.sign identity w membershipId kind payload = .ok event) :
    w.poisoned = false ∧ event.authorDeviceId = d.localDeviceId ∧ event.kind = kind ∧
      freeze (.obj payload) 0 = .ok (.obj event.payload) ∧
      ∃ latest, w.readPage d.env none 1 = .ok latest ∧
        event.lamport = (latest.head?.map GroupHistoryEvent.lamport).getD 0 + 1 := by
  unfold Device.sign at hok
  cases hprevious : eventOfAnswer (w.execute d.env (.authorHead d.localDeviceId)) with
  | error e => rw [hprevious] at hok; cases hok
  | ok previous =>
  have hhealthy : w.poisoned = false := by
    cases hpoisoned : w.poisoned with
    | false => rfl
    | true =>
      unfold Worker.execute at hprevious
      rw [hpoisoned] at hprevious
      cases hprevious
  rw [hprevious] at hok
  cases hlatest : w.readPage d.env none 1 with
  | error e => rw [hlatest] at hok; cases hok
  | ok latest =>
  rw [hlatest] at hok
  cases hkeys : identity.keyPair with
  | none => rw [hkeys] at hok; cases hok
  | some keyPair =>
    rw [hkeys] at hok
    obtain ⟨hauthor, hkind, hlamport, hpayload⟩ := fields_of_sign hok
    exact ⟨hhealthy, hauthor, hkind, hpayload, latest, rfl, Int.ofNat.inj hlamport⟩

theorem lamport_lt_of_sign (hreached : Reached d.env w)
    (hok : d.sign identity w membershipId kind payload = .ok event) {e : Entry}
    (he : e ∈ w.index.ordered) : e.event.lamport < event.lamport := by
  obtain ⟨hhealthy, -, -, -, latest, hlatest, hlamport⟩ := sign_facts hok
  have hmem : e ∈ w.index.ordered.reverse := mem_reverse.mpr he
  have hpage := @readPage_of_select d w hreached hhealthy none 1 (by decide) (by decide)
    w.index.ordered.reverse rfl fun _ he => mem_reverse.mp he
  have hsorted : Sorted.SortedBy (fun e : Entry => OrderDual.toDual e.key)
      w.index.ordered.reverse := pairwise_reverse.mpr hreached.serves.sorted
  have hsizes : ∀ e ∈ w.index.ordered.reverse, e.size ≤ pageBytes := by
    obtain ⟨l, hl⟩ := hreached.filed
    intro e he
    have hget := hreached.serves.entries e (mem_reverse.mp he)
    exact hl.size_le e (hl.get_iff.mp hget).1
  rw [hlatest] at hpage
  cases hordered : w.index.ordered.reverse with
  | nil =>
    rw [hordered] at hmem
    cases hmem
  | cons newest rest =>
  rw [hordered] at hpage hmem hsorted hsizes
  have hsize := hsizes newest mem_cons_self
  rw [pageOf, if_neg (by change ¬ (0 = 1 ∨ 0 + newest.size > pageBytes); omega)] at hpage
  obtain rfl := Except.ok.inj hpage
  have hle : e.event.lamport ≤ newest.event.lamport := by
    rcases mem_cons.mp hmem with rfl | hrest
    · exact Nat.le_refl _
    · have hlt : e.key < newest.key := (pairwise_cons.mp hsorted).1 e hrest
      exact Prod.Lex.monotone_fst_ofLex (le_of_lt hlt)
  rw [hlamport]
  exact Nat.lt_succ_of_le hle

end Signing

/-! ### Publishing again -/

section Again

variable {d : Device} {toLowerCase : DartString → DartString}
  (manifest : GroupFileManifest toLowerCase) (operationId : DartString)

/-- **The event of an earlier call is found again**: the device is in the group, the journal is open,
every 128 events from the newest one down to the event fit a page, no other event of the operation is
among them, and the waveform of a voice message is one of bytes. -/
structure FindsAgain (d : Device) (current : GroupRecord) (replica : Replica)
    (event : GroupHistoryEvent) : Prop where
  healthy : replica.worker.poisoned = false
  present : current.localRemovedAt = none
  active : current.hasActiveMember d.localDeviceId = true
  membership : replica.membership.current.isSome = true
  waveform : manifest.description.WaveformOfBytes
  newest : ∃ before entry after, replica.worker.index.ordered.reverse = before ++ entry :: after ∧
    entry.event = event ∧ (∀ e ∈ before, d.isScheduled operationId e.event = false) ∧
    BlocksFit ((before ++ [entry]).map Entry.size)

variable {manifest operationId}

/-- An event that carries the payload of the operation. -/
structure Carries (d : Device) (manifest : GroupFileManifest toLowerCase)
    (operationId : DartString) (event : GroupHistoryEvent) : Prop where
  operation : operationId ≠ [] ∧ operationId.length ≤ 160
  kind : event.kind = .attachment
  author : event.authorDeviceId = d.localDeviceId
  payload : freeze (.obj (manifest.description.scheduledPayload operationId)) 0 =
    .ok (.obj event.payload)

variable {event : GroupHistoryEvent}

section

variable (h : Carries d manifest operationId event)

include h

theorem Carries.isScheduled : d.isScheduled operationId event = true := by
  unfold Device.isScheduled
  rw [h.kind, h.author, GroupFileManifest.operationId_of_freeze manifest h.payload]
  simp

theorem Carries.reuse_iff :
    Device.reuse manifest event = .ok (some event) ↔ manifest.description.WaveformOfBytes := by
  obtain ⟨prior, hprior, hdescription⟩ :=
    GroupFileManifest.fromPayload_of_freeze manifest h.payload h.operation
  unfold Device.reuse GroupFileManifest.fromEvent
  rw [if_neg (not_not_intro h.kind), hprior]
  dsimp only
  rw [hdescription, ← FileDescription.clamped_toPayload_iff]
  split
  next hne => exact iff_of_false (fun hcontra => by cases hcontra) hne
  next heq => exact iff_of_true rfl (not_not.mp heq)

end

theorem eq_of_reuse {event' : GroupHistoryEvent}
    (hok : Device.reuse manifest event = .ok (some event')) : event = event' := by
  unfold Device.reuse at hok
  split at hok
  · cases hok
  · split at hok
    · cases hok
    · exact some.inj (Except.ok.inj hok)

theorem publishNew_ne {identity : Identity} {membershipId : DartString}
    {payload : List (DartString × Json)} {replica replica' : Replica} {nonce : Nonce}
    {io : WriteOutcome} (hreached : Reached d.env replica.worker) {entry : Entry}
    (hentry : entry ∈ replica.worker.index.ordered) :
    d.publishNew identity membershipId payload replica nonce io ≠ (replica', .ok entry.event) := by
  intro hpublished
  unfold Device.publishNew at hpublished
  cases hsign : d.sign identity replica.worker membershipId .attachment payload with
  | error e => rw [hsign] at hpublished; cases hpublished
  | ok event =>
  rw [hsign] at hpublished
  have hlt := lamport_lt_of_sign hreached hsign hentry
  dsimp only at hpublished
  split at hpublished
  · cases hpublished
  · obtain rfl : event = entry.event := Except.ok.inj (Prod.mk.inj hpublished).2
    exact lt_irrefl _ hlt

section

variable {identity : Identity} {current : GroupRecord}

theorem publishFile_again_iff {replica : Replica} {nonce : Nonce} {io : WriteOutcome}
    (hreached : Reached d.env replica.worker) (hcarries : Carries d manifest operationId event)
    (hheld : ∃ entry ∈ replica.worker.index.ordered, entry.event = event) :
    d.publishFile identity manifest current (some operationId) replica nonce io =
        (replica, .ok event) ↔
      FindsAgain manifest operationId d current replica event := by
  have hvalid : (some operationId).any (fun operationId =>
      operationId.isEmpty || decide (160 < operationId.length)) = false := by
    rw [any_some, Bool.or_eq_false_iff, isEmpty_eq_false_iff, decide_eq_false_iff_not,
      not_lt]
    exact hcarries.operation
  -- the newest event of the operation decides the search
  obtain ⟨entry, before, after, hsplit, hentry, hbefore⟩ : ∃ entry before after,
      replica.worker.index.ordered.reverse = before ++ entry :: after ∧
        d.isScheduled operationId entry.event = true ∧
        ∀ e ∈ before, d.isScheduled operationId e.event = false := by
    obtain ⟨held, hheld, rfl⟩ := hheld
    cases hfind : replica.worker.index.ordered.reverse.find? fun e =>
        d.isScheduled operationId e.event with
    | none =>
      have hnot := find?_eq_none.mp hfind held (mem_reverse.mpr hheld)
      exact absurd hcarries.isScheduled hnot
    | some entry =>
      obtain ⟨hentry, before, after, hsplit, hbefore⟩ := find?_eq_some_iff_append.mp hfind
      exact ⟨entry, before, after, hsplit, hentry, fun e he => by simpa using hbefore e he⟩
  have hfuel : before.length < replica.worker.index.ordered.length + 1 := by
    have hlength := congrArg length hsplit
    rw [length_reverse, length_append] at hlength
    omega
  have hall : replica.worker.index.ordered.reverse = [] ++ (before ++ entry :: after) := hsplit
  have hsearch := fun hhealthy : replica.worker.poisoned = false =>
    findScheduled_of_first manifest operationId hreached hhealthy hentry hall
      (hsplit ▸ pageAt_none hreached hhealthy) hbefore hfuel
  obtain ⟨held, hheldMem, hheldEvent⟩ := hheld
  unfold Device.publishFile
  rw [hvalid, if_neg Bool.false_ne_true]
  constructor
  · intro hpublished
    split at hpublished
    · cases hpublished
    next hmember =>
    rw [Bool.not_eq_true, Bool.or_eq_false_iff, isSome_eq_false_iff, isNone_iff_eq_none,
      Bool.not_eq_false'] at hmember
    cases hcurrent : replica.membership.current with
    | none => rw [hcurrent] at hpublished; cases hpublished
    | some membership =>
    rw [hcurrent] at hpublished
    dsimp only at hpublished
    cases hpoisoned : replica.worker.poisoned with
    | true =>
      have herror : d.findScheduled manifest operationId replica.worker
          (replica.worker.index.ordered.length + 1) none =
            .error "Reopen the journal after an I/O failure." := by
        unfold Device.findScheduled Worker.readPage Worker.execute
        rw [hpoisoned]
        rfl
      rw [herror] at hpublished
      cases hpublished
    | false =>
    obtain ⟨hfits, hover⟩ := hsearch hpoisoned
    by_cases hblocks : BlocksFit ((before ++ [entry]).map Entry.size)
    · rw [hfits hblocks] at hpublished
      cases hreuse : Device.reuse manifest entry.event with
      | error e => rw [hreuse] at hpublished; cases hpublished
      | ok found =>
      rw [hreuse] at hpublished
      cases found with
      | none =>
        rw [← hheldEvent] at hpublished
        exact absurd hpublished (publishNew_ne hreached hheldMem)
      | some found =>
      obtain rfl : found = event := Except.ok.inj (Prod.mk.inj hpublished).2
      have heq := eq_of_reuse hreuse
      rw [heq] at hreuse
      exact ⟨hpoisoned, hmember.1, hmember.2, by rw [hcurrent]; rfl,
        hcarries.reuse_iff.mp hreuse, before, entry, after, hsplit, heq, hbefore, hblocks⟩
    · rw [hover hblocks, ← hheldEvent] at hpublished
      exact absurd hpublished (publishNew_ne hreached hheldMem)
  · intro hfinds
    obtain ⟨before', entry', after', hsplit', hevent, hbefore', hblocks⟩ := hfinds.newest
    obtain ⟨membership, hcurrent⟩ := isSome_iff_exists.mp hfinds.membership
    have hentry' : d.isScheduled operationId entry'.event = true := by
      rw [hevent]
      exact hcarries.isScheduled
    have hlength := congrArg length hsplit'
    rw [length_reverse, length_append] at hlength
    have hfuel' : before'.length < replica.worker.index.ordered.length + 1 := by omega
    have hall' : replica.worker.index.ordered.reverse = [] ++ (before' ++ entry' :: after') :=
      hsplit'
    have hfound := (findScheduled_of_first manifest operationId hreached hfinds.healthy hentry'
      hall' (hsplit' ▸ pageAt_none hreached hfinds.healthy) hbefore' hfuel').1 hblocks
    rw [hfinds.present, hfinds.active, if_neg (by decide), hcurrent]
    dsimp only
    rw [hfound, hevent, hcarries.reuse_iff.mpr hfinds.waveform]

theorem carries_of_published {replica replica' : Replica} {nonce : Nonce} {io : WriteOutcome}
    (hpublished : d.publishFile identity manifest current (some operationId) replica nonce io =
      (replica', .ok event))
    (happended : replica'.worker.Retains event ∧ ¬ replica.worker.Retains event) :
    Carries d manifest operationId event ∧
      replica' = (d.importEvent replica event d.localDeviceId nonce io).1 := by
  unfold Device.publishFile at hpublished
  split at hpublished
  · cases hpublished
  next hoperation =>
  rw [any_some, Bool.not_eq_true, Bool.or_eq_false_iff, isEmpty_eq_false_iff,
    decide_eq_false_iff_not, not_lt] at hoperation
  split at hpublished
  · cases hpublished
  split at hpublished
  · cases hpublished
  next membership _ =>
  dsimp only at hpublished
  split at hpublished
  · cases hpublished
  · -- an event that was found was there before
    obtain rfl := (Prod.mk.inj hpublished).1
    exact absurd happended.1 happended.2
  unfold Device.publishNew at hpublished
  split at hpublished
  · cases hpublished
  next signed hsign =>
  obtain ⟨-, hauthor, hkind, hpayload, -⟩ := sign_facts hsign
  split at hpublished
  · cases hpublished
  next himport =>
  obtain ⟨rfl, hevent⟩ := Prod.mk.inj hpublished
  obtain rfl := Except.ok.inj hevent
  exact ⟨⟨hoperation, hkind, hauthor, hpayload⟩, by rw [himport]⟩

end

end Again

/-- **Publishing again, after any calls**: the event that an earlier call appended is returned, and
nothing is appended, if and only if it is found again. -/
theorem publish_again_iff (d : Device) {toLowerCase : DartString → DartString}
    (manifest : GroupFileManifest toLowerCase) (operationId : DartString)
    (calls : List Device.Call) (identity : Identity) (current : GroupRecord) (nonce : Nonce)
    (io : WriteOutcome) (published : Replica) (event : GroupHistoryEvent)
    (hpublished : d.publishFile identity manifest current (some operationId)
      (d.machine.run d.fresh calls) nonce io = (published, .ok event))
    (happended : published.worker.Retains event ∧
      ¬ (d.machine.run d.fresh calls).worker.Retains event)
    (later : List Device.Call) (identity' : Identity) (current' : GroupRecord) (nonce' : Nonce)
    (io' : WriteOutcome) :
    d.publishFile identity' manifest current' (some operationId) (d.machine.run published later)
        nonce' io' = (d.machine.run published later, .ok event) ↔
      FindsAgain manifest operationId d current' (d.machine.run published later) event := by
  obtain ⟨hcarries, himported⟩ := carries_of_published hpublished happended
  -- the first call was one more import of the run
  have hrun : published = d.machine.run d.fresh
      (calls ++ [.importEvent event d.localDeviceId nonce io]) := by
    rw [Machine.run_append, himported]
    rfl
  have hreached : Reached d.env (d.machine.run published later).worker := by
    rw [hrun, ← Machine.run_append]
    exact reached_run d _
  have hframed : published.Framed d := by
    rw [hrun]
    exact (ordered_run (framed_fresh d) _).1
  obtain ⟨entry, hget, hevent⟩ := happended.1
  have hordered : entry ∈ published.worker.index.ordered := by
    have hplaced : Placed published.worker.index := by
      rw [hrun]
      exact (reached_run d _).placed
    refine (hplaced.ordered_iff _ _ hget).mpr ⟨some event.eventId, ?_⟩
    unfold searchTarget
    rw [hevent, hcarries.kind]
  exact publishFile_again_iff hreached hcarries
    ⟨entry, (ordered_run hframed later).2 entry hordered, hevent⟩

/-! ### Imports that are written -/

section Imports

variable {d : Device} {replica : Replica} {nonce : Nonce} {io : WriteOutcome}

theorem importEvent_worker {event : GroupHistoryEvent} {carrier : DartString}
    (hforward : replica.membership.canForward d.env.crypto event carrier d.localDeviceId = true) :
    (d.importEvent replica event carrier nonce io).1.worker =
      (replica.worker.append d.env event nonce io).1 := by
  unfold Device.importEvent
  rw [hforward]
  rfl

theorem importMembership_worker {proof : GroupHistoryEvent}
    (haccepted : (d.importMembership replica proof nonce io).2 = .ok .accepted) :
    (d.importMembership replica proof nonce io).1.worker =
      (replica.worker.append d.env proof nonce io).1 := by
  unfold Device.importMembership at haccepted ⊢
  split at haccepted
  · cases haccepted
  next record hrecord =>
  split at haccepted
  · split at haccepted
    next happend => rw [happend]
    · cases haccepted
  next hother _ => exact (hother haccepted).elim

theorem run_imports {events : List GroupHistoryEvent} {carrier : DartString} {w : Worker}
    (hforward : ∀ event ∈ events,
      replica.membership.canForward d.env.crypto event carrier d.localDeviceId = true)
    (hall : appendAll d.env replica.worker (events.map fun event => (event, nonce)) = some w) :
    (d.machine.run replica (events.map fun event =>
      .importEvent event carrier nonce .written)).worker = w := by
  induction events generalizing replica with
  | nil => exact some.inj hall
  | cons event events ih =>
  rw [map_cons, appendAll] at hall
  split at hall
  swap
  · cases hall
  next w₁ happend =>
  have hworker : (d.importEvent replica event carrier nonce .written).1.worker = w₁ := by
    rw [importEvent_worker (hforward event mem_cons_self), happend]
  show (d.machine.run (d.importEvent replica event carrier nonce .written).1 _).worker = w
  apply ih
  · intro e he
    rw [importEvent_membership]
    exact hforward e (mem_cons_of_mem _ he)
  · rw [hworker]
    exact hall

end Imports

namespace Sample

open Group.Sample

def description : FileDescription :=
  ⟨DartString.ofString "a", DartString.ofString "b", 1, digest 0, [digest 0], [], none⟩

def smallFile : GroupFileManifest id := ⟨description, by decide⟩

def operation : DartString := DartString.ofString "s"

def upload : GroupHistoryEvent :=
  { event byOwner 1 1 (digest 0) isDigest_zero with
    kind := .attachment
    payload := sortByKey (description.scheduledPayload operation)
    payload_frozen := by decide }

def post (n : Fin 100) : GroupHistoryEvent :=
  { remark n with
    membershipId := digest 0
    membershipId_digest := isDigest_zero }

def posts : List GroupHistoryEvent := [post 1, post 2, post 3, post 4, post 5, post 6, post 7,
  post 8, post 9]

def textOf : Bytes → Bytes
  | [n] => if n < 4 then [n] else List.replicate 131000 n
  | bytes => bytes

def publishing : Codec where
  jsonEncode json := textOf (sequenceByte json)
  jsonDecode bytes :=
    match (proofOf root 0 :: upload :: posts).find? fun event =>
        UInt8.ofNat event.sequence == bytes.getLastD 0 with
    | some event => .ok event.canonicalJson
    | none => .error "Unexpected character"
  sha256 bytes :=
    let n := (bytes.getLastD 0).toNat
    if n < 4 then digest (Fin.ofNat 10 (n - 1)) else longDigest (Fin.ofNat 100 ((n - 4) / 2))

def publisher : Device :=
  { deviceOf owner with env := { twoEvents with codec := publishing } }

def signer : Identity :=
  ⟨owner.accountId, some ⟨owner.signingPublicKeyBase64.getD [], fun _ => List.replicate 86 65 ++ [61, 61]⟩⟩

def group : GroupRecord := snapshot [owner] [] 1

def opening : List Device.Call := [.importMembership (proofOf root 0) nonce .written]

def sharing : Replica :=
  (publisher.publishFile signer smallFile group (some operation)
    (publisher.machine.run publisher.fresh opening) nonce .written).1

-- one evaluation for everything that is said of the two replicas
theorem sharing_facts :
    ((publisher.publishFile signer smallFile group (some operation)
          (publisher.machine.run publisher.fresh opening) nonce .written).2 = .ok upload ∧
        (publisher.machine.run publisher.fresh opening).worker.index.entries.get upload.eventId =
          none ∧
        sharing.worker.index.entries.get upload.eventId = some ⟨upload, 29⟩) ∧
      (sharing.worker.poisoned = false ∧ sharing.membership.current.isSome = true ∧
        sharing.worker.index.ordered = [⟨proofOf root 0, 29⟩, ⟨upload, 29⟩]) ∧
      (Worker.fresh.append publisher.env (proofOf root 0) nonce .written).2 = .ok true ∧
      (publisher.importMembership publisher.fresh (proofOf root 0) nonce .written).2 =
        .ok .accepted ∧
      ((publisher.machine.run publisher.fresh opening).worker.append publisher.env upload nonce
        .written).2 = .ok true ∧
      (publisher.machine.run publisher.fresh opening).membership.canForward publisher.env.crypto
        upload publisher.localDeviceId publisher.localDeviceId = true := by
  decide +kernel

theorem published_upload :
    publisher.publishFile signer smallFile group (some operation)
      (publisher.machine.run publisher.fresh opening) nonce .written = (sharing, .ok upload) := by
  rw [← sharing_facts.1.1]
  unfold sharing
  exact Prod.mk.eta.symm

theorem appended_upload : sharing.worker.Retains upload ∧
    ¬ (publisher.machine.run publisher.fresh opening).worker.Retains upload := by
  obtain ⟨-, hbefore, hafter⟩ := sharing_facts.1
  refine ⟨⟨_, hafter, rfl⟩, ?_⟩
  rintro ⟨entry, hget, -⟩
  rw [hbefore] at hget
  cases hget

/-- **Publishing the file again** gives its event. -/
theorem publish_again_upload :
    publisher.publishFile signer smallFile group (some operation) sharing nonce .written =
      (sharing, .ok upload) := by
  obtain ⟨hhealthy, hmembership, hordered⟩ := sharing_facts.2.1
  refine (publish_again_iff publisher smallFile operation opening signer group nonce .written sharing
    upload published_upload appended_upload [] signer group nonce .written).mpr
      ⟨hhealthy, rfl, by decide, hmembership, ?_, [], ⟨upload, 29⟩,
        [⟨proofOf root 0, 29⟩], ?_, rfl, ?_, ?_⟩
  · intro voice hvoice
    cases hvoice
  · change sharing.worker.index.ordered.reverse = _
    rw [hordered]
    rfl
  · intro e he
    cases he
  · exact (blocksFit_iff_of_le (by decide)).mpr (by decide)

/-! Nine large messages push the file off the first page. -/

def busy : List Device.Call :=
  posts.map fun event => .importEvent event owner.deviceId nonce .written

theorem sha256_publishing (bytes : Bytes) : publishing.sha256 bytes =
    if (bytes.getLastD 0).toNat < 4 then digest (Fin.ofNat 10 ((bytes.getLastD 0).toNat - 1))
    else longDigest (Fin.ofNat 100 (((bytes.getLastD 0).toNat - 4) / 2)) := rfl

theorem getLastD_textOf {n : UInt8} (hn : ¬ n < 4) (l : Bytes) :
    (l ++ textOf [n]).getLastD 0 = n := by
  have htext : textOf [n] = replicate 130999 n ++ [n] := by
    rw [← replicate_succ', textOf, if_neg hn]
  rw [htext, ← append_assoc, getLastD_concat]

theorem length_textOf {n : UInt8} (hn : ¬ n < 4) : (textOf [n]).length = 131000 := by
  rw [textOf, if_neg hn, length_replicate]

def byteOf (event : GroupHistoryEvent) : UInt8 := UInt8.ofNat event.sequence

theorem posts_facts : ∀ event ∈ posts, ¬ byteOf event < 4 ∧
    sequenceByte event.canonicalJson = [byteOf event] ∧
    sequenceByte (.obj (sortByKey event.body)) = [byteOf event] ∧
    longDigest (Fin.ofNat 100 (((byteOf event).toNat - 4) / 2)) = event.eventId ∧
    ((proofOf root 0 :: upload :: posts).find? fun event' =>
      UInt8.ofNat event'.sequence == byteOf event) = some event ∧
    publisher.env.checkSignature event = .ok () ∧
    searchTarget event = .ok (some event.eventId) ∧
    publisher.isScheduled operation event = false ∧
    sharing.membership.canForward crypto event owner.deviceId owner.deviceId = true := by
  decide +kernel

def stored (event : GroupHistoryEvent) : Stored := ⟨event, nonce, publishing.encode event⟩

theorem codec_publisher : publisher.env.codec = publishing := rfl

section

variable {event : GroupHistoryEvent}

theorem storedOf_eq_stored (hgood : (stored event).Good publisher.env) :
    storedOf publisher.env (event, nonce) = some (stored event) := by
  refine storedOf_eq hgood rfl ?_
  rw [codec_publisher]
  dsimp only [stored]

theorem decodeEvent_stored :
    publisher.env.decodeEvent (stored event).clear = publishing.decode (publishing.encode event) := by
  unfold Env.decodeEvent
  rw [codec_publisher]
  dsimp only [stored]

theorem encode_post (hevent : event ∈ posts) : publishing.encode event = textOf [byteOf event] := by
  unfold Codec.encode publishing
  dsimp only
  rw [(posts_facts event hevent).2.1]

theorem good_post (hevent : event ∈ posts) : (stored event).Good publisher.env := by
  obtain ⟨hlarge, -, hbody, hid, hfind, hsigned, htarget, -⟩ := posts_facts event hevent
  refine ⟨?_, hsigned, ⟨_, htarget⟩⟩
  have hdigest : publishing.sha256 (publishing.signingBytes event) = event.eventId := by
    have hsigning : publishing.signingBytes event =
        "conest.group-event.v1\n".toList.map (fun c => UInt8.ofNat c.toNat) ++
          textOf [byteOf event] := by
      unfold Codec.signingBytes publishing
      dsimp only
      rw [hbody]
    have hfour : ¬ (byteOf event).toNat < 4 := fun hlt => hlarge (UInt8.lt_iff_toNat_lt.mpr hlt)
    rw [sha256_publishing, hsigning, getLastD_textOf hlarge, if_neg hfour]
    exact hid
  have hread : publishing.jsonDecode (textOf [byteOf event]) = .ok event.canonicalJson := by
    have hlast : (textOf [byteOf event]).getLastD 0 = byteOf event := by
      have h := getLastD_textOf hlarge []
      exact h
    unfold publishing
    dsimp only
    rw [hlast, hfind]
  have hshort : ¬ (textOf [byteOf event]).length > groupEventMaxBytes := by
    rw [length_textOf hlarge]
    decide
  rw [decodeEvent_stored, Codec.decode, encode_post hevent, if_neg hshort, hread]
  exact Codec.fromJson_canonicalJson hdigest

end

def Apart (a b : GroupHistoryEvent) : Prop :=
  a.eventId ≠ b.eventId ∧ sourceOf a = none ∧ a.sequence + 1 < b.sequence

instance (a b : GroupHistoryEvent) : Decidable (Apart a b) :=
  inferInstanceAs (Decidable (_ ∧ _ ∧ _))

theorem Apart.compatible {a b : Entry} (h : Apart a.event b.event) : Index.Compatible a b := by
  obtain ⟨hid, hsource, hsequence⟩ := h
  refine ⟨hid, fun _ source ha _ => ?_, fun _ heq => ?_, fun _ heq => ?_, fun _ heq => ?_⟩
  · rw [hsource] at ha
    cases ha
  · omega
  · omega
  · omega

theorem good_first : ∀ event ∈ [proofOf root 0, upload], (stored event).Good publisher.env := by
  have hdecodes : ∀ event ∈ [proofOf root 0, upload],
      publishing.decode (publishing.encode event) = .ok event ∧
        publisher.env.checkSignature event = .ok () ∧
        (searchTarget event = .ok none ∨ searchTarget event = .ok (some event.eventId)) := by
    decide +kernel
  intro event hevent
  obtain ⟨hdecode, hsigned, htarget⟩ := hdecodes event hevent
  refine ⟨?_, hsigned, htarget.elim (fun h => ⟨_, h⟩) fun h => ⟨_, h⟩⟩
  rw [decodeEvent_stored]
  exact hdecode

theorem worker_sharing : appendAll publisher.env Worker.fresh
    ([proofOf root 0, upload].map fun event => (event, nonce)) = some sharing.worker := by
  obtain ⟨hroot, haccepted, hupload, hforward⟩ := sharing_facts.2.2
  have hopening : (publisher.machine.run publisher.fresh opening).worker =
      (Worker.fresh.append publisher.env (proofOf root 0) nonce .written).1 :=
    importMembership_worker haccepted
  have hsharing := (carries_of_published published_upload appended_upload).2
  rw [map_cons, appendAll, map_singleton]
  cases happend : Worker.fresh.append publisher.env (proofOf root 0) nonce .written with
  | mk w result =>
  rw [happend] at hroot hopening
  subst hroot
  dsimp only at hopening ⊢
  rw [← hopening, appendAll]
  cases happend' : (publisher.machine.run publisher.fresh opening).worker.append publisher.env
    upload nonce .written with
  | mk w' result' =>
    rw [happend'] at hupload
    subst hupload
    rw [hsharing, importEvent_worker hforward, happend']
    rfl

theorem holds_busy : Holds publisher.env (publisher.machine.run sharing busy).worker
    ((proofOf root 0 :: upload :: posts).map stored) := by
  have hstored : ∀ events : List GroupHistoryEvent,
      (∀ event ∈ events, (stored event).Good publisher.env) →
        (events.map fun event => (event, nonce)).filterMap (storedOf publisher.env) =
          events.map stored := by
    intro events hevents
    induction events with
    | nil => rfl
    | cons event events ih =>
      rw [map_cons, filterMap_cons_some
        (storedOf_eq_stored (hevents event mem_cons_self)), map_cons,
        ih fun e he => hevents e (mem_cons_of_mem _ he)]
  have hsharing := ((Holds.initial publisher.env).of_appendAll worker_sharing).1
  rw [hstored _ good_first] at hsharing
  have hapart : (∀ a ∈ [proofOf root 0, upload], ∀ b ∈ posts, Apart a b) ∧ posts.Pairwise Apart := by
    decide +kernel
  have hcompat : (([proofOf root 0, upload].map stored ++ (posts.map fun event =>
      (event, nonce)).filterMap (storedOf publisher.env)).map Stored.entry).Pairwise
        Index.Compatible := by
    rw [hstored posts fun _ => good_post, map_append, pairwise_append]
    refine ⟨hsharing.compatible, ?_, ?_⟩
    · rw [pairwise_map, pairwise_map]
      exact hapart.2.imp fun h => Apart.compatible h
    intro a ha b hb
    obtain ⟨_, ha', rfl⟩ := mem_map.mp ha
    obtain ⟨_, hb', rfl⟩ := mem_map.mp hb
    obtain ⟨x, hx, rfl⟩ := mem_map.mp ha'
    obtain ⟨y, hy, rfl⟩ := mem_map.mp hb'
    exact Apart.compatible (hapart.1 x hx y hy)
  have hcalls : ∀ call ∈ posts.map fun event => (event, nonce),
      ∃ x, storedOf publisher.env call = some x ∧ Stored.Good publisher.env x := by
    rintro call hcall
    obtain ⟨event, hevent, rfl⟩ := mem_map.mp hcall
    exact ⟨_, storedOf_eq_stored (good_post hevent), good_post hevent⟩
  obtain ⟨w, hall, hholds⟩ := hsharing.append_all hcalls hcompat
  have hworker : (publisher.machine.run sharing busy).worker = w :=
    run_imports (fun event hevent => (posts_facts event hevent).2.2.2.2.2.2.2.2) hall
  rw [hworker]
  rw [hstored posts fun _ => good_post] at hholds
  exact hholds

theorem ordered_busy : (publisher.machine.run sharing busy).worker.index.ordered =
    (proofOf root 0 :: upload :: posts).map fun event => (stored event).entry := by
  have hdescribes := holds_busy.describes
  have hkeys : ((proofOf root 0 :: upload :: posts).map fun event => toLex (event.lamport,
      toLex (event.authorDeviceId, toLex (event.sequence, event.eventId)))).Pairwise (· < ·) := by
    decide
  refine Sorted.eq_of_sorted hdescribes.ordered_sorted ?_ fun e => ?_
  · rw [pairwise_map] at hkeys
    unfold Sorted.SortedBy
    rw [pairwise_map]
    exact hkeys
  · rw [hdescribes.ordered_mem]
    rfl

/-- **The file is published twice.** Behind nine messages of 131028 bytes the search does not reach its
event, and the second call does not return it. -/
theorem published_twice :
    publisher.publishFile signer smallFile group (some operation)
        (publisher.machine.run publisher.fresh opening) nonce .written = (sharing, .ok upload) ∧
      (sharing.worker.Retains upload ∧
        ¬ (publisher.machine.run publisher.fresh opening).worker.Retains upload) ∧
      publisher.publishFile signer smallFile group (some operation)
        (publisher.machine.run sharing busy) nonce .written ≠
          (publisher.machine.run sharing busy, .ok upload) := by
  refine ⟨published_upload, appended_upload, fun hagain => ?_⟩
  obtain ⟨hcarries, -⟩ := carries_of_published published_upload appended_upload
  have hreached : Reached publisher.env (publisher.machine.run sharing busy).worker := by
    have hsharing : sharing = publisher.machine.run publisher.fresh
        (opening ++ [.importEvent upload publisher.localDeviceId nonce .written]) := by
      rw [(carries_of_published published_upload appended_upload).2]
      rfl
    rw [hsharing, ← Machine.run_append]
    exact reached_run publisher _
  have hordered := ordered_busy
  have hheld : ∃ entry ∈ (publisher.machine.run sharing busy).worker.index.ordered,
      entry.event = upload := by
    rw [hordered]
    exact ⟨(stored upload).entry, mem_of_getElem? (i := 1) rfl, rfl⟩
  obtain ⟨before, entry, after, hsplit, hentry, hbefore, hblocks⟩ :=
    ((publishFile_again_iff hreached hcarries hheld).mp hagain).newest
  have hreverse : (publisher.machine.run sharing busy).worker.index.ordered.reverse =
      posts.reverse.map (fun event => (stored event).entry) ++
        [(stored upload).entry, (stored (proofOf root 0)).entry] := by
    rw [hordered]
    rfl
  have hbehind : before = posts.reverse.map fun event => (stored event).entry := by
    rw [hreverse] at hsplit
    rcases append_eq_append_iff.mp hsplit.symm with
      ⟨rest, hposts, hrest⟩ | ⟨rest, hposts, hrest⟩
    · cases rest with
      | nil => rw [hposts, append_nil]
      | cons e rest =>
        -- no message is the file
        obtain ⟨rfl, -⟩ := cons.inj hrest
        have hmem : entry ∈ posts.reverse.map fun event => (stored event).entry := by
          rw [hposts]
          exact mem_append_right _ mem_cons_self
        obtain ⟨event, hevent, heq⟩ := mem_map.mp hmem
        have hpost := (posts_facts event (mem_reverse.mp hevent)).2.2.2.2.2.2.2.1
        have hsame : event = upload := by
          rw [← hentry, ← heq]
          rfl
        rw [hsame] at hpost
        cases hpost
    · cases rest with
      | nil => rw [hposts, append_nil]
      | cons e rest =>
        -- the file is not before itself
        obtain ⟨rfl, -⟩ := cons.inj hrest
        have hnot : publisher.isScheduled operation upload = false :=
          hbefore (stored upload).entry (hposts ▸ mem_append_right _ mem_cons_self)
        cases hnot
  have hsizes : before.map Entry.size = posts.reverse.map fun _ => 131028 := by
    rw [hbehind, List.map_map]
    refine map_congr_left fun event hevent => ?_
    have hpost := mem_reverse.mp hevent
    dsimp only [Function.comp, stored, Stored.entry, Stored.size, Entry.size]
    rw [encode_post hpost, length_textOf (posts_facts event hpost).1]
  have hlength : ((before ++ [entry]).map Entry.size).length ≤ 128 := by
    rw [hbehind, length_map, length_append, length_singleton]
    decide
  rw [blocksFit_iff_of_le hlength, map_append, hsizes, sum_append] at hblocks
  have hover : pageBytes < (posts.reverse.map fun _ => 131028).sum := by decide
  omega

end Sample

end Journal
end Conest
