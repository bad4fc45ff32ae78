import Conest.Call.Refusal
import Conest.Lib.Sorted

/-!
# The forwarder of a call

In a large call, or over poor links, one participant forwards the media of the others. The
coordinator elects it from what it knows of the links (`updateTopology`), and publishes the
measurements, those that it leaves out and the result. A receiver elects again from what was
published before it takes the result (`receiveTopology`).

The election takes the least of the candidates in one order (`elect_eq_some_iff`), so it depends on
neither order of the participants nor of the measurements (`elect_congr`), and the receiver elects
whom the coordinator elected (`elected_alike`). What is left is the rule that there is no large call
without a forwarder: the coordinator breaks it when every participant has failed
(`topology_agrees_iff`).

A room has its measurements beside it (`MeasuredRoom`). What the two functions do to the room itself
is what they do with an election that was made outside (`room_updateTopology`,
`room_receiveTopology`).
-/

namespace Conest
namespace Call

open Lib Lib.DartString List Option
open Lib.Json (valueAt)

/-! ### Measurements -/

/-- What the measurements take from floating point: the losses that are named in the code, and how
a loss is written to JSON and read from a number. -/
structure Doubles (D : Type) where
  zero : D
  tenth : D
  one : D
  toJson : D → Json
  ofJson : Json → Option D

/-- `GroupCallLinkStats` -/
structure GroupCallLinkStats (D : Type) where
  desktop : Bool
  mains : Bool
  metered : Bool
  rttMs : ℤ
  loss : D
deriving DecidableEq

variable {D : Type} [LinearOrder D] (doubles : Doubles D)

namespace GroupCallLinkStats

def poor (stats : GroupCallLinkStats D) : Bool :=
  decide (350 < stats.rttMs) || decide (doubles.tenth < stats.loss)

omit [LinearOrder D] in
def toJson (stats : GroupCallLinkStats D) : Json :=
  .obj [(ofString "desktop", .bool stats.desktop), (ofString "mains", .bool stats.mains),
    (ofString "metered", .bool stats.metered), (ofString "rttMs", .int stats.rttMs),
    (ofString "loss", doubles.toJson stats.loss)]

/-- `none` where a `FormatException` is thrown. -/
def fromJson : Json → Option (GroupCallLinkStats D)
  | .obj json =>
    match valueAt json "desktop", valueAt json "mains", valueAt json "metered",
        valueAt json "rttMs", doubles.ofJson (valueAt json "loss") with
    | .bool desktop, .bool mains, .bool metered, .int rttMs, some loss =>
      if rttMs < 0 ∨ 60000 < rttMs ∨ loss < doubles.zero ∨ doubles.one < loss then none
      else some ⟨desktop, mains, metered, rttMs, loss⟩
    | _, _, _, _, _ => none
  | _ => none

/-- What is assumed of a participant that nothing is known of. -/
def unknown : GroupCallLinkStats D := ⟨false, false, true, 60000, doubles.one⟩

end GroupCallLinkStats

/-! ### The election -/

section Election

variable (participants : List GroupCallParticipant)
  (stats : LinkedMap DartString (GroupCallLinkStats D))

omit [LinearOrder D] in
/-- `stats[id] ?? unknown` -/
def statsOf (id : DartString) : GroupCallLinkStats D :=
  (stats.get id).getD (GroupCallLinkStats.unknown doubles)

/-- What the election compares, in its order: a desktop, on mains, not metered, then the round trip,
the loss and the id. -/
def electionKey (id : DartString) : Bool ×ₗ Bool ×ₗ Bool ×ₗ ℤ ×ₗ D ×ₗ DartString :=
  let s := statsOf doubles stats id
  toLex (!s.desktop, toLex (!s.mains, toLex (s.metered, toLex (s.rttMs, toLex (s.loss, id)))))

/-- The candidates: degraded links are left out when there is a healthy one. -/
def electionCandidates : List DartString :=
  let ids := participants.map GroupCallParticipant.deviceId
  let healthy := ids.filter fun id => !(statsOf doubles stats id).poor doubles
  if healthy.isEmpty then ids else healthy

/-- `electGroupCallForwarder` -/
def electGroupCallForwarder : Option DartString :=
  if participants.isEmpty then none
  else
    ((electionCandidates doubles participants stats).insertionSort fun a b =>
      electionKey doubles stats a ≤ electionKey doubles stats b).head?

variable {doubles participants stats}

omit [LinearOrder D] in
theorem electionKey_injective : Function.Injective (electionKey doubles stats) := by
  intro a b h
  unfold electionKey at h
  simp only [EmbeddingLike.apply_eq_iff_eq, Prod.mk.injEq] at h
  exact h.2.2.2.2.2

theorem mem_electionCandidates {id : DartString} :
    id ∈ electionCandidates doubles participants stats ↔
      (∃ p ∈ participants, p.deviceId = id) ∧
        ((statsOf doubles stats id).poor doubles = false ∨
          ∀ p ∈ participants, (statsOf doubles stats p.deviceId).poor doubles = true) := by
  unfold electionCandidates
  dsimp only
  split
  · next hempty =>
    have hpoor : ∀ p ∈ participants, (statsOf doubles stats p.deviceId).poor doubles = true := by
      intro p hp
      rw [List.isEmpty_iff, List.filter_eq_nil_iff] at hempty
      have hnot := hempty p.deviceId (mem_map_of_mem hp)
      rwa [Bool.not_eq_true', Bool.not_eq_false] at hnot
    rw [List.mem_map]
    exact (and_iff_left (.inr hpoor)).symm
  next hsome =>
  rw [List.mem_filter, List.mem_map, Bool.not_eq_true']
  refine and_congr_right fun _ => (or_iff_left fun hpoor => hsome ?_).symm
  rw [List.isEmpty_iff, List.filter_eq_nil_iff]
  intro id hid
  obtain ⟨p, hp, rfl⟩ := mem_map.mp hid
  rw [hpoor p hp]
  exact Bool.false_ne_true

theorem electionCandidates_ne_nil (hsome : participants ≠ []) :
    electionCandidates doubles participants stats ≠ [] := by
  unfold electionCandidates
  dsimp only
  split
  · rwa [ne_eq, map_eq_nil_iff]
  next hne => rwa [List.isEmpty_iff] at hne

theorem elect_eq_none_iff :
    electGroupCallForwarder doubles participants stats = none ↔ participants = [] := by
  unfold electGroupCallForwarder
  simp only [List.isEmpty_iff]
  split
  next hnone => exact iff_of_true rfl hnone
  next hsome =>
  refine iff_of_false (fun hhead => ?_) hsome
  rw [List.head?_eq_none_iff, ← List.length_eq_zero_iff, List.length_insertionSort,
    List.length_eq_zero_iff] at hhead
  exact electionCandidates_ne_nil hsome hhead

theorem elect_eq_some_iff {id : DartString} :
    electGroupCallForwarder doubles participants stats = some id ↔
      id ∈ electionCandidates doubles participants stats ∧
        ∀ other ∈ electionCandidates doubles participants stats,
          electionKey doubles stats id ≤ electionKey doubles stats other := by
  unfold electGroupCallForwarder
  simp only [List.isEmpty_iff]
  split
  · next hnone =>
    refine iff_of_false (by simp) fun h => ?_
    obtain ⟨p, hp, -⟩ := (mem_electionCandidates.mp h.1).1
    rw [hnone] at hp
    exact List.not_mem_nil hp
  · exact Sorted.head?_insertionSort_iff electionKey_injective

/-- **The election depends on the set of participants and on what is known of each**, not on any
order. -/
theorem elect_congr {participants' : List GroupCallParticipant}
    {stats' : LinkedMap DartString (GroupCallLinkStats D)}
    (hids : ∀ id, (∃ p ∈ participants, p.deviceId = id) ↔ ∃ p ∈ participants', p.deviceId = id)
    (hstats : ∀ p ∈ participants, stats.get p.deviceId = stats'.get p.deviceId) :
    electGroupCallForwarder doubles participants stats =
      electGroupCallForwarder doubles participants' stats' := by
  have hof : ∀ id, (∃ p ∈ participants, p.deviceId = id) →
      statsOf doubles stats id = statsOf doubles stats' id := by
    rintro _ ⟨p, hp, rfl⟩
    unfold statsOf
    rw [hstats p hp]
  have hpoor : (∀ p ∈ participants, (statsOf doubles stats p.deviceId).poor doubles = true) ↔
      ∀ p ∈ participants', (statsOf doubles stats' p.deviceId).poor doubles = true := by
    constructor
    · intro h p' hp'
      obtain ⟨p, hp, hid⟩ := (hids p'.deviceId).mpr ⟨p', hp', rfl⟩
      rw [← hid, ← hof p.deviceId ⟨p, hp, rfl⟩]
      exact h p hp
    · intro h p hp
      obtain ⟨p', hp', hid⟩ := (hids p.deviceId).mp ⟨p, hp, rfl⟩
      rw [hof p.deviceId ⟨p, hp, rfl⟩, ← hid]
      exact h p' hp'
  have hcandidates : ∀ id, id ∈ electionCandidates doubles participants stats ↔
      id ∈ electionCandidates doubles participants' stats' := by
    intro id
    rw [mem_electionCandidates, mem_electionCandidates, ← hids, hpoor]
    exact and_congr_right fun hid => by rw [hof id hid]
  have hkey : ∀ id ∈ electionCandidates doubles participants stats,
      electionKey doubles stats id = electionKey doubles stats' id := by
    intro id hid
    unfold electionKey
    rw [hof id (mem_electionCandidates.mp hid).1]
  ext id
  rw [elect_eq_some_iff, elect_eq_some_iff, ← hcandidates]
  refine and_congr_right fun hid => ⟨fun h other hother => ?_, fun h other hother => ?_⟩
  · rw [← hcandidates] at hother
    rw [← hkey id hid, ← hkey other hother]
    exact h other hother
  · rw [hkey id hid, hkey other hother]
    exact h other ((hcandidates other).mp hother)

end Election

/-! ### What is published -/

/-- An entry of the snapshot is of a participant, with measurements in order. -/
def parseStatsEntry (participants : List GroupCallParticipant) (entry : DartString × Json) :
    Option (DartString × GroupCallLinkStats D) :=
  if participants.any fun p => decide (p.deviceId = entry.1) then
    (GroupCallLinkStats.fromJson doubles entry.2).map fun stats => (entry.1, stats)
  else none

/-- `parseGroupCallStatsSnapshot`, `none` where a `FormatException` is thrown. -/
def parseGroupCallStatsSnapshot (participants : List GroupCallParticipant) :
    Json → Option (LinkedMap DartString (GroupCallLinkStats D))
  | .obj json =>
    if groupCallMaxParticipants < json.length then none
    else (json.mapM (parseStatsEntry doubles participants)).map LinkedMap.ofEntries
  | _ => none

/-- An excluded id is a text, and that of a participant. -/
def parseExcludedId (participants : List GroupCallParticipant) : Json → Option DartString
  | .str id => if participants.any fun p => decide (p.deviceId = id) then some id else none
  | _ => none

/-- `_parseExcluded`, `none` where a `FormatException` is thrown. -/
def parseExcluded (participants : List GroupCallParticipant) : Json → Option (List DartString)
  | .list ids =>
    if groupCallMaxParticipants < ids.length then none else ids.mapM (parseExcludedId participants)
  | _ => none

/-- A room with what is known of its links. A roster has no more participants than a call may
have. -/
structure MeasuredRoom (D : Type) where
  room : GroupCallRoom
  stats : LinkedMap DartString (GroupCallLinkStats D)
  statsIssued : LinkedMap DartString ℤ
  failedForwarders : LinkedMap DartString ℤ
  poorSince : Option ℤ
  participants_le : room.participants.length ≤ groupCallMaxParticipants

namespace MeasuredRoom

variable (device : Device) (now : ℤ) (t : MeasuredRoom D)

omit [LinearOrder D] in
/-- The forwarders that failed a short while ago. -/
def failed : LinkedMap DartString ℤ :=
  t.failedForwarders.filter fun _ expiry => decide (now < expiry)

/-- Since when some link is poor. -/
def poorFrom : Option ℤ :=
  if t.stats.entries.any fun entry => entry.2.poor doubles then some (t.poorSince.getD now)
  else none

/-- `needsForwarder`: the call is large, or links have been poor for three seconds. -/
def needsForwarder : Bool :=
  decide (device.meshLimit < t.room.participants.length) ||
    (t.poorFrom doubles now).any fun since => decide (seconds 3 ≤ now - since)

/-- The participants that have not failed. -/
def standing : List GroupCallParticipant :=
  t.room.participants.filter fun p => !(t.failed now).contains p.deviceId

def selected : Option DartString :=
  if t.needsForwarder doubles device now then
    electGroupCallForwarder doubles (t.standing now) t.stats
  else none

/-- The payload of the topology signal. -/
def topologyPayload (version : ℤ) (selected : Option DartString) : List (DartString × Json) :=
  [(ofString "term", .int t.room.term), (ofString "version", .int version),
    (ofString "rosterVersion", .int t.room.version),
    (ofString "forwarder", (selected.map Json.str).getD .null),
    (ofString "stats", .obj ((t.stats.entries.filter fun entry => t.room.has entry.1).map
      fun entry => (entry.1, entry.2.toJson doubles))),
    (ofString "excluded", .list (((t.failed now).keys.filter t.room.has).map Json.str))]

/-- `_updateTopology`, and the payload that is sent, if any. -/
def updateTopology : MeasuredRoom D × Option (List (DartString × Json)) :=
  if t.room.coordinator ≠ device.localDeviceId ∨ t.room.connected = false then (t, none)
  else
    let selected := t.selected doubles device now
    let kept := { t with
      failedForwarders := t.failed now
      poorSince := t.poorFrom doubles now }
    if t.room.forwarder ≠ selected ∨
        t.room.lastTopologySent.all fun last => decide (seconds 5 ≤ now - last) then
      ({ kept with
          room := { t.room with
            forwarder := selected
            topologyVersion := t.room.topologyVersion + 1
            lastTopologySent := some now }
          participants_le := t.participants_le },
        some (t.topologyPayload doubles now (t.room.topologyVersion + 1) selected))
    else (kept, none)

/-- `room.stats.addAll(snapshot)`, with the forwarder set. -/
def withTopology (revision : ℤ) (forwarder : Option DartString)
    (snapshot : LinkedMap DartString (GroupCallLinkStats D)) : MeasuredRoom D :=
  { t with
    room := { t.room with
      topologyVersion := revision
      forwarder }
    stats := snapshot.entries.foldl (fun stats entry => stats.put entry.1 entry.2) t.stats
    participants_le := t.participants_le }

/-- The forwarder that a receiver elects from what was published. -/
def reelected (snapshot : LinkedMap DartString (GroupCallLinkStats D))
    (excluded : List DartString) : Option DartString :=
  electGroupCallForwarder doubles
    (t.room.participants.filter fun p => decide (p.deviceId ∉ excluded)) snapshot

/-- A topology signal of a room. -/
def receiveTopology (signal : GroupCallSignal) : MeasuredRoom D × Verdict :=
  if signal.senderDeviceId ≠ t.room.coordinator ∨
      valueAt signal.payload "rosterVersion" ≠ .int t.room.version then (t, .refused "L818")
  else
    match valueAt signal.payload "version" with
    | .int revision =>
      if revision ≤ t.room.topologyVersion ∨ 0x7fffffff < revision then (t, .refused "L824")
      else
        match parseGroupCallStatsSnapshot doubles t.room.participants
            (valueAt signal.payload "stats"),
          parseExcluded t.room.participants (valueAt signal.payload "excluded") with
        | some snapshot, some excluded =>
          match valueAt signal.payload "forwarder" with
          | .null =>
            if device.meshLimit < t.room.participants.length then (t, .refused "L845")
            else (t.withTopology revision none snapshot, .taken)
          | .str forwarder =>
            if t.reelected doubles snapshot excluded = some forwarder then
              (t.withTopology revision (some forwarder) snapshot, .taken)
            else (t, .refused "L841")
          | _ => (t, .refused "L841")
        | _, _ => (t, .thrown .format)
    | _ => (t, .refused "L824")

/-- A stats signal of a room. A forwarder that a participant hears nothing from counts as failed for
five seconds. -/
def receiveStats (signal : GroupCallSignal) : MeasuredRoom D × Verdict :=
  let sender := signal.senderDeviceId
  if t.room.has sender = false then (t, .refused "L800")
  else
    match GroupCallLinkStats.fromJson doubles (.obj signal.payload) with
    | none => (t, .thrown .format)
    | some stats =>
      if (t.statsIssued.get sender).any fun issued => decide (signal.issuedAt < issued) then
        (t, .refused "L805")
      else
        ({ t with
            stats := t.stats.put sender stats
            statsIssued := t.statsIssued.put sender signal.issuedAt
            failedForwarders :=
              match valueAt signal.payload "silentForwarder" with
              | .str silent =>
                if t.room.forwarder = some silent then
                  t.failedForwarders.put silent (now + seconds 5)
                else t.failedForwarders
              | _ => t.failedForwarders }, .taken)

/-! ### The room by itself -/

variable {doubles device now t}

theorem room_updateTopology (m : Moment) :
    (t.updateTopology doubles device now).1.room =
      t.room.updateTopology device { m with
        now
        selected := t.selected doubles device now } := by
  unfold updateTopology GroupCallRoom.updateTopology
  split
  · rfl
  dsimp only
  split
  · rfl
  · rfl

variable (doubles t) in
/-- Whether the measurements in a signal are in order and elect the forwarder that it names. -/
def measured (signal : GroupCallSignal) : Bool :=
  match parseGroupCallStatsSnapshot doubles t.room.participants (valueAt signal.payload "stats"),
    parseExcluded t.room.participants (valueAt signal.payload "excluded") with
  | some snapshot, some excluded =>
    match valueAt signal.payload "forwarder" with
    | .str forwarder => decide (t.reelected doubles snapshot excluded = some forwarder)
    | _ => true
  | _, _ => false

/-- **A topology signal does to the room what it does there**, and is taken where it is taken. -/
theorem room_receiveTopology (m : Moment) (signal : GroupCallSignal) :
    (t.receiveTopology doubles device signal).1.room =
        (GroupCallService.receiveTopology device
          { m with measured := t.measured doubles signal } t.room signal).1 ∧
      ((t.receiveTopology doubles device signal).2 = .taken ↔
        (GroupCallService.receiveTopology device
          { m with measured := t.measured doubles signal } t.room signal).2 = .taken) := by
  have hthrown : Verdict.thrown .format = Verdict.taken ↔ Verdict.refused "L841" = .taken :=
    iff_of_false (fun h => nomatch h) fun h => nomatch h
  unfold receiveTopology GroupCallService.receiveTopology measured
  by_cases hother : signal.senderDeviceId ≠ t.room.coordinator ∨
      valueAt signal.payload "rosterVersion" ≠ .int t.room.version
  · rw [if_pos hother, if_pos hother]
    exact ⟨rfl, Iff.rfl⟩
  rw [if_neg hother, if_neg hother]
  cases valueAt signal.payload "version" with
  | null => exact ⟨rfl, Iff.rfl⟩
  | bool b => exact ⟨rfl, Iff.rfl⟩
  | str s => exact ⟨rfl, Iff.rfl⟩
  | list elements => exact ⟨rfl, Iff.rfl⟩
  | obj entries => exact ⟨rfl, Iff.rfl⟩
  | int revision =>
  dsimp only
  by_cases hold : revision ≤ t.room.topologyVersion ∨ 0x7fffffff < revision
  · rw [if_pos hold, if_pos hold]
    exact ⟨rfl, Iff.rfl⟩
  rw [if_neg hold, if_neg hold]
  cases parseGroupCallStatsSnapshot doubles t.room.participants
      (valueAt signal.payload "stats") with
  | none => exact ⟨rfl, hthrown⟩
  | some snapshot =>
    cases parseExcluded t.room.participants (valueAt signal.payload "excluded") with
    | none => exact ⟨rfl, hthrown⟩
    | some excluded =>
    cases valueAt signal.payload "forwarder" with
    | null =>
      dsimp only
      split
      · exact ⟨rfl, Iff.rfl⟩
      · exact ⟨rfl, Iff.rfl⟩
    | str forwarder =>
      dsimp only
      split
      · next helected =>
        rw [if_neg (by simp [helected])]
        exact ⟨rfl, Iff.rfl⟩
      next helected =>
      rw [if_pos (decide_eq_false helected)]
      exact ⟨rfl, Iff.rfl⟩
    | bool b => exact ⟨rfl, Iff.rfl⟩
    | int n => exact ⟨rfl, Iff.rfl⟩
    | list elements => exact ⟨rfl, Iff.rfl⟩
    | obj entries => exact ⟨rfl, Iff.rfl⟩

end MeasuredRoom

/-! ### Agreement -/

/-- The second room is of the same call: it has the same coordinator, the same version of the roster
with the same participants, in any order, and an older topology. -/
structure SameCall (c r : GroupCallRoom) : Prop where
  coordinator : r.coordinator = c.coordinator
  version : r.version = c.version
  participants : r.participants.Perm c.participants
  older : r.topologyVersion ≤ c.topologyVersion

namespace SameCall

variable {c r : GroupCallRoom}

theorem mem_iff (h : SameCall c r) {p : GroupCallParticipant} :
    p ∈ r.participants ↔ p ∈ c.participants := h.participants.mem_iff

theorem has_eq (h : SameCall c r) (id : DartString) : r.has id = c.has id := by
  exact h.participants.any_eq

end SameCall

section Agreement

variable {doubles} {c r : MeasuredRoom D} {now : ℤ}

theorem has_iff {room : GroupCallRoom} {id : DartString} :
    room.has id = true ↔ id ∈ room.participants.map GroupCallParticipant.deviceId := by
  unfold GroupCallRoom.has
  rw [List.any_eq_true, List.mem_map]
  simp only [decide_eq_true_eq]

omit [LinearOrder D] in
theorem MeasuredRoom.length_ids_le (t : MeasuredRoom D) {ids : List DartString}
    (hnodup : ids.Nodup) (hids : ∀ id ∈ ids, t.room.has id = true) :
    ids.length ≤ groupCallMaxParticipants := by
  have hsub : ids ⊆ t.room.participants.map GroupCallParticipant.deviceId :=
    fun id hid => has_iff.mp (hids id hid)
  calc ids.length
      ≤ (t.room.participants.map GroupCallParticipant.deviceId).length :=
        (hnodup.subperm hsub).length_le
    _ = t.room.participants.length := length_map _
    _ ≤ groupCallMaxParticipants := t.participants_le

/-- **The measurements that are published are read back**, as far as they are of participants. -/
theorem parse_published (hsame : SameCall c.room r.room)
    (hsurvive : ∀ id stats, c.room.has id = true → c.stats.get id = some stats →
      GroupCallLinkStats.fromJson doubles (stats.toJson doubles) = some stats) :
    ∃ snapshot, parseGroupCallStatsSnapshot doubles r.room.participants
        (.obj ((c.stats.entries.filter fun entry => c.room.has entry.1).map
          fun entry => (entry.1, entry.2.toJson doubles))) = some snapshot ∧
      ∀ id, c.room.has id = true → snapshot.get id = c.stats.get id := by
  have hnodup : ((c.stats.entries.filter fun entry => c.room.has entry.1).map Prod.fst).Nodup :=
    c.stats.keys_nodup.sublist (filter_sublist.map Prod.fst)
  have hmem : ∀ entry ∈ c.stats.entries.filter fun entry => c.room.has entry.1,
      entry ∈ c.stats.entries ∧ c.room.has entry.1 = true := fun entry => mem_filter.mp
  refine ⟨LinkedMap.ofEntries (c.stats.entries.filter fun entry => c.room.has entry.1), ?_, ?_⟩
  · have hlength := c.length_ids_le hnodup fun id hid => by
      obtain ⟨entry, hentry, rfl⟩ := mem_map.mp hid
      exact (hmem entry hentry).2
    rw [length_map] at hlength
    have hread : ∀ entry ∈ c.stats.entries.filter fun entry => c.room.has entry.1,
        parseStatsEntry doubles r.room.participants (entry.1, entry.2.toJson doubles) =
          some (id entry) := by
      intro entry hentry
      obtain ⟨hin, hhas⟩ := hmem entry hentry
      have hany : (r.room.participants.any fun p => decide (p.deviceId = entry.1)) = true :=
        (hsame.has_eq entry.1).trans hhas
      unfold parseStatsEntry
      rw [if_pos hany, hsurvive entry.1 entry.2 hhas (LinkedMap.get_eq_some.mpr hin)]
      rfl
    unfold parseGroupCallStatsSnapshot
    dsimp only
    rw [List.length_map, if_neg (by omega), Json.mapM_map_some hread, List.map_id]
    rfl
  · intro id hid
    ext stats
    rw [LinkedMap.get_eq_some, LinkedMap.get_eq_some, LinkedMap.entries_ofEntries hnodup,
      mem_filter]
    exact and_iff_left hid

omit [LinearOrder D] in
theorem excluded_published (hsame : SameCall c.room r.room) (now : ℤ) :
    parseExcluded r.room.participants
        (.list (((c.failed now).keys.filter c.room.has).map Json.str)) =
      some ((c.failed now).keys.filter c.room.has) := by
  have hnodup : ((c.failed now).keys.filter c.room.has).Nodup :=
    (c.failed now).keys_nodup.filter _
  have hhas : ∀ id ∈ (c.failed now).keys.filter c.room.has, c.room.has id = true :=
    fun id hid => (List.mem_filter.mp hid).2
  have hlength := c.length_ids_le hnodup hhas
  have hread : ∀ failed ∈ (c.failed now).keys.filter c.room.has,
      parseExcludedId r.room.participants (.str failed) = some (id failed) := by
    intro failed hfailed
    exact if_pos ((hsame.has_eq failed).trans (hhas failed hfailed))
  unfold parseExcluded
  dsimp only
  rw [List.length_map, if_neg (by omega), Json.mapM_map_some hread, List.map_id]

theorem elected_alike (hsame : SameCall c.room r.room)
    {snapshot : LinkedMap DartString (GroupCallLinkStats D)}
    (hsnapshot : ∀ id, c.room.has id = true → snapshot.get id = c.stats.get id) :
    r.reelected doubles snapshot ((c.failed now).keys.filter c.room.has) =
      electGroupCallForwarder doubles (c.standing now) c.stats := by
  have hmem : ∀ p, p ∈ (r.room.participants.filter fun p =>
      decide (p.deviceId ∉ (c.failed now).keys.filter c.room.has)) ↔ p ∈ c.standing now := by
    intro p
    unfold MeasuredRoom.standing
    simp only [mem_filter, hsame.mem_iff, decide_eq_true_eq, Bool.not_eq_true',
      Bool.eq_false_iff, ne_eq, LinkedMap.contains_iff]
    refine and_congr_right fun hp => not_congr ?_
    exact and_iff_left (has_iff.mpr (mem_map_of_mem hp))
  refine elect_congr (fun id => exists_congr fun p => and_congr_left fun _ => hmem p) ?_
  intro p hp
  refine hsnapshot p.deviceId (has_iff.mpr (mem_map_of_mem ?_))
  exact (mem_filter.mp ((hmem p).mp hp)).1

theorem updateTopology_sent {device : Device} {payload : List (DartString × Json)}
    (hsent : (c.updateTopology doubles device now).2 = some payload) :
    c.room.coordinator = device.localDeviceId ∧
      payload = c.topologyPayload doubles now (c.room.topologyVersion + 1)
        (c.selected doubles device now) ∧
      (c.updateTopology doubles device now).1.room.forwarder = c.selected doubles device now := by
  unfold MeasuredRoom.updateTopology at hsent ⊢
  split at hsent
  · cases hsent
  next hleads =>
  rw [not_or, not_not] at hleads
  rw [if_neg (by rw [not_or, not_not]; exact hleads)]
  dsimp only at hsent ⊢
  split at hsent
  swap
  · cases hsent
  next hdue =>
  rw [if_pos hdue]
  exact ⟨hleads.1, (some.inj hsent).symm, rfl⟩

omit [LinearOrder D] in
variable (doubles) in
theorem valueAt_topologyPayload (c : MeasuredRoom D) (now version : ℤ)
    (selected : Option DartString) :
    valueAt (c.topologyPayload doubles now version selected) "version" = .int version ∧
      valueAt (c.topologyPayload doubles now version selected) "rosterVersion" =
        .int c.room.version ∧
      valueAt (c.topologyPayload doubles now version selected) "forwarder" =
        (selected.map Json.str).getD .null ∧
      valueAt (c.topologyPayload doubles now version selected) "stats" =
        .obj ((c.stats.entries.filter fun entry => c.room.has entry.1).map
          fun entry => (entry.1, entry.2.toJson doubles)) ∧
      valueAt (c.topologyPayload doubles now version selected) "excluded" =
        .list (((c.failed now).keys.filter c.room.has).map Json.str) := by
  have hkeys : ((c.topologyPayload doubles now version selected).map Prod.fst).Nodup := by
    change (["term", "version", "rosterVersion", "forwarder", "stats", "excluded"].map
      ofString).Nodup
    decide
  exact ⟨Json.valueAt_getElem hkeys 1 rfl, Json.valueAt_getElem hkeys 2 rfl,
    Json.valueAt_getElem hkeys 3 rfl, Json.valueAt_getElem hkeys 4 rfl,
    Json.valueAt_getElem hkeys 5 rfl⟩

theorem selected_eq_none_iff {device : Device} :
    c.selected doubles device now = none ↔
      ¬ (c.needsForwarder doubles device now = true ∧
        ∃ p ∈ c.room.participants, (c.failed now).contains p.deviceId = false) := by
  have hstanding : c.standing now = [] ↔
      ¬ ∃ p ∈ c.room.participants, (c.failed now).contains p.deviceId = false := by
    unfold MeasuredRoom.standing
    simp
  unfold MeasuredRoom.selected
  split
  · next hneeds =>
    rw [elect_eq_none_iff, hstanding]
    exact not_congr (and_iff_right hneeds).symm
  next hneeds => exact iff_of_true rfl fun h => hneeds h.1

theorem receive_published {device receiver : Device} (hsame : SameCall c.room r.room)
    (hsurvive : ∀ id stats, c.room.has id = true → c.stats.get id = some stats →
      GroupCallLinkStats.fromJson doubles (stats.toJson doubles) = some stats)
    {signal : GroupCallSignal} (hsender : signal.senderDeviceId = c.room.coordinator)
    (hpayload : signal.payload = c.topologyPayload doubles now (c.room.topologyVersion + 1)
      (c.selected doubles device now)) :
    ((r.receiveTopology doubles receiver signal).2 = .taken ∧
        (r.receiveTopology doubles receiver signal).1.room.forwarder =
          c.selected doubles device now) ↔
      c.room.topologyVersion + 1 ≤ 0x7fffffff ∧
        (r.room.participants.length ≤ receiver.meshLimit ∨
          c.selected doubles device now ≠ none) := by
  obtain ⟨hversion, hroster, hforwarder, hstats, hexcluded⟩ :=
    valueAt_topologyPayload doubles c now (c.room.topologyVersion + 1)
      (c.selected doubles device now)
  obtain ⟨snapshot, hparse, hsnapshot⟩ := parse_published hsame hsurvive
  have hexclusions := excluded_published hsame now
  have helected : ∀ forwarder, c.selected doubles device now = some forwarder →
      r.reelected doubles snapshot ((c.failed now).keys.filter c.room.has) = some forwarder := by
    intro forwarder hselected
    rw [elected_alike hsame hsnapshot, ← hselected]
    unfold MeasuredRoom.selected at hselected ⊢
    split at hselected
    next hneeds => rw [if_pos hneeds]
    · cases hselected
  unfold MeasuredRoom.receiveTopology
  rw [hpayload, hroster, hversion, hforwarder, hstats, hexcluded, hparse, hexclusions]
  have hkept : ¬ (signal.senderDeviceId ≠ r.room.coordinator ∨
      Json.int c.room.version ≠ Json.int r.room.version) := by
    rw [hsender, hsame.coordinator, hsame.version]
    simp
  rw [if_neg hkept]
  dsimp only
  have holder : ¬ c.room.topologyVersion + 1 ≤ r.room.topologyVersion := by
    have hle := hsame.older
    omega
  by_cases hpast : 0x7fffffff < c.room.topologyVersion + 1
  · rw [if_pos (.inr hpast)]
    refine iff_of_false (fun h => nomatch h.1) fun h => ?_
    omega
  rw [if_neg (not_or.mpr ⟨holder, hpast⟩)]
  cases hselected : c.selected doubles device now with
  | none =>
    dsimp only [map_none, getD_none]
    -- no forwarder is taken in a small call only
    split
    · next hlarge =>
      refine iff_of_false (fun h => nomatch h.1) fun h => ?_
      exact h.2.elim (fun hle => absurd hlarge (not_lt.mpr hle)) fun hne => hne rfl
    next hsmall =>
    exact iff_of_true ⟨rfl, rfl⟩ ⟨not_lt.mp hpast, .inl (not_lt.mp hsmall)⟩
  | some forwarder =>
    dsimp only [map_some, getD_some]
    rw [if_pos (helected forwarder hselected)]
    exact iff_of_true ⟨rfl, rfl⟩ ⟨not_lt.mp hpast, .inr (some_ne_none forwarder)⟩

/-- **The receiver and the coordinator agree.** A topology signal that the coordinator sends is
taken by every other room of the call, with the coordinator's forwarder, if and only if its version
is not past the last, and the call is small for the receiver or the coordinator has someone to
elect. And the election depends on no order. -/
theorem topology_agrees_iff (doubles : Doubles D) :
    (∀ (device receiver : Device) (now : ℤ) (c r : MeasuredRoom D), SameCall c.room r.room →
        (∀ id stats, c.room.has id = true → c.stats.get id = some stats →
          GroupCallLinkStats.fromJson doubles (stats.toJson doubles) = some stats) →
        ∀ payload, (c.updateTopology doubles device now).2 = some payload →
        ∀ signal : GroupCallSignal, signal.senderDeviceId = device.localDeviceId →
          signal.payload = payload →
          ((r.receiveTopology doubles receiver signal).2 = .taken ∧
              (r.receiveTopology doubles receiver signal).1.room.forwarder =
                (c.updateTopology doubles device now).1.room.forwarder ↔
            c.room.topologyVersion + 1 ≤ 0x7fffffff ∧
              (r.room.participants.length ≤ receiver.meshLimit ∨
                c.needsForwarder doubles device now = true ∧
                  ∃ p ∈ c.room.participants, (c.failed now).contains p.deviceId = false))) ∧
      ∀ (participants participants' : List GroupCallParticipant)
        (stats stats' : LinkedMap DartString (GroupCallLinkStats D)),
        participants.Perm participants' → stats.entries.Perm stats'.entries →
          electGroupCallForwarder doubles participants stats =
            electGroupCallForwarder doubles participants' stats' := by
  refine ⟨?_, ?_⟩
  · intro device receiver now c r hsame hsurvive payload hsent signal hsender hpayload
    obtain ⟨hleads, rfl, hforwarder⟩ := updateTopology_sent hsent
    rw [hforwarder, receive_published hsame hsurvive (hsender.trans hleads.symm) hpayload, ne_eq,
      selected_eq_none_iff, not_not]
  · intro participants participants' stats stats' hparticipants hstats
    refine elect_congr (fun id => exists_congr fun p => and_congr_left fun _ =>
      hparticipants.mem_iff) fun p _ => ?_
    ext s
    rw [LinkedMap.get_eq_some, LinkedMap.get_eq_some, hstats.mem_iff]

end Agreement

/-! ### A call in which everyone has failed -/

namespace Sample

def thousandths : Doubles ℤ where
  zero := 0
  tenth := 100
  one := 1000
  toJson := .int
  ofJson
    | .int loss => some loss
    | _ => none

def caller (name : String) (index : ℤ) : GroupCallParticipant := ⟨ofString name, index, 1⟩

def callers : List GroupCallParticipant :=
  [caller "a" 0, caller "b" 1, caller "c" 2, caller "d" 3, caller "e" 4, caller "f" 5]

def largeRoom (localDeviceId : String) : GroupCallRoom where
  groupId := ofString "g"
  callId := ofString "gcall"
  startedBy := ofString "a"
  startedAt := 0
  startSignature := []
  coordinator := ofString "a"
  cipher :=
    { groupId := ofString "g"
      callId := ofString "gcall"
      localDeviceId := ofString localDeviceId
      authority := []
      current := some ⟨6, List.replicate 32 7, callers, none⟩
      previous := none
      sequence := 0
      closed := false }
  term := 0
  distributionKey := none
  admission := none
  admissions := LinkedMap.empty
  joinIntents := LinkedMap.empty
  needsAdmission := false
  leaving := false
  participants := callers
  allParticipants := callers.map GroupCallParticipant.deviceId
  seen := LinkedMap.empty
  signalRates := LinkedMap.empty
  version := 6
  epoch := 6
  joined := true
  ended := false
  forwarder := none
  topologyVersion := 0
  lastStartSent := none
  lastJoinSent := none
  lastTopologySent := none

theorem callers_le : callers.length ≤ groupCallMaxParticipants := by decide

def unmeasured (localDeviceId : String) : MeasuredRoom ℤ where
  room := largeRoom localDeviceId
  stats := LinkedMap.empty
  statsIssued := LinkedMap.empty
  failedForwarders := LinkedMap.empty
  poorSince := none
  participants_le := callers_le

def topologySignal (payload : List (DartString × Json)) : GroupCallSignal where
  groupId := ofString "g"
  callId := ofString "gcall"
  senderDeviceId := ofString "a"
  action := .topology
  issuedAt := 0
  payload

def silence (sender silent : String) : GroupCallSignal where
  groupId := ofString "g"
  callId := ofString "gcall"
  senderDeviceId := ofString sender
  action := .stats
  issuedAt := 0
  payload := [(ofString "desktop", .bool false), (ofString "mains", .bool false),
    (ofString "metered", .bool true), (ofString "rttMs", .int 0), (ofString "loss", .int 0),
    (ofString "silentForwarder", .str (ofString silent))]

/-- Every half second the coordinator elects, and one of the others hears nothing from whom it
elected: so all six have failed within three seconds. -/
def allFailed : MeasuredRoom ℤ :=
  [("b", "a"), ("a", "b"), ("a", "c"), ("a", "d"), ("a", "e"), ("a", "f")].zipIdx.foldl
    (fun t round =>
      let elected := (t.updateTopology thousandths device (500000 * round.2)).1
      (elected.receiveStats thousandths (500000 * round.2) (silence round.1.1 round.1.2)).1)
    (unmeasured "a")

def oneKnown : MeasuredRoom ℤ :=
  ((unmeasured "a").receiveStats thousandths 0 (silence "b" "f")).1

theorem sameCall_unmeasured (t : MeasuredRoom ℤ)
    (hsame : t.room.coordinator = ofString "a" ∧ t.room.version = 6 ∧
      t.room.participants = callers ∧ 0 ≤ t.room.topologyVersion) : SameCall t.room (unmeasured "b").room where
  coordinator := hsame.1.symm
  version := hsame.2.1.symm
  participants := by
    rw [hsame.2.2.1]
    exact List.Perm.refl _
  older := hsame.2.2.2

theorem survive_of_entries {t : MeasuredRoom ℤ}
    (hall : ∀ entry ∈ t.stats.entries,
      GroupCallLinkStats.fromJson thousandths (entry.2.toJson thousandths) = some entry.2) :
    ∀ id stats, t.room.has id = true → t.stats.get id = some stats →
      GroupCallLinkStats.fromJson thousandths (stats.toJson thousandths) = some stats :=
  fun id stats _ hget => hall (id, stats) (LinkedMap.get_eq_some.mp hget)

theorem topology_agrees_oneKnown :
    ∃ payload, (oneKnown.updateTopology thousandths device 0).2 = some payload ∧
      ((unmeasured "b").receiveTopology thousandths device (topologySignal payload)).2 = .taken ∧
      ((unmeasured "b").receiveTopology thousandths device
        (topologySignal payload)).1.room.forwarder = some (ofString "b") := by
  have hforwarder : (oneKnown.updateTopology thousandths device 0).1.room.forwarder =
      some (ofString "b") := by
    decide +kernel
  have hsends : (oneKnown.updateTopology thousandths device 0).2.isSome = true := by
    decide +kernel
  obtain ⟨payload, hsent⟩ := isSome_iff_exists.mp hsends
  have hagrees := (topology_agrees_iff thousandths).1 device device 0 oneKnown (unmeasured "b")
    (sameCall_unmeasured oneKnown (by decide)) (survive_of_entries (by decide))
    payload hsent (topologySignal payload) rfl rfl
  obtain ⟨htaken, hsame⟩ := hagrees.mpr (by decide)
  exact ⟨payload, hsent, htaken, hsame.trans hforwarder⟩

def label : Verdict → Option String
  | .refused why => some why
  | _ => none

theorem eq_refused_of_label {verdict : Verdict} {why : String} (h : label verdict = some why) :
    verdict = .refused why := by
  cases verdict with
  | taken => cases h
  | refused why' => exact congrArg Verdict.refused (some.inj h)
  | thrown what => cases h

/-- **The coordinator sends what no one takes.** All six participants have failed, so nobody is
elected, and a room of the same call refuses to be without a forwarder. -/
theorem topology_refused :
    SameCall allFailed.room (unmeasured "b").room ∧
      (∀ id stats, allFailed.room.has id = true → allFailed.stats.get id = some stats →
        GroupCallLinkStats.fromJson thousandths (stats.toJson thousandths) = some stats) ∧
      ∃ payload, (allFailed.updateTopology thousandths device 3000000).2 = some payload ∧
        ((unmeasured "b").receiveTopology thousandths device (topologySignal payload)).2 =
          .refused "L845" := by
  refine ⟨sameCall_unmeasured allFailed (by decide),
    survive_of_entries (by decide), ?_⟩
  have hrefused : (allFailed.updateTopology thousandths device 3000000).2.map (fun payload =>
      label ((unmeasured "b").receiveTopology thousandths device (topologySignal payload)).2) =
        some (some "L845") := by
    decide
  obtain ⟨payload, hsent, hlabel⟩ := map_eq_some_iff.mp hrefused
  exact ⟨payload, hsent, eq_refused_of_label hlabel⟩

end Sample

end Call
end Conest
