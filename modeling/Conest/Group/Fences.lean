import Conest.Group.Access
import Conest.Lib.Memo

/-!
# Removed authors and the caches of the history

An author who was removed keeps the key that signs, so what was signed after the removal has to be
told from what was signed before. `removed_author_fenced` states what `canReceive` demands: if a
record above the current head drops the author, an event of an older epoch is received only up to a
cutoff that others have signed.

The program answers these questions from four caches, filled at different times while records keep
arriving. The functions here named after `_ancestors`, `_departures` and so on are the ones with the
caches, written in the monad `Memo`. `Valid` says that what is cached is what the records give. It
is kept by every function, by an import, since the ancestors of a record are known before it, and by
`fork`, which starts with empty caches. So a run with caches gives the answers of the history without
them (`fenced_in_every_run`).
-/

namespace Conest
namespace Group

open Lib List Option

/-- The memoised answers of a history. -/
structure Caches where
  ancestor : FMap DartString (List DartString)
  departure : FMap DartString (FMap DartString (List DartString))
  active : FMap DartString (Finset DartString)
  departureCheckpoint : FMap DartString (Option GroupHistoryCheckpoint)

def Caches.empty : Caches := ⟨FMap.empty, FMap.empty, FMap.empty, FMap.empty⟩

/-- The key of a cutoff: the head, the removal and the author in one string. -/
def checkpointKey (headId removalId author : DartString) : DartString :=
  headId ++ DartString.ofString "\n" ++ removalId ++ DartString.ofString "\n" ++ author

/-- Add a parent to the devices that were active under it and are not among the remaining. -/
def addDepartures (remaining : Finset DartString) (result : FMap DartString (List DartString))
    (parentId : DartString) (active : Finset DartString) : FMap DartString (List DartString) where
  get device :=
    if device ∈ active \ remaining then some ((result.get device).getD [] ++ [parentId])
    else result.get device
  keys := result.keys ∪ (active \ remaining)
  mem_keys device := by
    rw [Finset.mem_union]
    split
    next hdevice =>
      simp only [hdevice, or_true, Option.isSome_some]
    next hdevice =>
      rw [result.mem_keys]
      simp only [hdevice, or_false]

namespace GroupMembershipHistory

/-! ### The functions with caches -/

section Cached

variable (h : GroupMembershipHistory)

/-- The history without its caches knows the record, or the null check throws. -/
def knownRecord (id : DartString) : Memo Caches GroupMembershipRecord :=
  match h.records.get id with
  | some record => pure record
  | none => throw nullCheckError

/-- An answer for an unknown record is not stored: its parents may still arrive. -/
def cachedAncestors (id : DartString) : Memo Caches (List DartString) :=
  Memo.putIfAbsent (fun c => c.ancestor.get id)
    (fun result c =>
      if h.records.contains id then { c with ancestor := c.ancestor.insert id result } else c)
    (pure (h.ancestors id))

def cachedIsAncestor (ancestor descendant : DartString) : Memo Caches Bool := do
  return decide (ancestor ∈ (← h.cachedAncestors descendant))

def cachedActive (recordId : DartString) : Memo Caches (Finset DartString) :=
  Memo.putIfAbsent (fun c => c.active.get recordId)
    (fun result c => { c with active := c.active.insert recordId result })
    (do return (← h.knownRecord recordId).group.activeMemberDeviceIds.toFinset)

def cachedDepartures (recordId : DartString) : Memo Caches (FMap DartString (List DartString)) :=
  Memo.putIfAbsent (fun c => c.departure.get recordId)
    (fun result c => { c with departure := c.departure.insert recordId result })
    (do
      let remaining ← h.cachedActive recordId
      let record ← h.knownRecord recordId
      record.parents.foldlM
        (fun result parentId => do
          return addDepartures remaining result parentId (← h.cachedActive parentId))
        FMap.empty)

def cachedStaysDeparted (removalId author recordId : DartString) : Memo Caches Bool := do
  let returned ← (← h.cachedAncestors recordId).anyM fun id =>
    if id = removalId then pure false
    else do
      if ← h.cachedIsAncestor removalId id then return decide (author ∈ (← h.cachedActive id))
      else return false
  return !returned

/-- One round of the search for the earliest checkpoint after a removal. -/
def cachedEarlierCheckpoint (removalId author : DartString)
    (earliest : Option GroupHistoryCheckpoint) (id : DartString) :
    Memo Caches (Option GroupHistoryCheckpoint) :=
  if id = removalId then pure earliest
  else do
    if ← h.cachedIsAncestor removalId id then
      match (← h.knownRecord id).checkpoints.get author with
      | none => return earliest
      | some attested =>
        if earliest.any fun e => attested.sequence ≥ e.sequence then return earliest
        else if ← h.cachedStaysDeparted removalId author id then return some attested
        else return earliest
    else return earliest

def cachedDepartureCheckpoint (removalId author headId : DartString) :
    Memo Caches (Option GroupHistoryCheckpoint) := do
  match (← h.knownRecord removalId).checkpoints.get author with
  | some direct => return some direct
  | none =>
    Memo.putIfAbsent (fun c => c.departureCheckpoint.get (checkpointKey headId removalId author))
      (fun earliest c => { c with
        departureCheckpoint :=
          c.departureCheckpoint.insert (checkpointKey headId removalId author) earliest })
      (do (← h.cachedAncestors headId).foldlM (h.cachedEarlierCheckpoint removalId author) none)

/-- Departed authors without a cutoff, who stayed departed. -/
def cachedDeparturesMissingCheckpoints : Memo Caches (Finset DartString) :=
  match h.current with
  | none => pure ∅
  | some head => do
    (← h.cachedAncestors head.id).foldlM (fun missing recordId => do
      let departures ← h.cachedDepartures recordId
      (departures.keys.sort (· ≤ ·)).foldlM (fun missing author => do
        if ← h.cachedStaysDeparted recordId author head.id then
          match ← h.cachedDepartureCheckpoint recordId author head.id with
          | none => return insert author missing
          | some _ => return missing
        else return missing) missing) ∅

/-- One round of the loop over the fences. -/
def cachedBeforeFence (event : GroupHistoryEvent) (head : GroupMembershipRecord)
    (recordId : DartString) : Memo Caches Bool := do
  match (← h.cachedDepartures recordId).get event.authorDeviceId with
  | none => return true
  | some departedFrom =>
    if ← h.cachedIsAncestor event.membershipId recordId then
      if ← departedFrom.anyM (h.cachedIsAncestor event.membershipId) then
        return withinCheckpoint event
          (← h.cachedDepartureCheckpoint recordId event.authorDeviceId head.id)
      else return true
    else return true

def cachedIsBeforeRemovalFences (event : GroupHistoryEvent) (head : GroupMembershipRecord) :
    Memo Caches Bool := do
  (← h.cachedAncestors head.id).allM (h.cachedBeforeFence event head)

/-- Whether the record that admitted a device shows it the event. -/
def cachedVisibleSince (admission membership : GroupMembershipRecord) (event : GroupHistoryEvent) :
    Memo Caches Bool :=
  match admission.historyVisibility with
  | .allRetained => pure true
  | .sinceAdmission => do
    if ← h.cachedIsAncestor admission.id membership.id then
      return decide (admittedAfter admission event.authorDeviceId < event.sequence)
    else return false

def cachedCanReceive (crypto : Crypto) (event : GroupHistoryEvent)
    (recipientDeviceId : DartString) : Memo Caches Bool :=
  match h.current, h.records.get event.membershipId with
  | some head, some membership =>
    if event.kind = .membership || !head.group.hasActiveMember recipientDeviceId then pure false
    else do
      if ← h.cachedIsAncestor membership.id head.id then
        if !membership.group.hasActiveMember event.authorDeviceId then return false
        else
          match (head.admissions.get recipientDeviceId).bind h.records.get with
          | none => return false
          | some admission =>
            if ← h.cachedIsBeforeRemovalFences event head then
              if ← h.cachedVisibleSince admission membership event then
                return h.signedByMember crypto event membership
              else return false
            else return false
      else return false
  | _, _ => pure false

def cachedCanForward (crypto : Crypto) (event : GroupHistoryEvent)
    (carrierDeviceId recipientDeviceId : DartString) : Memo Caches Bool :=
  if h.current.any fun head => head.group.hasActiveMember carrierDeviceId then do
    if ← h.cachedCanReceive crypto event carrierDeviceId then
      h.cachedCanReceive crypto event recipientDeviceId
    else return false
  else pure false

/-! The imports read the ancestors, too. -/

def cachedCommonAncestors : List GroupMembershipRecord → Memo Caches (List DartString)
  | [] => pure []
  | first :: rest => do
    rest.foldlM (fun common parent => do
      let others ← h.cachedAncestors parent.id
      return common.filter (· ∈ others)) (← h.cachedAncestors first.id)

def cachedNewestCommon (parents : List GroupMembershipRecord) : Memo Caches (List DartString) := do
  let common ← h.cachedCommonAncestors parents
  common.foldlM (fun newest id => do
    let older ← common.anyM fun other =>
      if other ≠ id then h.cachedIsAncestor id other else pure false
    return if older then newest else newest ++ [id]) []

def cachedAuthorityFor (parents : List GroupMembershipRecord) :
    Memo Caches GroupMembershipRecord :=
  match parents with
  | [parent] => pure parent
  | _ => do
    match ← h.cachedNewestCommon parents with
    | [newest] => h.knownRecord newest
    | _ => throw "Ambiguous membership resolution authority."

def cachedActorFor (crypto : Crypto) (incoming : GroupMembershipRecord) :
    Memo Caches (Option GroupMemberProfile) :=
  let parents := h.parentRecords incoming
  if parents.isEmpty then
    if h.rootAnchored crypto incoming then pure (some h.trustedOwner)
    else throw "Membership root is not anchored to the approved owner."
  else if !parentsValid incoming parents then throw "Invalid membership parent/version."
  else do
    let authority ← h.cachedAuthorityFor parents
    let author := incoming.proof.authorDeviceId
    let ownerAction := decide (author = authority.group.ownerDeviceId)
    if parents.length > 1 && !ownerAction then
      throw "Conflicting membership requires an owner-signed resolution."
    else if !ownerAction && !adminUpdateAllowed authority incoming then
      throw "Unauthorized membership change."
    else if incoming.group.ownerDeviceId ≠ authority.group.ownerDeviceId ∧
        ¬ parents.any fun parent => parent.group.hasActiveMember incoming.group.ownerDeviceId then
      throw "Ownership may only pass to an existing member."
    else if ← parents.anyM fun parent => parents.anyM fun other =>
        if other.id ≠ parent.id then h.cachedIsAncestor parent.id other.id else pure false then
      throw "Redundant membership resolution parent."
    else return authority.group.memberProfileFor author

def cachedImport (crypto : Crypto) (incoming : GroupMembershipRecord) :
    Memo Caches GroupMembershipImport :=
  if incoming.proof.groupId ≠ h.groupId then throw "Membership belongs to another group."
  else if h.records.contains incoming.id then pure .duplicate
  else if incoming.parents.any fun id => !h.records.contains id then pure .missingParents
  else do
    let actor ← h.cachedActorFor crypto incoming
    if !h.signedBy crypto incoming actor then throw "Invalid membership author signature."
    else
      match h.checkMembers incoming incoming.group.activeMemberDeviceIds with
      | .error e => throw e
      | .ok () => return .accepted

end Cached

/-! ### What the caches hold -/

variable {r head : GroupMembershipRecord} {m : Memoised}

/-- The departures of a record as a map: each device with the parents under which it was active. -/
def departureMap (h : GroupMembershipHistory) (recordId : DartString) :
    FMap DartString (List DartString) :=
  (h.parentsOf recordId).foldl (fun result parentId =>
    addDepartures (h.active recordId).toFinset result parentId (h.active parentId).toFinset)
    FMap.empty

/-- **What is cached is what the records give**, and is about records that are known. -/
structure Valid (h : GroupMembershipHistory) (c : Caches) : Prop where
  ancestor : ∀ id result, c.ancestor.get id = some result →
    (∃ r, h.records.get id = some r) ∧ result = h.ancestors id
  departure : ∀ id result, c.departure.get id = some result →
    (∃ r, h.records.get id = some r) ∧ result = h.departureMap id
  active : ∀ id result, c.active.get id = some result →
    (∃ r, h.records.get id = some r) ∧ result = (h.active id).toFinset
  departureCheckpoint : ∀ key result, c.departureCheckpoint.get key = some result →
    ∃ headId removalId author, (∃ r, h.records.get headId = some r) ∧
      (∃ r, h.records.get removalId = some r) ∧ key = checkpointKey headId removalId author ∧
        result = h.departureCheckpoint removalId author headId

theorem Valid.empty (h : GroupMembershipHistory) : Valid h Caches.empty where
  ancestor := by intro id result hget; cases hget
  departure := by intro id result hget; cases hget
  active := by intro id result hget; cases hget
  departureCheckpoint := by intro key result hget; cases hget

theorem checkpointKey_injective {headId headId' removalId removalId' author author' : DartString}
    (hhead : headId.length = headId'.length) (hremoval : removalId.length = removalId'.length)
    (hkey : checkpointKey headId removalId author = checkpointKey headId' removalId' author') :
    headId = headId' ∧ removalId = removalId' ∧ author = author' := by
  unfold checkpointKey at hkey
  simp only [append_assoc] at hkey
  obtain ⟨hheads, hrest⟩ := append_inj hkey hhead
  obtain ⟨-, hrest⟩ := append_inj hrest rfl
  obtain ⟨hremovals, hrest⟩ := append_inj hrest hremoval
  obtain ⟨-, hauthors⟩ := append_inj hrest rfl
  exact ⟨hheads, hremovals, hauthors⟩

theorem WF.id_length {h : GroupMembershipHistory} (hwf : h.WF) {id : DartString}
    (hget : h.records.get id = some r) : id.length = 64 := by
  have hdigest := r.proof.eventId_digest
  rw [← hwf.id_eq id r hget]
  unfold DartString.isDigest at hdigest
  rw [Bool.and_eq_true, beq_iff_eq] at hdigest
  exact hdigest.1

/-! ### The caches make no difference -/

section Yields

variable {h : GroupMembershipHistory}

open Memo

theorem yields_knownRecord {id : DartString} (hget : h.records.get id = some r) :
    Yields (Valid h) (h.knownRecord id) (.ok r) := by
  unfold knownRecord
  rw [hget]
  exact Yields.pure r

theorem yields_ancestors (id : DartString) :
    Yields (Valid h) (h.cachedAncestors id) (.ok (h.ancestors id)) := by
  refine Yields.putIfAbsent ?_ (Yields.pure _) ?_
  · intro c cached hc hcached
    exact (hc.ancestor id cached hcached).2
  intro c hc
  split
  · next hknown =>
    refine ⟨fun id' result hget => ?_, hc.departure, hc.active, hc.departureCheckpoint⟩
    rw [FMap.get_insert] at hget
    split at hget
    · next heq =>
      rw [heq]
      exact ⟨isSome_iff_exists.mp hknown, (some.inj hget).symm⟩
    · exact hc.ancestor id' result hget
  · exact hc

theorem yields_isAncestor (ancestor descendant : DartString) :
    Yields (Valid h) (h.cachedIsAncestor ancestor descendant)
      (.ok (h.isAncestor ancestor descendant)) :=
  (yields_ancestors descendant).bind (Yields.pure _)

section

variable {id : DartString} (hget : h.records.get id = some r)

include hget

theorem active_of_get : h.active id = r.group.activeMemberDeviceIds := by
  unfold active
  rw [hget]

theorem yields_active : Yields (Valid h) (h.cachedActive id) (.ok (h.active id).toFinset) := by
  refine Yields.putIfAbsent ?_ ?_ ?_
  · intro c cached hc hcached
    exact (hc.active id cached hcached).2
  · rw [active_of_get hget]
    exact (yields_knownRecord hget).bind (Yields.pure _)
  intro c hc
  refine ⟨hc.ancestor, hc.departure, fun id' result hget' => ?_, hc.departureCheckpoint⟩
  rw [FMap.get_insert] at hget'
  split at hget'
  · next heq =>
    rw [heq]
    exact ⟨⟨r, hget⟩, (some.inj hget').symm⟩
  · exact hc.active id' result hget'

end

section

variable (hwf : h.WF)

include hwf

theorem yields_departures {id : DartString} (hget : h.records.get id = some r) :
    Yields (Valid h) (h.cachedDepartures id) (.ok (h.departureMap id)) := by
  refine Yields.putIfAbsent ?_ ?_ ?_
  · intro c cached hc hcached
    exact (hc.departure id cached hcached).2
  · refine (yields_active hget).bind ((yields_knownRecord hget).bind ?_)
    unfold departureMap
    rw [parentsOf_of_get hget]
    refine Yields.foldlM (fun result parentId hparent => ?_) _
    obtain ⟨rp, hrp, -⟩ := hwf.parent_before id r hget parentId hparent
    exact (yields_active hrp).bind (Yields.pure _)
  intro c hc
  refine ⟨hc.ancestor, fun id' result hget' => ?_, hc.active, hc.departureCheckpoint⟩
  rw [FMap.get_insert] at hget'
  split at hget'
  · next heq =>
    rw [heq]
    exact ⟨⟨r, hget⟩, (some.inj hget').symm⟩
  · exact hc.departure id' result hget'

theorem known_of_mem_ancestors {id a : DartString} (hget : h.records.get a = some r)
    (hmem : id ∈ h.ancestors a) : ∃ s, h.records.get id = some s := by
  obtain ⟨s, hs, -⟩ := hwf.reaches_known (mem_ancestors.mp hmem) hget
  exact ⟨s, hs⟩

theorem yields_staysDeparted (removalId author : DartString) {id : DartString}
    (hget : h.records.get id = some r) :
    Yields (Valid h) (h.cachedStaysDeparted removalId author id)
      (.ok (h.staysDeparted removalId author id)) := by
  refine (yields_ancestors id).bind (Yields.bind ?_ (Yields.pure _))
  refine Yields.anyM fun x hx => ?_
  obtain ⟨s, hs⟩ := known_of_mem_ancestors hwf hget hx
  split
  next hremoval =>
    rw [decide_eq_false (not_not_intro hremoval)]
    exact Yields.pure false
  next hremoval =>
  rw [decide_eq_true hremoval]
  refine (yields_isAncestor removalId x).bind ?_
  cases h.isAncestor removalId x with
  | false => exact Yields.pure false
  | true =>
    rw [← decide_eq_decide.mpr List.mem_toFinset]
    exact (yields_active hs).bind (Yields.pure _)

theorem yields_earlierCheckpoint (removalId author : DartString)
    (earliest : Option GroupHistoryCheckpoint) {id : DartString}
    (hget : h.records.get id = some r) :
    Yields (Valid h) (h.cachedEarlierCheckpoint removalId author earliest id)
      (.ok (h.earlierCheckpoint removalId author earliest id)) := by
  have hcheckpoint : h.checkpointAt id author = r.checkpoints.get author := by
    unfold checkpointAt
    rw [hget]
    rfl
  unfold cachedEarlierCheckpoint earlierCheckpoint
  rw [hcheckpoint]
  split
  next hremoval =>
    rw [if_pos (.inl hremoval)]
    exact Yields.pure earliest
  next hremoval =>
  refine (yields_isAncestor removalId id).bind ?_
  cases h.isAncestor removalId id with
  | false =>
    have hskipped : id = removalId ∨ (!false) = true := .inr rfl
    rw [if_pos hskipped]
    exact Yields.pure earliest
  | true =>
  have htaken : ¬ (id = removalId ∨ (!true) = true) := by simp [hremoval]
  rw [if_neg htaken]
  refine (yields_knownRecord hget).bind ?_
  cases r.checkpoints.get author with
  | none => exact Yields.pure earliest
  | some attested =>
  dsimp only
  split
  · exact Yields.pure earliest
  refine (yields_staysDeparted hwf removalId author hget).bind ?_
  cases h.staysDeparted removalId author id with
  | false => exact Yields.pure earliest
  | true => exact Yields.pure (some attested)

theorem yields_departureCheckpoint {removalId headId : DartString}
    {removal : GroupMembershipRecord} (author : DartString)
    (hremoval : h.records.get removalId = some removal) (hhead : h.records.get headId = some head) :
    Yields (Valid h) (h.cachedDepartureCheckpoint removalId author headId)
      (.ok (h.departureCheckpoint removalId author headId)) := by
  have hcheckpoint : h.checkpointAt removalId author = removal.checkpoints.get author := by
    unfold checkpointAt
    rw [hremoval]
    rfl
  refine (yields_knownRecord hremoval).bind ?_
  have hvalue : h.departureCheckpoint removalId author headId =
      match removal.checkpoints.get author with
      | some direct => some direct
      | none => (h.ancestors headId).foldl (h.earlierCheckpoint removalId author) none := by
    unfold departureCheckpoint
    cases hdirect : removal.checkpoints.get author with
    | none => simp[hcheckpoint, hdirect]
    | some direct => simp[hcheckpoint, hdirect]
  cases hdirect : removal.checkpoints.get author with
  | some direct =>
    rw [hvalue, hdirect]
    exact Yields.pure (some direct)
  | none =>
  refine Yields.putIfAbsent ?_ ?_ ?_
  · intro c cached hc hcached
    -- the key belongs to this head, this removal and this author only
    obtain ⟨headId', removalId', author', ⟨r, hr⟩, ⟨r', hr'⟩, hkey, hresult⟩ :=
      hc.departureCheckpoint _ cached hcached
    obtain ⟨rfl, rfl, rfl⟩ := checkpointKey_injective
      ((hwf.id_length hhead).trans (hwf.id_length hr).symm)
      ((hwf.id_length hremoval).trans (hwf.id_length hr').symm) hkey
    exact hresult
  · rw [hvalue, hdirect]
    refine (yields_ancestors headId).bind (Yields.foldlM (fun earliest id hid => ?_) none)
    obtain ⟨s, hs⟩ := known_of_mem_ancestors hwf hhead hid
    exact yields_earlierCheckpoint hwf removalId author earliest hs
  · intro c hc
    refine ⟨hc.ancestor, hc.departure, hc.active, fun key result hget => ?_⟩
    change (c.departureCheckpoint.insert _ _).get key = some result at hget
    rw [FMap.get_insert] at hget
    split at hget
    · next heq =>
      exact ⟨headId, removalId, author, ⟨head, hhead⟩, ⟨removal, hremoval⟩, heq,
        (some.inj hget).symm⟩
    · exact hc.departureCheckpoint key result hget

end

theorem departureMap_get (recordId device : DartString) :
    (h.departureMap recordId).get device =
      if h.departures recordId device = [] then none else some (h.departures recordId device) := by
  -- along the parents, the entry of the device collects those under which it was active
  have hfold : ∀ (parents : List DartString) (result : FMap DartString (List DartString)),
      (parents.foldl (fun result parentId => addDepartures (h.active recordId).toFinset result
        parentId (h.active parentId).toFinset) result).get device =
        if device ∈ h.active recordId ∨ parents.filter (fun p => device ∈ h.active p) = [] then
          result.get device
        else some ((result.get device).getD [] ++ parents.filter fun p => device ∈ h.active p) := by
    intro parents
    induction parents with
    | nil => intro result; simp
    | cons parent parents ih =>
    intro result
    rw [foldl_cons, ih]
    have hget : (addDepartures (h.active recordId).toFinset result parent
        (h.active parent).toFinset).get device =
        if device ∈ h.active parent ∧ device ∉ h.active recordId then
          some ((result.get device).getD [] ++ [parent]) else result.get device := by
      simp [addDepartures]
    rw [hget]
    by_cases hremains : device ∈ h.active recordId
    · simp [hremains]
    by_cases hactive : device ∈ h.active parent
    · by_cases hrest : parents.filter (fun p => decide (device ∈ h.active p)) = []
      · simp [hremains, hactive, hrest]
      · simp [hremains, hactive, hrest]
    · simp [hremains, hactive]
  unfold departureMap departures
  rw [hfold]
  by_cases hremains : device ∈ h.active recordId
  · simp [hremains]
  · by_cases hnone : (h.parentsOf recordId).filter (fun p => decide (device ∈ h.active p)) = []
    · simp [hremains, hnone]
    · simp [hremains, hnone]

section

variable (hwf : h.WF) (event : GroupHistoryEvent) (hhead : h.records.get head.id = some head)

include hwf event hhead

theorem yields_beforeFence {recordId : DartString} {record : GroupMembershipRecord}
    (hget : h.records.get recordId = some record) :
    Yields (Valid h) (h.cachedBeforeFence event head recordId)
      (.ok (if h.isAncestor event.membershipId recordId &&
          (h.departures recordId event.authorDeviceId).any (fun parentId =>
            h.isAncestor event.membershipId parentId) then
        withinCheckpoint event (h.departureCheckpoint recordId event.authorDeviceId head.id)
        else true)) := by
  refine (yields_departures hwf hget).bind ?_
  rw [departureMap_get]
  by_cases hnone : h.departures recordId event.authorDeviceId = []
  · rw [hnone, any_nil, Bool.and_false]
    exact Yields.pure true
  rw [if_neg hnone]
  refine (yields_isAncestor event.membershipId recordId).bind ?_
  cases h.isAncestor event.membershipId recordId with
  | false => exact Yields.pure true
  | true =>
  refine (Yields.anyM fun parentId _ => yields_isAncestor event.membershipId parentId).bind ?_
  cases (h.departures recordId event.authorDeviceId).any fun parentId =>
      h.isAncestor event.membershipId parentId with
  | false => exact Yields.pure true
  | true => exact (yields_departureCheckpoint hwf _ hget hhead).bind (Yields.pure _)

theorem yields_isBeforeRemovalFences : Yields (Valid h) (h.cachedIsBeforeRemovalFences event head)
      (.ok (h.isBeforeRemovalFences event head)) := by
  refine (yields_ancestors head.id).bind (Yields.allM fun recordId hrecord => ?_)
  obtain ⟨record, hget⟩ := known_of_mem_ancestors hwf hhead hrecord
  exact yields_beforeFence hwf event hhead hget

end

theorem yields_visibleSince (admission membership : GroupMembershipRecord)
    (event : GroupHistoryEvent) :
    Yields (Valid h) (h.cachedVisibleSince admission membership event)
      (.ok (h.visibleSince admission membership event)) := by
  unfold cachedVisibleSince visibleSince
  cases admission.historyVisibility with
  | allRetained => exact Yields.pure true
  | sinceAdmission =>
    refine (yields_isAncestor admission.id membership.id).bind ?_
    cases h.isAncestor admission.id membership.id with
    | false => exact Yields.pure false
    | true => exact Yields.pure _

theorem WF.get_current (hwf : h.WF) (hcurrent : h.current = some head) :
    h.records.get head.id = some head := by
  unfold current at hcurrent
  split at hcurrent
  · next id _ =>
    rw [hwf.id_eq id head hcurrent]
    exact hcurrent
  · cases hcurrent

theorem current_of_heads {id : DartString} (hheads : h.heads = {id}) :
    h.current = h.records.get id := by
  unfold current
  rw [hheads, Finset.sort_singleton]

section

variable (hwf : h.WF) (crypto : Crypto) (event : GroupHistoryEvent)

include hwf crypto event

theorem yields_canReceive (recipientDeviceId : DartString) :
    Yields (Valid h) (h.cachedCanReceive crypto event recipientDeviceId)
      (.ok (h.canReceive crypto event recipientDeviceId)) := by
  unfold cachedCanReceive canReceive
  cases hcurrent : h.current with
  | none => exact Yields.pure false
  | some head =>
  cases h.records.get event.membershipId with
  | none => exact Yields.pure false
  | some membership =>
  dsimp only
  have hhead := hwf.get_current hcurrent
  cases hfirst : (decide (event.kind = .membership) ||
      !head.group.hasActiveMember recipientDeviceId) with
  | true =>
    exact Yields.pure false
  | false =>
    rw [Bool.false_or]
    refine (yields_isAncestor membership.id head.id).bind ?_
    cases h.isAncestor membership.id head.id with
    | false => exact Yields.pure false
    | true =>
    rw [if_pos rfl, Bool.not_true, Bool.false_or]
    split
    · exact Yields.pure false
    cases (head.admissions.get recipientDeviceId).bind h.records.get with
    | none => exact Yields.pure false
    | some admission =>
    dsimp only
    refine (yields_isBeforeRemovalFences hwf event hhead).bind ?_
    cases h.isBeforeRemovalFences event head with
    | false => exact Yields.pure false
    | true =>
    refine (yields_visibleSince admission membership event).bind ?_
    cases h.visibleSince admission membership event with
    | false => exact Yields.pure false
    | true => exact Yields.pure _

theorem yields_canForward (carrierDeviceId recipientDeviceId : DartString) :
    Yields (Valid h) (h.cachedCanForward crypto event carrierDeviceId recipientDeviceId)
      (.ok (h.canForward crypto event carrierDeviceId recipientDeviceId)) := by
  unfold cachedCanForward canForward
  cases h.current.any fun head => head.group.hasActiveMember carrierDeviceId with
  | false => exact Yields.pure false
  | true =>
  refine (yields_canReceive hwf crypto event carrierDeviceId).bind ?_
  cases h.canReceive crypto event carrierDeviceId with
  | false => exact Yields.pure false
  | true => exact yields_canReceive hwf crypto event recipientDeviceId

end

section

variable (parents : List GroupMembershipRecord)

include parents

theorem yields_commonAncestors :
    Yields (Valid h) (h.cachedCommonAncestors parents) (.ok (h.commonAncestors parents)) := by
  cases parents with
  | nil => exact Yields.pure []
  | cons first rest =>
    refine (yields_ancestors first.id).bind (Yields.foldlM (fun common parent _ => ?_) _)
    exact (yields_ancestors parent.id).bind (Yields.pure _)

theorem yields_newestCommon :
    Yields (Valid h) (h.cachedNewestCommon parents) (.ok (h.newestCommon parents)) := by
  refine (yields_commonAncestors parents).bind ?_
  -- the loop appends what the filter keeps
  have hfilter : h.newestCommon parents = (h.commonAncestors parents).foldl (fun newest id =>
      if (h.commonAncestors parents).any fun other =>
        decide (other ≠ id) && h.isAncestor id other then newest else newest ++ [id]) [] := by
    have happend : ∀ (l newest : List DartString), newest ++ l.filter (fun id =>
        !(h.commonAncestors parents).any fun other =>
          decide (other ≠ id) && h.isAncestor id other) =
        l.foldl (fun newest id => if (h.commonAncestors parents).any fun other =>
          decide (other ≠ id) && h.isAncestor id other then newest else newest ++ [id]) newest := by
      intro l
      induction l with
      | nil => intro newest; exact append_nil newest
      | cons id l ih =>
      intro newest
      rw [foldl_cons, ← ih, filter_cons]
      cases (h.commonAncestors parents).any fun other =>
        decide (other ≠ id) && h.isAncestor id other with
      | true => rfl
      | false => simp
    exact happend _ []
  rw [hfilter]
  refine Yields.foldlM (fun newest id _ => ?_) []
  refine (Yields.anyM
    fun other _ => ?_).bind (Yields.pure _)
  split
  next hother =>
    rw [decide_eq_true hother]
    exact yields_isAncestor id other
  next hother =>
    rw [decide_eq_false hother]
    exact Yields.pure false

theorem yields_authorityFor :
    Yields (Valid h) (h.cachedAuthorityFor parents) (h.authorityFor parents) := by
  have hseveral : Yields (Valid h) (do
      match ← h.cachedNewestCommon parents with
      | [newest] => h.knownRecord newest
      | _ => throw "Ambiguous membership resolution authority.")
      (h.resolutionAuthority parents) := by
    refine (yields_newestCommon parents).bind ?_
    unfold resolutionAuthority
    rcases h.newestCommon parents with _ | ⟨newest, _ | ⟨second, rest⟩⟩
    · exact Yields.throw _
    · dsimp only
      cases hget : h.records.get newest with
      | some record => exact yields_knownRecord hget
      | none =>
        unfold knownRecord
        rw [hget]
        exact Yields.throw nullCheckError
    · exact Yields.throw _
  rcases parents with _ | ⟨parent, _ | ⟨second, rest⟩⟩
  · exact hseveral
  · exact Yields.pure parent
  · exact hseveral

end

section

variable (crypto : Crypto) (incoming : GroupMembershipRecord)

include crypto incoming

theorem yields_actorFor :
    Yields (Valid h) (h.cachedActorFor crypto incoming) (h.actorFor crypto incoming) := by
  unfold cachedActorFor actorFor
  dsimp only
  split
  · split
    · exact Yields.pure _
    · exact Yields.throw _
  split
  · exact Yields.throw _
  have hauthority : Yields (Valid h) (h.cachedAuthorityFor (h.parentRecords incoming))
      (h.authorityFor (h.parentRecords incoming)) := yields_authorityFor _
  cases hresult : h.authorityFor (h.parentRecords incoming) with
  | error e =>
    rw [hresult] at hauthority
    exact hauthority.bind_error _
  | ok authority =>
  rw [hresult] at hauthority
  refine hauthority.bind ?_
  dsimp only
  split
  · exact Yields.throw _
  split
  · exact Yields.throw _
  split
  · exact Yields.throw _
  have hredundant : Yields (Valid h) ((h.parentRecords incoming).anyM fun parent =>
      (h.parentRecords incoming).anyM fun other =>
        if other.id ≠ parent.id then h.cachedIsAncestor parent.id other.id else pure false)
      (.ok ((h.parentRecords incoming).any fun parent =>
        (h.parentRecords incoming).any fun other =>
          decide (other.id ≠ parent.id) && h.isAncestor parent.id other.id)) := by
    refine Yields.anyM fun parent _ => Yields.anyM fun other _ => ?_
    split
    next hother =>
      rw [decide_eq_true hother]
      exact yields_isAncestor parent.id other.id
    next hother =>
      rw [decide_eq_false hother]
      exact Yields.pure false
  refine hredundant.bind ?_
  split
  · exact Yields.throw _
  · exact Yields.pure _

theorem yields_import :
    Yields (Valid h) (h.cachedImport crypto incoming) (h.importRecord crypto incoming).2 := by
  unfold cachedImport importRecord
  split
  · exact Yields.throw _
  split
  · exact Yields.pure _
  split
  · exact Yields.pure _
  have hactor : Yields (Valid h) (h.cachedActorFor crypto incoming) (h.actorFor crypto incoming) :=
    yields_actorFor crypto incoming
  cases hresult : h.actorFor crypto incoming with
  | error e =>
    rw [hresult] at hactor
    exact hactor.bind_error _
  | ok actor =>
  rw [hresult] at hactor
  refine hactor.bind ?_
  dsimp only
  split
  · exact Yields.throw _
  · cases h.checkMembers incoming incoming.group.activeMemberDeviceIds with
    | error e => exact Yields.throw e
    | ok u => exact Yields.pure _

end

/-- The departed authors without a cutoff, from the records. -/
def departuresMissingCheckpoints (h : GroupMembershipHistory) : Finset DartString :=
  match h.current with
  | none => ∅
  | some head =>
    (h.ancestors head.id).foldl (fun missing recordId =>
      ((h.departureMap recordId).keys.sort (· ≤ ·)).foldl (fun missing author =>
        if h.staysDeparted recordId author head.id ∧
            h.departureCheckpoint recordId author head.id = none then insert author missing
        else missing) missing) ∅

theorem yields_departuresMissingCheckpoints (hwf : h.WF) :
    Yields (Valid h) h.cachedDeparturesMissingCheckpoints (.ok h.departuresMissingCheckpoints) := by
  unfold cachedDeparturesMissingCheckpoints departuresMissingCheckpoints
  cases hcurrent : h.current with
  | none => exact Yields.pure ∅
  | some head =>
  have hhead := hwf.get_current hcurrent
  refine (yields_ancestors head.id).bind (Yields.foldlM (fun missing recordId hrecord => ?_) ∅)
  obtain ⟨record, hget⟩ := known_of_mem_ancestors hwf hhead hrecord
  refine (yields_departures hwf hget).bind (Yields.foldlM (fun missing author _ => ?_) missing)
  refine (yields_staysDeparted hwf recordId author hhead).bind ?_
  cases h.staysDeparted recordId author head.id with
  | false =>
    exact Yields.pure missing
  | true =>
  refine (yields_departureCheckpoint hwf author hget hhead).bind ?_
  cases h.departureCheckpoint recordId author head.id with
  | none =>
    exact Yields.pure _
  | some checkpoint =>
    exact Yields.pure missing

end Yields

/-! ### An import keeps what is cached -/

section Accept

variable {h h' : GroupMembershipHistory}

theorem active_congr {id : DartString} (hget : h'.records.get id = h.records.get id) :
    h'.active id = h.active id := by
  unfold active
  rw [hget]

theorem AgreeOn.self {a : DartString} (hagree : AgreeOn h h' a) :
    h'.records.get a = h.records.get a :=
  hagree a (reaches_refl a)

theorem staysDeparted_agree {id : DartString} (hagree : AgreeOn h h' id)
    (removalId author : DartString) :
    h'.staysDeparted removalId author id = h.staysDeparted removalId author id := by
  unfold staysDeparted
  rw [ancestors_agree hagree]
  refine congrArg not (Bool.eq_iff_iff.mpr ?_)
  rw [List.any_eq_true, List.any_eq_true]
  refine exists_congr fun x => and_congr_right fun hx => ?_
  have hbelow := hagree.below (mem_ancestors.mp hx)
  unfold isAncestor
  rw [ancestors_agree hbelow, active_congr hbelow.self]

theorem departureCheckpoint_agree {headId removalId : DartString} (hagree : AgreeOn h h' headId)
    (hremoval : h'.records.get removalId = h.records.get removalId) (author : DartString) :
    h'.departureCheckpoint removalId author headId =
      h.departureCheckpoint removalId author headId := by
  have hcheckpoint : ∀ id, h'.records.get id = h.records.get id →
      h'.checkpointAt id author = h.checkpointAt id author := by
    intro id hget
    unfold checkpointAt
    rw [hget]
  unfold departureCheckpoint
  rw [hcheckpoint removalId hremoval, ancestors_agree hagree]
  cases h.checkpointAt removalId author with
  | some direct => rfl
  | none =>
    refine foldl_ext _ _ none fun earliest id hid => ?_
    have hbelow := hagree.below (mem_ancestors.mp hid)
    unfold earlierCheckpoint isAncestor
    rw [ancestors_agree hbelow, hcheckpoint id hbelow.self, staysDeparted_agree hbelow]

theorem departureMap_agree {id : DartString} (hagree : AgreeOn h h' id) :
    h'.departureMap id = h.departureMap id := by
  have hparents : h'.parentsOf id = h.parentsOf id := by
    unfold parentsOf
    rw [hagree.self]
  unfold departureMap
  rw [hparents, active_congr hagree.self]
  refine foldl_ext _ _ _ fun result parentId hparent => ?_
  have hreaches : h.Reaches id parentId := Relation.ReflTransGen.single hparent
  rw [active_congr (hagree parentId hreaches)]

/-- **A new record leaves the caches valid**: what they are about was there before. -/
theorem Valid.accept {crypto : Crypto} {c : Caches} (hc : Valid h c) (hwf : h.WF)
    (ha : Accepts crypto h r) : Valid (h.accept r) c := by
  have hknown : ∀ {id : DartString}, (∃ s, h.records.get id = some s) →
      (∃ s, (h.accept r).records.get id = some s) := by
    rintro id ⟨s, hs⟩
    exact ⟨s, (accept_get_iff ha.fresh).mpr (.inr hs)⟩
  refine ⟨fun id result hget => ?_, fun id result hget => ?_, fun id result hget => ?_,
    fun key result hget => ?_⟩
  · obtain ⟨⟨s, hs⟩, rfl⟩ := hc.ancestor id result hget
    exact ⟨hknown ⟨s, hs⟩, (ancestors_agree (hwf.agreeOn_accept ha hs)).symm⟩
  · obtain ⟨⟨s, hs⟩, rfl⟩ := hc.departure id result hget
    exact ⟨hknown ⟨s, hs⟩, (departureMap_agree (hwf.agreeOn_accept ha hs)).symm⟩
  · obtain ⟨⟨s, hs⟩, rfl⟩ := hc.active id result hget
    refine ⟨hknown ⟨s, hs⟩, ?_⟩
    rw [active_congr (hwf.agreeOn_accept ha hs).self]
  · obtain ⟨headId, removalId, author, ⟨s, hs⟩, ⟨t, ht⟩, hkey, rfl⟩ :=
      hc.departureCheckpoint key result hget
    exact ⟨headId, removalId, author, hknown ⟨s, hs⟩, hknown ⟨t, ht⟩, hkey,
      (departureCheckpoint_agree (hwf.agreeOn_accept ha hs) (hwf.agreeOn_accept ha ht).self
        author).symm⟩

end Accept

/-! ### The cutoff of a departure -/

section Cutoffs

variable (h : GroupMembershipHistory) (headId removalId author : DartString)

/-- A later record of the head's ancestry, through which the author stayed departed, has signed the
checkpoint. -/
def SignedLater (checkpoint : GroupHistoryCheckpoint) : Prop :=
  ∃ id, h.Reaches headId id ∧ id ≠ removalId ∧ h.Reaches id removalId ∧
    h.checkpointAt id author = some checkpoint ∧
    ∀ x, h.Reaches id x → x ≠ removalId → h.Reaches x removalId → author ∉ h.active x

/-- **The cutoff of a departure**: signed in the removal, or the smallest one signed later. -/
def IsCutoff (checkpoint : GroupHistoryCheckpoint) : Prop :=
  h.checkpointAt removalId author = some checkpoint ∨
    h.checkpointAt removalId author = none ∧ h.SignedLater headId removalId author checkpoint ∧
      ∀ other, h.SignedLater headId removalId author other → checkpoint.sequence ≤ other.sequence

variable {h headId removalId author}

theorem staysDeparted_iff {id : DartString} : h.staysDeparted removalId author id = true ↔
    ∀ x, h.Reaches id x → x ≠ removalId → h.Reaches x removalId → author ∉ h.active x := by
  unfold staysDeparted
  rw [Bool.not_eq_true', List.any_eq_false]
  constructor
  · intro hnone x hx hne hreaches hactive
    refine hnone x (mem_ancestors.mpr hx) ?_
    rw [Bool.and_eq_true, Bool.and_eq_true, decide_eq_true_eq, decide_eq_true_eq, isAncestor_iff]
    exact ⟨⟨hne, hreaches⟩, hactive⟩
  · intro hall x hx htrue
    rw [Bool.and_eq_true, Bool.and_eq_true, decide_eq_true_eq, decide_eq_true_eq,
      isAncestor_iff] at htrue
    exact hall x (mem_ancestors.mp hx) htrue.1.1 htrue.1.2 htrue.2

/-- A record that supplies a cutoff, as the loop tests it. -/
def Supplies (h : GroupMembershipHistory) (removalId author id : DartString)
    (checkpoint : GroupHistoryCheckpoint) : Prop :=
  id ≠ removalId ∧ h.isAncestor removalId id = true ∧
    h.checkpointAt id author = some checkpoint ∧ h.staysDeparted removalId author id = true

theorem signedLater_iff {checkpoint : GroupHistoryCheckpoint} :
    h.SignedLater headId removalId author checkpoint ↔
      ∃ id ∈ h.ancestors headId, h.Supplies removalId author id checkpoint := by
  unfold SignedLater Supplies
  refine exists_congr fun id => ?_
  rw [mem_ancestors, isAncestor_iff, staysDeparted_iff]

theorem earlierCheckpoint_cases (earliest : Option GroupHistoryCheckpoint) (id : DartString) :
    (h.earlierCheckpoint removalId author earliest id = earliest ∧
        ∀ checkpoint, h.Supplies removalId author id checkpoint →
          ∃ e, earliest = some e ∧ e.sequence ≤ checkpoint.sequence) ∨
      ∃ attested, h.earlierCheckpoint removalId author earliest id = some attested ∧
        h.Supplies removalId author id attested ∧
          ∀ e, earliest = some e → attested.sequence ≤ e.sequence := by
  unfold earlierCheckpoint
  split
  · next hskip =>
    refine .inl ⟨rfl, fun checkpoint hsupplies => ?_⟩
    rcases hskip with heq | hnot
    · exact absurd heq hsupplies.1
    · rw [hsupplies.2.1] at hnot
      cases hnot
  next htaken =>
  rw [not_or, Bool.not_eq_true, Bool.not_eq_false'] at htaken
  split
  · next hnone =>
    refine .inl ⟨rfl, fun checkpoint hsupplies => ?_⟩
    rw [hsupplies.2.2.1] at hnone
    cases hnone
  next attested hattested =>
  split
  · next hlarger =>
    refine .inl ⟨rfl, fun checkpoint hsupplies => ?_⟩
    rw [hsupplies.2.2.1, some.injEq] at hattested
    rw [Option.any_eq_true] at hlarger
    obtain ⟨e, he, hle⟩ := hlarger
    rw [hattested]
    exact ⟨e, he, of_decide_eq_true hle⟩
  next hsmaller =>
  split
  · next hdeparted =>
    refine .inr ⟨attested, rfl, ⟨htaken.1, htaken.2, hattested, hdeparted⟩, fun e he => ?_⟩
    rw [he, any_some, decide_eq_true_eq] at hsmaller
    omega
  next hreturned =>
  refine .inl ⟨rfl, fun checkpoint hsupplies => ?_⟩
  exact absurd hsupplies.2.2.2 hreturned

theorem departureCheckpoint_cutoff {checkpoint : GroupHistoryCheckpoint}
    (hfound : h.departureCheckpoint removalId author headId = some checkpoint) :
    h.IsCutoff headId removalId author checkpoint := by
  -- what the loop has found is supplied by a record behind it, and no larger than any of them
  have hloop : ∀ (ids : List DartString) (earliest : Option GroupHistoryCheckpoint),
      (∀ c, ids.foldl (h.earlierCheckpoint removalId author) earliest = some c →
        earliest = some c ∨ ∃ id ∈ ids, h.Supplies removalId author id c) ∧
      (∀ c, ids.foldl (h.earlierCheckpoint removalId author) earliest = some c →
        (∀ e, earliest = some e → c.sequence ≤ e.sequence) ∧
          ∀ id ∈ ids, ∀ c', h.Supplies removalId author id c' → c.sequence ≤ c'.sequence) := by
    intro ids
    induction ids with
    | nil =>
      intro earliest
      refine ⟨fun c hc => .inl hc, fun c hc => ⟨fun e he => ?_, fun id hid => by cases hid⟩⟩
      rw [foldl_nil, he, some.injEq] at hc
      rw [hc]
    | cons id ids ih =>
    intro earliest
    rw [foldl_cons]
    obtain ⟨hsource, hleast⟩ := ih (h.earlierCheckpoint removalId author earliest id)
    obtain ⟨hsame, hnone⟩ | ⟨attested, hnew, hsupplies, hle⟩ :=
      @earlierCheckpoint_cases h removalId author earliest id
    · rw [hsame] at hsource hleast ⊢
      refine ⟨fun c hc => ?_, fun c hc => ⟨(hleast c hc).1, fun id' hid' c' hc' => ?_⟩⟩
      · rcases hsource c hc with hold | ⟨id', hid', hid'c⟩
        · exact .inl hold
        · exact .inr ⟨id', mem_cons_of_mem id hid', hid'c⟩
      · rcases mem_cons.mp hid' with rfl | hid'
        · obtain ⟨e, he, hec'⟩ := hnone c' hc'
          exact ((hleast c hc).1 e he).trans hec'
        · exact (hleast c hc).2 id' hid' c' hc'
    · rw [hnew] at hsource hleast ⊢
      refine ⟨fun c hc => ?_, fun c hc => ⟨fun e he => ?_, fun id' hid' c' hc' => ?_⟩⟩
      · rcases hsource c hc with hold | ⟨id', hid', hid'c⟩
        · rw [← some.inj hold]
          exact .inr ⟨id, mem_cons_self, hsupplies⟩
        · exact .inr ⟨id', mem_cons_of_mem id hid', hid'c⟩
      · exact ((hleast c hc).1 attested rfl).trans (hle e he)
      rcases mem_cons.mp hid' with rfl | hid'
      · have heq : attested = c' :=
          some.inj (hsupplies.2.2.1.symm.trans hc'.2.2.1)
        rw [← heq]
        exact (hleast c hc).1 attested rfl
      · exact (hleast c hc).2 id' hid' c' hc'
  unfold departureCheckpoint at hfound
  split at hfound
  · next direct hdirect =>
    rw [← some.inj hfound]
    exact .inl hdirect
  next hnone =>
  obtain ⟨hsource, hleast⟩ := hloop (h.ancestors headId) none
  refine .inr ⟨hnone, ?_, fun other hother => ?_⟩
  · rcases hsource checkpoint hfound with hold | hsupplied
    · cases hold
    · exact signedLater_iff.mpr hsupplied
  · obtain ⟨id, hid, hsupplies⟩ := signedLater_iff.mp hother
    exact (hleast checkpoint hfound).2 id hid other hsupplies

theorem withinCheckpoint_iff {event : GroupHistoryEvent}
    {checkpoint : Option GroupHistoryCheckpoint} :
    withinCheckpoint event checkpoint = true ↔ ∃ cutoff, checkpoint = some cutoff ∧
      ((event.sequence : ℤ) < cutoff.sequence ∨
        (event.sequence : ℤ) = cutoff.sequence ∧ event.eventId = cutoff.eventId) := by
  cases checkpoint with
  | none => simp [withinCheckpoint]
  | some cutoff =>
  simp only [withinCheckpoint, some.injEq, exists_eq_left']
  split
  next hlarger => simp; omega
  next hnot =>
  rw [Bool.not_eq_true', Bool.and_eq_false_iff, decide_eq_false_iff_not,
    decide_eq_false_iff_not, not_not]
  constructor
  · rintro (hne | hid)
    · exact .inl (lt_of_le_of_ne (not_lt.mp hnot) hne)
    · rcases lt_or_eq_of_le (not_lt.mp hnot) with hlt | heq
      · exact .inl hlt
      · exact .inr ⟨heq, hid⟩
  · rintro (hlt | ⟨-, hid⟩)
    · exact .inl (ne_of_lt hlt)
    · exact .inr hid

/-- **A removed author is fenced in.** If a record of the head's ancestry drops the author, who was
active under a parent of it, an event from before is received only up to the cutoff. -/
theorem removed_author_fenced {crypto : Crypto} {event : GroupHistoryEvent}
    {recipientDeviceId : DartString} (hcurrent : h.current = some head)
    (hreceives : h.canReceive crypto event recipientDeviceId = true) {parentId : DartString}
    (hremoval : h.Reaches head.id removalId) (hparent : parentId ∈ h.parentsOf removalId)
    (hactive : event.authorDeviceId ∈ h.active parentId)
    (hdropped : event.authorDeviceId ∉ h.active removalId)
    (hbefore : h.Reaches parentId event.membershipId) :
    ∃ cutoff, h.IsCutoff head.id removalId event.authorDeviceId cutoff ∧
      ((event.sequence : ℤ) < cutoff.sequence ∨
        (event.sequence : ℤ) = cutoff.sequence ∧ event.eventId = cutoff.eventId) := by
  have hfences : h.isBeforeRemovalFences event head = true := by
    unfold canReceive at hreceives
    rw [hcurrent] at hreceives
    split at hreceives
    swap
    · cases hreceives
    next hhead _ =>
    obtain rfl := Option.some.inj hhead
    split at hreceives
    · cases hreceives
    split at hreceives
    · cases hreceives
    rw [Bool.and_eq_true, Bool.and_eq_true] at hreceives
    exact hreceives.1.1
  unfold isBeforeRemovalFences at hfences
  rw [List.all_eq_true] at hfences
  have hfence := hfences removalId (mem_ancestors.mpr hremoval)
  have hdeparture : parentId ∈ h.departures removalId event.authorDeviceId := by
    unfold departures
    rw [if_neg hdropped]
    exact List.mem_filter.mpr ⟨hparent, decide_eq_true hactive⟩
  have habove : h.Reaches removalId event.membershipId :=
    Relation.ReflTransGen.head hparent hbefore
  have happlies : (h.isAncestor event.membershipId removalId &&
      (h.departures removalId event.authorDeviceId).any fun parentId =>
        h.isAncestor event.membershipId parentId) = true := by
    rw [Bool.and_eq_true, isAncestor_iff, List.any_eq_true]
    exact ⟨habove, parentId, hdeparture, isAncestor_iff.mpr hbefore⟩
  rw [if_pos happlies, withinCheckpoint_iff] at hfence
  obtain ⟨cutoff, hfound, hwithin⟩ := hfence
  exact ⟨cutoff, departureCheckpoint_cutoff hfound, hwithin⟩

end Cutoffs

/-! ### Runs with caches -/

/-- A history with its caches. -/
structure Memoised where
  history : GroupMembershipHistory
  caches : Caches

/-- What is asked of a history with caches. After `fork` the run goes on with the copy. -/
inductive Request where
  | importRecord (incoming : GroupMembershipRecord)
  | fork
  | canReceive (event : GroupHistoryEvent) (recipientDeviceId : DartString)
  | canForward (event : GroupHistoryEvent) (carrierDeviceId recipientDeviceId : DartString)
  | departuresMissingCheckpoints

inductive Reply where
  | imported (result : Except String GroupMembershipImport)
  | forked
  | decided (result : Except String Bool)
  | authors (result : Except String (Finset DartString))

def fork (m : Memoised) : Memoised := ⟨m.history, Caches.empty⟩

/-- The history after an import that ended with a result. -/
def published (h : GroupMembershipHistory) (incoming : GroupMembershipRecord) :
    Except String GroupMembershipImport → GroupMembershipHistory
  | .ok .accepted => h.accept incoming
  | _ => h

def memoMachine (crypto : Crypto) : Machine Memoised Request Reply where
  step m request :=
    match request with
    | .importRecord incoming =>
      let answer := (m.history.cachedImport crypto incoming).runFrom m.caches
      (⟨m.history.published incoming answer.1, answer.2⟩, .imported answer.1)
    | .fork => (fork m, .forked)
    | .canReceive event recipientDeviceId =>
      let answer :=
        (m.history.cachedCanReceive crypto event recipientDeviceId).runFrom m.caches
      (⟨m.history, answer.2⟩, .decided answer.1)
    | .canForward event carrierDeviceId recipientDeviceId =>
      let answer := (m.history.cachedCanForward crypto event carrierDeviceId
        recipientDeviceId).runFrom m.caches
      (⟨m.history, answer.2⟩, .decided answer.1)
    | .departuresMissingCheckpoints =>
      let answer := m.history.cachedDeparturesMissingCheckpoints.runFrom m.caches
      (⟨m.history, answer.2⟩, .authors answer.1)

/-- The history is well formed and its caches are valid. -/
structure Memoised.Sound (m : Memoised) : Prop where
  wf : m.history.WF
  valid : Valid m.history m.caches

theorem Memoised.Sound.after (hm : m.Sound) {α : Type} {f : Memo Caches α} {r : Except String α}
    (hf : Memo.Yields (Valid m.history) f r) :
    (f.runFrom m.caches).1 = r ∧ Memoised.Sound ⟨m.history, (f.runFrom m.caches).2⟩ := by
  obtain ⟨c, hrun, hc⟩ := hf m.caches hm.valid
  rw [hrun]
  exact ⟨rfl, hm.wf, hc⟩

theorem published_import (crypto : Crypto) (h : GroupMembershipHistory)
    (incoming : GroupMembershipRecord) :
    h.published incoming (h.importRecord crypto incoming).2 =
      (h.importRecord crypto incoming).1 := by
  rcases importRecord_cases crypto h incoming with ⟨-, heq⟩ | ⟨-, hsame, hnot⟩
  · rw [heq]
    rfl
  rw [hsame]
  cases hresult : (h.importRecord crypto incoming).2 with
  | error e => rfl
  | ok result =>
    cases result with
    | accepted => exact absurd hresult hnot
    | duplicate => rfl
    | missingParents => rfl

theorem Memoised.Sound.step (hm : m.Sound) (crypto : Crypto) (request : Request) :
    ((memoMachine crypto).step m request).1.Sound := by
  cases request with
  | importRecord incoming =>
    obtain ⟨hresult, hafter⟩ := hm.after (yields_import crypto incoming)
    change Memoised.Sound ⟨m.history.published incoming
      ((m.history.cachedImport crypto incoming).runFrom m.caches).1, _⟩
    rw [hresult, published_import]
    rcases importRecord_cases crypto m.history incoming with ⟨ha, heq⟩ | ⟨-, hsame, -⟩
    · rw [heq]
      exact ⟨hm.wf.accept ha, hafter.valid.accept hm.wf ha⟩
    · rw [hsame]
      exact hafter
  | fork => exact ⟨hm.wf, Valid.empty _⟩
  | canReceive event recipientDeviceId =>
    exact (hm.after (yields_canReceive hm.wf crypto event recipientDeviceId)).2
  | canForward event carrierDeviceId recipientDeviceId =>
    exact (hm.after (yields_canForward hm.wf crypto event carrierDeviceId recipientDeviceId)).2
  | departuresMissingCheckpoints =>
    exact (hm.after (yields_departuresMissingCheckpoints hm.wf)).2

/-- The history of a group before any request. -/
def Memoised.initial (groupId : DartString) (trustedOwner : GroupMemberProfile) : Memoised :=
  ⟨GroupMembershipHistory.initial groupId trustedOwner, Caches.empty⟩

theorem Memoised.Sound.run (crypto : Crypto) (groupId : DartString)
    (trustedOwner : GroupMemberProfile) (requests : List Request) :
    ((memoMachine crypto).run (Memoised.initial groupId trustedOwner) requests).Sound :=
  Machine.run_induction (fun _ request _ hm => hm.step crypto request)
    ⟨WF.initial groupId trustedOwner, Valid.empty _⟩

/-- **The answers with caches are those of the records.** -/
structure Memoised.Answers (crypto : Crypto) (m : Memoised) : Prop where
  cached : Valid m.history m.caches
  ancestors : ∀ id, ((m.history.cachedAncestors id).runFrom m.caches).1 =
    .ok (m.history.ancestors id)
  departures : ∀ id r, m.history.records.get id = some r →
    ((m.history.cachedDepartures id).runFrom m.caches).1 = .ok (m.history.departureMap id)
  active : ∀ id r, m.history.records.get id = some r →
    ((m.history.cachedActive id).runFrom m.caches).1 = .ok (m.history.active id).toFinset
  departureCheckpoint : ∀ removalId headId removal head author,
    m.history.records.get removalId = some removal → m.history.records.get headId = some head →
    ((m.history.cachedDepartureCheckpoint removalId author headId).runFrom m.caches).1 =
      .ok (m.history.departureCheckpoint removalId author headId)
  canReceive : ∀ event recipientDeviceId,
    ((m.history.cachedCanReceive crypto event recipientDeviceId).runFrom m.caches).1 =
      .ok (m.history.canReceive crypto event recipientDeviceId)

theorem Memoised.Sound.answers (hm : m.Sound) (crypto : Crypto) : m.Answers crypto where
  cached := hm.valid
  ancestors id := (hm.after (yields_ancestors id)).1
  departures _ _ hget := (hm.after (yields_departures hm.wf hget)).1
  active _ _ hget := (hm.after (yields_active hget)).1
  departureCheckpoint _ _ _ _ author hremoval hhead :=
    (hm.after (yields_departureCheckpoint hm.wf author hremoval hhead)).1
  canReceive event recipientDeviceId :=
    (hm.after (yields_canReceive hm.wf crypto event recipientDeviceId)).1

/-- **Removed authors cannot extend history.** In every run of a history with caches, forks
included, the cached answers are those that the records give. And where there is a single head, if a
record of its ancestry drops the author of an event, who was active under a parent of it, and the
event is of that parent's time or older, then `canReceive` accepts it only up to the cutoff of that
departure. -/
theorem fenced_in_every_run (crypto : Crypto) (groupId : DartString)
    (trustedOwner : GroupMemberProfile) (requests : List Request) (m : Memoised)
    (hrun : (memoMachine crypto).run (Memoised.initial groupId trustedOwner) requests = m) :
    m.Answers crypto ∧ ∀ (head : GroupMembershipRecord), m.history.current = some head →
      ∀ (event : GroupHistoryEvent) (recipientDeviceId : DartString),
        ((m.history.cachedCanReceive crypto event recipientDeviceId).runFrom m.caches).1 =
          .ok true →
        ∀ removalId parentId, m.history.Reaches head.id removalId →
          parentId ∈ m.history.parentsOf removalId →
          event.authorDeviceId ∈ m.history.active parentId →
          event.authorDeviceId ∉ m.history.active removalId →
          m.history.Reaches parentId event.membershipId →
          ∃ cutoff, m.history.IsCutoff head.id removalId event.authorDeviceId cutoff ∧
            ((event.sequence : ℤ) < cutoff.sequence ∨
              (event.sequence : ℤ) = cutoff.sequence ∧ event.eventId = cutoff.eventId) := by
  have hsound : m.Sound := hrun ▸ Memoised.Sound.run crypto groupId trustedOwner requests
  refine ⟨hsound.answers crypto, fun head hcurrent event recipientDeviceId haccepts => ?_⟩
  rw [(hsound.answers crypto).canReceive, Except.ok.injEq] at haccepts
  intro removalId parentId hremoval hparent hactive hdropped hbefore
  exact removed_author_fenced hcurrent haccepts hremoval hparent hactive hdropped hbefore

end GroupMembershipHistory

namespace Sample

open GroupMembershipHistory

def dropsPayload : MembershipPayload :=
  { payload (snapshot [owner] [] 3) [digest 1] [(owner.deviceId, some (digest 0))] with
    checkpoints := FMap.empty.insert friend.deviceId ⟨1, digest 5⟩ }

theorem dropsPayload_valid : dropsPayload.checkpointsValid = true ∧
    dropsPayload.snapshotValid (event byOwner 2 2 (digest 1) isDigest_one) = true ∧
    dropsPayload.membersPinned = true := by
  decide

theorem drops_kind : (event byOwner 2 2 (digest 1) isDigest_one).kind = .membership := rfl

def drops : GroupMembershipRecord where
  proof := event byOwner 2 2 (digest 1) isDigest_one
  payload := dropsPayload
  kind := drops_kind
  checkpointsValid := dropsPayload_valid.1
  snapshotValid := dropsPayload_valid.2.1
  membersPinned := dropsPayload_valid.2.2

def friendEvent : GroupHistoryEvent :=
  { event byFriend 5 0 (digest 1) isDigest_one with kind := .message }

def fenced : Memoised :=
  (memoMachine crypto).run (Memoised.initial groupId owner)
    [.importRecord root, .importRecord admits, .importRecord drops, .departuresMissingCheckpoints,
      .fork]

theorem fenced_heads : fenced.history.heads = {digest 2} := by decide

theorem fenced_current : fenced.history.current = some drops := by
  rw [current_of_heads fenced_heads]
  rfl

theorem fenced_canReceive :
    fenced.history.canReceive crypto friendEvent owner.deviceId = true := by
  unfold canReceive
  decide +kernel

theorem fenced_in_every_run_dropped :
    ∃ cutoff, fenced.history.IsCutoff (digest 2) (digest 2) friend.deviceId cutoff ∧
      ((friendEvent.sequence : ℤ) < cutoff.sequence ∨
        (friendEvent.sequence : ℤ) = cutoff.sequence ∧ friendEvent.eventId = cutoff.eventId) := by
  obtain ⟨hanswers, hfenced⟩ := fenced_in_every_run crypto groupId owner
    [.importRecord root, .importRecord admits, .importRecord drops, .departuresMissingCheckpoints,
      .fork] fenced rfl
  have haccepts := hanswers.canReceive friendEvent owner.deviceId
  rw [fenced_canReceive] at haccepts
  exact hfenced drops fenced_current friendEvent owner.deviceId haccepts (digest 2) (digest 1)
    Relation.ReflTransGen.refl (mem_singleton_self _) (by decide) (by decide)
    Relation.ReflTransGen.refl

end Sample

end Group
end Conest
