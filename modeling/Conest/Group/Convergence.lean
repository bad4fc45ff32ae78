import Conest.Group.Ancestry

/-!
# When membership histories converge

Two devices are offered the same records, each in an order that puts parents first. They do not
always end alike: the first root that passes is kept and the first identity of a device is pinned,
so of two records that compete for one of these the earlier import wins
(`import_order_decides`).

Nothing else depends on the order. `Consistent` says of the records that can be accepted in some
order that there is one for each identifier, that there is one root among them and that they agree
on the identity of every device; then all orders end with the same records, heads and pinned
identities, and otherwise some two orders differ (`membership_converges_iff`).

For the first half, a record accepted in one order is accepted in any other. By induction over the
first run its ancestors are in the second history as well, and before the record there, because
parents come first; so both histories see the same DAG below the record, and the verdict travels
(`Accepts.transfer`). The heads and the pinned identities are functions of the records.
-/

namespace Conest
namespace Group

open Lib List Option

namespace GroupMembershipHistory

variable {crypto : Crypto} {h h' : GroupMembershipHistory} {r s : GroupMembershipRecord}

/-! ### Runs -/

/-- The history after the offers, in their order. -/
def offered (crypto : Crypto) (groupId : DartString) (trustedOwner : GroupMemberProfile)
    (offers : List GroupMembershipRecord) : GroupMembershipHistory :=
  (machine crypto).run (initial groupId trustedOwner) offers

theorem wf_offered (crypto : Crypto) (groupId : DartString) (trustedOwner : GroupMemberProfile)
    (offers : List GroupMembershipRecord) : (offered crypto groupId trustedOwner offers).WF :=
  wf_run crypto groupId trustedOwner offers

/-- No record is offered before one of its parents. -/
def ParentsFirst (offers : List GroupMembershipRecord) : Prop :=
  offers.Pairwise fun earlier later => later.id ∉ earlier.parents

/-- An order in which the records `S` are offered, parents first. -/
structure OrderOf (S offers : List GroupMembershipRecord) : Prop where
  perm : offers.Perm S
  parents_first : ParentsFirst offers

theorem importRecord_get (hget : h.records.get s.id = some s) (r : GroupMembershipRecord) :
    (h.importRecord crypto r).1.records.get s.id = some s := by
  rcases importRecord_cases crypto h r with ⟨ha, heq⟩ | ⟨-, heq, -⟩
  · rw [heq]
    exact (accept_get_iff ha.fresh).mpr (.inr hget)
  · rw [heq]
    exact hget

theorem run_get (hget : h.records.get s.id = some s) (offers : List GroupMembershipRecord) :
    ((machine crypto).run h offers).records.get s.id = some s :=
  Machine.run_induction (I := fun h : GroupMembershipHistory => h.records.get s.id = some s)
    (fun _ r _ hI => importRecord_get hI r) hget

theorem get_run_cases (offers : List GroupMembershipRecord) {id : DartString}
    (hget : ((machine crypto).run h offers).records.get id = some s) :
    h.records.get id = some s ∨ s ∈ offers := by
  induction offers generalizing h with
  | nil => exact .inl hget
  | cons r offers ih =>
  rcases ih hget with hold | hmem
  · rcases importRecord_cases crypto h r with ⟨ha, heq⟩ | ⟨-, heq, -⟩
    · replace hold : (h.importRecord crypto r).1.records.get id = some s := hold
      rw [heq] at hold
      rcases (accept_get_iff ha.fresh).mp hold with ⟨-, rfl⟩ | hbefore
      · exact .inr mem_cons_self
      · exact .inl hbefore
    · replace hold : (h.importRecord crypto r).1.records.get id = some s := hold
      rw [heq] at hold
      exact .inl hold
  · exact .inr (mem_cons_of_mem r hmem)

theorem offered_groupId (crypto : Crypto) (groupId : DartString)
    (trustedOwner : GroupMemberProfile) (offers : List GroupMembershipRecord) :
    (offered crypto groupId trustedOwner offers).groupId = groupId ∧
      (offered crypto groupId trustedOwner offers).trustedOwner = trustedOwner := by
  refine Machine.run_induction (I := fun h : GroupMembershipHistory =>
    h.groupId = groupId ∧ h.trustedOwner = trustedOwner) ?_ ⟨rfl, rfl⟩
  intro h r _ hI
  change (h.importRecord crypto r).1.groupId = groupId ∧
    (h.importRecord crypto r).1.trustedOwner = trustedOwner
  rcases importRecord_cases crypto h r with ⟨-, heq⟩ | ⟨-, heq, -⟩
  · rw [heq]
    exact hI
  · rw [heq]
    exact hI

theorem WF.eq_of_records (hwf : h.WF) (hwf' : h'.WF) (hgroup : h.groupId = h'.groupId)
    (howner : h.trustedOwner = h'.trustedOwner) (hrecords : h.records = h'.records) : h = h' := by
  have hheads : h.heads = h'.heads := by
    ext id
    rw [hwf.heads_iff, hwf'.heads_iff, hrecords]
  have hidentities : h.identities = h'.identities := by
    ext device profile
    rw [hwf.identities_iff, hwf'.identities_iff, hrecords]
  cases h
  cases h'
  simp only at hgroup howner hrecords hheads hidentities
  rw [hgroup, howner, hrecords, hheads, hidentities]

/-! ### Records that can be accepted -/

section Orders

variable (crypto : Crypto) (groupId : DartString) (trustedOwner : GroupMemberProfile)
variable (S : List GroupMembershipRecord)

/-- The record is accepted in some order. -/
def Acceptable (r : GroupMembershipRecord) : Prop :=
  ∃ offers, OrderOf S offers ∧
    (offered crypto groupId trustedOwner offers).records.get r.id = some r

/-- **The records that can be accepted do not compete**: no two of them have one identifier, are
roots, or give a device two identities. -/
structure Consistent : Prop where
  one_record : ∀ r s, Acceptable crypto groupId trustedOwner S r →
    Acceptable crypto groupId trustedOwner S s → r.id = s.id → r = s
  one_root : ∀ r s, Acceptable crypto groupId trustedOwner S r →
    Acceptable crypto groupId trustedOwner S s → r.parents = [] → s.parents = [] → r = s
  one_identity : ∀ r s device, Acceptable crypto groupId trustedOwner S r →
    Acceptable crypto groupId trustedOwner S s → device ∈ r.group.activeMemberDeviceIds →
    device ∈ s.group.activeMemberDeviceIds →
    r.group.memberProfileFor device = s.group.memberProfileFor device

end Orders

variable {groupId : DartString} {trustedOwner : GroupMemberProfile}
variable {S offers offers' : List GroupMembershipRecord}

theorem acceptable_of_get (horder : OrderOf S offers) {id : DartString}
    (hget : (offered crypto groupId trustedOwner offers).records.get id = some r) :
    Acceptable crypto groupId trustedOwner S r := by
  refine ⟨offers, horder, ?_⟩
  rw [(wf_offered crypto groupId trustedOwner offers).id_eq id r hget]
  exact hget

section

variable {first rest : List GroupMembershipRecord}

theorem offered_append_get {id : DartString}
    (hget : (offered crypto groupId trustedOwner first).records.get id = some s) :
    (offered crypto groupId trustedOwner (first ++ rest)).records.get id = some s := by
  have hid := (wf_offered crypto groupId trustedOwner first).id_eq id s hget
  subst hid
  unfold offered at hget ⊢
  rw [Machine.run_append]
  exact run_get hget rest

theorem parent_offered_before (hfirst : ParentsFirst (first ++ r :: rest))
    (hself : r.id ∉ r.parents) {p : DartString} (hp : p ∈ r.parents)
    (hget : (offered crypto groupId trustedOwner (first ++ r :: rest)).records.get p = some s) :
    (offered crypto groupId trustedOwner first).records.get p = some s := by
  have hid := (wf_offered crypto groupId trustedOwner (first ++ r :: rest)).id_eq p s hget
  have hsplit := hget
  unfold offered at hsplit
  rw [Machine.run_append] at hsplit
  rcases get_run_cases (r :: rest) hsplit with hbefore | hmem
  · exact hbefore
  -- otherwise the parent was offered with or after the record
  rcases mem_cons.mp hmem with rfl | hlater
  · rw [hid] at hself
    exact absurd hp hself
  have hpair := (pairwise_append.mp hfirst).2.1
  have hnot := (pairwise_cons.mp hpair).1 s hlater
  rw [hid] at hnot
  exact absurd hp hnot

end

theorem agreeOn_of_common (hwf : h.WF) (hwf' : h'.WF) {k : GroupMembershipHistory}
    (hk : ∀ id s, h.records.get id = some s → k.records.get id = some s)
    (hk' : ∀ id s, h'.records.get id = some s → k.records.get id = some s) {p : DartString}
    {rp : GroupMembershipRecord} (hp : h.records.get p = some rp)
    (hp' : h'.records.get p = some rp) : AgreeOn h h' p := by
  intro x hpx
  -- the two hold one record at each node of the path
  have hboth : ∃ t, h.records.get x = some t ∧ h'.records.get x = some t := by
    induction hpx with
    | refl => exact ⟨rp, hp, hp'⟩
    | @tail y z _ hyz ih =>
    obtain ⟨t, ht, ht'⟩ := ih
    rw [parentsOf_of_get ht] at hyz
    obtain ⟨u, hu, -⟩ := hwf.parent_before y t ht z hyz
    obtain ⟨u', hu', -⟩ := hwf'.parent_before y t ht' z hyz
    have hsame := (hk z u hu).symm.trans (hk' z u' hu')
    rw [hsame] at hu
    exact ⟨u', hu, hu'⟩
  obtain ⟨t, ht, ht'⟩ := hboth
  rw [ht, ht']

/-! ### Convergence -/

section

variable (hcons : Consistent crypto groupId trustedOwner S)

include hcons

theorem Consistent.accepts_at {first rest before : List GroupMembershipRecord}
    (horder : OrderOf S (first ++ r :: rest))
    (hbefore : ∀ id s, (offered crypto groupId trustedOwner before).records.get id = some s →
      (offered crypto groupId trustedOwner (first ++ r :: rest)).records.get id = some s)
    (ha : Accepts crypto (offered crypto groupId trustedOwner before) r)
    (hr : Acceptable crypto groupId trustedOwner S r)
    (hfresh : (offered crypto groupId trustedOwner first).records.get r.id = none) :
    Accepts crypto (offered crypto groupId trustedOwner first) r := by
  have hwf := wf_offered crypto groupId trustedOwner before
  have hwf' := wf_offered crypto groupId trustedOwner first
  -- what the other order has accepted before the record can be accepted
  have hacceptable : ∀ {id s}, (offered crypto groupId trustedOwner first).records.get id = some s →
      Acceptable crypto groupId trustedOwner S s :=
    fun hget => acceptable_of_get horder (offered_append_get hget)
  have hself : r.id ∉ r.parents := by
    intro hmem
    obtain ⟨rp, hget⟩ := ha.parents_known r.id hmem
    rw [ha.fresh] at hget
    cases hget
  obtain ⟨hgroup, howner⟩ := offered_groupId crypto groupId trustedOwner first
  obtain ⟨hgroup', howner'⟩ := offered_groupId crypto groupId trustedOwner before
  refine ha.transfer hwf (hgroup.trans hgroup'.symm) (howner.trans howner'.symm) ?_ hfresh ?_ ?_
  · intro p hp
    obtain ⟨rp, hget⟩ := ha.parents_known p hp
    have hget' := parent_offered_before horder.parents_first hself hp (hbefore p rp hget)
    exact agreeOn_of_common hwf hwf' hbefore (fun _ _ hs => offered_append_get hs) hget hget'
  · intro hroot
    rw [Finset.eq_empty_iff_forall_notMem]
    intro id hid
    -- any record comes with a root, which would be this one
    obtain ⟨s, hs⟩ := FMap.mem_keys_iff.mp hid
    obtain ⟨k, root, hget, hnil⟩ := hwf'.root_exists id s hs
    have hsame := hcons.one_root r root hr (hacceptable hget) hroot hnil
    rw [← hwf'.id_eq k root hget, ← hsame, hfresh] at hget
    cases hget
  · intro device hactive profile hpin
    obtain ⟨id, s, hs, hs_active, hs_profile⟩ := (hwf'.identities_iff device profile).mp hpin
    rw [hcons.one_identity r s device hr (hacceptable hs) hactive hs_active]
    exact hs_profile

theorem Consistent.get_of_get (horder : OrderOf S offers) (horder' : OrderOf S offers') :
    ∀ id s, (offered crypto groupId trustedOwner offers).records.get id = some s →
      (offered crypto groupId trustedOwner offers').records.get id = some s := by
  -- by induction over the first order, from its start
  have hprefix : ∀ before rest, offers = before ++ rest → ∀ id s,
      (offered crypto groupId trustedOwner before).records.get id = some s →
        (offered crypto groupId trustedOwner offers').records.get id = some s := by
    intro before
    induction before using reverseRecOn with
    | nil =>
      intro rest _ id s hget
      cases hget
    | append_singleton before r ih =>
    intro rest hsplit id s hget
    have hearlier := ih (r :: rest) (by rw [hsplit, append_assoc, singleton_append])
    have hstep : offered crypto groupId trustedOwner (before ++ [r]) =
        ((offered crypto groupId trustedOwner before).importRecord crypto r).1 := by
      unfold offered
      rw [Machine.run_append]
      rfl
    have hgoes : (offered crypto groupId trustedOwner offers).records.get id = some s := by
      rw [hsplit]
      exact offered_append_get hget
    rw [hstep] at hget
    rcases importRecord_cases crypto (offered crypto groupId trustedOwner before) r with
      ⟨ha, heq⟩ | ⟨-, heq, -⟩
    swap
    · rw [heq] at hget
      exact hearlier id s hget
    rw [heq] at hget
    rcases (accept_get_iff ha.fresh).mp hget with ⟨rfl, rfl⟩ | hold
    swap
    · exact hearlier id s hold
    -- the record just accepted, at its place in the other order
    have hr := acceptable_of_get horder hgoes
    have hmem : s ∈ offers' := by
      refine horder'.perm.mem_iff.mpr (horder.perm.mem_iff.mp ?_)
      rw [hsplit]
      simp
    obtain ⟨first, last, rfl⟩ := append_of_mem hmem
    cases hfresh : (offered crypto groupId trustedOwner first).records.get s.id with
    | some other =>
      -- one with its identifier is there, which is itself
      have hother := acceptable_of_get horder' (offered_append_get hfresh)
      have hid := (wf_offered crypto groupId trustedOwner first).id_eq s.id other hfresh
      obtain rfl := hcons.one_record other s hother hr hid
      exact offered_append_get hfresh
    | none =>
    have haccepts := hcons.accepts_at horder' hearlier ha hr hfresh
    have hthere : (offered crypto groupId trustedOwner (first ++ [s])).records.get s.id =
        some s := by
      unfold offered
      rw [Machine.run_append]
      change (GroupMembershipHistory.importRecord crypto
        (offered crypto groupId trustedOwner first) s).1.records.get s.id = some s
      rw [importRecord_of_accepts haccepts]
      exact (accept_get_iff haccepts.fresh).mpr (.inl ⟨rfl, rfl⟩)
    rw [← singleton_append, ← append_assoc]
    exact offered_append_get hthere
  exact hprefix offers [] (append_nil offers).symm

theorem Consistent.converge (horder : OrderOf S offers) (horder' : OrderOf S offers') :
    offered crypto groupId trustedOwner offers = offered crypto groupId trustedOwner offers' := by
  obtain ⟨hgroup, howner⟩ := offered_groupId crypto groupId trustedOwner offers
  obtain ⟨hgroup', howner'⟩ := offered_groupId crypto groupId trustedOwner offers'
  refine (wf_offered crypto groupId trustedOwner offers).eq_of_records
    (wf_offered crypto groupId trustedOwner offers') (hgroup.trans hgroup'.symm)
    (howner.trans howner'.symm) ?_
  ext id s
  exact ⟨hcons.get_of_get horder horder' id s, hcons.get_of_get horder' horder id s⟩

end

/-- **Convergence.** Whatever the records, all orders that put parents first end with the same
records, heads and pinned identities if and only if the records that can be accepted do not
compete. -/
theorem membership_converges_iff (crypto : Crypto) (groupId : DartString)
    (trustedOwner : GroupMemberProfile) (S : List GroupMembershipRecord) :
    (∀ offers offers', OrderOf S offers → OrderOf S offers' →
      offered crypto groupId trustedOwner offers = offered crypto groupId trustedOwner offers') ↔
    Consistent crypto groupId trustedOwner S := by
  constructor
  swap
  · intro hcons offers offers' horder horder'
    exact hcons.converge horder horder'
  intro hconverge
  -- two records that can be accepted are in one history
  have htogether : ∀ r s, Acceptable crypto groupId trustedOwner S r →
      Acceptable crypto groupId trustedOwner S s →
      ∃ offers, (offered crypto groupId trustedOwner offers).records.get r.id = some r ∧
        (offered crypto groupId trustedOwner offers).records.get s.id = some s := by
    rintro r s ⟨offers, horder, hr⟩ ⟨offers', horder', hs⟩
    rw [hconverge offers' offers horder' horder] at hs
    exact ⟨offers, hr, hs⟩
  refine ⟨?_, ?_, ?_⟩
  · intro r s hr hs hid
    obtain ⟨offers, hgetr, hgets⟩ := htogether r s hr hs
    rw [hid, hgets] at hgetr
    exact (some.inj hgetr).symm
  · intro r s hr hs hroot hroot'
    obtain ⟨offers, hgetr, hgets⟩ := htogether r s hr hs
    have hid := (wf_offered crypto groupId trustedOwner offers).root_unique r.id s.id r s hgetr hgets
      hroot hroot'
    rw [hid, hgets] at hgetr
    exact (some.inj hgetr).symm
  · intro r s device hr hs hactive hactive'
    obtain ⟨offers, hgetr, hgets⟩ := htogether r s hr hs
    exact (wf_offered crypto groupId trustedOwner offers).same_identity hgetr hgets hactive hactive'

end GroupMembershipHistory

namespace Sample

open GroupMembershipHistory

def impostor : GroupMemberProfile := profile "fa" "fd" "CAgI" "CAg=" "08"

def misadmits : GroupMembershipRecord where
  proof := event byOwner 2 1 (digest 0) isDigest_zero
  payload := payload (snapshot [owner, impostor] [] 2) [digest 0]
    [(owner.deviceId, some (digest 0)), (friend.deviceId, none)]
  kind := rfl
  checkpointsValid := by decide
  snapshotValid := by decide
  membersPinned := by decide

/-- Two branches that give a device two identities: the one imported first is accepted, the other
refused, and two devices end with different records, heads and pinned identities. -/
theorem import_order_decides :
    OrderOf [root, admits, misadmits] [root, admits, misadmits] ∧
    OrderOf [root, admits, misadmits] [root, misadmits, admits] ∧
    (offered crypto groupId owner [root, admits, misadmits]).records.keys = {digest 0, digest 1} ∧
    (offered crypto groupId owner [root, misadmits, admits]).records.keys = {digest 0, digest 2} ∧
    (offered crypto groupId owner [root, admits, misadmits]).heads = {digest 1} ∧
    (offered crypto groupId owner [root, misadmits, admits]).heads = {digest 2} ∧
    (offered crypto groupId owner [root, admits, misadmits]).identities.get friend.deviceId =
      some friend ∧
    (offered crypto groupId owner [root, misadmits, admits]).identities.get friend.deviceId =
      some impostor := by
  have hswap : [root, misadmits, admits].Perm [root, admits, misadmits] :=
    (List.Perm.swap admits misadmits []).cons root
  refine ⟨⟨List.Perm.refl _, ?_⟩, ⟨hswap, ?_⟩, ?_, ?_, ?_, ?_, ?_, ?_⟩
  · unfold ParentsFirst
    decide
  · unfold ParentsFirst
    decide
  all_goals decide

end Sample

end Group
end Conest
