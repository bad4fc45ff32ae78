import Conest.Account.DeviceList

/-!
# Revocation

A list supersedes another only if it keeps every revocation, so along a history of accepted lists a
revoked device never comes back (`revoked_forever`).

Signing keeps the newest 1024 revocations. As long as none of the current list falls out of these,
the list that is signed next is accepted (`issue_accepted`): it lists no revoked device, and what it
revokes is more than before.
-/

namespace Conest
namespace Account

open Lib List Option

/-! ### Maps put together -/

section AddAll

variable {m other : LinkedMap DartString ℤ} {key : DartString}

/-- `Map.addAll`. -/
def addAll (m other : LinkedMap DartString ℤ) : LinkedMap DartString ℤ :=
  other.entries.foldl (fun m entry => m.put entry.1 entry.2) m

theorem mem_keys_addAll : key ∈ (addAll m other).keys ↔ key ∈ m.keys ∨ key ∈ other.keys := by
  have hfold : ∀ (entries : List (DartString × ℤ)) (m : LinkedMap DartString ℤ),
      key ∈ (entries.foldl (fun m entry => m.put entry.1 entry.2) m).keys ↔
        key ∈ m.keys ∨ key ∈ entries.map Prod.fst := by
    intro entries
    induction entries with
    | nil => intro m; simp
    | cons entry entries ih =>
      intro m
      rw [foldl_cons, ih, LinkedMap.mem_keys_put, map_cons, mem_cons]
      tauto
  exact hfold other.entries m

end AddAll

/-! ### The newest entries -/

theorem mem_take_of_countP {entries : List (DartString × ℤ)} {entry : DartString × ℤ} {count : ℕ}
    (hsorted : entries.Pairwise fun a b => a.2 ≤ b.2) (hmem : entry ∈ entries)
    (hcount : (entries.countP fun other => decide (entry.2 ≤ other.2)) ≤ count) :
    entry ∈ entries.reverse.take count := by
  obtain ⟨i, hi, hentry⟩ := getElem_of_mem (mem_reverse.mpr hmem)
  have hbefore : ∀ other ∈ entries.reverse.take (i + 1), decide (entry.2 ≤ other.2) = true := by
    intro other hother
    obtain ⟨j, hj, rfl⟩ := getElem_of_mem hother
    rw [length_take] at hj
    rw [getElem_take]
    refine decide_eq_true ?_
    rcases Nat.lt_or_ge j i with hlt | hge
    · have hpair := pairwise_iff_getElem.mp (pairwise_reverse.mpr hsorted) j i
        (by omega) hi hlt
      rwa [hentry] at hpair
    · have hsame : j = i := by omega
      subst hsame
      exact le_of_eq (congrArg Prod.snd hentry).symm
  have hall : (entries.reverse.take (i + 1)).countP (fun other => decide (entry.2 ≤ other.2)) =
      i + 1 := by
    rw [countP_eq_length.mpr hbefore, length_take]
    omega
  have hle : i + 1 ≤ count := by
    calc i + 1 = (entries.reverse.take (i + 1)).countP _ := hall.symm
      _ ≤ entries.reverse.countP _ := (take_sublist _ _).countP_le
      _ = entries.countP _ := (reverse_perm entries).countP_eq _
      _ ≤ count := hcount
  have htake : (entries.reverse.take count)[i]? = some entry := by
    rw [getElem?_take_of_lt hle, getElem?_eq_getElem hi, hentry]
  exact mem_of_getElem? htake

namespace AccountDeviceList

variable {libs : Libraries} {key : DartString} {list current : AccountDeviceList}

/-! ### A revoked device stays revoked -/

variable {history : List AccountDeviceList}

/-- A list that verifies under the account's key and supersedes the current one. -/
def Accepts (libs : Libraries) (key : DartString) (current list : AccountDeviceList) : Prop :=
  list.verify libs key = true ∧ list.supersedes (some current) = true

theorem supersedes_iff : list.supersedes (some current) = true ↔
    current.accountId = list.accountId ∧ current.version < list.version ∧
      ∀ id ∈ current.revoked.keys, list.revoked.contains id = true := by
  show (if current.accountId ≠ list.accountId ∨ list.version ≤ current.version then false
    else current.revoked.keys.all list.revoked.contains) = true ↔ _
  split
  · next h =>
    constructor
    · intro hfalse
      cases hfalse
    · rintro ⟨haccount, hversion, -⟩
      rcases h with hne | hle
      · exact absurd haccount hne
      · omega
  next h =>
  rw [not_or, not_not, not_le] at h
  rw [List.all_eq_true]
  exact ⟨fun hall => ⟨h.1, h.2, hall⟩, fun hall => hall.2.2⟩

theorem revoked_mono (hhistory : history.IsChain (Accepts libs key)) {i j : ℕ} (hij : i ≤ j)
    (hj : j < history.length) {id : DartString} (hrevoked : history[i].revoked.contains id = true) :
    history[j].revoked.contains id = true := by
  induction j, hij using Nat.le_induction with
  | base => exact hrevoked
  | succ j hij ih =>
    have hstep : Accepts libs key history[j] history[j + 1] :=
      isChain_iff_getElem.mp hhistory j hj
    have hkept := (supersedes_iff.mp hstep.2).2.2
    exact hkept id (LinkedMap.contains_iff.mp (ih (by omega) hrevoked))

theorem revoked_forever (hhistory : history.IsChain (Accepts libs key)) {i j : ℕ} (hij : i ≤ j)
    (hj : j < history.length) {id : DartString} (hrevoked : history[i].revoked.contains id = true) :
    history[j].deviceFor id = none := by
  unfold deviceFor
  rw [if_pos (revoked_mono hhistory hij hj hrevoked)]

/-! ### The next list -/

theorem checkDevices_iff {accountId : DartString} {revoked : LinkedMap DartString ℤ}
    {devices : List DeviceCert} {seen : List DartString} :
    checkDevices accountId revoked seen devices = true ↔
      (∀ device ∈ devices, device.accountId = accountId ∧ device.deviceId ∉ seen ∧
        revoked.contains device.deviceId = false) ∧
      (devices.map DeviceCert.deviceId).Nodup := by
  induction devices generalizing seen with
  | nil => simp [checkDevices]
  | cons device devices ih =>
  rw [checkDevices]
  split
  · next hbad =>
    constructor
    · intro hfalse
      cases hfalse
    rintro ⟨hall, -⟩
    obtain ⟨haccount, hnew, hkept⟩ := hall device mem_cons_self
    rcases hbad with hne | hseen | hrevoked
    · exact absurd haccount hne
    · exact absurd hseen hnew
    · rw [hkept] at hrevoked
      cases hrevoked
  next hgood =>
  rw [not_or, not_or, not_not, Bool.not_eq_true] at hgood
  rw [ih, map_cons, nodup_cons]
  constructor
  · rintro ⟨hall, hnodup⟩
    refine ⟨fun other hother => ?_, fun hmem => ?_, hnodup⟩
    · rcases mem_cons.mp hother with rfl | hother
      · exact hgood
      · obtain ⟨haccount, hnew, hkept⟩ := hall other hother
        exact ⟨haccount, fun hseen => hnew (mem_cons_of_mem _ hseen), hkept⟩
    · obtain ⟨other, hother, hid⟩ := mem_map.mp hmem
      refine (hall other hother).2.1 ?_
      rw [hid]
      exact mem_cons_self
  · rintro ⟨hall, hfresh, hnodup⟩
    refine ⟨fun other hother => ?_, hnodup⟩
    obtain ⟨haccount, hnew, hkept⟩ := hall other (mem_cons_of_mem _ hother)
    refine ⟨haccount, fun hseen => ?_, hkept⟩
    rcases mem_cons.mp hseen with hid | hseen
    · exact hfresh (mem_map.mpr ⟨other, hother, hid⟩)
    · exact hnew hseen

theorem verify_iff : list.verify libs key = true ↔
    list.devices.length ≤ maxAccountDevices ∧ list.revoked.size ≤ maxRevokedDevices ∧
      1 ≤ list.version ∧
      ((∀ device ∈ list.devices, device.accountId = list.accountId ∧
          list.revoked.contains device.deviceId = false) ∧
        (list.devices.map DeviceCert.deviceId).Nodup) ∧
      libs.verifyEd25519 (accountSigningBytes (DartString.ofString "devices")
        (fields list.accountId list.version list.devices list.revoked list.issuedAt))
        list.signatureBase64 key = true ∧
      ∀ device ∈ list.devices, device.verify libs key = true := by
  have hdevices := @checkDevices_iff list.accountId list.revoked list.devices []
  simp only [not_mem_nil, not_false_eq_true, true_and] at hdevices
  unfold verify
  split
  · next h =>
    constructor
    · intro hfalse
      cases hfalse
    · rintro ⟨hlength, hsize, hversion, -⟩
      omega
  next h =>
  rw [not_or, not_or, not_lt, not_lt, not_lt] at h
  rw [← hdevices]
  split
  · next hcheck =>
    rw [Bool.and_eq_true, List.all_eq_true]
    exact ⟨fun hrest => ⟨h.1, h.2.1, h.2.2, hcheck, hrest⟩, fun hall => hall.2.2.2.2⟩
  next hcheck =>
  constructor
  · intro hfalse
    cases hfalse
  · intro hall
    exact absurd hall.2.2.2.1 hcheck

variable {byDate : DateSort} {account : AccountKeys} {removed : LinkedMap DartString ℤ}
  {issuedAt : ℤ}

/-- The list signed next: without the devices to remove, which are revoked. -/
def reissue (libs : Libraries) (byDate : DateSort) (account : AccountKeys)
    (current : AccountDeviceList) (removed : LinkedMap DartString ℤ) (issuedAt : ℤ) :
    Except String AccountDeviceList :=
  issue libs byDate account current.accountId (current.version + 1)
    (current.devices.filter fun device => !removed.contains device.deviceId)
    (addAll current.revoked removed) issuedAt

theorem exists_reissue (h : current.devices.length ≤ maxAccountDevices) :
    ∃ next, reissue libs byDate account current removed issuedAt = .ok next := by
  have hfewer := Nat.le_trans (length_filter_le
    (fun device : DeviceCert => !removed.contains device.deviceId) current.devices) h
  unfold reissue issue
  rw [if_neg (Nat.not_lt.mpr hfewer)]
  exact ⟨_, rfl⟩

/-- No revocation of the list is older than the newest 1024 of all. -/
def Keepable (current : AccountDeviceList) (removed : LinkedMap DartString ℤ) : Prop :=
  ∀ entry ∈ (addAll current.revoked removed).entries, entry.1 ∈ current.revoked.keys →
    ((addAll current.revoked removed).entries.countP fun other => decide (entry.2 ≤ other.2)) ≤
      maxRevokedDevices

theorem keepable_of_size (h : (addAll current.revoked removed).size ≤ maxRevokedDevices) :
    Keepable current removed :=
  fun _ _ _ => Nat.le_trans countP_le_length h

theorem entries_kept (byDate : DateSort) (revoked : LinkedMap DartString ℤ) :
    (LinkedMap.ofEntries ((byDate.sort revoked.entries).reverse.take maxRevokedDevices)).entries =
      (byDate.sort revoked.entries).reverse.take maxRevokedDevices := by
  apply LinkedMap.entries_ofEntries
  have hsub : ((byDate.sort revoked.entries).reverse.take maxRevokedDevices).Sublist
      (byDate.sort revoked.entries).reverse := take_sublist _ _
  refine (hsub.map Prod.fst).nodup ?_
  have hperm : ((byDate.sort revoked.entries).reverse.map Prod.fst).Perm
      (revoked.entries.map Prod.fst) :=
    ((reverse_perm _).trans (byDate.perm _)).map Prod.fst
  exact hperm.nodup_iff.mpr revoked.nodup

/-- **The next list is accepted.** It verifies and supersedes the list it was made from. -/
theorem issue_accepted
    (hsigns : ∀ bytes, libs.verifyEd25519 bytes (libs.signEd25519 account bytes)
      account.publicKeyBase64 = true)
    (hcurrent : current.verify libs account.publicKeyBase64 = true)
    (hkeepable : Keepable current removed) :
    ∃ next, reissue libs byDate account current removed issuedAt = .ok next ∧
      Accepts libs account.publicKeyBase64 current next := by
  obtain ⟨hlength, -, hversion, ⟨hdevices, hnodup⟩, -, hcerts⟩ := verify_iff.mp hcurrent
  have hfewer : (current.devices.filter fun device =>
      !removed.contains device.deviceId).length ≤ maxAccountDevices :=
    Nat.le_trans (length_filter_le _ _) hlength
  have hkept := entries_kept byDate (addAll current.revoked removed)
  have hsubset : ∀ id, id ∈ (LinkedMap.ofEntries ((byDate.sort
      (addAll current.revoked removed).entries).reverse.take maxRevokedDevices)).keys →
      id ∈ current.revoked.keys ∨ id ∈ removed.keys := by
    intro id hid
    obtain ⟨entry, hentry, rfl⟩ := mem_map.mp hid
    rw [hkept] at hentry
    have hmem := (byDate.perm _).mem_iff.mp (mem_reverse.mp (mem_of_mem_take hentry))
    exact mem_keys_addAll.mp (mem_map_of_mem hmem)
  refine ⟨_, if_neg (Nat.not_lt.mpr hfewer), ?_, ?_⟩
  · refine verify_iff.mpr ⟨hfewer, ?_, Int.le_add_one hversion, ⟨?_, ?_⟩, hsigns _, ?_⟩
    · show (LinkedMap.ofEntries _).entries.length ≤ maxRevokedDevices
      rw [hkept]
      exact length_take_le _ _
    · -- no listed device is revoked, before or now
      intro device hdevice
      obtain ⟨hmem, hstays⟩ := mem_filter.mp hdevice
      obtain ⟨haccount, hnot⟩ := hdevices device hmem
      refine ⟨haccount, ?_⟩
      rw [Bool.eq_false_iff]
      intro hrevoked
      rcases hsubset _ (LinkedMap.contains_iff.mp hrevoked) with hold | hnew
      · rw [LinkedMap.contains_iff.mpr hold] at hnot
        cases hnot
      · rw [LinkedMap.contains_iff.mpr hnew] at hstays
        cases hstays
    · exact hnodup.sublist (filter_sublist.map _)
    · exact fun device hdevice => hcerts device (mem_of_mem_filter hdevice)
  · -- every revocation is among the newest
    refine supersedes_iff.mpr ⟨rfl, Int.lt_succ _, fun id hid => ?_⟩
    have hall : id ∈ (addAll current.revoked removed).keys := mem_keys_addAll.mpr (.inl hid)
    obtain ⟨entry, hentry, rfl⟩ := mem_map.mp hall
    apply LinkedMap.contains_iff.mpr
    have hcount := hkeepable entry hentry hid
    rw [← (byDate.perm _).countP_eq] at hcount
    have hnewest := mem_take_of_countP (byDate.sorted _) ((byDate.perm _).mem_iff.mpr hentry) hcount
    rw [← hkept] at hnewest
    exact mem_map_of_mem hnewest

/-- **Revocation.** Along a history of accepted lists a device once revoked is never found again;
and what is signed next from a list that verifies is accepted in its place, as long as none of its
revocations falls out of the newest 1024. -/
theorem revocation (libs : Libraries) (byDate : DateSort) (account : AccountKeys)
    (hsigns : ∀ bytes, libs.verifyEd25519 bytes (libs.signEd25519 account bytes)
      account.publicKeyBase64 = true) :
    (∀ history : List AccountDeviceList,
      history.IsChain (Accepts libs account.publicKeyBase64) →
      ∀ (i j : ℕ) (hij : i ≤ j) (hj : j < history.length) (id : DartString),
        history[i].revoked.contains id = true → history[j].deviceFor id = none) ∧
    ∀ (current : AccountDeviceList) (removed : LinkedMap DartString ℤ) (issuedAt : ℤ),
      current.verify libs account.publicKeyBase64 = true → Keepable current removed →
      ∃ next, reissue libs byDate account current removed issuedAt = .ok next ∧
        Accepts libs account.publicKeyBase64 current next :=
  ⟨fun _ hhistory _ _ hij hj _ hrevoked => revoked_forever hhistory hij hj hrevoked,
    fun _ _ _ hcurrent hkeepable => issue_accepted hsigns hcurrent hkeepable⟩

theorem not_supersedes_of_full {next : AccountDeviceList}
    (hfull : current.revoked.size = maxRevokedDevices) {entry : DartString × ℤ}
    (hentry : entry ∈ (addAll current.revoked removed).entries)
    (hnew : entry.1 ∉ current.revoked.keys)
    (hnewest : ((addAll current.revoked removed).entries.countP
      fun other => decide (entry.2 ≤ other.2)) ≤ maxRevokedDevices)
    (hnext : reissue libs byDate account current removed issuedAt = .ok next) :
    next.supersedes (some current) = false := by
  have hkept := entries_kept byDate (addAll current.revoked removed)
  unfold reissue issue at hnext
  split at hnext
  · cases hnext
  cases hnext
  rw [Bool.eq_false_iff]
  intro hsupersedes
  have hall := (supersedes_iff.mp hsupersedes).2.2
  -- the new entry and all the old ones are kept, which is one too many
  rw [← (byDate.perm _).countP_eq] at hnewest
  have hmem := mem_take_of_countP (byDate.sorted _) ((byDate.perm _).mem_iff.mpr hentry) hnewest
  rw [← hkept] at hmem
  have hsubset : (entry.1 :: current.revoked.keys).toFinset ⊆ (LinkedMap.ofEntries ((byDate.sort
      (addAll current.revoked removed).entries).reverse.take maxRevokedDevices)).keys.toFinset := by
    intro id hid
    rw [List.mem_toFinset] at hid ⊢
    rcases mem_cons.mp hid with rfl | hold
    · exact mem_map_of_mem hmem
    · exact LinkedMap.contains_iff.mp (hall id hold)
  have hcard := Finset.card_le_card hsubset
  rw [toFinset_card_of_nodup (nodup_cons.mpr ⟨hnew, current.revoked.nodup⟩),
    toFinset_card_of_nodup (LinkedMap.keys_nodup _), length_cons] at hcard
  rw [LinkedMap.length_keys, LinkedMap.length_keys] at hcard
  have hsize : (LinkedMap.ofEntries ((byDate.sort
      (addAll current.revoked removed).entries).reverse.take maxRevokedDevices)).size ≤
      maxRevokedDevices := by
    unfold LinkedMap.size
    rw [hkept]
    exact length_take_le _ _
  omega

end AccountDeviceList

/-! ### Two lists -/

namespace Sample

open AccountDeviceList

def libs : Libraries where
  signEd25519 _ _ := []
  verifyEd25519 _ _ _ := true

def keys : AccountKeys := ⟨[], []⟩

theorem mergeSort_sorted (entries : List (DartString × ℤ)) :
    (entries.mergeSort fun a b => decide (a.2 ≤ b.2)).Pairwise fun a b => a.2 ≤ b.2 := by
  have hsorted := @pairwise_mergeSort (DartString × ℤ) (fun a b => decide (a.2 ≤ b.2))
    (fun a b c hab hbc => decide_eq_true (le_trans (of_decide_eq_true hab) (of_decide_eq_true hbc)))
    (fun a b => by
      rcases le_total a.2 b.2 with h | h
      · simp [h]
      · simp [h]) entries
  exact hsorted.imp fun h => of_decide_eq_true h

def byDate : DateSort where
  sort entries := entries.mergeSort fun a b => decide (a.2 ≤ b.2)
  perm := fun entries => List.mergeSort_perm entries _
  sorted := mergeSort_sorted

def phone : DeviceCert := ⟨[1], [2], [], [], none, [], 0, [], []⟩

def tablet : DeviceCert := ⟨[1], [3], [], [], none, [], 0, [], []⟩

def both : AccountDeviceList := ⟨[1], 1, [phone, tablet], LinkedMap.empty, 0, []⟩

def lost : LinkedMap DartString ℤ := LinkedMap.ofEntries [([3], 7)]

theorem verify_both : both.verify libs [] = true := by decide

theorem keepable_both : Keepable both lost := by
  apply keepable_of_size
  decide

theorem revocation_both : ∃ next, reissue libs byDate keys both lost 9 = .ok next ∧
    Accepts libs [] both next :=
  (revocation libs byDate keys fun _ => rfl).2 both lost 9 verify_both keepable_both

/-- The ids of the devices that were ever removed. -/
@[irreducible] def removedIds : List (DartString × ℤ) :=
  (List.range maxRevokedDevices).map fun (n : ℕ) => ([Fin.ofNat 65536 n, 1], (n : ℤ))

theorem of_mem_removedIds {entry : DartString × ℤ} (h : entry ∈ removedIds) :
    ∃ n : ℕ, n < maxRevokedDevices ∧ ([Fin.ofNat 65536 n, 1], (n : ℤ)) = entry := by
  unfold removedIds at h
  obtain ⟨n, hn, hentry⟩ := List.mem_map.mp h
  exact ⟨n, mem_range.mp hn, hentry⟩

theorem removedIds_nodup : (removedIds.map Prod.fst).Nodup := by
  unfold removedIds
  rw [List.map_map]
  refine List.Nodup.map_on (fun m hm n hn h => ?_) List.nodup_range
  rw [List.mem_range] at hm hn
  have hvalue := congrArg Fin.val (List.cons.inj h).1
  have hmax : maxRevokedDevices = 1024 := rfl
  rw [Fin.val_ofNat, Fin.val_ofNat, Nat.mod_eq_of_lt (by omega), Nat.mod_eq_of_lt (by omega)]
    at hvalue
  exact hvalue

def full : AccountDeviceList :=
  ⟨[1], 1025, [phone, tablet], ⟨removedIds, removedIds_nodup⟩, 0, []⟩

def latest : LinkedMap DartString ℤ := LinkedMap.ofEntries [([3], 5000)]

theorem not_removed {id : DartString} (h : id.length = 1) : id ∉ full.revoked.keys := by
  intro hmem
  obtain ⟨entry, hentry, rfl⟩ := mem_map.mp hmem
  obtain ⟨n, -, rfl⟩ := of_mem_removedIds hentry
  cases h

theorem size_full : full.revoked.size = maxRevokedDevices := by
  show removedIds.length = _
  unfold removedIds
  rw [length_map, length_range]

theorem verify_full : full.verify libs [] = true := by
  have hnot : ∀ device ∈ full.devices, full.revoked.contains device.deviceId = false := by
    intro device hdevice
    rw [Bool.eq_false_iff, ne_eq, LinkedMap.contains_iff]
    rcases mem_cons.mp hdevice with rfl | hdevice
    · exact not_removed rfl
    · rw [mem_singleton.mp hdevice]
      exact not_removed rfl
  refine verify_iff.mpr ⟨by decide, le_of_eq size_full, by decide, ⟨?_, by decide⟩, rfl, ?_⟩
  · intro device hdevice
    refine ⟨?_, hnot device hdevice⟩
    rcases mem_cons.mp hdevice with rfl | hdevice
    · rfl
    · rw [mem_singleton.mp hdevice]
      rfl
  · exact fun device _ => rfl

theorem entries_latest : (addAll full.revoked latest).entries = removedIds ++ [([3], 5000)] := by
  have hnot : ([3] : DartString) ∉ full.revoked.keys := not_removed rfl
  exact LinkedMap.entries_put_of_not_mem hnot

/-- **A full table.** The list verifies, but the next list that is signed from it, with one more
device revoked, does not supersede it. -/
theorem not_issuable : full.verify libs [] = true ∧
    ∃ next, reissue libs byDate keys full latest 5000 = .ok next ∧
      next.supersedes (some full) = false := by
  have hcount : ((addAll full.revoked latest).entries.countP
      fun other => decide ((5000 : ℤ) ≤ other.2)) ≤ maxRevokedDevices := by
    rw [entries_latest, countP_append, countP_eq_zero.mpr]
    · decide
    · intro entry hentry
      obtain ⟨n, hn, rfl⟩ := of_mem_removedIds hentry
      have hmax : maxRevokedDevices = 1024 := rfl
      simp only [decide_eq_true_eq]
      omega
  refine ⟨verify_full, ?_⟩
  have hfew : full.devices.length ≤ maxAccountDevices := by decide
  obtain ⟨next, hnext⟩ := @exists_reissue libs full byDate keys latest 5000 hfew
  have hlast : (([3], 5000) : DartString × ℤ) ∈ (addAll full.revoked latest).entries := by
    rw [entries_latest]
    exact mem_append_right _ mem_cons_self
  exact ⟨next, hnext, not_supersedes_of_full size_full hlast (not_removed rfl) hcount hnext⟩

end Sample

end Account
end Conest
