import Conest.Relay.UdpIsolation

/-!
# Rate maps and new addresses

Each rate map tracks at most `max_rate_keys` addresses and turns new ones away when it is full, so
that it must not stay full of windows that are over. `new_keys_admitted` says when it does not: a
peer without an entry is refused only while that many other addresses have a window younger than
121 seconds (120 until a prune drops it, and a prune is at most one second late). A soft ban is
refused in any case, and so is a single store larger than the budget of a minute.

Both maps are pruned under one timestamp, which the first call that finds the prune due takes for
its own map. The result for a map is about the runs in which the other map's calls take the prune
only while this one holds nothing that is over (`WindowsKeptUp`, `BucketsKeptUp`).

The invariant (`Recent`) is that at the last prune every window of the map was younger than 120
seconds or had not begun.
-/

open Lib Option

namespace Conest
namespace Relay

variable {cfg : RelayConfig}

/-! ### The invariant of one map -/

variable {decision : Option Bool}

/-- Every window began less than the drop time before `prunedAt`, or later. -/
def Recent {β : Type} (rules : RateRules β) (m : RateMap β) (prunedAt : ℕ) : Prop :=
  ∀ k w, m.get k = some w → prunedAt < w.startedMillis + rules.dropAfter

/-- At least `cap` other keys have a window younger than the drop time and one second. -/
def Crowded {β : Type} (rules : RateRules β) (m : RateMap β) (key : String) (now : ℕ) : Prop :=
  ∃ others : Finset String, rules.cap ≤ others.card ∧ key ∉ others ∧
    ∀ k ∈ others, ∃ w, m.get k = some w ∧ now - w.startedMillis < rules.dropAfter + 1000

section Map

variable {β : Type} {rules : RateRules β} {m : RateMap β} {spend : β → Option β} {key : String}
  {prunedAt now : ℕ}

theorem le_prunedAtAfter (h : prunedAt ≤ now) : prunedAtAfter prunedAt now ≤ now := by
  unfold prunedAtAfter
  split
  · exact Nat.le_refl now
  · exact h

section

variable (h : Recent rules m prunedAt)

include h

theorem Recent.pruneIfDue :
    Recent rules (pruneIfDue rules m prunedAt now) (prunedAtAfter prunedAt now) := by
  intro k w hw
  unfold Relay.pruneIfDue at hw
  unfold prunedAtAfter
  split
  · next hdue =>
    rw [if_pos hdue] at hw
    have hlt := (RateMap.get_prune_eq_some.mp hw).2
    omega
  next hdue =>
  rw [if_neg hdue] at hw
  exact h k w hw

theorem Recent.charge (hle : prunedAt ≤ now) (hdrop : 0 < rules.dropAfter) :
    Recent rules (RateMap.charge rules m spend key now).1 prunedAt := by
  intro k w hw
  rcases RateMap.started_of_get_charge hw with hnow | ⟨w₀, hw₀, heq⟩
  · omega
  · have hold := h k w₀ hw₀
    omega

theorem Recent.passedOver (hkept : pruneDue prunedAt now = true →
      ∀ k w, m.get k = some w → now - w.startedMillis < rules.dropAfter) :
    Recent rules m (prunedAtAfter prunedAt now) := by
  intro k w hw
  unfold prunedAtAfter
  split
  · next hdue =>
    have hlt := hkept hdue k w hw
    omega
  · exact h k w hw

theorem Recent.crowded (hfull : RateMap.Full rules (Relay.pruneIfDue rules m prunedAt now) key) :
    Crowded rules m key now := by
  refine ⟨(Relay.pruneIfDue rules m prunedAt now).keys, hfull.1, ?_, ?_⟩
  · rw [FMap.mem_keys_iff, hfull.2]
    simp
  intro k hk
  obtain ⟨w, hw⟩ := FMap.mem_keys_iff.mp hk
  unfold Relay.pruneIfDue at hw
  split at hw
  · obtain ⟨hm, hlt⟩ := RateMap.get_prune_eq_some.mp hw
    exact ⟨w, hm, by omega⟩
  next hdue =>
  -- the last prune is less than a second ago
  have hlast : now - prunedAt < 1000 := by
    unfold pruneDue at hdue
    simpa using hdue
  have hrecent := h k w hw
  exact ⟨w, hw, by omega⟩

end

theorem full_of_refused (hnone : m.get key = none) (hspend : (spend rules.fresh).isSome = true)
    (hrefused : (RateMap.charge rules (Relay.pruneIfDue rules m prunedAt now) spend key now).2 ≠
      .granted) : RateMap.Full rules (Relay.pruneIfDue rules m prunedAt now) key := by
  by_contra hroom
  have hnone' : (Relay.pruneIfDue rules m prunedAt now).get key = none := by
    rcases pruneIfDue_keptOrOver rules m prunedAt now key with heq | ⟨hgone, -⟩
    · rw [heq, hnone]
    · exact hgone
  refine hrefused ?_
  unfold RateMap.charge
  rw [if_neg hroom]
  have hcur : (RateMap.current rules (Relay.pruneIfDue rules m prunedAt now) key now).used =
      rules.fresh := by
    unfold RateMap.current
    rw [hnone']
  obtain ⟨used, hused⟩ := isSome_iff_exists.mp hspend
  rw [hcur, hused]

theorem spendRequest_fresh (cfg : RelayConfig) :
    (spendRequest cfg (bucketRules cfg).fresh).isSome = true := by
  have hpos := cfg.maxRequestsPerMinute_pos
  have hfresh : (bucketRules cfg).fresh = 0 := rfl
  unfold spendRequest
  rw [if_neg (by omega)]
  rfl

theorem spendStore_fresh {bytes : ℕ} (hbytes : bytes ≤ cfg.maxStoreBytesPerMinute) :
    (spendStore cfg bytes (windowRules cfg).fresh).isSome = true := by
  have hpos := cfg.maxStoresPerMinute_pos
  have hfresh : (windowRules cfg).fresh = { count := 0, bytes := 0 } := rfl
  have hsum : saturatingAdd 0 bytes ≤ bytes := by
    unfold saturatingAdd
    omega
  unfold spendStore
  rw [hfresh, if_neg (by dsimp only; omega)]
  rfl

end Map

/-! ### The maps along a run -/

/-- The call, if it takes a due prune for the buckets, passes over no store window that is over. -/
def WindowsKeptUp (cfg : RelayConfig) (st : AdmissionState) : Call → Prop
  | .ask req now => req.bytesRead ≤ cfg.maxLineBytes →
      banned st.bannedPeers req.peer now = false → pruneDue st.ratesPrunedAt now = true →
      ∀ k w, st.storeWindows.get k = some w → now - w.startedMillis < 120000
  | .charge _ _ => True

/-- The call, if it takes a due prune for the store windows, passes over no bucket that is over. -/
def BucketsKeptUp (_cfg : RelayConfig) (st : AdmissionState) : Call → Prop
  | .ask _ _ => True
  | .charge req now => req ∈ st.waiting → pruneDue st.ratesPrunedAt now = true →
      ∀ k w, st.rateBuckets.get k = some w → now - w.startedMillis < 120000

section Steps

variable {st : AdmissionState} {call : Call}

theorem call_ratesPrunedAt (cfg : RelayConfig) (st : AdmissionState) (call : Call) :
    (st.call cfg call).1.ratesPrunedAt = st.ratesPrunedAt ∨
      (st.call cfg call).1.ratesPrunedAt = prunedAtAfter st.ratesPrunedAt call.now := by
  cases call with
  | ask req now =>
    unfold AdmissionState.call
    dsimp only
    split
    · exact .inl rfl
    unfold allowRequestBanning
    dsimp only
    split
    · exact .inl rfl
    · exact .inr rfl
  | charge req now =>
  unfold AdmissionState.call
  dsimp only
  split
  · exact .inr rfl
  · exact .inl rfl

theorem recent_windows_call (h : Recent (windowRules cfg) st.storeWindows st.ratesPrunedAt)
    (hle : st.ratesPrunedAt ≤ call.now) (hkept : WindowsKeptUp cfg st call) :
    Recent (windowRules cfg) (st.call cfg call).1.storeWindows
      (st.call cfg call).1.ratesPrunedAt := by
  cases call with
  | ask req now =>
    unfold AdmissionState.call
    dsimp only
    split
    · exact h
    next hline =>
    unfold allowRequestBanning
    dsimp only
    split
    · exact h
    next hban =>
    exact h.passedOver (hkept (Nat.le_of_not_lt hline) (by simpa using hban))
  | charge req now =>
    unfold AdmissionState.call
    dsimp only
    split
    · exact h.pruneIfDue.charge (le_prunedAtAfter hle) (by simp [windowRules])
    · exact h

theorem recent_buckets_call (h : Recent (bucketRules cfg) st.rateBuckets st.ratesPrunedAt)
    (hle : st.ratesPrunedAt ≤ call.now) (hkept : BucketsKeptUp cfg st call) :
    Recent (bucketRules cfg) (st.call cfg call).1.rateBuckets
      (st.call cfg call).1.ratesPrunedAt := by
  cases call with
  | ask req now =>
    unfold AdmissionState.call
    dsimp only
    split
    · exact h
    unfold allowRequestBanning
    dsimp only
    split
    · exact h
    · exact h.pruneIfDue.charge (le_prunedAtAfter hle) (by simp [bucketRules])
  | charge req now =>
  unfold AdmissionState.call
  dsimp only
  split
  next hwait => exact h.passedOver (hkept hwait)
  · exact h

end Steps

section Runs

variable {calls : List Call}

section

variable (hclock : (calls.map Call.now).Pairwise (· ≤ ·))

include hclock

theorem ratesPrunedAt_le {i : ℕ} {st st' : AdmissionState} {call : Call}
    (hi : (admission cfg).StepAt AdmissionState.initial calls i st call decision st') :
    st.ratesPrunedAt ≤ call.now := by
  have hpair := List.pairwise_iff_getElem.mp hclock
  -- at every position, the timestamp is no later than the readings still to come
  refine hi.induction
    (I := fun n s => ∀ j c, n ≤ j → calls[j]? = some c → s.ratesPrunedAt ≤ c.now) ?_ ?_
    i call (Nat.le_refl i) hi.act
  · intro j c _ _
    exact Nat.zero_le _
  · intro n s c o s' hn ih j c' hnj hc'
    have hs : s.ratesPrunedAt ≤ c'.now := ih j c' (by omega) hc'
    have hcc' : c.now ≤ c'.now := by
      obtain ⟨hnlt, rfl⟩ := List.getElem?_eq_some_iff.mp hn.act
      obtain ⟨hjlt, rfl⟩ := List.getElem?_eq_some_iff.mp hc'
      have hle := hpair n j (by simpa using hnlt) (by simpa using hjlt) (by omega)
      simpa using hle
    have hs' : (s.call cfg c).1 = s' := congrArg Prod.fst hn.step
    rw [← hs']
    rcases call_ratesPrunedAt cfg s c with heq | heq
    · rw [heq]
      exact hs
    rw [heq]
    unfold prunedAtAfter
    split
    · exact hcc'
    · exact hs

theorem recent_windows
    (hkept : (admission cfg).Along (WindowsKeptUp cfg) AdmissionState.initial calls) {i : ℕ}
    {st st' : AdmissionState} {call : Call}
    (hi : (admission cfg).StepAt AdmissionState.initial calls i st call decision st') :
    Recent (windowRules cfg) st.storeWindows st.ratesPrunedAt := by
  refine hi.induction (I := fun _ s => Recent (windowRules cfg) s.storeWindows s.ratesPrunedAt)
    ?_ ?_
  · intro k w hw
    exact absurd hw (by simp [AdmissionState.initial])
  · intro n s c o s' hn hs
    have hs' : (s.call cfg c).1 = s' := congrArg Prod.fst hn.step
    rw [← hs']
    exact recent_windows_call hs (ratesPrunedAt_le hclock hn) (hn.along hkept)

theorem recent_buckets
    (hkept : (admission cfg).Along (BucketsKeptUp cfg) AdmissionState.initial calls) {i : ℕ}
    {st st' : AdmissionState} {call : Call}
    (hi : (admission cfg).StepAt AdmissionState.initial calls i st call decision st') :
    Recent (bucketRules cfg) st.rateBuckets st.ratesPrunedAt := by
  refine hi.induction (I := fun _ s => Recent (bucketRules cfg) s.rateBuckets s.ratesPrunedAt)
    ?_ ?_
  · intro k w hw
    exact absurd hw (by simp [AdmissionState.initial])
  · intro n s c o s' hn hs
    have hs' : (s.call cfg c).1 = s' := congrArg Prod.fst hn.step
    rw [← hs']
    exact recent_buckets_call hs (ratesPrunedAt_le hclock hn) (hn.along hkept)

end

end Runs

/-- **New addresses and the rate maps.** In a run with a clock that does not go back: a peer
without a store window is refused a store that fits the budget of a minute only while the store
windows are crowded, and a peer without a bucket that is not banned is refused a request only while
the buckets are, in the runs in which the prunes of the map keep up. -/
theorem new_keys_admitted (cfg : RelayConfig) (calls : List Call)
    (hclock : (calls.map Call.now).Pairwise (· ≤ ·)) :
    ((admission cfg).Along (WindowsKeptUp cfg) AdmissionState.initial calls →
      ∀ i st req now st', (admission cfg).StepAt AdmissionState.initial calls i st
          (.charge req now) (some false) st' →
        st.storeWindows.get req.peer = none → req.storedBytes ≤ cfg.maxStoreBytesPerMinute →
        Crowded (windowRules cfg) st.storeWindows req.peer now) ∧
    ((admission cfg).Along (BucketsKeptUp cfg) AdmissionState.initial calls →
      ∀ i st req now st', (admission cfg).StepAt AdmissionState.initial calls i st
          (.ask req now) (some false) st' →
        st.rateBuckets.get req.peer = none → banned st.bannedPeers req.peer now = false →
        Crowded (bucketRules cfg) st.rateBuckets req.peer now) := by
  refine ⟨?_, ?_⟩
  · intro hkept i st req now st' hi hnone hbytes
    have hdecision : (st.call cfg (.charge req now)).2 = some false := congrArg Prod.snd hi.step
    unfold AdmissionState.call at hdecision
    dsimp only at hdecision
    split at hdecision
    · have hrefused := some.inj hdecision
      refine (recent_windows hclock hkept hi).crowded
        (full_of_refused hnone (spendStore_fresh hbytes) ?_)
      simpa [allowStore] using hrefused
    · simp at hdecision
  · intro hkept i st req now st' hi hnone hban
    have hdecision : (st.call cfg (.ask req now)).2 = some false := congrArg Prod.snd hi.step
    unfold AdmissionState.call at hdecision
    dsimp only at hdecision
    split at hdecision
    · simp at hdecision
    have hrefused := some.inj hdecision
    unfold allowRequestBanning at hrefused
    rw [hban] at hrefused
    refine (recent_buckets hclock hkept hi).crowded
      (full_of_refused hnone (spendRequest_fresh cfg) ?_)
    simpa using hrefused

/-- The reading without exceptions: in every run with a clock that does not go back, a refusal of a
peer without an entry means that the map is crowded. -/
def RefusesOnlyWhenCrowded (cfg : RelayConfig) (calls : List Call) : Prop :=
  (∀ i st req now st', (admission cfg).StepAt AdmissionState.initial calls i st
      (.charge req now) (some false) st' → st.storeWindows.get req.peer = none →
      Crowded (windowRules cfg) st.storeWindows req.peer now) ∧
    ∀ i st req now st', (admission cfg).StepAt AdmissionState.initial calls i st
      (.ask req now) (some false) st' → st.rateBuckets.get req.peer = none →
      Crowded (bucketRules cfg) st.rateBuckets req.peer now

/-- A request of a TCP client, a store or not. -/
def clientRequest (number : ℕ) (peer : String) (store : Bool) : Incoming where
  number := number
  transport := .stream peer
  bytesRead := 40
  parsed := some { store := store, cookieValid := false }

/-- A relay that grants one request a minute and bans on the first violation. -/
def strictConfig : RelayConfig :=
  { RelayConfig.defaults with
    maxRequestsPerMinute := 1
    softBanThreshold := 1
    maxRequestsPerMinute_pos := Nat.one_pos }

/-- A peer is banned for five minutes; after two of them its bucket is dropped by another's
request, and the ban still refuses it. -/
def banRun : List Call :=
  [.ask (clientRequest 0 "192.0.2.1" false) 1000,
    .ask (clientRequest 1 "192.0.2.1" false) 2000,
    .ask (clientRequest 2 "192.0.2.2" false) 130000,
    .ask (clientRequest 3 "192.0.2.1" false) 131000]

/-- With one key tracked, a second client's request takes the due prune for the buckets, so its
store then meets the first client's window of three minutes before. -/
def starvedRun : List Call :=
  [.ask (clientRequest 0 "192.0.2.1" true) 1000,
    .charge (clientRequest 0 "192.0.2.1" true) 1000,
    .ask (clientRequest 1 "192.0.2.2" true) 200000,
    .charge (clientRequest 1 "192.0.2.2" true) 200000]

/-- With one key tracked, a second client finds its bucket free, since the first one's has been
dropped, but not a store window, since the first one's is new. -/
def crowdedRun : List Call :=
  [.ask (clientRequest 0 "192.0.2.1" true) 1000,
    .charge (clientRequest 0 "192.0.2.1" true) 130000,
    .ask (clientRequest 1 "192.0.2.2" true) 131000,
    .charge (clientRequest 1 "192.0.2.2" true) 131000]

theorem new_keys_admitted_crowded :
    Crowded (windowRules floodConfig)
        ((admission floodConfig).run AdmissionState.initial (crowdedRun.take 3)).storeWindows
        "192.0.2.2" 131000 ∧
      Crowded (bucketRules floodConfig)
        ((admission floodConfig).run AdmissionState.initial (floodRun.take 1)).rateBuckets
        "192.0.2.1" 1001 := by
  refine ⟨?_, ?_⟩
  · refine (new_keys_admitted floodConfig crowdedRun (by decide)).1 ?_ 3 _
      (clientRequest 1 "192.0.2.2" true) 131000 _ ⟨rfl, rfl, rfl⟩ rfl (by decide)
    refine ⟨?_, trivial, ?_, trivial, trivial⟩
    · intro _ _ _ k w hw
      exact absurd hw (by simp [AdmissionState.initial])
    -- the only window then is the first client's, one second old
    intro _ _ _ k w hw
    have hk : k ∈ ({"192.0.2.1"} : Finset String) := FMap.mem_keys_iff.mpr ⟨w, hw⟩
    rw [Finset.mem_singleton] at hk
    subst hk
    obtain rfl := some.inj hw
    decide
  · exact (new_keys_admitted floodConfig floodRun (by decide)).2 ⟨trivial, trivial, trivial⟩ 1 _
      _ _ _ ⟨rfl, rfl, rfl⟩ rfl (by decide)

/-- A relay on which one store takes more than the budget of a minute. -/
def meagreConfig : RelayConfig :=
  { RelayConfig.defaults with
    maxStoreBytesPerMinute := 39
    maxStoreBytesPerMinute_pos := by decide }

/-- A soft ban, a store over the budget of a minute, and a prune that went to the other map refuse
a new key that no crowd keeps out. -/
theorem new_keys_refused_without_crowd :
    ¬ RefusesOnlyWhenCrowded strictConfig banRun ∧
      ¬ RefusesOnlyWhenCrowded meagreConfig (starvedRun.take 2) ∧
      ¬ RefusesOnlyWhenCrowded floodConfig starvedRun := by
  refine ⟨?_, ?_, ?_⟩
  · intro h
    obtain ⟨others, hcard, -, hall⟩ := h.2 3 _ _ _ _ ⟨rfl, rfl, rfl⟩ rfl
    -- one bucket in all, where a hundred thousand would make a crowd
    have hsub := Finset.card_le_card fun k hk =>
      FMap.mem_keys_iff.mpr ((hall k hk).imp fun _ hw => hw.1)
    have hone : others.card ≤ 1 := hsub.trans (by decide)
    have hcap : 100000 ≤ others.card := hcard
    omega
  · intro h
    obtain ⟨others, hcard, -, hall⟩ := h.1 1 _ _ _ _ ⟨rfl, rfl, rfl⟩ rfl
    have hsub := Finset.card_le_card fun k hk =>
      FMap.mem_keys_iff.mpr ((hall k hk).imp fun _ hw => hw.1)
    have hnone : others.card ≤ 0 := hsub.trans (by decide)
    have hcap : 100000 ≤ others.card := hcard
    omega
  · intro h
    obtain ⟨others, hcard, -, hall⟩ := h.1 3 _ _ _ _ ⟨rfl, rfl, rfl⟩ rfl
    obtain ⟨k, hk⟩ := Finset.card_pos.mp (show 0 < others.card from hcard)
    obtain ⟨w, hw, hlt⟩ := hall k hk
    -- the only window is the first client's, 199 seconds old
    have hkey : k ∈ ({"192.0.2.1"} : Finset String) := FMap.mem_keys_iff.mpr ⟨w, hw⟩
    rw [Finset.mem_singleton] at hkey
    subst hkey
    obtain rfl := some.inj hw
    exact absurd hlt (by decide)

end Relay
end Conest
