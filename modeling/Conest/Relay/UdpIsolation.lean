import Conest.Relay.Admission

/-!
# Datagrams and the admission of TCP and HTTP

The source of a datagram can be forged, so what datagrams spend is kept apart: they are counted
under keys of their own, and never lead to a ban. They still share three things with the other
requests: the two maps with their limit on keys, and the timestamp under which the maps are pruned.

`udp_isolation` says what that comes to. A datagram changes no window and no ban but those of its
own key, apart from dropping what is over, and it bans nobody. And while the clock does not go
back and no TCP or HTTP request with a new key meets a full map, taking every datagram out of a
run leaves the decisions on all requests with other keys as they were. Both conditions are needed
(`datagrams_change_decisions`): a map full of forged sources turns new keys away, as it is meant
to, and after a clock that went back a datagram may have dropped a window that counts again.

The argument is a simulation between the run and the run without datagrams. `Alike now` relates
their states at the keys that are not a datagram's: equal windows, or on both sides none that still
counts; equal bans, or on both sides one that the next sweep drops; and the same requests waiting.
-/

open Lib List Option

namespace Conest
namespace Relay

variable {cfg : RelayConfig}

variable {bans bans' : FMap String BanEntry} {k : String} {e e' : Option BanEntry}

/-- A key that is not a datagram's. -/
def PlainKey (key : String) : Prop := stripPrefix? udpKey key = none

instance (key : String) : Decidable (PlainKey key) :=
  inferInstanceAs (Decidable (stripPrefix? udpKey key = none))

theorem not_plainKey_of_isDatagram {req : Incoming} (h : req.isDatagram = true) :
    ¬ PlainKey req.peer := by
  unfold Incoming.isDatagram at h
  unfold PlainKey Incoming.peer stripPrefix?
  cases ht : req.transport with
  | datagram address => simp
  | stream peer =>
    rw [ht] at h
    simp at h

/-! ### Bans -/

/-- A ban entry that the next sweep drops: none, or one that `keepBan` refuses from now on. -/
def BanOver (now : ℕ) (entry : Option BanEntry) : Prop :=
  ∀ e, entry = some e → ∀ later, now ≤ later → keepBan later e = false

/-- The ban entries of a key are the same, or both are dropped by the next sweep. -/
def BanAgree (now : ℕ) (e e' : Option BanEntry) : Prop :=
  e = e' ∨ BanOver now e ∧ BanOver now e'

theorem BanAgree.symm {now : ℕ} (h : BanAgree now e e') : BanAgree now e' e :=
  h.imp Eq.symm And.symm

theorem BanAgree.later {now now' : ℕ} (h : BanAgree now e e') (hle : now ≤ now') :
    BanAgree now' e e' :=
  h.imp_right fun ho => ⟨fun x hx l hl => ho.1 x hx l (hle.trans hl),
    fun x hx l hl => ho.2 x hx l (hle.trans hl)⟩

theorem keepBan_later {now later : ℕ} {e : BanEntry} (h : keepBan now e = false)
    (hle : now ≤ later) : keepBan later e = false := by
  unfold keepBan at h ⊢
  split at h
  · simp at h
  next hnow =>
  rw [if_neg (by omega)]
  exact h

theorem BanAgree.sweep_left {now : ℕ} (h : BanAgree now (bans.get k) e) :
    BanAgree now ((sweepBans bans now).get k) e := by
  unfold sweepBans
  rw [FMap.get_retain]
  cases hg : bans.get k with
  | none =>
    rw [hg] at h
    exact h
  | some b =>
  cases hk : keepBan now b with
  | true =>
    rw [filter_some, if_pos hk, ← hg]
    exact h
  | false =>
  rw [filter_some, hk]
  refine .inr ⟨fun x hx => absurd hx (by simp), ?_⟩
  rw [hg] at h
  rcases h with rfl | ⟨-, he⟩
  · intro x hx l hl
    rw [← some.inj hx]
    exact keepBan_later hk hl
  · exact he

theorem sweepBans_agree {now : ℕ} (h : BanAgree now (bans.get k) (bans'.get k)) :
    (sweepBans bans now).get k = (sweepBans bans' now).get k := by
  have hover : ∀ e : Option BanEntry, BanOver now e → e.filter (keepBan now) = none := by
    intro e he
    rw [filter_eq_none_iff]
    intro x hx
    rw [he x hx now (Nat.le_refl now)]
    simp
  unfold sweepBans
  rw [FMap.get_retain, FMap.get_retain]
  rcases h with heq | ⟨ho, ho'⟩
  · rw [heq]
  · rw [hover _ ho, hover _ ho']

theorem bansAfter_get_congr {peer : String} {ban : Bool} {now : ℕ} {verdict : Verdict}
    (h : bans.get peer = bans'.get peer) : (bansAfter cfg bans peer ban now verdict).get peer =
      (bansAfter cfg bans' peer ban now verdict).get peer := by
  cases verdict with
  | full => exact h
  | overBudget =>
    cases ban with
    | true => simp [bansAfter, noteRateViolation, h]
    | false => exact h
  | granted =>
  change (noteRateCompliance bans peer).get peer = (noteRateCompliance bans' peer).get peer
  unfold noteRateCompliance
  rw [h]
  split
  · split
    · simp
    · exact h
  · exact h

/-! ### The relation between the two runs -/

/-- The states of the two runs, read at the keys that are not a datagram's. -/
structure Alike (cfg : RelayConfig) (now : ℕ) (s t : AdmissionState) : Prop where
  buckets : ∀ k, PlainKey k →
    RateMap.Agree (bucketRules cfg) now (s.rateBuckets.get k) (t.rateBuckets.get k)
  windows : ∀ k, PlainKey k →
    RateMap.Agree (windowRules cfg) now (s.storeWindows.get k) (t.storeWindows.get k)
  bans : ∀ k, PlainKey k → BanAgree now (s.bannedPeers.get k) (t.bannedPeers.get k)
  waiting : ∀ req, PlainKey req.peer → s.waiting.count req = t.waiting.count req

namespace Alike

variable {now now' : ℕ} {s t : AdmissionState}

protected theorem refl (cfg : RelayConfig) (now : ℕ) (s : AdmissionState) : Alike cfg now s s where
  buckets := fun _ _ => RateMap.Agree.refl _
  windows := fun _ _ => RateMap.Agree.refl _
  bans := fun _ _ => .inl rfl
  waiting := fun _ _ => rfl

protected theorem symm (h : Alike cfg now s t) : Alike cfg now t s where
  buckets := fun k hk => (h.buckets k hk).symm
  windows := fun k hk => (h.windows k hk).symm
  bans := fun k hk => (h.bans k hk).symm
  waiting := fun req hreq => (h.waiting req hreq).symm

theorem later (h : Alike cfg now s t) (hle : now ≤ now') : Alike cfg now' s t where
  buckets := fun k hk => (h.buckets k hk).later hle
  windows := fun k hk => (h.windows k hk).later hle
  bans := fun k hk => (h.bans k hk).later hle
  waiting := h.waiting

end Alike

section Steps

variable {now : ℕ} {s t : AdmissionState}

theorem pruneIfDue_agree_left {β : Type} {rules : RateRules β} {m : RateMap β} {prunedAt : ℕ}
    {w : Option (Window β)} (h : RateMap.Agree rules now (m.get k) w) :
    RateMap.Agree rules now ((pruneIfDue rules m prunedAt now).get k) w := by
  unfold pruneIfDue
  split
  · exact h.prune_left
  · exact h

theorem pruneIfDue_agree {β : Type} {rules : RateRules β} {m n : RateMap β} {p q : ℕ}
    (h : RateMap.Agree rules now (m.get k) (n.get k)) :
    RateMap.Agree rules now ((pruneIfDue rules m p now).get k) ((pruneIfDue rules n q now).get k) :=
  (pruneIfDue_agree_left (pruneIfDue_agree_left h).symm).symm

/-- **A request under another key, on one side only**, is not seen at the plain keys. -/
theorem Alike.call_left {call : Call} (h : Alike cfg call.now s t)
    (hother : ¬ PlainKey call.req.peer) : Alike cfg call.now (s.call cfg call).1 t := by
  cases call with
  | ask req now =>
    have hne : ∀ k, PlainKey k → k ≠ req.peer := fun k hk heq => hother (heq ▸ hk)
    have hreq : ∀ r, PlainKey r.peer → r ≠ req := fun r hr heq => hother (heq ▸ hr)
    unfold AdmissionState.call
    dsimp only [Call.now]
    split
    · exact h
    refine ⟨?_, ?_, ?_, ?_⟩
    · intro k hk
      rcases allowRequestBanning_buckets_of_ne (hne k hk) with heq | heq
      · rw [heq]
        exact h.buckets k hk
      · rw [heq]
        exact pruneIfDue_agree_left (h.buckets k hk)
    · intro k hk
      rw [allowRequestBanning_storeWindows]
      exact h.windows k hk
    · intro k hk
      rw [allowRequestBanning_bans_of_ne (hne k hk)]
      exact (h.bans k hk).sweep_left
    · intro r hr
      rw [allowRequestBanning_waiting, ← h.waiting r hr]
      split
      · exact count_cons_of_ne (hreq r hr).symm
      · rfl
  | charge req now =>
    have hne : ∀ k, PlainKey k → k ≠ req.peer := fun k hk heq => hother (heq ▸ hk)
    have hreq : ∀ r, PlainKey r.peer → r ≠ req := fun r hr heq => hother (heq ▸ hr)
    unfold AdmissionState.call
    dsimp only [Call.now]
    split
    · refine ⟨h.buckets, ?_, h.bans, ?_⟩
      · intro k hk
        rw [allowStore_windows_of_ne (hne k hk)]
        exact pruneIfDue_agree_left (h.windows k hk)
      · intro r hr
        rw [← h.waiting r hr]
        exact count_erase_of_ne (hreq r hr)
    · exact h

/-- The call meets a map that is full, for a key that is not in it. -/
def MeetsFullMap (cfg : RelayConfig) (st : AdmissionState) : Call → Prop
  | .ask req now =>
    RateMap.Full (bucketRules cfg)
      (pruneIfDue (bucketRules cfg) st.rateBuckets st.ratesPrunedAt now) req.peer
  | .charge req now =>
    RateMap.Full (windowRules cfg)
      (pruneIfDue (windowRules cfg) st.storeWindows st.ratesPrunedAt now) req.peer

instance (cfg : RelayConfig) (st : AdmissionState) : (call : Call) →
    Decidable (MeetsFullMap cfg st call)
  | .ask req now => inferInstanceAs (Decidable (RateMap.Full (bucketRules cfg)
      (pruneIfDue (bucketRules cfg) st.rateBuckets st.ratesPrunedAt now) req.peer))
  | .charge req now => inferInstanceAs (Decidable (RateMap.Full (windowRules cfg)
      (pruneIfDue (windowRules cfg) st.storeWindows st.ratesPrunedAt now) req.peer))

theorem Alike.allowRequestBanning {peer : String} (h : Alike cfg now s t) (ban : Bool)
    (hplain : PlainKey peer)
    (hs : ¬ RateMap.Full (bucketRules cfg)
      (pruneIfDue (bucketRules cfg) s.rateBuckets s.ratesPrunedAt now) peer)
    (ht : ¬ RateMap.Full (bucketRules cfg)
      (pruneIfDue (bucketRules cfg) t.rateBuckets t.ratesPrunedAt now) peer) :
    Alike cfg now (allowRequestBanning cfg s peer ban now).1
        (allowRequestBanning cfg t peer ban now).1 ∧
      (allowRequestBanning cfg s peer ban now).2 = (allowRequestBanning cfg t peer ban now).2 := by
  have hsweep := fun k hk => sweepBans_agree (h.bans k hk)
  have hbanned : banned s.bannedPeers peer now = banned t.bannedPeers peer now := by
    unfold banned
    rw [hsweep peer hplain]
  unfold Relay.allowRequestBanning
  rw [hbanned]
  dsimp only
  split
  · exact ⟨⟨h.buckets, h.windows, fun k hk => .inl (hsweep k hk), h.waiting⟩, rfl⟩
  -- the two charges agree at the key, and touch no other
  obtain ⟨hverdict, hentry⟩ := RateMap.charge_agree (spendRequest cfg)
    (pruneIfDue_agree (h.buckets peer hplain))
    hs ht
  refine ⟨⟨?_, h.windows, ?_, h.waiting⟩, by rw [hverdict]⟩
  · intro k hk
    by_cases hkp : k = peer
    · subst hkp
      exact .inl hentry
    · rw [RateMap.charge_get_of_ne hkp, RateMap.charge_get_of_ne hkp]
      exact pruneIfDue_agree (h.buckets k hk)
  intro k hk
  refine .inl ?_
  rw [hverdict]
  by_cases hkp : k = peer
  · subst hkp
    exact bansAfter_get_congr (hsweep k hk)
  · rw [bansAfter_get_of_ne hkp, bansAfter_get_of_ne hkp]
    exact hsweep k hk

theorem Alike.allowStore {peer : String} (h : Alike cfg now s t) (bytes : ℕ)
    (hplain : PlainKey peer)
    (hs : ¬ RateMap.Full (windowRules cfg)
      (pruneIfDue (windowRules cfg) s.storeWindows s.ratesPrunedAt now) peer)
    (ht : ¬ RateMap.Full (windowRules cfg)
      (pruneIfDue (windowRules cfg) t.storeWindows t.ratesPrunedAt now) peer) :
    Alike cfg now (allowStore cfg s peer bytes now).1 (allowStore cfg t peer bytes now).1 ∧
      (allowStore cfg s peer bytes now).2 = (allowStore cfg t peer bytes now).2 := by
  obtain ⟨hverdict, hentry⟩ := RateMap.charge_agree (spendStore cfg bytes)
    (pruneIfDue_agree (h.windows peer hplain))
    hs ht
  unfold Relay.allowStore
  dsimp only
  refine ⟨⟨h.buckets, ?_, h.bans, h.waiting⟩, by rw [hverdict]⟩
  intro k hk
  by_cases hkp : k = peer
  · subst hkp
    exact .inl hentry
  · rw [RateMap.charge_get_of_ne hkp, RateMap.charge_get_of_ne hkp]
    exact pruneIfDue_agree (h.windows k hk)

theorem Alike.call_both {call : Call} (h : Alike cfg call.now s t)
    (hplain : PlainKey call.req.peer) (hs : ¬ MeetsFullMap cfg s call)
    (ht : ¬ MeetsFullMap cfg t call) :
    Alike cfg call.now (s.call cfg call).1 (t.call cfg call).1 ∧
      (s.call cfg call).2 = (t.call cfg call).2 := by
  cases call with
  | ask req now =>
    replace h : Alike cfg now s t := h
    replace hplain : PlainKey req.peer := hplain
    unfold AdmissionState.call
    dsimp only [Call.now]
    split
    · exact ⟨h, rfl⟩
    obtain ⟨halike, hsame⟩ := h.allowRequestBanning (!req.isDatagram) hplain hs ht
    rw [hsame]
    refine ⟨⟨halike.buckets, halike.windows, halike.bans, ?_⟩, rfl⟩
    intro r hr
    split
    · rw [count_cons, count_cons, halike.waiting r hr]
    · exact halike.waiting r hr
  | charge req now =>
    replace h : Alike cfg now s t := h
    replace hplain : PlainKey req.peer := hplain
    have hmem : req ∈ s.waiting ↔ req ∈ t.waiting := by
      rw [← count_pos_iff, ← count_pos_iff, h.waiting req hplain]
    unfold AdmissionState.call
    dsimp only [Call.now]
    by_cases hw : req ∈ s.waiting
    · obtain ⟨halike, hsame⟩ := h.allowStore req.storedBytes hplain hs ht
      rw [if_pos hw, if_pos (hmem.mp hw), hsame]
      refine ⟨⟨halike.buckets, halike.windows, halike.bans, ?_⟩, rfl⟩
      intro r hr
      rw [count_erase, count_erase, halike.waiting r hr]
    · rw [if_neg hw, if_neg (fun hw' => hw (hmem.mpr hw'))]
      exact ⟨h, rfl⟩

end Steps

/-! ### What a datagram spends -/

/-- A window after a call is the window before it, or was dropped because it is over. -/
def KeptOrOver {β : Type} (rules : RateRules β) (now : ℕ) (before after : Option (Window β)) :
    Prop :=
  after = before ∨ after = none ∧ RateMap.Over rules now before

theorem pruneIfDue_keptOrOver {β : Type} (rules : RateRules β) (m : RateMap β)
    (prunedAt now : ℕ) (k : String) :
    KeptOrOver rules now (m.get k) ((pruneIfDue rules m prunedAt now).get k) := by
  unfold pruneIfDue
  split
  · rcases RateMap.get_prune rules m now k with heq | ⟨hnone, w, hw, hold⟩
    · exact .inl heq
    · refine .inr ⟨hnone, ?_⟩
      intro v hv
      rw [hw] at hv
      rwa [← some.inj hv]
  · exact .inl rfl

/-- **What a datagram does to a state**: at every key but its own the windows stay, or go because
they are over, and nobody is banned by it: every ban after it was there before, as it is. -/
structure SpendsOwnOnly (cfg : RelayConfig) (st : AdmissionState) (call : Call)
    (st' : AdmissionState) : Prop where
  buckets : ∀ k, k ≠ call.req.peer →
    KeptOrOver (bucketRules cfg) call.now (st.rateBuckets.get k) (st'.rateBuckets.get k)
  windows : ∀ k, k ≠ call.req.peer →
    KeptOrOver (windowRules cfg) call.now (st.storeWindows.get k) (st'.storeWindows.get k)
  bans : ∀ k e, st'.bannedPeers.get k = some e → 0 < e.bannedUntilMillis →
    st.bannedPeers.get k = some e
  tallies : ∀ k e, st'.bannedPeers.get k = some e → ∃ e₀, st.bannedPeers.get k = some e₀ ∧
    e.consecutiveViolations ≤ e₀.consecutiveViolations

theorem sweepBans_get_eq_some {now : ℕ} {e : BanEntry} (h : (sweepBans bans now).get k = some e) :
    bans.get k = some e := by
  unfold sweepBans at h
  exact (filter_eq_some_iff.mp h).1

/-- A datagram's general limit, with `ban` off, leaves each ban as it was or swept, and at most
clears the tally of its key. -/
theorem allowRequestBanning_off_bans {st : AdmissionState} {peer : String} {now : ℕ}
    {e : BanEntry} (h : (allowRequestBanning cfg st peer false now).1.bannedPeers.get k = some e) :
    st.bannedPeers.get k = some e ∨
      ∃ e₀, st.bannedPeers.get k = some e₀ ∧ e₀.bannedUntilMillis = 0 ∧
        e = { e₀ with consecutiveViolations := 0 } := by
  unfold allowRequestBanning at h
  dsimp only at h
  split at h
  · exact .inl (sweepBans_get_eq_some h)
  generalize (RateMap.charge _ _ _ _ _).2 = verdict at h
  cases verdict with
  | full => exact .inl (sweepBans_get_eq_some h)
  | overBudget => exact .inl (sweepBans_get_eq_some h)
  | granted =>
  change (noteRateCompliance (sweepBans st.bannedPeers now) peer).get k = some e at h
  unfold noteRateCompliance at h
  split at h
  · next entry hentry =>
    split at h
    · next hzero =>
      rw [FMap.get_insert] at h
      split at h
      · next hk =>
        subst hk
        exact .inr ⟨entry, sweepBans_get_eq_some hentry, hzero, (some.inj h).symm⟩
      · exact .inl (sweepBans_get_eq_some h)
    · exact .inl (sweepBans_get_eq_some h)
  · exact .inl (sweepBans_get_eq_some h)

theorem spendsOwnOnly_of_isDatagram (st : AdmissionState) (call : Call)
    (h : call.req.isDatagram = true) : SpendsOwnOnly cfg st call (st.call cfg call).1 := by
  have hsame : SpendsOwnOnly cfg st call st :=
    ⟨fun _ _ => .inl rfl, fun _ _ => .inl rfl, fun _ _ he _ => he,
      fun _ e he => ⟨e, he, Nat.le_refl _⟩⟩
  cases call with
  | ask req now =>
    replace h : req.isDatagram = true := h
    unfold AdmissionState.call
    dsimp only
    split
    · exact hsame
    rw [h]
    refine ⟨?_, ?_, ?_, ?_⟩
    · intro k hk
      rcases @allowRequestBanning_buckets_of_ne cfg st req.peer k (!true) now hk with heq | heq
      · exact .inl heq
      · rw [heq]
        exact pruneIfDue_keptOrOver _ _ _ _ k
    · intro k _
      rw [allowRequestBanning_storeWindows]
      exact .inl rfl
    · intro k e he hpos
      rcases allowRequestBanning_off_bans he with hold | ⟨e₀, -, hzero, rfl⟩
      · exact hold
      · -- a cleared tally is of a peer that is not banned
        exact absurd hzero (Nat.pos_iff_ne_zero.mp hpos)
    · intro k e he
      rcases allowRequestBanning_off_bans he with hold | ⟨e₀, hold, -, rfl⟩
      · exact ⟨e, hold, Nat.le_refl _⟩
      · exact ⟨e₀, hold, Nat.zero_le _⟩
  | charge req now =>
    unfold AdmissionState.call
    dsimp only
    split
    · refine ⟨fun _ _ => .inl rfl, ?_, hsame.bans, hsame.tallies⟩
      intro k hk
      rw [allowStore_windows_of_ne (show k ≠ req.peer from hk)]
      exact pruneIfDue_keptOrOver _ _ _ _ k
    · exact hsame

/-! ### Two runs -/

/-- The decision of a call, if it is made for a plain key. -/
def plainDecision (call : Call) (decision : Option Bool) : Option (Call × Option Bool) :=
  if PlainKey call.req.peer then some (call, decision) else none

/-- The decisions of a run on the requests with plain keys. -/
def decisions (cfg : RelayConfig) (calls : List Call) : List (Call × Option Bool) :=
  (calls.zip ((admission cfg).outputs AdmissionState.initial calls)).filterMap
    fun p => plainDecision p.1 p.2

/-- The run with every datagram taken out. -/
def withoutDatagrams (calls : List Call) : List Call :=
  calls.filter fun call => !call.req.isDatagram

/-- The call, if its key is plain, finds its key in the map or room for it. -/
def RoomFor (cfg : RelayConfig) (st : AdmissionState) (call : Call) : Prop :=
  PlainKey call.req.peer → ¬ MeetsFullMap cfg st call

/-- The calls to come read the clock at `now` or later, and in order. -/
def InOrder (now : ℕ) (calls : List Call) : Prop :=
  (∀ call ∈ calls, now ≤ call.now) ∧ (calls.map Call.now).Pairwise (· ≤ ·)

theorem InOrder.tail {now : ℕ} {call : Call} {calls : List Call}
    (h : InOrder now (call :: calls)) : InOrder call.now calls := by
  obtain ⟨-, hpair⟩ := h
  rw [map_cons, pairwise_cons] at hpair
  exact ⟨fun c hc => hpair.1 c.now (mem_map_of_mem hc), hpair.2⟩

theorem decisions_withoutDatagrams {calls : List Call}
    (hclock : (calls.map Call.now).Pairwise (· ≤ ·))
    (hroom : (admission cfg).Along (RoomFor cfg) AdmissionState.initial calls)
    (hroom' : (admission cfg).Along (RoomFor cfg) AdmissionState.initial (withoutDatagrams calls)) :
    decisions cfg calls = decisions cfg (withoutDatagrams calls) := by
  have hsim := Machine.sim_filter (m := admission cfg) (fun call => !call.req.isDatagram)
    plainDecision
    (R := fun calls s t => ∃ now, InOrder now calls ∧ Alike cfg now s t)
    ?_ ?_
    ⟨0, ⟨fun _ _ => Nat.zero_le _, hclock⟩, Alike.refl cfg 0 AdmissionState.initial⟩ hroom hroom'
  · -- the observations of the two runs, with those of other keys left out
    have hjoin := congrArg (filterMap id) hsim
    rw [filterMap_map, filterMap_map] at hjoin
    refine Eq.trans ?_ hjoin
    rw [filterMap_filter]
    refine filterMap_congr ?_
    intro p _
    split
    · rfl
    next hdrop =>
    have hdata : p.1.req.isDatagram = true := by simpa using hdrop
    exact if_neg (not_plainKey_of_isDatagram hdata)
  · -- a request that stays
    rintro call calls s t ⟨now, horder, halike⟩ hs ht -
    replace halike := halike.later (horder.1 call mem_cons_self)
    by_cases hplain : PlainKey call.req.peer
    · obtain ⟨hnext, hsame⟩ := halike.call_both hplain (hs hplain) (ht hplain)
      refine ⟨⟨call.now, horder.tail, hnext⟩, ?_⟩
      exact congrArg (plainDecision call) hsame
    · refine ⟨⟨call.now, horder.tail, ?_⟩, ?_⟩
      · exact ((halike.call_left hplain).symm.call_left hplain).symm
      · exact (if_neg hplain).trans (if_neg hplain).symm
  · -- a datagram
    rintro call calls s t ⟨now, horder, halike⟩ - hdrop
    have hdata : call.req.isDatagram = true := by simpa using hdrop
    replace halike := halike.later (horder.1 call mem_cons_self)
    exact ⟨call.now, horder.tail, halike.call_left (not_plainKey_of_isDatagram hdata)⟩

/-- **Datagrams and the admission of TCP and HTTP.** In every run a datagram spends only what is
counted under its own key and bans nobody; and while the clock does not go back and no request
with a plain key meets a full map without having its key there, neither in the run nor in the run
without datagrams, the decisions on the plain keys are those of the run without datagrams. -/
theorem udp_isolation (cfg : RelayConfig) (calls : List Call) :
    (∀ i st call decision st', (admission cfg).StepAt AdmissionState.initial calls i st call
      decision st' → call.req.isDatagram = true → SpendsOwnOnly cfg st call st') ∧
    ((calls.map Call.now).Pairwise (· ≤ ·) →
      (admission cfg).Along (RoomFor cfg) AdmissionState.initial calls →
      (admission cfg).Along (RoomFor cfg) AdmissionState.initial (withoutDatagrams calls) →
      decisions cfg calls = decisions cfg (withoutDatagrams calls)) := by
  refine ⟨?_, decisions_withoutDatagrams⟩
  intro i st call decision st' hstep hdata
  have hcall : (st.call cfg call).1 = st' := congrArg Prod.fst hstep.step
  rw [← hcall]
  exact spendsOwnOnly_of_isDatagram st call hdata

/-- A relay that tracks one key, and a forged datagram before a client's first request. -/
def floodConfig : RelayConfig := { RelayConfig.defaults with maxRateKeys := 1 }

def floodRun : List Call :=
  [.ask { number := 0, transport := .datagram "198.51.100.9", bytesRead := 40, parsed := none } 1000,
    .ask { number := 1, transport := .stream "192.0.2.1", bytesRead := 40, parsed := none } 1001]

theorem udp_isolation_floodRun :
    decisions RelayConfig.defaults floodRun =
      decisions RelayConfig.defaults (withoutDatagrams floodRun) :=
  (udp_isolation RelayConfig.defaults floodRun).2 (by decide)
    ⟨fun _ => by decide, fun _ => by decide, trivial⟩ ⟨fun _ => by decide, trivial⟩

/-- A relay that grants one request a minute, and a datagram whose clock reading is ahead of those
of a client's two requests. -/
def clockConfig : RelayConfig :=
  { RelayConfig.defaults with maxRequestsPerMinute := 1, maxRequestsPerMinute_pos := Nat.one_pos }

def clockRun : List Call :=
  [.ask { number := 0, transport := .stream "192.0.2.1", bytesRead := 40, parsed := none } 5000,
    .ask { number := 1, transport := .datagram "198.51.100.9", bytesRead := 40, parsed := none }
      200000,
    .ask { number := 2, transport := .stream "192.0.2.1", bytesRead := 40, parsed := none } 6000]

/-- Both conditions are needed: a full map, and a clock that goes back, let datagrams change the
decisions on other keys. -/
theorem datagrams_change_decisions :
    decisions floodConfig floodRun ≠ decisions floodConfig (withoutDatagrams floodRun) ∧
      decisions clockConfig clockRun ≠ decisions clockConfig (withoutDatagrams clockRun) := by
  decide

end Relay
end Conest
