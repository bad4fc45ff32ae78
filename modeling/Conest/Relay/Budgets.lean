import Conest.Relay.RatePruning

/-!
# What a minute grants

The windows of the relay begin with the first request that needs one and last a minute, so what is
granted in a minute of the clock may come from two of them, and not from three. `budgets_hold` says
so for each of the three things that admission counts by address (requests, stores, bytes stored),
in every run, whatever the other addresses do, whatever is pruned and whatever the clock did before.

A map of windows is charged by the calls of one kind (`Charges`); the rest of the argument is the
library's (`RateMap.Within`).
-/

open Lib List

namespace Conest
namespace Relay

/-! ### What calls cost -/

namespace Call

def requests : Call → ℕ
  | ask _ _ => 1
  | charge _ _ => 0

def stores : Call → ℕ
  | ask _ _ => 0
  | charge _ _ => 1

def storedBytes : Call → ℕ
  | ask _ _ => 0
  | charge req _ => req.storedBytes

end Call

/-- What the calls of one address were granted in all. -/
def granted (cost : Call → ℕ) (peer : String) : List Call → List (Option Bool) → ℕ
  | call :: calls, decision :: decisions =>
    (if call.req.peer = peer ∧ decision = some true then cost call else 0) +
      granted cost peer calls decisions
  | _, _ => 0

section

variable {β : Type} {cfg : RelayConfig} {windows : AdmissionState → RateMap β} {rules : RateRules β}
  {size : β → ℕ} {limit start : ℕ} {cost : Call → ℕ} {peer : String} {calls span : List Call}

/-- A call leaves the windows alone and costs nothing, or is charged to them. -/
inductive Charged (windows : AdmissionState → RateMap β) (rules : RateRules β) (size : β → ℕ)
    (limit cost : ℕ) (st : AdmissionState) (call : Call) (after : AdmissionState × Option Bool) :
    Prop where
  | free (hwindows : windows after.1 = windows st) (hfree : after.2 = some true → cost = 0)
  | charged (spend : β → Option β) (hspend : RateMap.Metered spend size limit cost)
      (hwindows : windows after.1 = (RateMap.charge rules
        (pruneIfDue rules (windows st) st.ratesPrunedAt call.now) spend call.req.peer call.now).1)
      (hdecision : after.2 = some ((RateMap.charge rules
        (pruneIfDue rules (windows st) st.ratesPrunedAt call.now) spend call.req.peer
          call.now).2 == .granted))

/-- Windows of a minute that the calls are charged to. -/
structure Charges (cfg : RelayConfig) (windows : AdmissionState → RateMap β) (rules : RateRules β)
    (size : β → ℕ) (limit : ℕ) (cost : Call → ℕ) : Prop where
  minute : rules.resetAfter = 60000
  fresh : size rules.fresh ≤ limit
  initial : windows .initial = FMap.empty
  call : ∀ st call, Charged windows rules size limit (cost call) st call (st.call cfg call)

variable (h : Charges cfg windows rules size limit cost)

include h

theorem Charges.within_call {st : AdmissionState} {call : Call} {total : ℕ}
    (hstart : start ≤ call.now) (hend : call.now < start + 60000)
    (hwithin : RateMap.Within size limit start total ((windows st).get peer)) :
    RateMap.Within size limit start
      (total + if call.req.peer = peer ∧ (st.call cfg call).2 = some true then cost call else 0)
      ((windows (st.call cfg call).1).get peer) := by
  rw [← h.minute] at hend
  have hdrop := rules.reset_le_drop
  have hpruned : RateMap.Within size limit start total
      ((pruneIfDue rules (windows st) st.ratesPrunedAt call.now).get peer) := by
    unfold pruneIfDue
    split
    · exact hwithin.prune hstart (by omega)
    · exact hwithin
  cases h.call st call with
  | free hwindows hfree =>
    rw [hwindows]
    split
    · next htrue => exact hfree htrue.2 ▸ hwithin
    · exact hwithin
  | charged spend hspend hwindows hdecision =>
  rw [hwindows, hdecision]
  simp only [Option.some_inj, beq_iff_eq]
  by_cases hpeer : call.req.peer = peer
  · subst hpeer
    simp only [true_and]
    exact hpruned.charge hstart hend h.fresh hspend
  · rw [if_neg fun hboth => hpeer hboth.1, RateMap.charge_get_of_ne (Ne.symm hpeer)]
    exact hpruned

theorem Charges.fits_run (before : List Call) (start : ℕ) :
    RateMap.Within size limit start 0
      ((windows ((admission cfg).run .initial before)).get peer) := by
  induction before using reverseRecOn with
  | nil =>
    refine .of_fits start fun v hv => ?_
    rw [Machine.run_nil, h.initial] at hv
    cases hv
  | append_singleton before call ih =>
    -- what this call is granted is not counted, so its own time may be the start
    have hcall := h.within_call (Nat.le_refl call.now) (by omega) (.of_fits call.now ih.fits)
    rw [Machine.run_append]
    exact .of_fits start hcall.fits

theorem Charges.within_run {st : AdmissionState} {total : ℕ}
    (hspan : ∀ call ∈ span, start ≤ call.now ∧ call.now < start + 60000)
    (hwithin : RateMap.Within size limit start total ((windows st).get peer)) :
    RateMap.Within size limit start
      (total + granted cost peer span ((admission cfg).outputs st span))
      ((windows ((admission cfg).run st span)).get peer) := by
  induction span generalizing st total with
  | nil => exact hwithin
  | cons call span ih =>
    obtain ⟨⟨hstart, hend⟩, hspan⟩ := forall_mem_cons.mp hspan
    have hrest := ih hspan (h.within_call hstart hend hwithin)
    rw [Nat.add_assoc] at hrest
    exact hrest

theorem Charges.le_twice (before : List Call)
    (hspan : ∀ call ∈ span, start ≤ call.now ∧ call.now < start + 60000) :
    granted cost peer span
      ((admission cfg).outputs ((admission cfg).run .initial before) span) ≤ 2 * limit := by
  rw [← Nat.zero_add (granted _ _ _ _)]
  exact (h.within_run hspan (h.fits_run before start)).le_twice

end

/-! ### The three budgets -/

section

variable (cfg : RelayConfig)

theorem charges_requests : Charges cfg AdmissionState.rateBuckets (bucketRules cfg) id
    cfg.maxRequestsPerMinute Call.requests where
  minute := rfl
  fresh := Nat.zero_le _
  initial := rfl
  call st call := by
    have hspend : RateMap.Metered (spendRequest cfg) id cfg.maxRequestsPerMinute 1 := by
      constructor <;> intro used used' hused <;> unfold spendRequest at hused <;>
        split at hused <;> cases hused
      · rfl
      · next hlt => exact not_le.mp hlt
    cases call with
    | ask req now =>
      unfold AdmissionState.call
      dsimp only
      split
      · exact .free rfl fun htrue => nomatch htrue
      unfold allowRequestBanning
      dsimp only
      split
      · exact .free rfl fun htrue => nomatch htrue
      · exact .charged _ hspend rfl rfl
    | charge req now =>
      refine .free ?_ fun _ => rfl
      unfold AdmissionState.call
      dsimp only
      split <;> rfl

theorem charges_stores (size : StoreUse → ℕ) {limit : ℕ} {cost : Call → ℕ}
    (hfresh : size (windowRules cfg).fresh ≤ limit) (hask : ∀ req now, cost (.ask req now) = 0)
    (hspend : ∀ req now, RateMap.Metered (spendStore cfg req.storedBytes) size limit
      (cost (.charge req now))) :
    Charges cfg AdmissionState.storeWindows (windowRules cfg) size limit cost where
  minute := rfl
  fresh := hfresh
  initial := rfl
  call st call := by
    cases call with
    | ask req now =>
      refine .free ?_ fun _ => hask req now
      unfold AdmissionState.call
      dsimp only
      split
      · rfl
      · exact allowRequestBanning_storeWindows
    | charge req now =>
      unfold AdmissionState.call
      dsimp only
      split
      · exact .charged _ (hspend req now) rfl rfl
      · exact .free rfl fun htrue => nomatch htrue

end

variable {cfg : RelayConfig}

theorem spendStore_eq_some {bytes : ℕ} {used used' : StoreUse}
    (h : spendStore cfg bytes used = some used') :
    used' = ⟨used.count + 1, saturatingAdd used.bytes bytes⟩ ∧
      used'.count ≤ cfg.maxStoresPerMinute ∧ used'.bytes ≤ cfg.maxStoreBytesPerMinute := by
  unfold spendStore at h
  split at h
  · cases h
  · next hroom =>
    obtain rfl := Option.some.inj h
    rw [not_or, not_le, not_lt] at hroom
    exact ⟨rfl, hroom.1, hroom.2⟩

/-- **What a minute grants.** Of whatever happens within a minute after any run, an address is
granted no more than twice its budget of requests, of stores and, unless that is the largest
number there is, of bytes stored. -/
theorem budgets_hold (cfg : RelayConfig) (before span : List Call) (start : ℕ)
    (hspan : ∀ call ∈ span, start ≤ call.now ∧ call.now < start + 60000) (peer : String) :
    let decisions := (admission cfg).outputs ((admission cfg).run .initial before) span
    granted Call.requests peer span decisions ≤ 2 * cfg.maxRequestsPerMinute ∧
      granted Call.stores peer span decisions ≤ 2 * cfg.maxStoresPerMinute ∧
      (cfg.maxStoreBytesPerMinute < 2 ^ 64 - 1 →
        granted Call.storedBytes peer span decisions ≤ 2 * cfg.maxStoreBytesPerMinute) := by
  refine ⟨(charges_requests cfg).le_twice before hspan,
    (charges_stores cfg StoreUse.count (Nat.zero_le _) (fun _ _ => rfl)
      fun req now => ⟨fun hused => ?_, fun hused => ?_⟩).le_twice before hspan, fun hbytes =>
    (charges_stores cfg StoreUse.bytes (Nat.zero_le _) (fun _ _ => rfl)
      fun req now => ⟨fun hused => ?_, fun hused => ?_⟩).le_twice before hspan⟩
  · exact congrArg StoreUse.count (spendStore_eq_some hused).1
  · exact (spendStore_eq_some hused).2.1
  · -- the sum is below the largest number, so it is not cut off
    obtain ⟨hused', -, hle⟩ := spendStore_eq_some hused
    rw [hused'] at hle ⊢
    change saturatingAdd _ _ ≤ _ at hle
    change saturatingAdd _ _ = _ + req.storedBytes
    unfold saturatingAdd u64Max at hle ⊢
    omega
  · exact (spendStore_eq_some hused).2.2

theorem budgets_hold_crowded :
    granted Call.stores "192.0.2.2" (crowdedRun.drop 1) ((admission floodConfig).outputs
      ((admission floodConfig).run .initial (crowdedRun.take 1)) (crowdedRun.drop 1)) ≤
        2 * floodConfig.maxStoresPerMinute :=
  (budgets_hold floodConfig (crowdedRun.take 1) (crowdedRun.drop 1) 130000 (by decide)
    "192.0.2.2").2.1

end Relay
end Conest
