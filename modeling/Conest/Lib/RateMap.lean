import Conest.Lib.FMap

/-!
# Budgets in fixed windows, kept in a bounded map

A rate limiter that counts by key keeps, for each key, the instant its current window began and
what was used in it. `RateMap.charge` is one request against such a map: a new key is turned away
when the map is full, a window that has run its length starts afresh, and the request is granted
when `spend` still finds room in the window. `RateMap.prune` drops the windows that are long over.

Pruning has no effect on a key's own budget: a window old enough to be dropped is old enough to
start afresh. `Agree now` says so for two maps: at a key they hold the same window, or neither
holds one that still counts. The relation survives time (`Agree.later`), pruning on either side
(`Agree.prune_left`) and a charge on both (`charge_agree`), which then come to the same verdict
unless the map is full.

No key is granted more than two windows hold in any span of a window's length (`Within.le_twice`).
-/

namespace Lib

open Option

/-- A window: when it began and what was used in it. -/
structure Window (β : Type) where
  startedMillis : ℕ
  used : β
deriving DecidableEq, Repr

/-- How a request fared. -/
inductive Verdict where
  /-- The map has no room for a new key. -/
  | full
  /-- The window has no room for the request. -/
  | overBudget
  | granted
deriving DecidableEq, Repr

/-- A rate limiter: how many keys it tracks at most, what a new window has used, how long a window
lasts and after how long it is dropped. -/
structure RateRules (β : Type) where
  cap : ℕ
  fresh : β
  resetAfter : ℕ
  dropAfter : ℕ
  reset_le_drop : resetAfter ≤ dropAfter

/-- The windows of a rate limiter, by key. -/
abbrev RateMap (β : Type) := FMap String (Window β)

namespace RateMap

variable {β : Type} (rules : RateRules β)

/-- Drop the windows that are over long since. -/
def prune (m : RateMap β) (now : ℕ) : RateMap β :=
  m.retain fun _ w => decide (now - w.startedMillis < rules.dropAfter)

/-- No entry of its own and no room for one. -/
def Full (m : RateMap β) (key : String) : Prop := rules.cap ≤ m.size ∧ m.get key = none

instance (m : RateMap β) (key : String) : Decidable (Full rules m key) :=
  inferInstanceAs (Decidable (rules.cap ≤ m.size ∧ m.get key = none))

/-- The window a request of `key` is counted in: the current one, or a new one. -/
def current (m : RateMap β) (key : String) (now : ℕ) : Window β :=
  match m.get key with
  | none => { startedMillis := now, used := rules.fresh }
  | some w =>
    if rules.resetAfter ≤ now - w.startedMillis then { startedMillis := now, used := rules.fresh }
    else w

/-- One request of `key` against the map. -/
def charge (m : RateMap β) (spend : β → Option β) (key : String) (now : ℕ) :
    RateMap β × Verdict :=
  if Full rules m key then (m, .full)
  else
    match spend (current rules m key now).used with
    | none => (m.insert key (current rules m key now), .overBudget)
    | some used => (m.insert key { current rules m key now with used := used }, .granted)

variable {rules} {m n : RateMap β} {spend : β → Option β} {key k : String} {now : ℕ}

theorem current_started (rules : RateRules β) (m : RateMap β) (key : String) (now : ℕ) :
    (current rules m key now).startedMillis = now ∨
    ∃ w, m.get key = some w ∧ current rules m key now = w := by
  unfold current
  cases hg : m.get key with
  | none => exact .inl rfl
  | some w =>
    dsimp only
    split
    · exact .inl rfl
    · exact .inr ⟨w, rfl, rfl⟩

theorem charge_get_of_ne (h : k ≠ key) :
    (charge rules m spend key now).1.get k = m.get k := by
  unfold charge
  split
  · rfl
  · split <;> simp [h]

/-- After a charge a window of the map is one that was there, or that of the key, which starts now
or is the one it had. -/
theorem started_of_get_charge {w : Window β}
    (h : (charge rules m spend key now).1.get k = some w) :
    w.startedMillis = now ∨ ∃ w₀, m.get k = some w₀ ∧ w.startedMillis = w₀.startedMillis := by
  by_cases hk : k = key
  · subst hk
    unfold charge at h
    split at h
    · exact .inr ⟨w, h, rfl⟩
    have hcur : w.startedMillis = (current rules m k now).startedMillis := by
      split at h
      · rw [FMap.get_insert, if_pos rfl] at h
        rw [← some.inj h]
      · rw [FMap.get_insert, if_pos rfl] at h
        rw [← some.inj h]
    rcases current_started rules m k now with
      hnow | ⟨w₀, hw₀, heq⟩
    · exact .inl (hcur.trans hnow)
    · exact .inr ⟨w₀, hw₀, by rw [hcur, heq]⟩
  · rw [charge_get_of_ne hk] at h
    exact .inr ⟨w, h, rfl⟩

theorem get_prune_eq_some {w : Window β} :
    (prune rules m now).get k = some w ↔
      m.get k = some w ∧ now - w.startedMillis < rules.dropAfter := by
  unfold prune
  rw [FMap.get_retain]
  simp

theorem get_prune_eq_none :
    (prune rules m now).get k = none ↔
      ∀ w, m.get k = some w → rules.dropAfter ≤ now - w.startedMillis := by
  unfold prune
  simp

theorem get_prune (rules : RateRules β) (m : RateMap β) (now : ℕ) (k : String) :
    (prune rules m now).get k = m.get k ∨
      (prune rules m now).get k = none ∧
        ∃ w, m.get k = some w ∧ rules.dropAfter ≤ now - w.startedMillis := by
  cases hg : m.get k with
  | none =>
    left
    rw [get_prune_eq_none]
    intro w hw
    rw [hg] at hw
    simp at hw
  | some w =>
  by_cases hlt : now - w.startedMillis < rules.dropAfter
  · exact .inl (get_prune_eq_some.mpr ⟨hg, hlt⟩)
  refine .inr ⟨get_prune_eq_none.mpr ?_, w, rfl, Nat.le_of_not_lt hlt⟩
  intro w' hw'
  rw [hg] at hw'
  rw [← some.inj hw']
  exact Nat.le_of_not_lt hlt

/-! ### Maps that agree at a key -/

/-- No window that still counts at `now`: none at all, or one that is long over. -/
def Over (rules : RateRules β) (now : ℕ) (w : Option (Window β)) : Prop :=
  ∀ v, w = some v → rules.dropAfter ≤ now - v.startedMillis

/-- Two maps agree at a key: the same window, or on neither side one that still counts. -/
def Agree (rules : RateRules β) (now : ℕ) (v w : Option (Window β)) : Prop :=
  v = w ∨ Over rules now v ∧ Over rules now w

theorem Over.later {now' : ℕ} {w : Option (Window β)} (h : Over rules now w) (hle : now ≤ now') :
    Over rules now' w := by
  intro v hv
  have hold := h v hv
  omega

namespace Agree

variable {v w : Option (Window β)}

protected theorem refl (w : Option (Window β)) : Agree rules now w w := .inl rfl

protected theorem symm (h : Agree rules now v w) : Agree rules now w v :=
  h.imp Eq.symm And.symm

theorem later {now' : ℕ} (h : Agree rules now v w) (hle : now ≤ now') : Agree rules now' v w :=
  h.imp_right fun ho => ⟨ho.1.later hle, ho.2.later hle⟩

theorem prune_left (h : Agree rules now (m.get k) w) :
    Agree rules now ((prune rules m now).get k) w := by
  rcases get_prune rules m now k with heq | ⟨hnone, v, hv, hold⟩
  · rwa [heq]
  refine .inr ⟨?_, ?_⟩
  · intro u hu
    rw [hnone] at hu
    simp at hu
  · rcases h with heq | ⟨-, hw⟩
    · intro u hu
      rw [← heq, hv] at hu
      rwa [← some.inj hu]
    · exact hw

end Agree

theorem current_agree (h : Agree rules now (m.get key) (n.get key)) :
    current rules m key now = current rules n key now := by
  have hover : ∀ w : Option (Window β), Over rules now w →
      (match w with
        | none => { startedMillis := now, used := rules.fresh }
        | some w =>
          if rules.resetAfter ≤ now - w.startedMillis then
            { startedMillis := now, used := rules.fresh }
          else w) = ({ startedMillis := now, used := rules.fresh } : Window β) := by
    intro w hw
    cases w with
    | none => rfl
    | some v =>
      have hdrop := hw v rfl
      exact if_pos (rules.reset_le_drop.trans hdrop)
  unfold current
  rcases h with heq | ⟨hm, hn⟩
  · rw [heq]
  · rw [hover _ hm, hover _ hn]

/-- **One request against two maps that agree at its key** comes to the same verdict and leaves
the same window, unless it is turned away for want of room. -/
theorem charge_agree (spend : β → Option β) (h : Agree rules now (m.get key) (n.get key)) (hm : ¬ Full rules m key)
    (hn : ¬ Full rules n key) :
    (charge rules m spend key now).2 = (charge rules n spend key now).2 ∧
      (charge rules m spend key now).1.get key = (charge rules n spend key now).1.get key := by
  unfold charge
  rw [if_neg hm, if_neg hn, current_agree h]
  split
  · exact ⟨rfl, by simp⟩
  · exact ⟨rfl, by simp⟩

/-! ### What a span of time grants -/

/-- What a window has used, as `size` measures it, grows by `cost` and stays within `limit`. -/
structure Metered (spend : β → Option β) (size : β → ℕ) (limit cost : ℕ) : Prop where
  size_spent : ∀ {used used'}, spend used = some used' → size used' = size used + cost
  le_limit : ∀ {used used'}, spend used = some used' → size used' ≤ limit

/-- What a key was granted since `start` is within its window, if that began earlier, and else
within the window and the room of the one before. -/
structure Within (size : β → ℕ) (limit start granted : ℕ) (w : Option (Window β)) : Prop where
  fits : ∀ v, w = some v → size v.used ≤ limit
  early : ∀ v, w = some v → v.startedMillis < start → granted ≤ size v.used
  total : granted ≤ limit ∨
    ∃ v, w = some v ∧ start ≤ v.startedMillis ∧ granted ≤ limit + size v.used

namespace Within

variable {size : β → ℕ} {limit cost start granted : ℕ} {v : Window β} {w : Option (Window β)}

theorem of_fits (start : ℕ) (h : ∀ v, w = some v → size v.used ≤ limit) :
    Within size limit start 0 w :=
  ⟨h, fun _ _ _ => Nat.zero_le _, .inl (Nat.zero_le _)⟩

theorem le_twice (h : Within size limit start granted w) : granted ≤ 2 * limit := by
  rcases h.total with hle | ⟨v, hv, -, hle⟩
  · omega
  · have hfits := h.fits v hv
    omega

theorem restart {used : β} (hstart : start ≤ now) (hfits : size used ≤ limit)
    (hgranted : granted ≤ limit) : Within size limit start granted (some ⟨now, used⟩) where
  fits v hv := some.inj hv ▸ hfits
  early v hv hlt := by
    obtain rfl := some.inj hv
    exact absurd hlt hstart.not_gt
  total := .inl hgranted

theorem prune (hstart : start ≤ now) (hend : now < start + rules.dropAfter)
    (h : Within size limit start granted (m.get k)) :
    Within size limit start granted ((prune rules m now).get k) := by
  rcases get_prune rules m now k with heq | ⟨hnone, v, hv, hold⟩
  · rwa [heq]
  rw [hnone]
  refine ⟨fun _ h => (nomatch h), fun _ h => (nomatch h), .inl ?_⟩
  rcases h.total with hle | ⟨v', hv', hlate, -⟩
  · exact hle
  · obtain rfl : v' = v := some.inj (hv'.symm.trans hv)
    omega

section

variable (hstart : start ≤ now) (hend : now < start + rules.resetAfter)
  (hfresh : size rules.fresh ≤ limit)

include hstart hend hfresh

theorem current (h : Within size limit start granted (m.get key)) :
    Within size limit start granted (some (current rules m key now)) := by
  unfold RateMap.current
  cases hget : m.get key with
  | none =>
    rw [hget] at h
    exact restart hstart hfresh (h.total.resolve_right fun ⟨_, hv, _⟩ => nomatch hv)
  | some v =>
  rw [hget] at h
  dsimp only
  split
  · -- a window that began since `start` has not run its length
    next hreset =>
    refine restart hstart hfresh (h.total.resolve_right ?_)
    rintro ⟨v', hv', hlate, -⟩
    obtain rfl := some.inj hv'
    omega
  · exact h

theorem charge (hspend : Metered spend size limit cost)
    (h : Within size limit start granted (m.get key)) :
    Within size limit start
      (granted + if (charge rules m spend key now).2 = .granted then cost else 0)
      ((charge rules m spend key now).1.get key) := by
  have hcurrent := h.current hstart hend hfresh
  unfold RateMap.charge
  split
  · exact h
  cases hused : spend (RateMap.current rules m key now).used with
  | none =>
    rw [FMap.get_insert, if_pos rfl]
    exact hcurrent
  | some used =>
  have hsize := hspend.size_spent hused
  have hle := hspend.le_limit hused
  rw [FMap.get_insert, if_pos rfl, if_pos rfl]
  refine ⟨fun v hv => some.inj hv ▸ hle, fun v hv hlt => ?_, ?_⟩
  · obtain rfl := some.inj hv
    have hearly := hcurrent.early _ rfl hlt
    change granted + cost ≤ size used
    omega
  by_cases hlate : start ≤ (RateMap.current rules m key now).startedMillis
  · refine .inr ⟨_, rfl, hlate, ?_⟩
    change granted + cost ≤ limit + size used
    rcases hcurrent.total with htotal | ⟨v, hv, -, htotal⟩
    · omega
    · rw [← some.inj hv] at htotal
      omega
  · have hearly := hcurrent.early _ rfl (not_le.mp hlate)
    exact .inl (by omega)

end

end Within

end RateMap

end Lib
