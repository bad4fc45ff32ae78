import Mathlib

/-!
# Logs of events

A log is the list of what happened, the newest event first. `since` says how many events of one kind
have happened since the last event of another kind, and `Spaced` that between an event of one kind
and a later one of a second kind there are always enough of a third.

A memory of the last few keys is the front of the list of the keys that were ever put into it
(`mem_take_of_since`): a key is forgotten only after as many others as the memory holds.
-/

namespace Lib

open List
namespace EventLog

variable {E : Type}

/-- How many events have ticked since the last event that meets `p`. -/
def since (p ticks : E → Bool) : List E → Option ℕ
  | [] => none
  | e :: older =>
    if p e then some 0
    else (since p ticks older).map fun n => if ticks e then n + 1 else n

/-- Before an event that meets `q`, the last one that meets `p` is `gap` ticks away. -/
def Spaced (p q ticks : E → Bool) (gap : ℕ) : List E → Prop
  | [] => True
  | e :: older => (q e = true → ∀ n, since p ticks older = some n → gap ≤ n) ∧
      Spaced p q ticks gap older

variable {p p' q ticks : E → Bool} {gap n : ℕ} {e : E} {log : List E}

theorem since_cons_self (h : p e = true) : since p ticks (e :: log) = some 0 := by
  unfold since
  rw [if_pos h]

theorem since_cons_other (h : p e = false) (hticks : ticks e = false) :
    since p ticks (e :: log) = since p ticks log := by
  rw [since, h, hticks]
  cases since p ticks log <;> rfl

theorem since_cons_tick (h : p e = false) (hticks : ticks e = true) :
    since p ticks (e :: log) = (since p ticks log).map (· + 1) := by
  rw [since, h, hticks]
  cases since p ticks log <;> rfl

theorem Spaced.cons_other (hq : q e = false) (h : Spaced p q ticks gap log) :
    Spaced p q ticks gap (e :: log) := by
  refine ⟨fun htrue => ?_, h⟩
  rw [hq] at htrue
  cases htrue

theorem since_mono (himp : ∀ e, p e = true → p' e = true) (h : since p ticks log = some n) :
    ∃ m ≤ n, since p' ticks log = some m := by
  induction log generalizing n with
  | nil => cases h
  | cons e older ih =>
  by_cases hp' : p' e = true
  · exact ⟨0, Nat.zero_le n, since_cons_self hp'⟩
  have hp : ¬ p e = true := fun hp => hp' (himp e hp)
  rw [since, if_neg hp] at h
  obtain ⟨n', hn', rfl⟩ := Option.map_eq_some_iff.mp h
  obtain ⟨m', hle, hm'⟩ := ih hn'
  refine ⟨if ticks e then m' + 1 else m', ?_, ?_⟩
  · split
    · exact Nat.succ_le_succ hle
    · exact hle
  · rw [since, if_neg hp', hm']
    rfl

/-! ### A memory of keys -/

variable {K : Type} [DecidableEq K] (key : E → Option K)

/-- The event puts the key into the memory. -/
def puts (k : K) (e : E) : Bool := decide (key e = some k)

/-- The event puts another key into the memory. -/
def putsOther (k : K) (e : E) : Bool := (key e).any fun k' => decide (k' ≠ k)

/-- The keys that were put into the memory, the newest first. -/
def keys (log : List E) : List K := log.filterMap key

variable {key} {k : K}

theorem getElem?_of_since (h : since (puts key k) (putsOther key k) log = some n) :
    (keys key log)[n]? = some k := by
  induction log generalizing n with
  | nil => cases h
  | cons e older ih =>
  unfold keys at ih ⊢
  cases hkey : key e with
  | none =>
    have hputs : puts key k e = false := by simp [puts, hkey]
    have hother : putsOther key k e = false := by simp [putsOther, hkey]
    rw [since_cons_other hputs hother] at h
    rw [filterMap_cons_none hkey]
    exact ih h
  | some k' =>
  rw [filterMap_cons_some hkey]
  by_cases heq : k' = k
  · subst heq
    rw [since_cons_self (by simp [puts, hkey])] at h
    cases h
    rfl
  have hputs : puts key k e = false := by simp [puts, hkey, heq]
  have hother : putsOther key k e = true := by simp [putsOther, hkey, heq]
  rw [since_cons_tick hputs hother] at h
  obtain ⟨n', hn', rfl⟩ := Option.map_eq_some_iff.mp h
  exact ih hn'

/-- **A key is remembered** until as many other keys have been put as the memory holds. -/
theorem mem_take_of_since (h : since (puts key k) (putsOther key k) log = some n) (hn : n < gap) :
    k ∈ (keys key log).take gap := by
  have hget := getElem?_of_since h
  apply mem_of_getElem?
  rw [getElem?_take_of_lt hn]
  exact hget

end EventLog
end Lib
