import Conest.Lib.Utf8

/-!
# Cutting and editing well-formed strings

A well-formed string is a sequence of units that are no surrogates and of pairs of them
(`WellFormed.induct`). So what leaves every surrogate where it is keeps a string well formed
(`WellFormed.filter`, `WellFormed.map`), and a string may be cut everywhere but behind a high
surrogate (`WellFormed.cut_iff`).
-/

namespace Lib

open List
namespace DartString

variable {s a b : DartString} {u v : Fin 65536}

def isSurrogate (u : Fin 65536) : Bool := isHighSurrogate u || isLowSurrogate u

theorem WellFormed.cons_single (hu : isSurrogate u = false) (h : WellFormed s) :
    WellFormed (u :: s) :=
  @WellFormed.append [u] s (wellFormed_singleton hu) h

theorem WellFormed.cons_pair (hu : isHighSurrogate u = true) (hv : isLowSurrogate v = true)
    (h : WellFormed s) : WellFormed (u :: v :: s) :=
  @WellFormed.append [u, v] s (wellFormed_pair hu hv) h

theorem WellFormed.induct {motive : (s : DartString) → WellFormed s → Prop}
    (nil : motive [] wellFormed_nil)
    (single : ∀ u s (hu : isSurrogate u = false) (h : WellFormed s), motive s h →
      motive (u :: s) (h.cons_single hu))
    (pair : ∀ u v s (hu : isHighSurrogate u = true) (hv : isLowSurrogate v = true)
      (h : WellFormed s), motive s h → motive (u :: v :: s) (h.cons_pair hu hv))
    (h : WellFormed s) : motive s h := by
  have hchars : ∀ (cs : List Char) (s : DartString) (h : WellFormed s), s = ofChars cs →
      motive s h := by
    intro cs
    induction cs with
    | nil =>
      rintro _ _ rfl
      exact nil
    | cons c cs ih =>
    rintro s h hs
    rw [ofChars_cons] at hs
    have hrest := ih (ofChars cs) (wellFormed_ofChars cs) rfl
    by_cases hc : c.toNat < 0x10000
    · obtain ⟨u, hunits, hhigh, hlow, -⟩ := unitsOf_small hc
      rw [hunits] at hs
      subst hs
      exact single u _ (by rw [isSurrogate, hhigh, hlow]; rfl) _ hrest
    · obtain ⟨u, v, hunits, hhigh, hlow, -⟩ := unitsOf_large hc
      rw [hunits] at hs
      subst hs
      exact pair u v _ hhigh hlow _ hrest
  exact hchars (scalars s) s h h.symm

theorem isSurrogate_of_high (h : isHighSurrogate u = true) : isSurrogate u = true := by
  rw [isSurrogate, h]
  rfl

theorem isSurrogate_of_low (h : isLowSurrogate u = true) : isSurrogate u = true := by
  rw [isSurrogate, h, Bool.or_true]

/-! ### Editing -/

theorem WellFormed.filter {p : Fin 65536 → Bool} (hp : ∀ u, isSurrogate u = true → p u = true)
    (h : WellFormed s) : WellFormed (s.filter p) := by
  induction h using WellFormed.induct with
  | nil => exact wellFormed_nil
  | single u s hu _ ih =>
    by_cases hpu : p u = true
    · rw [filter_cons_of_pos hpu]
      exact ih.cons_single hu
    · rw [filter_cons_of_neg hpu]
      exact ih
  | pair u v s hu hv _ ih =>
    rw [filter_cons_of_pos (hp u (isSurrogate_of_high hu)),
      filter_cons_of_pos (hp v (isSurrogate_of_low hv))]
    exact ih.cons_pair hu hv

theorem WellFormed.map {f : Fin 65536 → Fin 65536} (hf : ∀ u, isSurrogate u = true → f u = u)
    (hout : ∀ u, isSurrogate u = false → isSurrogate (f u) = false) (h : WellFormed s) :
    WellFormed (s.map f) := by
  induction h using WellFormed.induct with
  | nil => exact wellFormed_nil
  | single u s hu _ ih => exact ih.cons_single (hout u hu)
  | pair u v s hu hv _ ih =>
    rw [map_cons, map_cons, hf u (isSurrogate_of_high hu),
      hf v (isSurrogate_of_low hv)]
    exact ih.cons_pair hu hv

/-! ### Cutting -/

theorem not_wellFormed_of_last (hlast : s.getLast? = some u) (hu : isHighSurrogate u = true) :
    ¬ WellFormed s := by
  intro h
  induction h using WellFormed.induct with
  | nil => simp at hlast
  | single v s hv _ ih =>
    cases s with
    | nil =>
      have hvu : v = u := Option.some.inj hlast
      rw [isSurrogate, hvu, hu] at hv
      simp at hv
    | cons w s => exact ih (by rwa [getLast?_cons_cons] at hlast)
  | pair v w s hv hw _ ih =>
  cases s with
  | nil =>
    have hwu : w = u := Option.some.inj hlast
    have hhigh := of_decide_eq_true hu
    have hlow := of_decide_eq_true hw
    omega
  | cons x s => exact ih (by rwa [getLast?_cons_cons] at hlast)

/-- **Where a well-formed string may be cut**: everywhere but behind a high surrogate. -/
theorem WellFormed.cut (h : WellFormed (a ++ b))
    (hlast : ∀ u ∈ a.getLast?, isHighSurrogate u = false) : WellFormed a ∧ WellFormed b := by
  -- Along the whole, with what is left of `a`.
  generalize hs : a ++ b = s at h
  induction h using WellFormed.induct generalizing a with
  | nil =>
    obtain ⟨rfl, rfl⟩ := append_eq_nil_iff.mp hs
    exact ⟨wellFormed_nil, wellFormed_nil⟩
  | single u s hu hwf ih =>
    cases a with
    | nil =>
      obtain rfl : b = u :: s := hs
      exact ⟨wellFormed_nil, hwf.cons_single hu⟩
    | cons v a =>
    obtain ⟨rfl, htail⟩ := cons.inj hs
    have hrest : ∀ w ∈ a.getLast?, isHighSurrogate w = false := by
      intro w hw
      cases a with
      | nil => simp at hw
      | cons x a => exact hlast w (by rwa [getLast?_cons_cons])
    obtain ⟨ha, hb⟩ := ih hrest htail
    exact ⟨ha.cons_single hu, hb⟩
  | pair u v s hu hv hwf ih =>
    match a, hs, hlast with
    | [], hs, _ =>
      obtain rfl : b = u :: v :: s := hs
      exact ⟨wellFormed_nil, hwf.cons_pair hu hv⟩
    | [w], hs, hlast =>
      obtain ⟨rfl, -⟩ := cons.inj hs
      have := hlast w rfl
      rw [hu] at this
      simp at this
    | w :: x :: a, hs, hlast =>
      obtain ⟨rfl, htail⟩ := cons.inj hs
      obtain ⟨rfl, hrestEq⟩ := cons.inj htail
      have hrest : ∀ y ∈ a.getLast?, isHighSurrogate y = false := by
        intro y hy
        cases a with
        | nil => simp at hy
        | cons z a => exact hlast y (by rwa [getLast?_cons_cons])
      obtain ⟨ha, hb⟩ := ih hrest hrestEq
      exact ⟨ha.cons_pair hu hv, hb⟩

theorem WellFormed.cut_iff (h : WellFormed (a ++ b)) :
    WellFormed a ↔ ∀ u ∈ a.getLast?, isHighSurrogate u = false := by
  constructor
  · intro ha u hu
    by_contra hhigh
    exact not_wellFormed_of_last hu (Bool.not_eq_false _ ▸ hhigh) ha
  · exact fun hlast => (h.cut hlast).1

theorem WellFormed.cut_front (h : WellFormed (a ++ v :: b)) (hv : isLowSurrogate v = false) :
    WellFormed a ∧ WellFormed (v :: b) := by
  refine h.cut fun u hu => ?_
  by_contra hhigh
  rw [Bool.not_eq_false] at hhigh
  obtain ⟨a, rfl⟩ := getLast?_eq_some_iff.mp hu
  -- A pair would have `v` as its second half.
  generalize hs : a ++ [u] ++ v :: b = s at h
  induction h using WellFormed.induct generalizing a with
  | nil => simp at hs
  | single w s hw _ ih =>
    cases a with
    | nil =>
      obtain ⟨rfl, -⟩ := cons.inj hs
      rw [isSurrogate, hhigh] at hw
      simp at hw
    | cons x a => exact ih a (by simp) (cons.inj hs).2
  | pair w x s hw hx _ ih =>
  match a, hs with
  | [], hs =>
    obtain ⟨-, htail⟩ := cons.inj hs
    obtain ⟨rfl, -⟩ := cons.inj htail
    rw [hv] at hx
    simp at hx
  | [y], hs =>
    obtain ⟨-, htail⟩ := cons.inj hs
    obtain ⟨rfl, -⟩ := cons.inj htail
    have hup := of_decide_eq_true hhigh
    have hdown := of_decide_eq_true hx
    omega
  | y :: z :: a, hs => exact ih a (by simp) (cons.inj (cons.inj hs).2).2

end DartString
end Lib
