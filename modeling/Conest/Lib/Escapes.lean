import Conest.Lib.Text

/-!
# Scanning a text for escapes

A text in which a marker starts an escape is read from the left: `escape` says, of what follows a
marker, what the escape stands for and how many units belong to it, and whatever is no escape stands
for itself. Where escapes hold no markers of their own, two readings of what an escape is can only
differ at the markers, and `scan_eq_iff` compares them: a reading that takes more for escapes than
another one, and makes less of each of these, agrees with it on exactly the texts in which there is
none of them.

`intTryParse16` is `int.tryParse` in base 16, which skips white space and reads a sign.
-/

open List

namespace Lib

/-! ### The scan -/

section Scan

variable {α β : Type} [DecidableEq α]

/-- The scan, with the number of units that the last escape still holds. -/
def scan (marker : α) (escape : List α → Option (List β × ℕ)) (plain : α → β) :
    ℕ → List α → List β
  | _, [] => []
  | skip + 1, _ :: text => scan marker escape plain skip text
  | 0, a :: text =>
    if a = marker then
      match escape text with
      | some (out, skip) => out ++ scan marker escape plain skip text
      | none => plain a :: scan marker escape plain 0 text
    else plain a :: scan marker escape plain 0 text

variable {marker : α} {escape loose strict : List α → Option (List β × ℕ)} {plain : α → β}

@[simp] theorem scan_nil (skip : ℕ) : scan marker escape plain skip [] = [] := by
  rfl

theorem scan_skip (skip : ℕ) (text : List α) :
    scan marker escape plain skip text = scan marker escape plain 0 (text.drop skip) := by
  induction skip generalizing text with
  | zero => rfl
  | succ skip ih =>
    cases text with
    | nil => simp
    | cons a text => exact ih text

theorem scan_plain {a : α} (h : a ≠ marker) (text : List α) :
    scan marker escape plain 0 (a :: text) = plain a :: scan marker escape plain 0 text := by
  rw [scan, if_neg h]

theorem scan_escape {text : List α} {out : List β} {skip : ℕ} (h : escape text = some (out, skip)) :
    scan marker escape plain 0 (marker :: text) =
      out ++ scan marker escape plain 0 (text.drop skip) := by
  rw [scan, if_pos rfl, h, ← scan_skip]

theorem scan_none {text : List α} (h : escape text = none) :
    scan marker escape plain 0 (marker :: text) =
      plain marker :: scan marker escape plain 0 text := by
  rw [scan, if_pos rfl, h]

theorem scan_append {front : List α} (h : marker ∉ front) (text : List α) :
    scan marker escape plain 0 (front ++ text) =
      front.map plain ++ scan marker escape plain 0 text := by
  induction front with
  | nil => rfl
  | cons a front ih =>
    rw [List.mem_cons, not_or] at h
    rw [List.cons_append, scan_plain (Ne.symm h.1), ih h.2]
    rfl

theorem scan_of_none {text : List α}
    (h : ∀ front rest, text = front ++ marker :: rest → escape rest = none) :
    scan marker escape plain 0 text = text.map plain := by
  induction text with
  | nil => simp
  | cons a text ih =>
  have hrest : scan marker escape plain 0 text = text.map plain :=
    ih fun front rest htext => h (a :: front) rest (by rw [htext]; rfl)
  by_cases ha : a = marker
  · subst ha
    rw [scan_none (h [] text rfl), hrest]
    rfl
  · rw [scan_plain ha, hrest]
    rfl

/-! ### Two readings of one text -/

variable (marker) in
/-- The escapes lie within the text and hold no marker. -/
def Contained (escape : List α → Option (List β × ℕ)) : Prop :=
  ∀ text out skip, escape text = some (out, skip) → skip ≤ text.length ∧ marker ∉ text.take skip

variable (marker) in
/-- The two readings take the same for an escape at every marker of the text. -/
def AgreeOn (loose strict : List α → Option (List β × ℕ)) (text : List α) : Prop :=
  ∀ front rest, text = front ++ marker :: rest → loose rest = strict rest

omit [DecidableEq α] in
theorem agreeOn_nil : AgreeOn marker loose strict [] := by
  intro front rest h
  exact absurd h (by simp)

omit [DecidableEq α] in
theorem agreeOn_cons {a : α} {text : List α} :
    AgreeOn marker loose strict (a :: text) ↔
      (a = marker → loose text = strict text) ∧ AgreeOn marker loose strict text := by
  constructor
  · intro h
    refine ⟨fun ha => h [] text (by rw [ha]; rfl), fun front rest htext => ?_⟩
    exact h (a :: front) rest (by rw [htext]; rfl)
  rintro ⟨hhead, htail⟩ front rest htext
  cases front with
  | nil =>
    obtain ⟨ha, rfl⟩ := List.cons.inj htext
    exact hhead ha
  | cons b front => exact htail front rest (List.cons.inj htext).2

omit [DecidableEq α] in
theorem agreeOn_append {front : List α} (h : marker ∉ front) {text : List α} :
    AgreeOn marker loose strict (front ++ text) ↔ AgreeOn marker loose strict text := by
  induction front with
  | nil => rfl
  | cons a front ih =>
    rw [List.mem_cons, not_or] at h
    rw [List.cons_append, agreeOn_cons, ih h.2]
    exact and_iff_right fun ha => absurd ha.symm h.1

section

variable (hcontained : Contained marker loose)
  (hstrict : ∀ text r, strict text = some r → loose text = some r)
  (hshort : ∀ text out skip, loose text = some (out, skip) → strict text = none →
    out.length < skip + 1) (text : List α)

include hcontained hstrict hshort text

theorem length_scan_loose : (AgreeOn marker loose strict text ∧
        scan marker loose plain 0 text = scan marker strict plain 0 text) ∨
      ¬ AgreeOn marker loose strict text ∧
        (scan marker loose plain 0 text).length < (scan marker strict plain 0 text).length := by
  -- Along the text, an escape at a time.
  induction hn : text.length using Nat.strong_induction_on generalizing text with
  | _ n ih =>
  cases text with
  | nil => exact Or.inl ⟨agreeOn_nil, by simp⟩
  | cons a text =>
  subst hn
  by_cases ha : a = marker
  · subst ha
    cases hs : strict text with
    | some r =>
      -- Both read the same escape.
      obtain ⟨out, skip⟩ := r
      have hl := hstrict text _ hs
      obtain ⟨hskip, hfree⟩ := hcontained text out skip hl
      have hagree : AgreeOn a loose strict (a :: text) ↔
          AgreeOn a loose strict (text.drop skip) := by
        rw [agreeOn_cons, and_iff_right fun _ => hl.trans hs.symm]
        conv_lhs => rw [← List.take_append_drop skip text]
        exact agreeOn_append hfree
      rw [hagree, scan_escape hl, scan_escape hs, List.length_append, List.length_append]
      obtain ⟨h, heq⟩ | ⟨h, hlt⟩ := ih (text.drop skip).length
        (by rw [List.length_drop, List.length_cons]; omega) _ rfl
      · exact Or.inl ⟨h, by rw [heq]⟩
      · exact Or.inr ⟨h, by omega⟩
    | none =>
      cases hl : loose text with
      | none =>
        have hagree : AgreeOn a loose strict (a :: text) ↔ AgreeOn a loose strict text := by
          rw [agreeOn_cons, and_iff_right fun _ => hl.trans hs.symm]
        rw [hagree, scan_none hl, scan_none hs, List.length_cons, List.length_cons]
        obtain ⟨h, heq⟩ | ⟨h, hlt⟩ := ih text.length (by simp) _ rfl
        · exact Or.inl ⟨h, by rw [heq]⟩
        · exact Or.inr ⟨h, by omega⟩
      | some r =>
      -- Only the looser one reads an escape; what it holds stands for itself in the other.
      obtain ⟨out, skip⟩ := r
      obtain ⟨hskip, hfree⟩ := hcontained text out skip hl
      have hout := hshort text out skip hl hs
      have hnot : ¬ AgreeOn a loose strict (a :: text) := by
        intro h
        have := (agreeOn_cons.mp h).1 rfl
        rw [hl, hs] at this
        exact absurd this (by simp)
      have hrest : scan a strict plain 0 text =
          (text.take skip).map plain ++ scan a strict plain 0 (text.drop skip) := by
        conv_lhs => rw [← List.take_append_drop skip text]
        exact scan_append hfree _
      refine Or.inr ⟨hnot, ?_⟩
      rw [scan_escape hl, scan_none hs, hrest]
      simp only [List.length_append, List.length_cons, List.length_map, List.length_take]
      obtain ⟨h, heq⟩ | ⟨h, hlt⟩ := ih (text.drop skip).length
        (by rw [List.length_drop, List.length_cons]; omega) _ rfl
      · rw [heq]
        omega
      · omega
  · have hagree : AgreeOn marker loose strict (a :: text) ↔
        AgreeOn marker loose strict text := by
      rw [agreeOn_cons, and_iff_right fun h => absurd h ha]
    rw [hagree, scan_plain ha, scan_plain ha, List.length_cons, List.length_cons]
    obtain ⟨h, heq⟩ | ⟨h, hlt⟩ := ih text.length (by simp) _ rfl
    · exact Or.inl ⟨h, by rw [heq]⟩
    · exact Or.inr ⟨h, by omega⟩

theorem scan_eq_iff : scan marker loose plain 0 text = scan marker strict plain 0 text ↔
      AgreeOn marker loose strict text := by
  obtain ⟨h, heq⟩ | ⟨h, hlt⟩ := @length_scan_loose α β _ marker loose strict plain hcontained
    hstrict hshort text
  · exact iff_of_true heq h
  · exact iff_of_false (fun heq => by rw [heq] at hlt; omega) h

end

end Scan

/-! ### Numbers in base 16 -/

namespace DartString

/-- The value of a hexadecimal digit. -/
def hexDigit? (u : Fin 65536) : Option ℕ :=
  let n := u.val
  if 48 ≤ n ∧ n ≤ 57 then some (n - 48)
  else if 65 ≤ n ∧ n ≤ 70 then some (n - 55)
  else if 97 ≤ n ∧ n ≤ 102 then some (n - 87)
  else none

/-- The value of a run of hexadecimal digits. -/
def hexDigits? (digits : DartString) : Option ℕ :=
  (digits.mapM hexDigit?).map fun values => values.foldl (fun n d => 16 * n + d) 0

/-- `int.tryParse` in base 16: white space around the number is skipped, a sign is read, and one
digit at least has to follow. -/
def intTryParse16 (s : DartString) : Option ℤ :=
  match trim s with
  | [] => none
  | u :: digits =>
    if u = 43 ∨ u = 45 then
      if digits = [] then none
      else (hexDigits? digits).map fun n => if u = 45 then -(n : ℤ) else n
    else (hexDigits? (u :: digits)).map fun n => (n : ℤ)

end DartString

end Lib
