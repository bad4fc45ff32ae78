import Conest.Lib.Dart

/-!
# Objects with members that may be left out

`present` is the object of a list of members, without those that have no value. Where the keys
differ, a member is found under its key, and `null` where it was left out (`valueAt_present`).
-/

namespace Lib

open List
namespace Json

/-- The members that have a value. -/
def present (fields : List (String × Option Json)) : List (DartString × Json) :=
  fields.filterMap fun field => field.2.map fun value => (DartString.ofString field.1, value)

theorem mem_present {fields : List (String × Option Json)} {key : DartString} {value : Json} :
    (key, value) ∈ present fields ↔
      ∃ name, (name, some value) ∈ fields ∧ DartString.ofString name = key := by
  unfold present
  rw [mem_filterMap]
  constructor
  · rintro ⟨⟨name, field⟩, hmem, heq⟩
    obtain ⟨v, hv, hpair⟩ := Option.map_eq_some_iff.mp heq
    obtain ⟨hkey, hvalue⟩ := Prod.mk.inj hpair
    have hfield : field = some value := hvalue ▸ hv
    exact ⟨name, hfield ▸ hmem, hkey⟩
  · rintro ⟨name, hmem, rfl⟩
    exact ⟨(name, some value), hmem, rfl⟩

theorem keys_present (fields : List (String × Option Json)) :
    ((present fields).map Prod.fst).Sublist
      (fields.map fun field => DartString.ofString field.1) := by
  induction fields with
  | nil => exact List.Sublist.refl []
  | cons field fields ih =>
    obtain ⟨name, value⟩ := field
    cases value with
    | none => exact ih.cons _
    | some value => exact ih.cons_cons _

theorem valueAt_present {fields : List (String × Option Json)}
    (hnodup : (fields.map fun field => DartString.ofString field.1).Nodup) (i : ℕ) {name : String}
    {value : Option Json} (h : fields[i]? = some (name, value)) :
    valueAt (present fields) name = value.getD .null := by
  have hmem : (name, value) ∈ fields := mem_of_getElem? h
  cases value with
  | some value =>
    exact valueAt_of_mem (hnodup.sublist (keys_present fields)) (mem_present.mpr ⟨name, hmem, rfl⟩)
  | none =>
  -- the other members have other keys
  have hnone :
      ((present fields).find? fun entry => entry.1 == DartString.ofString name) = none := by
    rw [find?_eq_none]
    rintro ⟨key, value⟩ hentry heq
    obtain ⟨other, hother, hkey⟩ := mem_present.mp hentry
    have hsame : DartString.ofString other = DartString.ofString name := by
      rw [hkey]
      exact beq_iff_eq.mp heq
    have hpair := inj_on_of_nodup_map hnodup hother hmem hsame
    exact absurd (Prod.mk.inj hpair).2 (by simp)
  unfold valueAt
  rw [hnone]
  rfl

end Json
end Lib
