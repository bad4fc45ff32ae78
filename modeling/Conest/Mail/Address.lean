import Conest.Lib.Text

/-!
# Mail addresses in headers

`parseMailAddress` takes the last address in angle brackets, trims it and puts it in lower case, and
`isPlausibleMailAddress` says whether the result is one `local@domain`. A plausible address consists of
printable characters that none of these steps touches (`addressUnit_of_plausible`), so a plausible
address in angle brackets is parsed as it is.
-/

open Lib List
open Lib.DartString

namespace Conest
namespace Mail

variable {u : Fin 65536} {address : DartString}

/-- The characters of the part before the `@`. -/
def isLocalUnit (u : Fin 65536) : Bool :=
  decide (97 ≤ u.val ∧ u.val ≤ 122) || decide (48 ≤ u.val ∧ u.val ≤ 57) ||
    (ofString ".!#$%&*+/=?^_`\x7b\x7d~-").contains u

/-- The characters of a label of the domain. -/
def isDomainUnit (u : Fin 65536) : Bool :=
  decide (97 ≤ u.val ∧ u.val ≤ 122) || decide (48 ≤ u.val ∧ u.val ≤ 57) || u == 45

/-- What matches `[a-z0-9-]+(\.[a-z0-9-]+)+`. -/
def isDomain (domain : DartString) : Bool :=
  let labels := domain.splitOn 46
  decide (2 ≤ labels.length) && labels.all fun label => !label.isEmpty && label.all isDomainUnit

/-- `isPlausibleMailAddress`: the part before the first `@`, 1 to 64 characters, and a domain. -/
def isPlausibleMailAddress (address : DartString) : Bool :=
  let front := address.takeWhile (· != 64)
  let rest := address.dropWhile (· != 64)
  decide (address.length ≤ 254) && decide (1 ≤ front.length) && decide (front.length ≤ 64) &&
    front.all isLocalUnit && !rest.isEmpty && isDomain rest.tail

/-- `\s`: what `trim` removes, but for the next-line character. -/
def isRegExpSpace (u : Fin 65536) : Bool := isWhitespace u && u != 0x85

/-- The characters between the brackets. -/
def isAngleUnit (u : Fin 65536) : Bool := u != 60 && u != 62 && !isRegExpSpace u

/-- What the matches of `<([^<>\s]+)>` hold, from the left. A match has no second `<` in it, so the
search may go on right behind its first character. -/
def angleGroups : DartString → List DartString
  | [] => []
  | u :: text =>
    let run := text.takeWhile isAngleUnit
    if u = 60 ∧ run ≠ [] ∧ (text.dropWhile isAngleUnit).head? = some 62 then run :: angleGroups text
    else angleGroups text

def parseMailAddress (header : Option DartString) : Option DartString :=
  header.bind fun header =>
    let candidate := toLowerCase (trim ((angleGroups header).getLast?.getD header))
    if isPlausibleMailAddress candidate then some candidate else none

/-! ### Plausible addresses -/

/-- What the characters of a plausible address have in common. -/
structure AddressUnit (u : Fin 65536) : Prop where
  low : 33 ≤ u.val
  high : u.val ≤ 126
  not_capital : u.val < 65 ∨ 90 < u.val
  not_bracket : u ≠ 60 ∧ u ≠ 62

theorem AddressUnit.of_val (low : 33 ≤ u.val) (high : u.val ≤ 126)
    (not_capital : u.val < 65 ∨ 90 < u.val) (not_bracket : u.val ≠ 60 ∧ u.val ≠ 62) :
    AddressUnit u where
  low := low
  high := high
  not_capital := not_capital
  not_bracket := ⟨fun h => not_bracket.1 (by rw [h]; rfl), fun h => not_bracket.2 (by rw [h]; rfl)⟩

theorem addressUnit_of_local (h : isLocalUnit u = true) : AddressUnit u := by
  rcases Bool.or_eq_true_iff.mp h with h | h
  · rcases Bool.or_eq_true_iff.mp h with h | h
    · have := of_decide_eq_true h
      exact .of_val (by omega) (by omega) (by omega) (by omega)
    · have := of_decide_eq_true h
      exact .of_val (by omega) (by omega) (by omega) (by omega)
  · have hall : (ofString ".!#$%&*+/=?^_`\x7b\x7d~-").all (fun v => decide (33 ≤ v.val ∧ v.val ≤ 126 ∧
        (v.val < 65 ∨ 90 < v.val) ∧ v.val ≠ 60 ∧ v.val ≠ 62)) = true := by decide
    obtain ⟨low, high, capital, bracket⟩ :=
      of_decide_eq_true (all_eq_true.mp hall u (contains_iff_mem.mp h))
    exact .of_val low high capital bracket

theorem addressUnit_of_domainUnit (h : isDomainUnit u = true) : AddressUnit u := by
  rcases Bool.or_eq_true_iff.mp h with h | h
  · rcases Bool.or_eq_true_iff.mp h with h | h
    · have := of_decide_eq_true h
      exact .of_val (by omega) (by omega) (by omega) (by omega)
    · have := of_decide_eq_true h
      exact .of_val (by omega) (by omega) (by omega) (by omega)
  · rw [eq_of_beq h]
    exact .of_val (by decide) (by decide) (by decide) (by decide)

theorem addressUnit_of_domain {domain : DartString} (h : isDomain domain = true) :
    ∀ u ∈ domain, AddressUnit u := by
  intro u hu
  have hjoin : intercalate [46] (domain.splitOn 46) = domain := intercalate_splitOn 46
  rw [← hjoin] at hu
  have hlabels := (Bool.and_eq_true_iff.mp h).2
  -- a character of the domain is a dot or stands in a label
  rcases mem_intercalate hu with hu | ⟨label, hlabel, hu⟩
  · rw [mem_singleton.mp hu]
    exact .of_val (by decide) (by decide) (by decide) (by decide)
  · have hall := (Bool.and_eq_true_iff.mp (all_eq_true.mp hlabels label hlabel)).2
    exact addressUnit_of_domainUnit (all_eq_true.mp hall u hu)

theorem addressUnit_of_plausible (h : isPlausibleMailAddress address = true) :
    ∀ u ∈ address, AddressUnit u := by
  unfold isPlausibleMailAddress at h
  simp only [Bool.and_eq_true] at h
  obtain ⟨⟨⟨-, hfront⟩, hrest⟩, hdomain⟩ := h
  intro u hu
  rw [← takeWhile_append_dropWhile (l := address)] at hu
  rcases mem_append.mp hu with hu | hu
  · exact addressUnit_of_local (all_eq_true.mp hfront u hu)
  generalize hd : address.dropWhile (· != 64) = rest at *
  cases rest with
  | nil => cases hu
  | cons at' domain =>
  rcases mem_cons.mp hu with rfl | hu
  · have hat := head?_dropWhile_not (· != 64) address
    rw [hd] at hat
    simp only [head?_cons, bne_eq_false_iff_eq] at hat
    rw [hat]
    exact .of_val (by decide) (by decide) (by decide) (by decide)
  · exact addressUnit_of_domain hdomain u hu

theorem ne_nil_of_plausible (h : isPlausibleMailAddress address = true) : address ≠ [] := by
  rintro rfl
  exact absurd h (by decide)

theorem AddressUnit.not_whitespace (h : AddressUnit u) : isWhitespace u = false := by
  have hval : ∀ n, n < 127 → 33 ≤ n → ∀ hn : n < 65536, isWhitespace ⟨n, hn⟩ = false := by decide
  exact hval u.val (Nat.lt_succ_of_le h.high) h.low u.isLt

theorem AddressUnit.isAngleUnit (h : AddressUnit u) : isAngleUnit u = true := by
  rw [Mail.isAngleUnit, isRegExpSpace, h.not_whitespace, bne_iff_ne.mpr h.not_bracket.1,
    bne_iff_ne.mpr h.not_bracket.2]
  rfl

theorem AddressUnit.lowerUnit (h : AddressUnit u) : lowerUnit u = u := by
  have := h.high
  have := h.not_capital
  rw [DartString.lowerUnit, if_neg]
  omega

theorem toLowerCase_of_plausible (h : isPlausibleMailAddress address = true) :
    toLowerCase address = address := by
  conv_rhs => rw [← map_id address]
  exact map_congr_left fun u hu => ( addressUnit_of_plausible h u hu).lowerUnit

theorem angleGroups_of_not_mem {text : DartString} (h : 60 ∉ text) : angleGroups text = [] := by
  induction text with
  | nil => rfl
  | cons u text ih =>
    rw [mem_cons, not_or] at h
    rw [angleGroups, if_neg fun hu => h.1 hu.1.symm, ih h.2]

theorem parseMailAddress_of_plausible (h : isPlausibleMailAddress address = true) :
    parseMailAddress (some (60 :: (address ++ [62]))) = some address := by
  have hunits := addressUnit_of_plausible h
  have htake : (address ++ [62]).takeWhile isAngleUnit = address := by
    rw [takeWhile_append_of_pos fun u hu => (hunits u hu).isAngleUnit]
    show address ++ [] = address
    exact append_nil address
  have hdrop : (address ++ [62]).dropWhile isAngleUnit = [62] := by
    rw [dropWhile_append_of_pos fun u hu => (hunits u hu).isAngleUnit]
    rfl
  have hrest : angleGroups (address ++ [62]) = [] := by
    apply angleGroups_of_not_mem
    rw [mem_append, not_or]
    exact ⟨fun hmem => (hunits _ hmem).not_bracket.1 rfl, by decide⟩
  have hgroups : angleGroups (60 :: (address ++ [62])) = [address] := by
    rw [angleGroups, htake, hdrop, hrest, if_pos ⟨rfl, ne_nil_of_plausible h, rfl⟩]
  have htrim : trim address = address :=
    trim_of_ends (fun u hu => (hunits u (mem_of_mem_head? hu)).not_whitespace)
      fun u hu => (hunits u (mem_of_getLast? hu)).not_whitespace
  rw [parseMailAddress, Option.bind_some, hgroups]
  show (if isPlausibleMailAddress (toLowerCase (trim address)) then
    some (toLowerCase (trim address)) else none) = some address
  rw [htrim, toLowerCase_of_plausible h, if_pos h]

end Mail
end Conest
