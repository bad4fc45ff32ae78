import Conest.Lib.Surrogates
import Conest.Lib.Text

/-!
# The names of attachments

`sanitizeAttachmentFileName` takes out of a name what no file system should see, strips its ends,
puts an underscore in front of a device name and cuts what is too long. Each step can undo one
before it: stripped dots uncover white space, a cut uncovers a dot, a space or half a surrogate
pair, and only what stands before the last dot is compared with the device names, though the first
one ends them. `safe_iff` says for which names the result is safe all the same.
-/

open Lib DartString List Option

namespace Conest
namespace Attachment

variable {s input a b : DartString} {u : Fin 65536}

def maxAttachmentFileNameLength : ℕ := 120

/-! ### What the code does -/

/-- `replaceAll` of `[/\\]+` by an underscore: one for a run. -/
def replaceSeparators (inRun : Bool) : DartString → DartString
  | [] => []
  | u :: s =>
    if u = 47 ∨ u = 92 then
      if inRun then replaceSeparators true s else 95 :: replaceSeparators true s
    else u :: replaceSeparators false s

/-- `[\x00-\x1f\x7f]`. -/
def isControl (u : Fin 65536) : Bool := decide (u.val ≤ 0x1f) || u == 0x7f

/-- `[\u202a-\u202e\u2066-\u2069]`. -/
def isBidiControl (u : Fin 65536) : Bool :=
  decide (0x202a ≤ u.val ∧ u.val ≤ 0x202e) || decide (0x2066 ≤ u.val ∧ u.val ≤ 0x2069)

/-- `[<>:"|?*]`. -/
def isForbidden (u : Fin 65536) : Bool := decide (u ∈ ofString "<>:\"|?*")

/-- `[. ]`. -/
def isDotOrSpace (u : Fin 65536) : Bool := u == 46 || u == 32

/-- The name before its device names are looked at. -/
def cleaned (input : DartString) : DartString :=
  let value := replaceSeparators false input
  let value := value.filter fun u => !isControl u
  let value := value.filter fun u => !isBidiControl u
  let value := trim (value.map fun u => if isForbidden u then 95 else u)
  let value := value.dropWhile isDotOrSpace
  let value := value.rdropWhile isDotOrSpace
  if value = [] ∨ value = [46] ∨ value = [46, 46] then ofString "attachment.bin" else value

/-- What follows the last dot, with the dot, where one stands behind the first character. -/
def extensionOf (value : DartString) : DartString :=
  let after := value.reverse.takeWhile (· != 46)
  if after.length + 1 < value.length then value.drop (value.length - (after.length + 1)) else []

/-- What stands before the extension. -/
def stemOf (value : DartString) : DartString :=
  value.take (value.length - (extensionOf value).length)

/-- The device names of Windows. -/
def reserved : List DartString :=
  ["con", "prn", "aux", "nul", "com1", "com2", "com3", "com4", "com5", "com6", "com7", "com8",
    "com9", "lpt1", "lpt2", "lpt3", "lpt4", "lpt5", "lpt6", "lpt7", "lpt8", "lpt9"].map ofString

/-- An underscore in front of a device name. -/
def marked (value : DartString) : DartString :=
  if toLowerCase (trim (stemOf value)) ∈ reserved then 95 :: value else value

/-- An extension that is short enough stays when the name is cut. -/
def keepExtension (extension : DartString) : DartString :=
  if extension.length ≤ 20 then extension else []

/-- The name, cut to the longest length. -/
def shortened (value extension : DartString) : DartString :=
  if maxAttachmentFileNameLength < value.length then
    value.take (maxAttachmentFileNameLength - (keepExtension extension).length) ++
      keepExtension extension
  else value

def sanitizeAttachmentFileName (input : DartString) : DartString :=
  shortened (marked (cleaned input)) (extensionOf (cleaned input))

/-! ### What a safe name is -/

/-- What stands before the first dot, without the spaces at its end. -/
def deviceOf (name : DartString) : DartString :=
  (name.takeWhile (· != 46)).rdropWhile (· == 32)

/-- A file name that is safe to use, and stays what it is when it is sanitized again. -/
structure IsSafe (name : DartString) : Prop where
  nonempty : name ≠ []
  short : name.length ≤ maxAttachmentFileNameLength
  wellFormed : WellFormed name
  clean : ∀ u ∈ name, u ≠ 47 ∧ u ≠ 92 ∧ isControl u = false ∧ isBidiControl u = false ∧
    isForbidden u = false
  front : ∀ u ∈ name.head?, isDotOrSpace u = false
  back : ∀ u ∈ name.getLast?, isDotOrSpace u = false
  device : toLowerCase (deviceOf name) ∉ reserved
  fixed : sanitizeAttachmentFileName name = name

/-! ### What is true of a cleaned name -/

/-- What the steps before the cut give. -/
structure IsTidy (name : DartString) : Prop where
  nonempty : name ≠ []
  wellFormed : WellFormed name
  clean : ∀ u ∈ name, u ≠ 47 ∧ u ≠ 92 ∧ isControl u = false ∧ isBidiControl u = false ∧
    isForbidden u = false
  front : ∀ u ∈ name.head?, isDotOrSpace u = false
  back : ∀ u ∈ name.getLast?, isDotOrSpace u = false

theorem surrogate_le (h : isSurrogate u = true) : 0xD800 ≤ u.val ∧ u.val < 0xE000 := by
  by_contra hnot
  have hhigh : isHighSurrogate u = false := decide_eq_false (by omega)
  have hlow : isLowSurrogate u = false := decide_eq_false (by omega)
  rw [isSurrogate, hhigh, hlow] at h
  exact Bool.false_ne_true h

theorem not_surrogate_of_whitespace (h : isWhitespace u = true) : isSurrogate u = false := by
  by_contra hnot
  obtain ⟨hle, hlt⟩ := surrogate_le (Bool.not_eq_false _ ▸ hnot)
  simp only [isWhitespace, Bool.or_eq_true, decide_eq_true_eq, contains_eq_mem,
    mem_cons, not_mem_nil, or_false] at h
  omega

theorem wellFormed_replaceSeparators (h : WellFormed s) (inRun : Bool) :
    WellFormed (replaceSeparators inRun s) := by
  induction h using WellFormed.induct generalizing inRun with
  | nil => exact wellFormed_nil
  | single u s hu _ ih =>
    rw [replaceSeparators]
    split_ifs
    · exact ih true
    · exact (ih true).cons_single rfl
    · exact (ih false).cons_single hu
  | pair u v s hu hv _ ih =>
  have hne : ∀ w : Fin 65536, isSurrogate w = true → ¬ (w = 47 ∨ w = 92) := by
    rintro w hw (rfl | rfl)
    · exact absurd hw (by decide)
    · exact absurd hw (by decide)
  rw [replaceSeparators, if_neg (hne u (isSurrogate_of_high hu)), replaceSeparators,
    if_neg (hne v (isSurrogate_of_low hv))]
  exact (ih false).cons_pair hu hv

section

variable {p : Fin 65536 → Bool} (hp : ∀ u, p u = true → isSurrogate u = false) (h : WellFormed s)

include hp h

theorem wellFormed_dropWhile : WellFormed (s.dropWhile p) := by
  rw [← takeWhile_append_dropWhile (l := s)] at h
  refine (h.cut fun u hu => ?_).2
  have := hp u (mem_takeWhile_imp (mem_of_getLast? hu))
  exact (Bool.or_eq_false_iff.mp this).1

theorem wellFormed_rdropWhile : WellFormed (s.rdropWhile p) := by
  rw [← rdropWhile_append_rtakeWhile (l := s)] at h
  cases hspace : s.rtakeWhile p with
  | nil =>
    rw [hspace, append_nil] at h
    exact h
  | cons v space =>
    rw [hspace] at h
    have hv : p v = true := mem_rtakeWhile_imp (by rw [hspace]; exact mem_cons_self)
    exact (h.cut_front (Bool.or_eq_false_iff.mp (hp v hv)).2).1

end

theorem wellFormed_trim (h : WellFormed s) : WellFormed (trim s) :=
  wellFormed_rdropWhile (fun _ => not_surrogate_of_whitespace)
    (wellFormed_dropWhile (fun _ => not_surrogate_of_whitespace) h)

theorem isDotOrSpace_eq (h : isDotOrSpace u = true) : u = 46 ∨ u = 32 := by
  rw [isDotOrSpace, Bool.or_eq_true, beq_iff_eq, beq_iff_eq] at h
  exact h

theorem not_surrogate_of_dotOrSpace (h : isDotOrSpace u = true) : isSurrogate u = false := by
  obtain rfl | rfl := isDotOrSpace_eq h <;> decide

theorem replaceSeparators_of_clean (h : ∀ u ∈ s, u ≠ 47 ∧ u ≠ 92) :
    replaceSeparators false s = s := by
  induction s with
  | nil => rfl
  | cons u s ih =>
    obtain ⟨hslash, hback⟩ := h u mem_cons_self
    rw [replaceSeparators, if_neg (by rw [not_or]; exact ⟨hslash, hback⟩),
      ih fun v hv => h v (mem_cons_of_mem _ hv)]

theorem of_mem_replaceSeparators {inRun : Bool} (h : u ∈ replaceSeparators inRun s) :
    u ≠ 47 ∧ u ≠ 92 := by
  induction s generalizing inRun with
  | nil => exact absurd h not_mem_nil
  | cons v s ih =>
  rw [replaceSeparators] at h
  split_ifs at h with hseparator
  · exact ih h
  · obtain rfl | h := mem_cons.mp h
    · decide
    · exact ih h
  · obtain rfl | h := mem_cons.mp h
    · exact not_or.mp hseparator
    · exact ih h

/-- The steps that look at single units. -/
def withoutForbidden (input : DartString) : DartString :=
  (((replaceSeparators false input).filter fun u => !isControl u).filter fun u =>
    !isBidiControl u).map fun u => if isForbidden u then 95 else u

theorem withoutForbidden_of_clean
    (h : ∀ u ∈ s, u ≠ 47 ∧ u ≠ 92 ∧ isControl u = false ∧ isBidiControl u = false ∧
      isForbidden u = false) : withoutForbidden s = s := by
  unfold withoutForbidden
  have hcontrol : ∀ u ∈ s, (!isControl u) = true := fun u hu => by rw [(h u hu).2.2.1]; rfl
  have hbidi : ∀ u ∈ s, (!isBidiControl u) = true := fun u hu => by rw [(h u hu).2.2.2.1]; rfl
  rw [replaceSeparators_of_clean fun u hu => ⟨(h u hu).1, (h u hu).2.1⟩,
    filter_eq_self.mpr hcontrol, filter_eq_self.mpr hbidi]
  conv_rhs => rw [← map_id s]
  refine map_congr_left fun u hu => ?_
  rw [if_neg (by rw [(h u hu).2.2.2.2]; exact Bool.false_ne_true)]
  rfl

theorem clean_withoutForbidden (input : DartString) :
    ∀ u ∈ withoutForbidden input, u ≠ 47 ∧ u ≠ 92 ∧ isControl u = false ∧
      isBidiControl u = false ∧ isForbidden u = false := by
  intro u hu
  obtain ⟨v, hv, rfl⟩ := mem_map.mp hu
  obtain ⟨hv, hbidi⟩ := mem_filter.mp hv
  obtain ⟨hv, hcontrol⟩ := mem_filter.mp hv
  split
  · decide
  next hforbidden =>
  obtain ⟨hslash, hback⟩ := of_mem_replaceSeparators hv
  exact ⟨hslash, hback, Bool.not_eq_true' _ ▸ hcontrol, Bool.not_eq_true' _ ▸ hbidi,
    Bool.not_eq_true _ ▸ hforbidden⟩

theorem wellFormed_withoutForbidden (h : WellFormed input) :
    WellFormed (withoutForbidden input) := by
  have hcontrol : ∀ u, isSurrogate u = true → (!isControl u) = true := by
    intro u hu
    have := surrogate_le hu
    have hne : u ≠ 0x7f := by
      rintro rfl
      exact absurd hu (by decide)
    rw [isControl, decide_eq_false (by omega), beq_eq_false_iff_ne.mpr hne]
    rfl
  have hbidi : ∀ u, isSurrogate u = true → (!isBidiControl u) = true := by
    intro u hu
    have := surrogate_le hu
    rw [isBidiControl, decide_eq_false (by omega), decide_eq_false (by omega)]
    rfl
  have hforbidden : ∀ u, isSurrogate u = true → isForbidden u = false := by
    intro u hu
    have := surrogate_le hu
    refine decide_eq_false fun hmem => ?_
    have hsmall := all_eq_true.mp
      (by decide : (ofString "<>:\"|?*").all (fun u => decide (u.val < 0x80)) = true) u hmem
    have := of_decide_eq_true hsmall
    omega
  refine WellFormed.map (fun u hu => ?_) (fun u hu => ?_)
    (((wellFormed_replaceSeparators h false).filter hcontrol).filter hbidi)
  · rw [if_neg (by rw [hforbidden u hu]; exact Bool.false_ne_true)]
  · split_ifs
    · rfl
    · exact hu

/-- Dots and spaces are stripped from the ends. -/
def stripped (value : DartString) : DartString :=
  ((trim value).dropWhile isDotOrSpace).rdropWhile isDotOrSpace

theorem cleaned_eq (input : DartString) :
    cleaned input =
      if stripped (withoutForbidden input) = [] ∨ stripped (withoutForbidden input) = [46] ∨
          stripped (withoutForbidden input) = [46, 46] then ofString "attachment.bin"
      else stripped (withoutForbidden input) := rfl

theorem rdropWhile_cons {p : Fin 65536 → Bool} (hu : p u = false) (s : DartString) :
    ∃ t, (u :: s).rdropWhile p = u :: t := by
  have hne : (u :: s).rdropWhile p ≠ [] := by
    rw [Ne, rdropWhile_eq_nil_iff]
    intro hall
    rw [hall u mem_cons_self] at hu
    simp at hu
  obtain ⟨rest, hrest⟩ := rdropWhile_prefix p (u :: s)
  obtain ⟨v, t, ht⟩ := exists_cons_of_ne_nil hne
  rw [ht] at hrest
  obtain ⟨rfl, -⟩ := cons.inj hrest
  exact ⟨t, ht⟩

theorem forall_mem_of_all {p : Fin 65536 → Prop} [DecidablePred p]
    (h : s.all (fun u => decide (p u)) = true) : ∀ u ∈ s, p u :=
  fun u hu => of_decide_eq_true (all_eq_true.mp h u hu)

theorem tidy_fallback : IsTidy (ofString "attachment.bin") where
  nonempty := by decide
  wellFormed := by decide
  clean := forall_mem_of_all (by decide)
  front u hu := by
    rw [← some.inj hu]
    decide
  back u hu := by
    rw [← some.inj hu]
    decide

theorem tidy_cleaned (h : WellFormed input) : IsTidy (cleaned input) := by
  rw [cleaned_eq]
  split_ifs with hbad
  · exact tidy_fallback
  · rw [not_or] at hbad
    have hmem : ∀ u ∈ stripped (withoutForbidden input), u ∈ withoutForbidden input := by
      intro u hu
      have hu := ( rdropWhile_prefix _ _).subset hu
      have hu := (dropWhile_suffix _).subset hu
      have hu := ( rdropWhile_prefix _ _).subset hu
      exact (dropWhile_suffix _).subset hu
    have hwf : WellFormed (stripped (withoutForbidden input)) :=
      wellFormed_rdropWhile (fun _ => not_surrogate_of_dotOrSpace)
        (wellFormed_dropWhile (fun _ => not_surrogate_of_dotOrSpace)
          (wellFormed_trim (wellFormed_withoutForbidden h)))
    refine ⟨hbad.1, hwf, fun u hu => clean_withoutForbidden input u (hmem u hu), ?_, ?_⟩
    · intro u hu
      obtain ⟨rest, hrest⟩ := rdropWhile_prefix isDotOrSpace
        ((trim (withoutForbidden input)).dropWhile isDotOrSpace)
      apply not_of_mem_head?_dropWhile
      rw [← hrest, head?_append]
      change u ∈ (stripped (withoutForbidden input)).head?.or _
      rw [hu]
      rfl
    intro u hu
    have hlast := rdropWhile_last_not isDotOrSpace
      ((trim (withoutForbidden input)).dropWhile isDotOrSpace) hbad.1
    have := getLast?_eq_some_getLast hbad.1
    rw [hu] at this
    rw [some.inj this]
    exact Bool.not_eq_true _ ▸ hlast

/-! ### Stem and extension -/

theorem extensionOf_of_not_mem {value : DartString} (h : 46 ∉ value) : extensionOf value = [] := by
  have hall : value.reverse.takeWhile (· != 46) = value.reverse :=
    takeWhile_eq_self_iff.mpr fun u hu => by
      rw [bne_iff_ne]
      rintro rfl
      exact h (mem_reverse.mp hu)
  unfold extensionOf
  rw [hall]
  dsimp only
  rw [length_reverse, if_neg (by omega)]

theorem extensionOf_append (ha : a ≠ []) (hb : 46 ∉ b) : extensionOf (a ++ 46 :: b) = 46 :: b := by
  have hpos := length_pos_iff.mpr ha
  have hafter : (a ++ 46 :: b).reverse.takeWhile (· != 46) = b.reverse := by
    rw [reverse_append, reverse_cons, append_assoc,
      takeWhile_append_of_pos fun u hu => by
        rw [bne_iff_ne]
        rintro rfl
        exact hb (mem_reverse.mp hu)]
    show b.reverse ++ takeWhile _ (46 :: _) = _
    rw [takeWhile_cons_of_neg (by decide), append_nil]
  have hlen : (a ++ 46 :: b).length - (b.reverse.length + 1) = a.length := by
    rw [length_append, length_cons, length_reverse]
    omega
  unfold extensionOf
  rw [hafter]
  dsimp only
  rw [hlen, if_pos, drop_left]
  omega

theorem exists_last_dot {value : DartString} (h : 46 ∈ value) :
    ∃ a b, value = a ++ 46 :: b ∧ 46 ∉ b := by
  induction value with
  | nil => exact absurd h not_mem_nil
  | cons u value ih =>
  by_cases hrest : 46 ∈ value
  · obtain ⟨a, b, rfl, hb⟩ := ih hrest
    exact ⟨u :: a, b, rfl, hb⟩
  · obtain rfl | h := mem_cons.mp h
    · exact ⟨[], value, rfl, hrest⟩
    · exact absurd h hrest

theorem stem_cases {value : DartString} (h : ∀ u ∈ value.head?, isDotOrSpace u = false) :
    (46 ∉ value ∧ extensionOf value = [] ∧ stemOf value = value) ∨
    ∃ a b, value = a ++ 46 :: b ∧ a ≠ [] ∧ 46 ∉ b ∧ extensionOf value = 46 :: b ∧
      stemOf value = a := by
  by_cases hdot : 46 ∈ value
  · right
    obtain ⟨a, b, rfl, hb⟩ := exists_last_dot hdot
    have ha : a ≠ [] := by
      rintro rfl
      exact absurd (h 46 rfl) (by decide)
    have hext := extensionOf_append ha hb
    refine ⟨a, b, rfl, ha, hb, hext, ?_⟩
    rw [stemOf, hext, length_append, Nat.add_sub_cancel, take_left]
  · left
    have hext := extensionOf_of_not_mem hdot
    refine ⟨hdot, hext, ?_⟩
    rw [stemOf, hext, length_nil, Nat.sub_zero, take_length]

theorem underscore_not_reserved (s : DartString) :
    toLowerCase (trim (stemOf (95 :: s))) ∉ reserved := by
  intro hmem
  have hfront : ∀ u ∈ (95 :: s : DartString).head?, isDotOrSpace u = false := by
    intro u hu
    rw [← some.inj hu]
    decide
  have hstem : ∃ t, stemOf (95 :: s) = 95 :: t := by
    obtain ⟨-, -, hstem⟩ | ⟨a, b, hvalue, ha, -, -, hstem⟩ := stem_cases hfront
    · exact ⟨s, hstem⟩
    · obtain ⟨u, t, rfl⟩ := exists_cons_of_ne_nil ha
      obtain ⟨rfl, -⟩ := cons.inj hvalue
      exact ⟨t, hstem⟩
  obtain ⟨t, ht⟩ := hstem
  obtain ⟨r, hr⟩ : ∃ r, trim (95 :: t) = 95 :: r := by
    exact rdropWhile_cons (by decide) t
  rw [ht, hr] at hmem
  have hhead : reserved.all (fun name => decide (name.head? ≠ some 95)) = true := by decide
  exact absurd rfl (of_decide_eq_true (all_eq_true.mp hhead _ hmem))

theorem IsTidy.marked {value : DartString} (h : IsTidy value) : IsTidy (marked value) := by
  unfold Attachment.marked
  split_ifs
  · refine ⟨cons_ne_nil _ _, h.wellFormed.cons_single (by decide), ?_, ?_, ?_⟩
    · intro u hu
      obtain rfl | hu := mem_cons.mp hu
      · decide
      · exact h.clean u hu
    · intro u hu
      rw [← some.inj hu]
      decide
    · intro u hu
      obtain ⟨v, t, rfl⟩ := exists_cons_of_ne_nil h.nonempty
      exact h.back u (by rwa [getLast?_cons_cons] at hu)
  · exact h

/-! ### When the result is safe -/

/-- What the cut leaves of a name, before the extension is put back. -/
def kept (name extension : DartString) : DartString :=
  if maxAttachmentFileNameLength < name.length then
    name.take (maxAttachmentFileNameLength - (keepExtension extension).length)
  else name

/-- What is put back behind the cut. -/
def putBack (name extension : DartString) : DartString :=
  if maxAttachmentFileNameLength < name.length then keepExtension extension else []

theorem shortened_eq (name extension : DartString) :
    shortened name extension = kept name extension ++ putBack name extension := by
  unfold shortened kept putBack
  split_ifs
  · rfl
  · exact (append_nil _).symm

/-- What a name and its extension have to be, for the cut to keep the name safe. -/
structure StaysSafe (name extension : DartString) : Prop where
  /-- The name does not begin with white space. -/
  front : ∀ u ∈ name.head?, isWhitespace u = false
  /-- It does not end in white space, nor in a dot where it is cut and nothing is put back. -/
  back : ∀ u ∈ (if putBack name extension = [] then kept name extension else name).getLast?,
    isWhitespace u = false ∧ u ≠ 46
  /-- No pair of surrogates is cut in two. -/
  pair : ∀ u ∈ (kept name extension).getLast?, isHighSurrogate u = false
  /-- What is left before the first dot is no device name, even where spaces follow it. -/
  device : toLowerCase (deviceOf (kept name extension)) ∉ reserved
  /-- Nor is it one followed by other white space, where no second dot follows. -/
  whole : (kept name extension ++ putBack name extension).count 46 ≤ 1 →
    toLowerCase (trim ((kept name extension).takeWhile (· != 46))) ∉ reserved

theorem not_reserved_of_dot (h : 46 ∈ s) : toLowerCase (trim s) ∉ reserved := by
  have hmem : ∀ s : DartString, 46 ∈ s → 46 ∈ s.dropWhile isWhitespace := by
    intro s hs
    rw [← takeWhile_append_dropWhile (p := isWhitespace) (l := s), mem_append] at hs
    obtain hs | hs := hs
    · exact absurd (mem_takeWhile_imp hs) (by decide)
    · exact hs
  have htrim : 46 ∈ trim s :=
    mem_reverse.mpr (hmem _ (mem_reverse.mpr (hmem s h)))
  have hlower : 46 ∈ toLowerCase (trim s) := mem_map.mpr ⟨46, htrim, by decide⟩
  intro hreserved
  have hnone : reserved.all (fun name => decide (46 ∉ name)) = true := by decide
  exact of_decide_eq_true (all_eq_true.mp hnone _ hreserved) hlower

theorem trim_eq_self_iff : trim s = s ↔ (∀ u ∈ s.head?, isWhitespace u = false) ∧
      ∀ u ∈ s.getLast?, isWhitespace u = false := by
  constructor
  · intro h
    have hends := (trim_spec s).2
    rwa [h] at hends
  · exact fun h => trim_of_ends h.1 h.2

theorem length_trim_lt (h : trim s ≠ s) : (trim s).length < s.length := by
  have hsub : (trim s).Sublist s :=
    ( rdropWhile_prefix _ _).sublist.trans (dropWhile_sublist _)
  exact lt_of_le_of_ne hsub.length_le fun hlen => h (hsub.eq_of_length hlen)

theorem stripped_of_ends (htrim : trim s = s) (hfront : ∀ u ∈ s.head?, isDotOrSpace u = false)
    (hback : ∀ u ∈ s.getLast?, isDotOrSpace u = false) : stripped s = s := by
  have hdrop : s.dropWhile isDotOrSpace = s := by
    cases s with
    | nil => rfl
    | cons u s =>
      exact dropWhile_cons_of_neg (by rw [hfront u rfl]; exact Bool.false_ne_true)
  rw [stripped, htrim, hdrop, rdropWhile_eq_self_iff]
  intro hne hlast
  rw [hback _ (getLast?_eq_some_getLast hne)] at hlast
  exact Bool.false_ne_true hlast

theorem shortened_of_short {name : DartString} (h : name.length ≤ maxAttachmentFileNameLength)
    (extension : DartString) : shortened name extension = name := if_neg (not_lt.mpr h)

/-- A tidy name that is short enough stays what it is just when nothing is left to trim and it does
not get an underscore. -/
theorem fixed_iff {name : DartString} (h : IsTidy name)
    (hshort : name.length ≤ maxAttachmentFileNameLength) :
    sanitizeAttachmentFileName name = name ↔
      trim name = name ∧ toLowerCase (trim (stemOf name)) ∉ reserved := by
  have hclean : withoutForbidden name = name := withoutForbidden_of_clean h.clean
  have hhead : name.head? ≠ some 46 := fun hdot => absurd (h.front 46 hdot) (by decide)
  have hcleaned : trim name = name → cleaned name = name := by
    intro htrim
    have hstripped := stripped_of_ends htrim h.front h.back
    rw [cleaned_eq, hclean, hstripped, if_neg]
    rintro (hnil | hdot | hdots)
    · exact h.nonempty hnil
    · exact hhead (by rw [hdot]; rfl)
    · exact hhead (by rw [hdots]; rfl)
  constructor
  · intro hfixed
    have htrim : trim name = name := by
      by_contra hne
      have hlt := length_trim_lt hne
      -- what is left is shorter, so no underscore and no cut can make up for it
      have hstripped : (stripped name).length ≤ (trim name).length :=
        (( rdropWhile_prefix _ _).sublist.trans (dropWhile_sublist _)).length_le
      rw [sanitizeAttachmentFileName, cleaned_eq, hclean] at hfixed
      split_ifs at hfixed with hbad
      · have hbin : name = ofString "attachment.bin" := by
          rw [← hfixed]
          decide
        rw [hbin] at hne
        exact hne (by decide)
      · have hmarked : (marked (stripped name)).length ≤ (stripped name).length + 1 := by
          unfold marked
          split_ifs
          · exact le_rfl
          · exact Nat.le_succ _
        rw [shortened_of_short (by omega)] at hfixed
        unfold marked at hfixed
        split_ifs at hfixed with hreserved
        · -- the name begins with the underscore, and so does what is left of it
          obtain ⟨t, ht⟩ : ∃ t, stripped name = 95 :: t := by
            obtain ⟨r, hr⟩ : ∃ r, trim name = 95 :: r := by
              rw [← hfixed, trim]
              exact rdropWhile_cons (by decide) _
            rw [stripped, hr]
            exact rdropWhile_cons (by decide) _
          rw [ht] at hreserved
          exact underscore_not_reserved t hreserved
        · rw [hfixed] at hstripped
          omega
    refine ⟨htrim, fun hreserved => ?_⟩
    rw [sanitizeAttachmentFileName, hcleaned htrim, marked] at hfixed
    obtain ⟨t, ht⟩ : ∃ t, name = 95 :: t := by
      unfold shortened at hfixed
      split_ifs at hfixed with hlong
      · obtain ⟨n, hn⟩ : ∃ n, maxAttachmentFileNameLength -
            (keepExtension (extensionOf name)).length = n + 1 := by
          refine Nat.exists_eq_succ_of_ne_zero ?_
          unfold keepExtension maxAttachmentFileNameLength
          split_ifs
          · omega
          · exact Nat.succ_ne_zero 119
        rw [hn, take_succ_cons] at hfixed
        exact ⟨_, hfixed.symm⟩
      · exact ⟨_, hfixed.symm⟩
    rw [ht] at hreserved
    exact underscore_not_reserved t hreserved
  · rintro ⟨htrim, hreserved⟩
    rw [sanitizeAttachmentFileName, hcleaned htrim, marked, if_neg hreserved,
      shortened_of_short hshort]

theorem takeWhile_putBack (h : b = [] ∨ b.head? = some 46) :
    (a ++ b).takeWhile (· != 46) = a.takeWhile (· != 46) := by
  obtain rfl | h := h
  · rw [append_nil]
  · obtain ⟨b, rfl⟩ := head?_eq_some_iff.mp h
    induction a with
    | nil => exact takeWhile_cons_of_neg (by decide)
    | cons u a ih =>
      rw [cons_append, takeWhile_cons, takeWhile_cons, ih]

theorem stemOf_of_count {name : DartString} (hfront : ∀ u ∈ name.head?, isDotOrSpace u = false) :
    (name.count 46 ≤ 1 → stemOf name = name.takeWhile (· != 46)) ∧
      (1 < name.count 46 → 46 ∈ stemOf name) := by
  have hall : ∀ a : DartString, 46 ∉ a → a.takeWhile (· != 46) = a := fun a ha =>
    takeWhile_eq_self_iff.mpr fun u hu => by
      rw [bne_iff_ne]
      rintro rfl
      exact ha hu
  obtain ⟨hdot, -, hstem⟩ | ⟨a, b, rfl, -, hb, -, hstem⟩ := stem_cases hfront
  · rw [hstem, count_eq_zero.mpr hdot]
    exact ⟨fun _ => (hall name hdot).symm, fun h => absurd h (by decide)⟩
  rw [hstem, count_append, count_cons_self, count_eq_zero.mpr hb,
    takeWhile_putBack (.inr rfl)]
  constructor
  · intro hcount
    exact (hall a (count_eq_zero.mp (by omega))).symm
  · intro hcount
    exact count_pos_iff.mp (by omega)

/-- The parts of a name that is cut. -/
structure Parts (name extension : DartString) : Prop where
  front : ∃ rest, name = kept name extension ++ rest
  kept_ne : kept name extension ≠ []
  short : (kept name extension ++ putBack name extension).length ≤ maxAttachmentFileNameLength
  /-- What is put back begins with its dot, and ends as the name does. -/
  back : putBack name extension = [] ∨ (putBack name extension).head? = some 46 ∧
    (∃ stem, name = stem ++ putBack name extension)

theorem parts_marked {value : DartString} (h : IsTidy value) :
    Parts (marked value) (extensionOf value) := by
  have hlen : (keepExtension (extensionOf value)).length ≤ 20 := by
    unfold keepExtension
    split_ifs with hshort
    · exact hshort
    · exact Nat.zero_le _
  have hne := h.marked.nonempty
  constructor
  · unfold kept
    split_ifs
    · exact ⟨_, (take_append_drop _ _).symm⟩
    · exact ⟨[], (append_nil _).symm⟩
  · unfold kept
    split_ifs with hlong
    · apply length_pos_iff.mp
      rw [length_take]
      unfold maxAttachmentFileNameLength at hlong ⊢
      omega
    · exact hne
  · unfold kept putBack
    split_ifs with hlong
    · rw [length_append, length_take]
      unfold maxAttachmentFileNameLength at hlong ⊢
      omega
    · rw [append_nil]
      exact not_lt.mp hlong
  · unfold putBack keepExtension
    split_ifs
    · obtain ⟨-, hext, -⟩ | ⟨a, b, hvalue, -, -, hext, -⟩ := stem_cases h.front
      · exact .inl hext
      · rw [hext]
        refine .inr ⟨rfl, ?_⟩
        unfold marked
        split_ifs
        · exact ⟨95 :: a, by rw [hvalue]; rfl⟩
        · exact ⟨a, hvalue⟩
    · exact .inl rfl
    · exact .inl rfl

section Result

variable {name extension : DartString} (hparts : Parts name extension)

include hparts

theorem head?_result :
    (kept name extension ++ putBack name extension).head? = name.head? := by
  obtain ⟨rest, hrest⟩ := hparts.front
  obtain ⟨u, t, ht⟩ := exists_cons_of_ne_nil hparts.kept_ne
  conv_rhs => rw [hrest]
  rw [ht]
  rfl

theorem getLast?_result :
    (kept name extension ++ putBack name extension).getLast? =
      (if putBack name extension = [] then kept name extension else name).getLast? := by
  split_ifs with hback
  · rw [hback, append_nil]
  · obtain hnil | ⟨-, stem, hstem⟩ := hparts.back
    · exact absurd hnil hback
    · rw [getLast?_append_of_ne_nil _ hback]
      conv_rhs => rw [hstem]
      rw [getLast?_append_of_ne_nil _ hback]

theorem mem_result (hu : u ∈ kept name extension ++ putBack name extension) : u ∈ name := by
  obtain ⟨rest, hrest⟩ := hparts.front
  obtain hu | hu := mem_append.mp hu
  · rw [hrest]
    exact mem_append_left _ hu
  · obtain hnil | ⟨-, stem, hstem⟩ := hparts.back
    · rw [hnil] at hu
      exact absurd hu not_mem_nil
    · rw [hstem]
      exact mem_append_right _ hu

theorem wellFormed_result (htidy : IsTidy name) :
    WellFormed (kept name extension ++ putBack name extension) ↔
      ∀ u ∈ (kept name extension).getLast?, isHighSurrogate u = false := by
  obtain ⟨rest, hrest⟩ := hparts.front
  have hwf := htidy.wellFormed
  rw [hrest] at hwf
  rw [← hwf.cut_iff]
  obtain hnil | ⟨hdot, stem, hstem⟩ := hparts.back
  · rw [hnil, append_nil]
  obtain ⟨b, hb⟩ := head?_eq_some_iff.mp hdot
  have hback := htidy.wellFormed
  rw [hb] at hstem ⊢
  rw [hstem] at hback
  constructor
  · exact fun h => (h.cut_front (by decide)).1
  · exact fun h => h.append (hback.cut_front (by decide)).2

end Result

/-- **When the result is safe**: of every name that is well formed, exactly when the cut keeps the
cleaned and marked name safe. -/
theorem safe_iff {input : DartString} (h : WellFormed input) :
    IsSafe (sanitizeAttachmentFileName input) ↔
      StaysSafe (marked (cleaned input)) (extensionOf (cleaned input)) := by
  have hcleaned := tidy_cleaned h
  have htidy := hcleaned.marked
  have hparts := parts_marked hcleaned
  have hwellFormed := wellFormed_result hparts htidy
  have hhead := head?_result hparts
  have hlast := getLast?_result hparts
  have htake : (kept (marked (cleaned input)) (extensionOf (cleaned input)) ++
      putBack (marked (cleaned input)) (extensionOf (cleaned input))).takeWhile (· != 46) =
      (kept (marked (cleaned input)) (extensionOf (cleaned input))).takeWhile (· != 46) :=
    takeWhile_putBack (hparts.back.imp_right And.left)
  have hclean := fun u hu => htidy.clean u (mem_result hparts hu)
  have hfront : ∀ u ∈ (kept (marked (cleaned input)) (extensionOf (cleaned input)) ++
      putBack (marked (cleaned input)) (extensionOf (cleaned input))).head?,
      isDotOrSpace u = false := by
    rw [hhead]
    exact htidy.front
  have hshort := hparts.short
  have hne : kept (marked (cleaned input)) (extensionOf (cleaned input)) ++
      putBack (marked (cleaned input)) (extensionOf (cleaned input)) ≠ [] :=
    append_ne_nil_of_left_ne_nil hparts.kept_ne _
  rw [sanitizeAttachmentFileName, shortened_eq]
  constructor
  · intro hsafe
    obtain ⟨htrim, hreserved⟩ :=
      (fixed_iff ⟨hne, hsafe.wellFormed, hclean, hfront, hsafe.back⟩ hshort).mp hsafe.fixed
    obtain ⟨hspaceFront, hspaceBack⟩ := trim_eq_self_iff.mp htrim
    rw [hhead] at hspaceFront
    refine ⟨hspaceFront, fun u hu => ?_, hwellFormed.mp hsafe.wellFormed, ?_, fun hcount => ?_⟩
    · rw [← hlast] at hu
      refine ⟨hspaceBack u hu, ?_⟩
      rintro rfl
      exact absurd (hsafe.back 46 hu) (by decide)
    · have := hsafe.device
      rwa [deviceOf, htake] at this
    · rwa [(stemOf_of_count hfront).1 hcount, htake] at hreserved
  · intro hstays
    have hback : ∀ u ∈ (kept (marked (cleaned input)) (extensionOf (cleaned input)) ++
        putBack (marked (cleaned input)) (extensionOf (cleaned input))).getLast?,
        isWhitespace u = false ∧ u ≠ 46 := by
      rw [hlast]
      exact hstays.back
    have hends : ∀ u ∈ (kept (marked (cleaned input)) (extensionOf (cleaned input)) ++
        putBack (marked (cleaned input)) (extensionOf (cleaned input))).getLast?,
        isDotOrSpace u = false := by
      intro u hu
      obtain ⟨hspace, hdot⟩ := hback u hu
      by_contra hnot
      obtain rfl | rfl := isDotOrSpace_eq (Bool.not_eq_false _ ▸ hnot)
      · exact hdot rfl
      · exact absurd hspace (by decide)
    have hwf := hwellFormed.mpr hstays.pair
    refine ⟨hne, hshort, hwf, hclean, hfront, hends, ?_, ?_⟩
    · rw [deviceOf, htake]
      exact hstays.device
    refine (fixed_iff ⟨hne, hwf, hclean, hfront, hends⟩ hshort).mpr ⟨?_, ?_⟩
    · refine trim_eq_self_iff.mpr ⟨?_, fun u hu => (hback u hu).1⟩
      rw [hhead]
      exact hstays.front
    obtain hone | hmore := Nat.lt_or_ge 1 (count 46
      (kept (marked (cleaned input)) (extensionOf (cleaned input)) ++
        putBack (marked (cleaned input)) (extensionOf (cleaned input))))
    · exact not_reserved_of_dot ((stemOf_of_count hfront).2 hone)
    · rw [(stemOf_of_count hfront).1 hmore, htake]
      exact hstays.whole hmore

theorem safe_of_ordinary : IsSafe (sanitizeAttachmentFileName (ofString "Aux1.txt")) := by
  refine (safe_iff (by decide)).mpr
    ⟨fun u hu => ?_, fun u hu => ?_, fun u hu => ?_, ?_, fun _ => ?_⟩
  · rw [← some.inj hu]
    decide
  · rw [← some.inj hu]
    decide
  · rw [← some.inj hu]
    decide
  · decide
  · decide

theorem not_safe_behind_dots :
    ¬ IsSafe (sanitizeAttachmentFileName (ofString "con.a.b")) ∧
      ¬ IsSafe (sanitizeAttachmentFileName
        (List.replicate 119 97 ++ 46 :: List.replicate 21 98)) := by
  constructor
  · intro h
    exact h.device (by decide)
  · intro h
    have hlast : (sanitizeAttachmentFileName
        (replicate 119 97 ++ 46 :: replicate 21 98)).getLast? = some 46 := by
      decide +kernel
    exact absurd (h.back 46 hlast) (by decide)

end Attachment
end Conest
