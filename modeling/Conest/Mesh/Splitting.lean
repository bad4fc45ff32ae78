import Conest.Lib.Text
import Conest.Lib.Surrogates

/-!
# Messages in parts

`bitchatSplitUtf8` cuts a text into parts that fit a packet, behind a space where one is near. The
cut counts bytes of UTF-8 along the characters (`runes`), the rest is what lies behind so many code
units. A cut between two runes is a cut of the text (`runes_flatten`), and so is one behind a space,
which is half of no pair (`runes_append`). So the parts hold the characters of the text, one after
the other, but for white space (`text_split`).
-/

namespace Conest
namespace Mesh

open Lib DartString
open List hiding utf8Encode

/-! ### What the code does -/

variable {a b s : DartString}

/-- `String.runes`, each as `String.fromCharCode` writes it. -/
def runes : DartString → List DartString
  | [] => []
  | [u] => [[u]]
  | u :: v :: rest =>
    if isHighSurrogate u && isLowSurrogate v then [u, v] :: runes rest
    else [u] :: runes (v :: rest)

/-- The characters that fit behind `bytes` bytes. -/
def takeFitting (maxBytes : ℕ) : ℕ → List DartString → DartString
  | _, [] => []
  | bytes, char :: chars =>
    let size := (utf8Encode char).length
    if maxBytes < bytes + size then [] else char ++ takeFitting maxBytes (bytes + size) chars

def bitchatCutUtf8 (text : DartString) (maxBytes : ℕ) : DartString :=
  if (utf8Encode text).length ≤ maxBytes then text else takeFitting maxBytes 0 (runes text)

/-- `String.lastIndexOf` of a space, `-1` if there is none. -/
def lastSpace (s : DartString) : ℤ := s.length - 1 - s.reverse.idxOf 0x20

/-- The next part, not trimmed yet. -/
def nextPart (rest : DartString) (maxBytes : ℕ) : DartString :=
  let part := bitchatCutUtf8 rest maxBytes
  if part.length < rest.length ∧ ((part.length / 2 : ℕ) : ℤ) < lastSpace part then
    part.take (lastSpace part + 1).toNat
  else part

/-- The loop of `bitchatSplitUtf8`. A round that takes nothing is followed by the same, so a loop
that takes more rounds than there are code units never ends. -/
def splitFrom (maxBytes : ℕ) : ℕ → DartString → Option (List DartString)
  | _, [] => some []
  | 0, _ :: _ => none
  | fuel + 1, u :: s =>
    let part := nextPart (u :: s) maxBytes
    (splitFrom maxBytes fuel (((u :: s).drop part.length).dropWhile isWhitespace)).map
      (trim part :: ·)

/-- `none` if it does not end. -/
def bitchatSplitUtf8 (text : DartString) (maxBytes : ℕ) : Option (List DartString) :=
  (splitFrom maxBytes (trim text).length (trim text)).map (·.filter (!·.isEmpty))

/-! ### Runes -/

/-- No pair lies across the place between two texts. -/
def Apart (a b : DartString) : Prop :=
  ∀ u ∈ a.getLast?, ∀ v ∈ b.head?, (isHighSurrogate u && isLowSurrogate v) = false

section Pairs

variable {u v : Fin 65536}

theorem runes_of_pair (h : (isHighSurrogate u && isLowSurrogate v) = true) (rest : DartString) :
    runes (u :: v :: rest) = [u, v] :: runes rest := by
  rw [runes, if_pos h]

theorem runes_of_no_pair (h : ¬ (isHighSurrogate u && isLowSurrogate v) = true)
    (rest : DartString) : runes (u :: v :: rest) = [u] :: runes (v :: rest) := by
  rw [runes, if_neg h]

end Pairs

theorem runes_append (h : Apart a b) : runes (a ++ b) = runes a ++ runes b := by
  induction a using runes.induct with
  | case1 => rfl
  | case2 u =>
    cases b with
    | nil => rfl
    | cons v b =>
      have hpair := h u rfl v rfl
      exact runes_of_no_pair (by rw [hpair]; exact Bool.false_ne_true) b
  | case3 u v rest hpair ih =>
    have hrest : Apart rest b := by
      intro w hw x hx
      cases rest with
      | nil => simp at hw
      | cons y rest => exact h w (by rwa [getLast?_cons_cons, getLast?_cons_cons]) x hx
    show runes (u :: v :: (rest ++ b)) = _
    rw [runes_of_pair hpair, runes_of_pair hpair, ih hrest]
    rfl
  | case4 u v rest hpair ih =>
    have hrest : Apart (v :: rest) b := fun w hw x hx => h w (by rwa [getLast?_cons_cons]) x hx
    show runes (u :: v :: (rest ++ b)) = _
    rw [runes_of_no_pair hpair, runes_of_no_pair hpair]
    exact congrArg _ (ih hrest)

theorem flatten_runes (s : DartString) : (runes s).flatten = s := by
  induction s using runes.induct with
  | case1 => rfl
  | case2 u => rfl
  | case3 u v rest hpair ih => rw [runes_of_pair hpair, flatten_cons, ih]; rfl
  | case4 u v rest hpair ih => rw [runes_of_no_pair hpair, flatten_cons, ih]; rfl

theorem scalars_runes (s : DartString) : scalars s = (runes s).flatMap scalars := by
  induction s using runes.induct with
  | case1 => rfl
  | case2 u => rfl
  | case3 u v rest hpair ih =>
    rw [runes_of_pair hpair, scalars, if_pos hpair, flatMap_cons, ← ih, scalars, if_pos hpair]
    rfl
  | case4 u v rest hpair ih =>
    rw [runes_of_no_pair hpair, scalars, if_neg hpair, flatMap_cons, ← ih]
    rfl

theorem utf8Encode_runes (s : DartString) : utf8Encode s = (runes s).flatMap utf8Encode := by
  unfold utf8Encode
  rw [scalars_runes, flatMap_assoc]

theorem runes_flatten {front back : List DartString} (h : runes s = front ++ back) : s =
    front.flatten ++ back.flatten ∧ runes front.flatten = front ∧ runes back.flatten = back := by
  have hs : s = front.flatten ++ back.flatten := by rw [← flatten_runes s, h, flatten_append]
  refine ⟨hs, ?_⟩
  induction s using runes.induct generalizing front with
  | case1 =>
    obtain ⟨rfl, rfl⟩ := append_eq_nil_iff.mp h.symm
    exact ⟨rfl, rfl⟩
  | case2 u =>
    cases front with
    | nil =>
      obtain rfl : [[u]] = back := h
      exact ⟨rfl, rfl⟩
    | cons c front =>
      obtain ⟨rfl, hrest⟩ := cons.inj (h : [u] :: [] = c :: (front ++ back))
      obtain ⟨rfl, rfl⟩ := append_eq_nil_iff.mp hrest.symm
      exact ⟨rfl, rfl⟩
  | case3 u v rest hpair ih =>
    cases front with
    | nil =>
      obtain rfl : runes (u :: v :: rest) = back := h
      exact ⟨rfl, by rw [flatten_runes]⟩
    | cons c front =>
    rw [runes_of_pair hpair, cons_append] at h
    obtain ⟨rfl, hrest⟩ := cons.inj h
    obtain ⟨hfront, hback⟩ := ih hrest (by simpa using hs)
    refine ⟨?_, hback⟩
    show runes (u :: v :: front.flatten) = _
    rw [runes_of_pair hpair, hfront]
  | case4 u v rest hpair ih =>
    cases front with
    | nil =>
      obtain rfl : runes (u :: v :: rest) = back := h
      exact ⟨rfl, by rw [flatten_runes]⟩
    | cons c front =>
    rw [runes_of_no_pair hpair, cons_append] at h
    obtain ⟨rfl, hrest⟩ := cons.inj h
    have htail : v :: rest = front.flatten ++ back.flatten := by simpa using hs
    obtain ⟨hfront, hback⟩ := ih hrest htail
    refine ⟨?_, hback⟩
    -- what follows `u` begins with `v`, if with anything
    have hapart : Apart [u] front.flatten := by
      intro w hw x hx
      obtain rfl : u = w := Option.some.inj hw
      obtain ⟨tail, hfront⟩ := head?_eq_some_iff.mp hx
      rw [hfront, cons_append] at htail
      rw [← (cons.inj htail).1]
      exact Bool.not_eq_true _ ▸ hpair
    show runes ([u] ++ front.flatten) = _
    rw [runes_append hapart, hfront]
    rfl

/-! ### White space -/

theorem isSurrogate_of_whitespace {u : Fin 65536} (h : isWhitespace u = true) :
    isSurrogate u = false := by
  simp [isWhitespace, isSurrogate, isHighSurrogate, isLowSurrogate] at h ⊢
  omega

/-- The runes of a text but for white space. -/
def shown (s : DartString) : List DartString := (runes s).filter fun rune => !rune.all isWhitespace

theorem shown_append (h : Apart a b) : shown (a ++ b) = shown a ++ shown b := by
  rw [shown, runes_append h, filter_append]
  rfl

theorem apart_of_last (h : ∀ u ∈ a.getLast?, isWhitespace u = true) (b : DartString) :
    Apart a b := by
  intro u hu v _
  have hnot := isSurrogate_of_whitespace (h u hu)
  rw [isSurrogate, Bool.or_eq_false_iff] at hnot
  rw [hnot.1, Bool.false_and]

theorem apart_of_head (a : DartString) (h : ∀ v ∈ b.head?, isWhitespace v = true) : Apart a b := by
  intro u _ v hv
  have hnot := isSurrogate_of_whitespace (h v hv)
  rw [isSurrogate, Bool.or_eq_false_iff] at hnot
  rw [hnot.2, Bool.and_false]

theorem shown_of_whitespace (h : ∀ u ∈ s, isWhitespace u = true) : shown s = [] := by
  apply filter_eq_nil_iff.mpr
  intro rune hrune hshown
  have hall : rune.all isWhitespace = true := by
    rw [all_eq_true]
    intro u hu
    apply h
    rw [← flatten_runes s]
    exact mem_flatten.mpr ⟨rune, hrune, hu⟩
  rw [hall] at hshown
  exact absurd hshown (by decide)

theorem around {front back : DartString} (hfront : ∀ u ∈ front, isWhitespace u = true)
    (hback : ∀ u ∈ back, isWhitespace u = true) :
    runes (front ++ (s ++ back)) = runes front ++ (runes s ++ runes back) := by
  have hf : Apart front (s ++ back) :=
    apart_of_last (fun u hu => hfront u (mem_of_getLast? hu)) _
  have hb : Apart s back := apart_of_head _ fun v hv => hback v (mem_of_mem_head? hv)
  rw [runes_append hf, runes_append hb]

theorem shown_trim (s : DartString) : shown (trim s) = shown s := by
  obtain ⟨⟨front, back, hs, hfront, hback⟩, -⟩ := trim_spec s
  have hnofront := shown_of_whitespace hfront
  have hnoback := shown_of_whitespace hback
  unfold shown at hnofront hnoback ⊢
  nth_rewrite 2 [hs]
  rw [around hfront hback, filter_append, filter_append, hnofront, hnoback,
    nil_append, append_nil]

theorem shown_dropWhile (s : DartString) : shown (s.dropWhile isWhitespace) = shown s := by
  have hfront : ∀ u ∈ s.takeWhile isWhitespace, isWhitespace u = true :=
    fun u => mem_takeWhile_imp
  have happart := apart_of_last (fun u hu => hfront u (mem_of_getLast? hu))
    (s.dropWhile isWhitespace)
  nth_rewrite 2 [← takeWhile_append_dropWhile (l := s)]
  rw [shown_append happart, shown_of_whitespace hfront, nil_append]

theorem filter_eq_flatten_shown (s : DartString) :
    s.filter (!isWhitespace ·) = (shown s).flatten := by
  have hunit : ∀ u, [u].filter (!isWhitespace ·) =
      ([[u]].filter fun rune => !rune.all isWhitespace).flatten := by
    intro u
    cases hu : isWhitespace u <;> simp [hu]
  unfold shown
  induction s using runes.induct with
  | case1 => rfl
  | case2 u => exact hunit u
  | case3 u v rest hpair ih =>
    have hhigh : isWhitespace u = false := by
      by_contra hspace
      have hnot := isSurrogate_of_whitespace (Bool.not_eq_false _ ▸ hspace)
      rw [isSurrogate, (Bool.and_eq_true_iff.mp hpair).1, Bool.true_or] at hnot
      exact absurd hnot (by decide)
    have hlow : isWhitespace v = false := by
      by_contra hspace
      have hnot := isSurrogate_of_whitespace (Bool.not_eq_false _ ▸ hspace)
      rw [isSurrogate, (Bool.and_eq_true_iff.mp hpair).2, Bool.or_true] at hnot
      exact absurd hnot (by decide)
    rw [runes_of_pair hpair, filter_cons_of_pos (by rw [hhigh]; rfl),
      filter_cons_of_pos (by rw [hlow]; rfl), ih,
      filter_cons_of_pos (by rw [all_cons, hhigh]; rfl)]
    rfl
  | case4 u v rest hpair ih =>
    rw [runes_of_no_pair hpair, ← singleton_append, filter_append, hunit, ih,
      ← flatten_append, ← filter_append]
    rfl

/-! ### One part -/

/-- What a part is of the text that it begins. -/
structure Begins (maxBytes : ℕ) (s part : DartString) : Prop where
  split : ∃ rest, s = part ++ rest ∧ shown s = shown part ++ shown rest
  fits : (utf8Encode part).length ≤ maxBytes
  takes : s ≠ [] → part ≠ []

theorem length_utf8EncodeChar_le (c : Char) : (String.utf8EncodeChar c).length ≤ 4 := by
  rw [String.length_utf8EncodeChar]
  exact c.utf8Size_le_four

theorem runes_cons (u : Fin 65536) (s : DartString) :
    ∃ rune rest, runes (u :: s) = rune :: rest ∧ rune ≠ [] ∧ (utf8Encode rune).length ≤ 4 := by
  have hunit : (utf8Encode [u]).length ≤ 4 := by simpa using length_utf8Encode_le [u]
  cases s with
  | nil => exact ⟨[u], [], rfl, by simp, hunit⟩
  | cons v s =>
  by_cases hpair : (isHighSurrogate u && isLowSurrogate v) = true
  · refine ⟨[u, v], _, runes_of_pair hpair s, by simp, ?_⟩
    rw [utf8Encode, scalars, if_pos hpair, scalars, flatMap_singleton]
    exact length_utf8EncodeChar_le _
  · exact ⟨[u], _, runes_of_no_pair hpair s, by simp, hunit⟩

theorem takeFitting_spec {maxBytes bytes : ℕ} (h : bytes ≤ maxBytes) (chars : List DartString) :
    ∃ front back, chars = front ++ back ∧ takeFitting maxBytes bytes chars = front.flatten ∧
      bytes + (front.flatMap utf8Encode).length ≤ maxBytes := by
  induction chars generalizing bytes with
  | nil => exact ⟨[], [], rfl, rfl, h⟩
  | cons char chars ih =>
  unfold takeFitting
  dsimp only
  split
  · exact ⟨[], char :: chars, rfl, rfl, h⟩
  next hfits =>
  obtain ⟨front, back, hchars, htake, hbytes⟩ := ih (not_lt.mp hfits)
  refine ⟨char :: front, back, by rw [hchars]; rfl, by rw [htake]; rfl, ?_⟩
  rw [flatMap_cons, length_append, ← Nat.add_assoc]
  exact hbytes

theorem cut_begins {maxBytes : ℕ} (h : 4 ≤ maxBytes) (s : DartString) :
    Begins maxBytes s (bitchatCutUtf8 s maxBytes) := by
  unfold bitchatCutUtf8
  split
  next hfits => exact ⟨⟨[], by simp, by simp [shown, runes]⟩, hfits, id⟩
  obtain ⟨front, back, hchars, htake, hbytes⟩ := takeFitting_spec (Nat.zero_le maxBytes) (runes s)
  obtain ⟨hs, hfront, hback⟩ := runes_flatten hchars
  refine ⟨⟨back.flatten, by rw [htake]; exact hs, ?_⟩, ?_, ?_⟩
  · rw [htake, shown, shown, shown, hfront, hback, hchars, filter_append]
  · rw [htake, utf8Encode_runes, hfront]
    simpa using hbytes
  intro hne
  cases s with
  | nil => exact absurd rfl hne
  | cons u s =>
    obtain ⟨rune, rest, hrunes, hsome, hsize⟩ := runes_cons u s
    rw [hrunes, takeFitting, if_neg (by omega)]
    exact fun hnil => hsome (append_eq_nil_iff.mp hnil).1

theorem utf8Encode_append (h : Apart a b) : utf8Encode (a ++ b) = utf8Encode a ++ utf8Encode b := by
  rw [utf8Encode_runes, runes_append h, flatMap_append, ← utf8Encode_runes,
    ← utf8Encode_runes]

theorem getLast?_take_lastSpace (h : 0 ≤ lastSpace s) :
    (s.take (lastSpace s + 1).toNat).getLast? = some 0x20 := by
  unfold lastSpace at h ⊢
  have hlt : s.reverse.idxOf 0x20 < s.reverse.length := by
    rw [length_reverse]
    omega
  have hcount : ((s.length : ℤ) - 1 - s.reverse.idxOf 0x20 + 1).toNat =
      s.length - s.reverse.idxOf 0x20 := by omega
  have hget := getElem_idxOf hlt
  rw [hcount, ← reverse_reverse (s.take _), ← drop_reverse, getLast?_reverse,
    head?_drop, getElem?_eq_getElem hlt, hget]

theorem nextPart_begins {maxBytes : ℕ} (h : 4 ≤ maxBytes) (s : DartString) :
    Begins maxBytes s (nextPart s maxBytes) := by
  have hcut := cut_begins h s
  unfold nextPart
  dsimp only
  split
  swap
  · exact hcut
  next hspace =>
  generalize bitchatCutUtf8 s maxBytes = part at hcut hspace
  obtain ⟨⟨rest, hs, -⟩, hfits, -⟩ := hcut
  have hlast := getLast?_take_lastSpace (s := part) (by omega)
  generalize (lastSpace part + 1).toNat = count at hlast
  -- a cut behind a space cuts no pair
  have hspaces : ∀ u ∈ (part.take count).getLast?, isWhitespace u = true := by
    intro u hu
    rw [hlast] at hu
    rw [← Option.some.inj hu]
    decide
  have hsplit : s = part.take count ++ (part.drop count ++ rest) := by
    rw [← append_assoc, take_append_drop, hs]
  refine ⟨⟨_, hsplit, ?_⟩, ?_, ?_⟩
  · nth_rewrite 1 [hsplit]
    exact shown_append (apart_of_last hspaces _)
  · have hbytes := congrArg length (utf8Encode_append (apart_of_last hspaces (part.drop count)))
    rw [take_append_drop, length_append] at hbytes
    omega
  · intro _ hnil
    rw [hnil] at hlast
    simp at hlast

theorem length_utf8Encode_trim (s : DartString) :
    (utf8Encode (trim s)).length ≤ (utf8Encode s).length := by
  obtain ⟨⟨front, back, hs, hfront, hback⟩, -⟩ := trim_spec s
  nth_rewrite 2 [hs]
  rw [utf8Encode_runes (front ++ _), around hfront hback, flatMap_append,
    flatMap_append, ← utf8Encode_runes (trim s), length_append, length_append]
  omega

theorem trim_trim (s : DartString) : trim (trim s) = trim s :=
  trim_of_ends (trim_spec s).2.1 (trim_spec s).2.2

/-! ### All parts -/

theorem splitFrom_spec {maxBytes : ℕ} (h : 4 ≤ maxBytes) {fuel : ℕ} (hfuel : s.length ≤ fuel) :
    ∃ parts, splitFrom maxBytes fuel s = some parts ∧
      (∀ part ∈ parts, trim part = part ∧ (utf8Encode part).length ≤ maxBytes) ∧
      parts.flatMap shown = shown s := by
  induction fuel generalizing s with
  | zero =>
    obtain rfl := length_eq_zero_iff.mp (Nat.le_zero.mp hfuel)
    exact ⟨[], rfl, by simp, rfl⟩
  | succ fuel ih =>
  cases s with
  | nil => exact ⟨[], rfl, by simp, rfl⟩
  | cons u s =>
  obtain ⟨⟨rest, hs, hshown⟩, hfits, htakes⟩ := nextPart_begins h (u :: s)
  have hdrop : (u :: s).drop (nextPart (u :: s) maxBytes).length = rest :=
    (congrArg (drop _) hs).trans drop_left
  have hpos := length_pos_iff.mpr (htakes (cons_ne_nil u s))
  have hlength : (rest.dropWhile isWhitespace).length ≤ fuel := by
    have hle := (dropWhile_sublist (p := isWhitespace) (l := rest)).length_le
    have htotal := congrArg length hs
    rw [length_append] at htotal
    omega
  obtain ⟨parts, hparts, hall, hshow⟩ := ih hlength
  refine ⟨trim (nextPart (u :: s) maxBytes) :: parts, ?_, ?_, ?_⟩
  · rw [splitFrom, hdrop, hparts]
    rfl
  · rintro part (_ | hpart)
    · exact ⟨trim_trim _, (length_utf8Encode_trim _).trans hfits⟩
    · exact hall part ‹_›
  · rw [flatMap_cons, shown_trim, hshow, shown_dropWhile, hshown]

/-- **A text in parts.** The split ends, and each part is some trimmed text of at most `maxBytes`
bytes. The characters of the parts are those of the text, none of them cut, but for white space. -/
theorem text_split (text : DartString) (maxBytes : ℕ) (h : 4 ≤ maxBytes) :
    ∃ parts, bitchatSplitUtf8 text maxBytes = some parts ∧
      (∀ part ∈ parts, part ≠ [] ∧ trim part = part ∧ (utf8Encode part).length ≤ maxBytes) ∧
      parts.flatMap shown = shown text ∧
      parts.flatten.filter (!isWhitespace ·) = text.filter (!isWhitespace ·) := by
  obtain ⟨parts, hparts, hall, hshown⟩ := splitFrom_spec h (le_refl (trim text).length)
  have hkept : (parts.filter (!·.isEmpty)).flatMap shown = shown text := by
    rw [← shown_trim text, ← hshown]
    clear hparts hall hshown
    induction parts with
    | nil => rfl
    | cons part parts ih =>
      cases part with
      | nil => exact ih
      | cons u part => rw [filter_cons_of_pos rfl, flatMap_cons, flatMap_cons, ih]
  refine ⟨parts.filter (!·.isEmpty), by rw [bitchatSplitUtf8, hparts]; rfl, ?_, hkept, ?_⟩
  · intro part hpart
    obtain ⟨hmem, hsome⟩ := mem_filter.mp hpart
    exact ⟨by simpa using hsome, hall part hmem⟩
  · rw [filter_flatten, filter_eq_flatten_shown text, ← hkept, flatMap_def,
      flatten_flatten, map_map]
    exact congrArg _ (map_congr_left fun part _ => filter_eq_flatten_shown part)

theorem text_split_greeting :
    ∃ parts, bitchatSplitUtf8 (ofString "hello world") 8 = some parts ∧
      (∀ part ∈ parts, part ≠ [] ∧ trim part = part ∧ (utf8Encode part).length ≤ 8) ∧
      parts.flatMap shown = shown (ofString "hello world") ∧
      parts.flatten.filter (!isWhitespace ·) =
        (ofString "hello world").filter (!isWhitespace ·) :=
  text_split _ 8 (by decide)

example : bitchatSplitUtf8 (ofString "hello world") 8 =
    some [ofString "hello", ofString "world"] := by decide

end Mesh
end Conest
