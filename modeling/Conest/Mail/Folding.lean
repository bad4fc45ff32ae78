import Conest.Mail.MimeWords

/-!
# Folded headers

`foldedHeader` turns control characters into spaces and folds a value at spaces, and what it writes
is one field of its name again, whatever the value (`parse_foldedHeader`): every line but the first
begins with a space, so none of them starts a field, and there are too few of them for the parser to
give up (`Folder.Counted`). Of an ASCII value the words are kept (`words`); the spaces between them
need not be.

`MimeHeaders.parse` reads text that was decoded from bytes. A unit that no byte gives makes it
throw.
-/

open Lib DartString List Option

namespace Conest
namespace Mail

/-! ### Writing a header -/

variable {a s line : DartString} {u : Fin 65536}

/-- `[\\x00-\\x1f\\x7f]`. -/
def isControl (u : Fin 65536) : Bool := decide (u.val ≤ 0x1f) || u == 0x7f

/-- The value without control characters. -/
def withoutControls (value : DartString) : DartString :=
  value.map fun u => if isControl u then 32 else u

/-- What the loop of `foldedHeader` keeps: the lines before, and the one it writes. -/
structure Folder where
  lines : List DartString
  line : DartString

/-- One word. -/
def Folder.write (name : DartString) (f : Folder) (word : DartString) : Folder :=
  if 78 < f.line.length + 1 + word.length ∧ name.length + 1 < f.line.length then
    ⟨f.lines ++ [f.line], 32 :: word⟩
  else ⟨f.lines, f.line ++ 32 :: word⟩

/-- The lines of a folded header. -/
def foldedLines (name value : DartString) : List DartString :=
  let f := (splitAt 32 (withoutControls value)).foldl (Folder.write name) ⟨[], name ++ [58]⟩
  f.lines ++ [f.line]

def foldedHeader (name value : DartString) : DartString :=
  List.intercalate crlf (foldedLines name value)

/-- A name of a field: printable characters without a colon or a space. -/
def IsFieldName (name : DartString) : Prop :=
  name ≠ [] ∧ ∀ u ∈ name, 0x20 < u.val ∧ u.val < 0x7f ∧ u ≠ 58

instance (name : DartString) : Decidable (IsFieldName name) := inferInstanceAs (Decidable (_ ∧ _))

/-- What counts of a value: its words, between spaces and control characters. -/
def words (value : DartString) : List DartString :=
  (splitAt 32 (withoutControls value)).filter (· ≠ [])

/-! ### Words -/

theorem splitAt_ne_nil (separator : Fin 65536) (a : DartString) : splitAt separator a ≠ [] := by
  cases a with
  | nil => exact cons_ne_nil _ _
  | cons u a =>
    rw [splitAt]
    split_ifs
    · exact cons_ne_nil _ _
    · cases splitAt separator a <;> exact cons_ne_nil _ _

theorem consHead_append {lines : List DartString} (h : lines ≠ []) (more : List DartString) :
    consHead u (lines ++ more) = consHead u lines ++ more := by
  cases lines with
  | nil => exact absurd rfl h
  | cons line lines => rfl

theorem splitAt_append (separator : Fin 65536) (a b : DartString) :
    splitAt separator (a ++ separator :: b) = splitAt separator a ++ splitAt separator b := by
  induction a with
  | nil => simp [splitAt]
  | cons u a ih =>
    rw [cons_append, splitAt, splitAt, ih, consHead_append (splitAt_ne_nil _ _)]
    split_ifs <;> rfl

theorem of_mem_splitAt {separator : Fin 65536} {piece : DartString}
    (h : piece ∈ splitAt separator a) (hu : u ∈ piece) : u ∈ a ∧ u ≠ separator := by
  induction a generalizing piece with
  | nil =>
    rw [mem_singleton.mp h] at hu
    exact absurd hu not_mem_nil
  | cons v a ih =>
  rw [splitAt] at h
  split_ifs at h with hv
  · obtain rfl | h := mem_cons.mp h
    · exact absurd hu not_mem_nil
    · exact (ih h hu).imp_left (mem_cons_of_mem _)
  · cases hpieces : splitAt separator a with
    | nil => exact absurd hpieces (splitAt_ne_nil _ _)
    | cons first pieces =>
      rw [hpieces] at h ih
      obtain rfl | h := mem_cons.mp h
      · obtain rfl | hu := mem_cons.mp hu
        · exact ⟨mem_cons_self, hv⟩
        · exact (ih mem_cons_self hu).imp_left (mem_cons_of_mem _)
      · exact (ih (mem_cons_of_mem _ h) hu).imp_left (mem_cons_of_mem _)

theorem splitAt_of_not_mem {separator : Fin 65536} (h : separator ∉ a) :
    splitAt separator a = [a] := by
  induction a with
  | nil => rfl
  | cons u a ih =>
    rw [mem_cons, not_or] at h
    rw [splitAt, if_neg (Ne.symm h.1), ih h.2]
    rfl

theorem withoutControls_append (a b : DartString) :
    withoutControls (a ++ b) = withoutControls a ++ withoutControls b := map_append

theorem words_append (a b : DartString) : words (a ++ 32 :: b) = words a ++ words b := by
  have hspace : withoutControls (32 :: b) = 32 :: withoutControls b := rfl
  rw [words, withoutControls_append, hspace, splitAt_append, filter_append]
  rfl

theorem words_cons (b : DartString) : words (32 :: b) = words b := words_append [] b

theorem words_congr {b : DartString} (h : withoutControls a = withoutControls b) :
    words a = words b := by
  rw [words, words, h]

theorem isControl_or_eq (hspace : isWhitespace u = true) (hu : u.val < 0x80) :
    (if isControl u then 32 else u) = 32 := by
  have hcases : u.val ≤ 0x1f ∨ u = 32 := by
    simp only [isWhitespace, Bool.or_eq_true, decide_eq_true_eq, contains_eq_mem,
      mem_cons, not_mem_nil, or_false] at hspace
    obtain h | h : u.val ≤ 0x1f ∨ u.val = 32 := by omega
    · exact .inl h
    · exact .inr (Fin.ext h)
  obtain h | rfl := hcases
  · rw [if_pos (by simp [isControl, h])]
  · rfl

theorem words_trim (h : ∀ u ∈ s, u.val < 0x80) : words (trim s) = words s := by
  have hfront : ∀ s : DartString, (∀ u ∈ s, u.val < 0x80) →
      words (s.dropWhile isWhitespace) = words s := by
    intro s hs
    induction s with
    | nil => rfl
    | cons u s ih =>
    by_cases hu : isWhitespace u = true
    · rw [dropWhile_cons_of_pos hu, ih fun v hv => hs v (mem_cons_of_mem _ hv),
        ← words_cons]
      apply words_congr
      show 32 :: _ = (if isControl u then 32 else u) :: _
      rw [isControl_or_eq hu (hs u mem_cons_self)]
    · rw [dropWhile_cons_of_neg hu]
  -- The other end, on the text from behind.
  have hback : ∀ r : DartString, (∀ u ∈ r, u.val < 0x80) →
      words (r.dropWhile isWhitespace).reverse = words r.reverse := by
    intro r hr
    induction r with
    | nil => rfl
    | cons u r ih =>
    by_cases hu : isWhitespace u = true
    · have hspace : words (r.reverse ++ [32]) = words r.reverse := by
        rw [words_append]
        exact append_nil _
      rw [dropWhile_cons_of_pos hu, ih fun v hv => hr v (mem_cons_of_mem _ hv),
        reverse_cons, ← hspace]
      apply words_congr
      rw [withoutControls_append, withoutControls_append]
      show _ ++ [32] = _ ++ [if isControl u then 32 else u]
      rw [isControl_or_eq hu (hr u mem_cons_self)]
    · rw [dropWhile_cons_of_neg hu]
  have hleft : ∀ u ∈ s.dropWhile isWhitespace, u.val < 0x80 := fun u hu =>
    h u ((dropWhile_sublist _).subset hu)
  calc words (trim s)
      = words ((s.dropWhile isWhitespace).reverse.dropWhile isWhitespace).reverse := rfl
    _ = words (s.dropWhile isWhitespace).reverse.reverse :=
        hback _ fun u hu => hleft u (mem_reverse.mp hu)
    _ = words (s.dropWhile isWhitespace) := by rw [reverse_reverse]
    _ = words s := hfront s h

theorem flatMap_words (value : DartString) :
    (splitAt 32 (withoutControls value)).flatMap words = words value := by
  have hpiece : ∀ piece ∈ splitAt 32 (withoutControls value),
      words piece = if piece ≠ [] then [piece] else [] := by
    intro piece hmem
    have hcontrols : withoutControls piece = piece := by
      conv_rhs => rw [← map_id piece]
      refine map_congr_left fun u hu => ?_
      obtain ⟨v, -, rfl⟩ := mem_map.mp (of_mem_splitAt hmem hu).1
      by_cases hv : isControl v = true
      · rw [if_pos hv]
        rfl
      · rw [if_neg hv, if_neg hv]
        rfl
    have hspace : 32 ∉ piece := fun hu => (of_mem_splitAt hmem hu).2 rfl
    rw [words, hcontrols, splitAt_of_not_mem hspace]
    by_cases hne : piece = []
    · rw [hne]
      rfl
    · rw [if_pos hne, filter_cons_of_pos (by simpa using hne)]
      rfl
  rw [words]
  generalize splitAt 32 (withoutControls value) = pieces at hpiece
  induction pieces with
  | nil => rfl
  | cons piece pieces ih =>
  rw [flatMap_cons, hpiece piece mem_cons_self,
    ih fun p hp => hpiece p (mem_cons_of_mem _ hp)]
  by_cases hne : piece = []
  · rw [hne]
    rfl
  · rw [if_pos hne, filter_cons_of_pos (by simpa using hne)]
    rfl

/-! ### What the loop writes -/

/-- The first line of a header: the name, a colon, and what follows it. -/
def IsFirst (name line : DartString) : Prop :=
  ∃ body, line = name ++ 58 :: body ∧ (body = [] ∨ body.head? = some 32)

/-- What is true of the lines after some words. -/
structure Folder.Counted (name : DartString) (done : List DartString) (f : Folder) : Prop where
  /-- The first line starts with the name, every other one with a space. -/
  shape : f.lines = [] ∧ IsFirst name f.line ∨
    ∃ first rest, f.lines = first :: rest ∧ IsFirst name first ∧
      ∀ line ∈ rest ++ [f.line], line.head? = some 32
  units : ∀ line ∈ f.lines ++ [f.line], ∀ u ∈ line,
    u ∈ name ∨ u = 58 ∨ u = 32 ∨ ∃ word ∈ done, u ∈ word
  words : (f.lines ++ [f.line]).flatMap words = words (name ++ [58]) ++ done.flatMap words
  /-- Two lines that follow one another have 79 characters at least. -/
  long : 79 * f.lines.length ≤ 2 * (f.lines.map List.length).sum + f.line.length

namespace Folder

variable {name : DartString}

theorem counted_start (name : DartString) : Counted name [] ⟨[], name ++ [58]⟩ where
  shape := .inl ⟨rfl, [], rfl, .inl rfl⟩
  units := by
    intro line hline u hu
    rw [mem_singleton.mp hline, mem_append, mem_singleton] at hu
    exact hu.imp_right .inl
  words := by
    rw [flatMap_nil, append_nil]
    exact append_nil _
  long := Nat.zero_le _

theorem isFirst_append {line : DartString} (h : IsFirst name line) (word : DartString) :
    IsFirst name (line ++ 32 :: word) := by
  obtain ⟨body, rfl, hbody⟩ := h
  refine ⟨body ++ 32 :: word, by rw [append_assoc]; rfl, .inr ?_⟩
  obtain rfl | hbody := hbody
  · rfl
  · rw [head?_append, hbody]
    rfl

theorem Counted.write {done : List DartString} {f : Folder} (h : Counted name done f)
    (word : DartString) : Counted name (done ++ [word]) (f.write name word) := by
  have hword : ∀ u ∈ 32 :: word, u ∈ name ∨ u = 58 ∨ u = 32 ∨ ∃ w ∈ done ++ [word], u ∈ w := by
    intro u hu
    obtain rfl | hu := mem_cons.mp hu
    · exact .inr (.inr (.inl rfl))
    · exact .inr (.inr (.inr ⟨word, by simp, hu⟩))
  have hbefore : ∀ line ∈ f.lines ++ [f.line], ∀ u ∈ line,
      u ∈ name ∨ u = 58 ∨ u = 32 ∨ ∃ w ∈ done ++ [word], u ∈ w := by
    intro line hline u hu
    refine (h.units line hline u hu).imp_right (Or.imp_right (Or.imp_right ?_))
    rintro ⟨w, hw, huw⟩
    exact ⟨w, mem_append_left _ hw, huw⟩
  have hwords := h.words
  rw [flatMap_append, flatMap_singleton] at hwords
  have hlong := h.long
  unfold Folder.write
  split_ifs with hfold
  · -- a new line: it starts with a space
    constructor
    · right
      obtain ⟨hnil, hfirst⟩ | ⟨first, rest, hlines, hfirst, hrest⟩ := h.shape
      · refine ⟨f.line, [], by rw [hnil]; rfl, hfirst, fun line hline => ?_⟩
        rw [mem_singleton.mp hline]
        rfl
      · refine ⟨first, rest ++ [f.line], by rw [hlines]; rfl, hfirst, fun line hline => ?_⟩
        obtain hline | hline := mem_append.mp hline
        · exact hrest line hline
        · rw [mem_singleton.mp hline]
          rfl
    · intro line hline u hu
      obtain hline | hline := mem_append.mp hline
      · exact hbefore line hline u hu
      · rw [mem_singleton.mp hline] at hu
        exact hword u hu
    · simp only [flatMap_append, flatMap_singleton, words_cons]
      rw [hwords, append_assoc]
    · simp only [length_append, length_nil, map_append, map_cons, map_nil,
        sum_append, sum_singleton, length_cons]
      omega
  · constructor
    · obtain ⟨hnil, hfirst⟩ | ⟨first, rest, hlines, hfirst, hrest⟩ := h.shape
      · exact .inl ⟨hnil, isFirst_append hfirst word⟩
      · refine .inr ⟨first, rest, hlines, hfirst, fun line hline => ?_⟩
        obtain hline | hline := mem_append.mp hline
        · exact hrest line (mem_append_left _ hline)
        · rw [mem_singleton.mp hline, head?_append,
            hrest f.line (mem_append_right _ mem_cons_self)]
          rfl
    · intro line hline u hu
      obtain hline | hline := mem_append.mp hline
      · exact hbefore line (mem_append_left _ hline) u hu
      · rw [mem_singleton.mp hline] at hu
        obtain hu | hu := mem_append.mp hu
        · exact hbefore f.line (mem_append_right _ mem_cons_self) u hu
        · exact hword u hu
    · simp only [flatMap_append, flatMap_singleton, words_append]
      rw [← append_assoc, hwords, append_assoc]
    · simp only [length_append, length_cons]
      omega

theorem counted_foldl (name : DartString) (pieces : List DartString) :
    Counted name pieces (pieces.foldl (Folder.write name) ⟨[], name ++ [58]⟩) := by
  have hrun : ∀ (pieces done : List DartString) (f : Folder), Counted name done f →
      Counted name (done ++ pieces) (pieces.foldl (Folder.write name) f) := by
    intro pieces
    induction pieces with
    | nil =>
      intro done f h
      rw [append_nil]
      exact h
    | cons word pieces ih =>
      intro done f h
      have := ih (done ++ [word]) _ (h.write word)
      rwa [append_assoc] at this
  exact hrun pieces [] _ (counted_start name)

end Folder

/-! ### What the parser reads -/

theorem lineSplitter_append (h10 : 10 ∉ line) (h13 : 13 ∉ line) (text : DartString) :
    lineSplitter false (line ++ (crlf ++ text)) = line :: lineSplitter false text := by
  induction line with
  | nil =>
    show lineSplitter false (13 :: 10 :: text) = _
    rw [lineSplitter, if_neg (by decide), if_pos rfl, lineSplitter, if_pos rfl, if_pos rfl]
  | cons u line ih =>
    rw [mem_cons, not_or] at h10 h13
    rw [cons_append, lineSplitter, if_neg (Ne.symm h10.1), if_neg (Ne.symm h13.1),
      ih h10.2 h13.2]
    rfl

theorem lineSplitter_line (h10 : 10 ∉ line) (h13 : 13 ∉ line) (hne : line ≠ []) :
    lineSplitter false line = [line] := by
  induction line with
  | nil => exact absurd rfl hne
  | cons u line ih =>
  rw [mem_cons, not_or] at h10 h13
  rw [lineSplitter, if_neg (Ne.symm h10.1), if_neg (Ne.symm h13.1)]
  by_cases hline : line = []
  · rw [hline]
    rfl
  · rw [ih h10.2 h13.2 hline]
    rfl

theorem lineSplitter_intercalate {lines : List DartString} {last : DartString}
    (h10 : ∀ line ∈ lines ++ [last], 10 ∉ line) (h13 : ∀ line ∈ lines ++ [last], 13 ∉ line)
    (hlast : last ≠ []) :
    lineSplitter false (intercalate crlf (lines ++ [last])) = lines ++ [last] := by
  rw [intercalate_crlf]
  induction lines with
  | nil => exact lineSplitter_line (h10 last (by simp)) (h13 last (by simp)) hlast
  | cons line lines ih =>
  rw [onLines_cons, append_assoc, append_assoc,
    lineSplitter_append (h10 line (by simp)) (h13 line (by simp)),
    ih (fun l hl => h10 l (mem_cons_of_mem _ hl))
      fun l hl => h13 l (mem_cons_of_mem _ hl)]
  rfl

open MimeHeaders

theorem readLine_first {name : DartString} (hname : IsFieldName name) (body : DartString) :
    FieldReader.readLine ⟨0, [], none, []⟩ (name ++ 58 :: body) =
      some ⟨1, [], some name, body⟩ := by
  have hspace : ∀ u ∈ name, isWhitespace u = false := by
    intro u hu
    obtain ⟨hlow, hhigh, -⟩ := hname.2 u hu
    by_contra hnot
    rw [Bool.not_eq_false] at hnot
    simp only [isWhitespace, Bool.or_eq_true, decide_eq_true_eq, contains_eq_mem,
      mem_cons, not_mem_nil, or_false] at hnot
    omega
  have hcolon : 58 ∉ name := fun hu => (hname.2 58 hu).2.2 rfl
  have htrim : trim name = name :=
    trim_of_ends (fun u hu => hspace u (mem_of_mem_head? hu))
      fun u hu => hspace u (mem_of_getLast? hu)
  have hhead : ¬ ((name ++ 58 :: body).head? = some 32 ∨ (name ++ 58 :: body).head? = some 9) := by
    obtain ⟨u, more, rfl⟩ := exists_cons_of_ne_nil hname.1
    have hlow := (hname.2 u mem_cons_self).1
    rintro (h | h)
    · obtain rfl := some.inj h
      exact absurd hlow (by decide)
    · obtain rfl := some.inj h
      exact absurd hlow (by decide)
  obtain ⟨n, hn⟩ : ∃ n, name.length = n + 1 :=
    Nat.exists_eq_succ_of_ne_zero (length_pos_iff.mpr hname.1).ne'
  have htake : (name ++ 58 :: body).take (n + 1) = name := by rw [← hn, take_left]
  have hdrop : (name ++ 58 :: body).drop (n + 1 + 1) = body := by
    rw [← hn, ← drop_drop, drop_left]
    rfl
  have hlines : ¬ maxLines < 0 + 1 := by
    unfold maxLines
    omega
  unfold FieldReader.readLine
  rw [if_neg hlines]
  rw [if_neg hhead, indexOf_singleton hcolon, hn]
  simp[FieldReader.flush, map_some, htake, hdrop, htrim, nil_append]

theorem readLine_continued {r : FieldReader} {name : DartString} (hname : r.name = some name)
    (hline : line.head? = some 32) (hlines : r.lines + 1 ≤ maxLines) : r.readLine line =
      some { r with lines := r.lines + 1, value := r.value ++ 32 :: trim line } := by
  unfold FieldReader.readLine
  rw [if_neg (by omega)]
  rw [if_pos (.inl hline), hname]
  rfl

theorem foldlM_continued {name : DartString} (rest : List DartString)
    (hrest : ∀ line ∈ rest, line.head? = some 32) (n : ℕ) (value : DartString)
    (hlines : n + rest.length ≤ maxLines) :
    rest.foldlM FieldReader.readLine ⟨n, [], some name, value⟩ =
      some ⟨n + rest.length, [], some name, value ++ rest.flatMap fun line => 32 :: trim line⟩ := by
  induction rest generalizing n value with
  | nil => simp
  | cons line rest ih =>
  rw [length_cons] at hlines
  rw [foldlM_cons, readLine_continued rfl (hrest line mem_cons_self)
    (by dsimp only; omega)]
  show rest.foldlM FieldReader.readLine ⟨n + 1, [], some name, _⟩ = _
  rw [ih (fun l hl => hrest l (mem_cons_of_mem _ hl)) _ _ (by omega), flatMap_cons,
    append_assoc, length_cons, Nat.add_assoc, Nat.add_comm 1]

/-! ### There and back -/

theorem Folder.Counted.lines {name : DartString} {done : List DartString} {f : Folder}
    (h : Folder.Counted name done f) :
    ∃ body rest, f.lines ++ [f.line] = (name ++ 58 :: body) :: rest ∧ rest.length = f.lines.length ∧
      f.line ≠ [] ∧ (body = [] ∨ body.head? = some 32) ∧ ∀ line ∈ rest, line.head? = some 32 := by
  obtain ⟨hnil, body, hline, hbody⟩ | ⟨first, rest, hlines, ⟨body, rfl, hbody⟩, hrest⟩ := h.shape
  · refine ⟨body, [], by rw [hnil, hline]; rfl, by rw [hnil], ?_, hbody, by simp⟩
    rw [hline]
    simp
  · refine ⟨body, rest ++ [f.line], by rw [hlines]; rfl, by rw [hlines]; simp, ?_, hbody, hrest⟩
    intro hnil
    have := hrest f.line (by simp)
    rw [hnil] at this
    simp at this

theorem length_onLines (lines : List DartString) :
    (onLines lines).length = (lines.map length).sum + 2 * lines.length := by
  induction lines with
  | nil => rfl
  | cons line lines ih =>
    rw [onLines_cons, length_append, length_append, map_cons, sum_cons,
      length_cons]
    change line.length + (2 + _) = _
    omega

theorem Folder.Counted.length_le {name : DartString} {done : List DartString} {f : Folder}
    (h : Folder.Counted name done f)
    (hlen : (intercalate crlf (f.lines ++ [f.line])).length ≤ maxBlock) :
    1 + f.lines.length ≤ maxLines := by
  have hlong := h.long
  rw [intercalate_crlf, length_append, length_onLines] at hlen
  unfold maxBlock at hlen
  unfold maxLines
  omega

theorem mem_of_mem_trim (h : u ∈ trim s) : u ∈ s := by
  have h := mem_reverse.mp h
  have h := mem_reverse.mp ((dropWhile_sublist _).subset h)
  exact (dropWhile_sublist _).subset h

theorem words_continued {rest : List DartString} (h : ∀ line ∈ rest, ∀ u ∈ line, u.val < 0x80)
    (body : DartString) :
    words (body ++ rest.flatMap fun line => 32 :: trim line) =
      words body ++ rest.flatMap words := by
  induction rest generalizing body with
  | nil => simp
  | cons line rest ih =>
    rw [flatMap_cons, ← append_assoc,
      ih (fun l hl => h l (mem_cons_of_mem _ hl)), words_append,
      words_trim (h line mem_cons_self), append_assoc]
    rfl

theorem words_first (name : DartString) {body : DartString} (h : body = [] ∨ body.head? = some 32) :
    words (name ++ 58 :: body) = words (name ++ [58]) ++ words body := by
  obtain rfl | h := h
  · exact (append_nil _).symm
  · obtain ⟨body, rfl⟩ := head?_eq_some_iff.mp h
    have hassoc : name ++ 58 :: 32 :: body = name ++ [58] ++ 32 :: body := by
      rw [append_assoc]
      rfl
    rw [hassoc, words_append, words_cons]

theorem foldlM_foldedHeader {name value : DartString} (hname : IsFieldName name)
    (hlen : (foldedHeader name value).length ≤ maxBlock) :
    ∃ n read, (lineSplitter false (foldedHeader name value)).foldlM FieldReader.readLine
        ⟨0, [], none, []⟩ = some ⟨n, [], some name, read⟩ ∧
      (∀ u ∈ read, u = 32 ∨ u = 58 ∨ u ∈ name ∨ u ∈ value) ∧
      ((∀ u ∈ value, u.val < 0x80) → words read = words value) := by
  have hcounted := Folder.counted_foldl name (splitAt 32 (withoutControls value))
  unfold foldedHeader foldedLines at hlen ⊢
  generalize (splitAt 32 (withoutControls value)).foldl (Folder.write name) ⟨[], name ++ [58]⟩ = f
    at hcounted hlen ⊢
  -- where the characters of the lines come from
  have hunits : ∀ line ∈ f.lines ++ [f.line], ∀ u ∈ line,
      u ∈ name ∨ u = 58 ∨ u = 32 ∨ u ∈ value ∧ isControl u = false := by
    intro line hline u hu
    refine (hcounted.units line hline u hu).imp_right (Or.imp_right ?_)
    rintro (rfl | ⟨word, hword, huw⟩)
    · exact .inl rfl
    · obtain ⟨hmem, hne⟩ := of_mem_splitAt hword huw
      obtain ⟨v, hv, rfl⟩ := mem_map.mp hmem
      by_cases hcontrol : isControl v = true
      · rw [if_pos hcontrol] at hne
        exact absurd rfl hne
      · rw [if_neg hcontrol]
        exact .inr ⟨hv, Bool.not_eq_true _ ▸ hcontrol⟩
  have hbreak : ∀ b : Fin 65536, b.val ≤ 0x1f → ∀ line ∈ f.lines ++ [f.line], b ∉ line := by
    intro b hb line hline hu
    obtain hmem | rfl | rfl | ⟨-, hcontrol⟩ := hunits line hline b hu
    · have := (hname.2 b hmem).1
      omega
    · exact absurd hb (by decide)
    · exact absurd hb (by decide)
    · rw [isControl, decide_eq_true hb] at hcontrol
      simp at hcontrol
  obtain ⟨body, rest, hlines, hrestLen, hlast, hbody, hrest⟩ := hcounted.lines
  have hfew := hcounted.length_le hlen
  refine ⟨1 + rest.length, body ++ rest.flatMap fun line => 32 :: trim line, ?_, ?_, ?_⟩
  · rw [lineSplitter_intercalate (hbreak 10 (by decide)) (hbreak 13 (by decide)) hlast, hlines,
      foldlM_cons, readLine_first hname]
    exact foldlM_continued rest hrest 1 body (by rw [hrestLen]; exact hfew)
  · intro u hu
    have hof : ∀ line ∈ f.lines ++ [f.line], u ∈ line → u = 32 ∨ u = 58 ∨ u ∈ name ∨ u ∈ value := by
      intro line hline hmem
      obtain hname | rfl | rfl | ⟨hvalue, -⟩ := hunits line hline u hmem
      · exact .inr (.inr (.inl hname))
      · exact .inr (.inl rfl)
      · exact .inl rfl
      · exact .inr (.inr (.inr hvalue))
    rw [hlines] at hof
    obtain hu | hu := mem_append.mp hu
    · exact hof _ mem_cons_self (by simp [hu])
    · obtain ⟨line, hline, hu⟩ := mem_flatMap.mp hu
      obtain rfl | hu := mem_cons.mp hu
      · exact .inl rfl
      · exact hof line (mem_cons_of_mem _ hline) (mem_of_mem_trim hu)
  · intro hascii
    have hsmall : ∀ line ∈ f.lines ++ [f.line], ∀ u ∈ line, u.val < 0x80 := by
      intro line hline u hu
      obtain hmem | rfl | rfl | ⟨hmem, -⟩ := hunits line hline u hu
      · have := (hname.2 u hmem).2.1
        omega
      · decide
      · decide
      · exact hascii u hmem
    have hwords := hcounted.words
    rw [hlines] at hsmall
    rw [hlines, flatMap_cons, words_first name hbody, flatMap_words,
      append_assoc] at hwords
    rw [words_continued fun line hline => hsmall line (mem_cons_of_mem _ hline)]
    exact append_cancel_left hwords

/-- A value with its control characters turned into spaces, runs of spaces collapsed and the ends
trimmed. -/
def collapse (value : DartString) : DartString := List.intercalate [32] (words value)

theorem utf8OrLatin1_of_ascii {value : DartString} (h : ∀ u ∈ value, u.val < 0x80) :
    utf8OrLatin1 value = some value := by
  rw [utf8OrLatin1, if_neg]
  rw [List.any_eq_true]
  rintro ⟨u, hu, hlarge⟩
  have := of_decide_eq_true hlarge
  have := h u hu
  omega

theorem utf8OrLatin1_eq_none {value : DartString} (h : utf8OrLatin1 value = none) :
    ∃ u ∈ value, 0xff < u.val := by
  by_contra hnone
  have hsmall : ∀ u ∈ value, u.val < 256 := by
    intro u hu
    by_contra hlarge
    exact hnone ⟨u, hu, by omega⟩
  obtain ⟨bytes, hbytes, -⟩ := ofLatin1_toLatin1 hsmall
  rw [utf8OrLatin1, hbytes] at h
  split_ifs at h
  simp at h

/-- **A folded header is one field**, whatever its value, or its value has units that no byte
gives. -/
theorem parse_foldedHeader {name value : DartString} (hname : IsFieldName name)
    (hlen : (foldedHeader name value).length ≤ maxBlock) :
    (∃ read, MimeHeaders.parse (foldedHeader name value) = some ⟨[(name, read)]⟩ ∧
      ((∀ u ∈ value, u.val < 0x80) → collapse read = collapse value)) ∨
    MimeHeaders.parse (foldedHeader name value) = none ∧ ∃ u ∈ value, 0xff < u.val := by
  obtain ⟨n, read, hread, hunits, hwords⟩ := foldlM_foldedHeader hname hlen
  have htrimmed : ∀ u ∈ trim read, u = 32 ∨ u = 58 ∨ u ∈ name ∨ u ∈ value := fun u hu =>
    hunits u (mem_of_mem_trim hu)
  have hparse : MimeHeaders.parse (foldedHeader name value) =
      (utf8OrLatin1 (trim read)).map fun value => ⟨[(name, value)]⟩ := by
    have hflush : FieldReader.flush ⟨n, [], some name, read⟩ =
        some ⟨n, [(name, trim read)], none, []⟩ := rfl
    rw [MimeHeaders.parse, if_neg (not_lt.mpr hlen), hread, bind_some, hflush,
      bind_some, mapM_cons]
    cases utf8OrLatin1 (trim read) <;> rfl
  rw [hparse]
  cases hdecode : utf8OrLatin1 (trim read) with
  | none =>
    right
    obtain ⟨u, hu, hlarge⟩ := utf8OrLatin1_eq_none hdecode
    refine ⟨rfl, u, ?_, hlarge⟩
    obtain rfl | rfl | hu | hu := htrimmed u hu
    · exact absurd hlarge (by decide)
    · exact absurd hlarge (by decide)
    · have := (hname.2 u hu).2.1
      omega
    · exact hu
  | some decoded =>
  refine .inl ⟨decoded, rfl, fun hascii => ?_⟩
  have hsmall : ∀ u ∈ read, u.val < 0x80 := by
    intro u hu
    obtain rfl | rfl | hu | hu := hunits u hu
    · decide
    · decide
    · have := (hname.2 u hu).2.1
      omega
    · exact hascii u hu
  rw [utf8OrLatin1_of_ascii fun u hu => hsmall u (mem_of_mem_trim hu)] at hdecode
  rw [← some.inj hdecode, collapse, collapse, words_trim hsmall, hwords hascii]

/-- What a header is written as, it is read as: one field of its name, with the words of an ASCII
value; and a word of any text is that text. -/
theorem headers_written_are_read :
    (∀ name value, IsFieldName name → (foldedHeader name value).length ≤ maxBlock →
      (∀ headers, MimeHeaders.parse (foldedHeader name value) = some headers →
        ∃ read, headers.fields = [(name, read)]) ∧
      ((∀ u ∈ value, u.val ≤ 0xff) →
        ∃ read, MimeHeaders.parse (foldedHeader name value) = some ⟨[(name, read)]⟩ ∧
          ((∀ u ∈ value, u.val < 0x80) → collapse read = collapse value))) ∧
    ∀ text, WellFormed text → text.head? ≠ some byteOrderMark →
      decodeMimeWords (encodeMimeWord text) = text := by
  refine ⟨fun name value hname hlen => ⟨fun headers hheaders => ?_, fun hsmall => ?_⟩,
    fun text htext hmark => ?_⟩
  · obtain ⟨read, hparse, -⟩ | ⟨hparse, -⟩ := parse_foldedHeader hname hlen
    · rw [hparse] at hheaders
      exact ⟨read, by rw [← some.inj hheaders]⟩
    · rw [hparse] at hheaders
      simp at hheaders
  · obtain hone | ⟨-, u, hu, hlarge⟩ := parse_foldedHeader hname hlen
    · exact hone
    · have := hsmall u hu
      omega
  · rw [decodeMimeWords_encodeMimeWord htext]
    split_ifs
    · rfl
    · exact dropMark_eq_self.mpr hmark

theorem forall_mem_of_all {p : Fin 65536 → Prop} [DecidablePred p]
    (h : s.all (fun u => decide (p u)) = true) : ∀ u ∈ s, p u :=
  fun u hu => of_decide_eq_true (all_eq_true.mp h u hu)

theorem injection_is_one_field :
    ∃ read, MimeHeaders.parse (foldedHeader (ofString "Subject") (ofString "a\r\nBcc:  b")) =
        some ⟨[(ofString "Subject", read)]⟩ ∧ collapse read = ofString "a Bcc: b" := by
  obtain ⟨read, hparse, hwords⟩ := (headers_written_are_read.1 (ofString "Subject")
    (ofString "a\r\nBcc:  b") ⟨by decide, forall_mem_of_all (by decide)⟩ (by decide)).2
      (forall_mem_of_all (by decide))
  exact ⟨read, hparse, (hwords (forall_mem_of_all (by decide))).trans (by decide)⟩

theorem wide_unit_throws :
    MimeHeaders.parse (foldedHeader (ofString "X") [0x100]) = none ∧
      decodeMimeWords (encodeMimeWord [0xFEFF, 65]) = [65] := by
  decide

end Mail
end Conest
