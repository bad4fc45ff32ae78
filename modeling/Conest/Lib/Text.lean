import Conest.Lib.Dart

/-!
# Text: searching it and cutting it into lines

A pattern is found where it was put when it holds two neighbouring characters that do not stand side
by side before it (`indexOf_of_pair`): whatever the text is, an earlier occurrence would bring the
pair along. `NoPair` says that a text is free of the pair, and follows from the lines of the text
(`noPair_onLines`). `splitLines` and `rawLines` cut a text of lines back into the lines.
-/

namespace Lib

open List

section Search

variable {α : Type} [DecidableEq α]

/-- `String.indexOf`: where the pattern stands first. -/
def indexOf (pattern : List α) : List α → Option ℕ
  | [] => if pattern = [] then some 0 else none
  | u :: text => if pattern <+: u :: text then some 0 else (indexOf pattern text).map (· + 1)

theorem indexOf_of_isPrefix {pattern text : List α} (h : pattern <+: text) :
    indexOf pattern text = some 0 := by
  cases text with
  | nil => rw [indexOf, if_pos (prefix_nil.mp h)]
  | cons u text => rw [indexOf, if_pos h]

theorem indexOf_append {pattern front text : List α} (h : pattern <+: text)
    (hfront : ∀ i < front.length, ¬ pattern <+: (front ++ text).drop i) :
    indexOf pattern (front ++ text) = some front.length := by
  induction front with
  | nil => exact indexOf_of_isPrefix h
  | cons u front ih =>
  have hrest : ∀ i < front.length, ¬ pattern <+: (front ++ text).drop i := fun i hi =>
    hfront (i + 1) (Nat.succ_lt_succ hi)
  have hhere : ¬ pattern <+: u :: (front ++ text) := hfront 0 (Nat.succ_pos _)
  rw [cons_append, indexOf, if_neg hhere, ih hrest]
  rfl

theorem indexOf_singleton {a : α} {front : List α} (h : a ∉ front) (rest : List α) :
    indexOf [a] (front ++ a :: rest) = some front.length := by
  induction front with
  | nil => exact indexOf_of_isPrefix ⟨rest, rfl⟩
  | cons u front ih =>
  rw [mem_cons, not_or] at h
  have hhere : ¬ [a] <+: u :: (front ++ a :: rest) := fun hprefix =>
    h.1 (cons_prefix_cons.mp hprefix).1
  rw [cons_append, indexOf, if_neg hhere, ih h.2]
  rfl

/-- `a` is nowhere followed by `b`. -/
def NoPair (a b : α) (text : List α) : Prop := text.IsChain fun x y => ¬ (x = a ∧ y = b)

instance (a b : α) (text : List α) : Decidable (NoPair a b text) := by
  unfold NoPair
  infer_instance

omit [DecidableEq α] in
theorem noPair_of_left {a b : α} {text : List α} (h : a ∉ text) : NoPair a b text := by
  induction text with
  | nil => exact List.IsChain.nil
  | cons x text ih =>
    rw [mem_cons, not_or] at h
    refine isChain_cons.mpr ⟨fun y _ hxy => h.1 hxy.1.symm, ih h.2⟩

omit [DecidableEq α] in
theorem noPair_of_right {a b : α} {text : List α} (h : b ∉ text) : NoPair a b text := by
  induction text with
  | nil => exact List.IsChain.nil
  | cons x text ih =>
    rw [mem_cons, not_or] at h
    refine isChain_cons.mpr ⟨fun y hy hxy => h.2 ?_, ih h.2⟩
    rw [← hxy.2]
    exact mem_of_mem_head? hy

omit [DecidableEq α] in
theorem NoPair.append {a b : α} {text rest : List α} (htext : NoPair a b text)
    (hrest : NoPair a b rest) (hseam : text.getLast? = some a → rest.head? ≠ some b) :
    NoPair a b (text ++ rest) := by
  refine isChain_append.mpr ⟨htext, hrest, fun x hx y hy hxy => ?_⟩
  rw [hxy.1] at hx
  rw [hxy.2] at hy
  exact hseam hx hy

/-- **A pattern with a pair that does not stand before it** is found where it is. -/
theorem indexOf_of_pair {a b : α} {front start tail : List α} (rest : List α)
    (h : NoPair a b (front ++ (start ++ [a]))) :
    indexOf (start ++ a :: b :: tail) (front ++ ((start ++ a :: b :: tail) ++ rest)) =
      some front.length := by
  refine indexOf_append (prefix_append _ rest) fun i hi hearly => ?_
  -- the pair of an earlier occurrence lies in what stands before the pair of this one
  have hpair : [a, b] <:+: (front ++ (start ++ [a])) := by
    have hhead : start ++ [a, b] <+: (front ++ ((start ++ a :: b :: tail) ++ rest)).drop i := by
      refine List.IsPrefix.trans ?_ hearly
      exact ⟨tail, by rw [append_assoc]; rfl⟩
    have htake : start ++ [a, b] <+: (front ++ (start ++ [a])).drop i := by
      have hsplit : (front ++ ((start ++ a :: b :: tail) ++ rest)).drop i =
          (front ++ (start ++ [a])).drop i ++ (b :: tail ++ rest) := by
        rw [← drop_append_of_le_length (by rw [length_append]; omega)]
        simp
      rw [hsplit] at hhead
      refine prefix_of_prefix_length_le hhead (prefix_append _ _) ?_
      simp only [length_append, length_drop, length_cons, length_nil]
      omega
    have hinfix : [a, b] <:+: start ++ [a, b] := (suffix_append start [a, b]).isInfix
    exact hinfix.trans (htake.isInfix.trans (drop_suffix i _).isInfix)
  exact (isChain_cons_cons.mp ( List.IsChain.infix h hpair)).1 ⟨rfl, rfl⟩

end Search

namespace DartString

def crlf : DartString := [13, 10]

/-- A text of lines, each with its line end. -/
def onLines (lines : List DartString) : DartString := lines.flatMap fun line => line ++ crlf

@[simp] theorem onLines_nil : onLines [] = [] := rfl

@[simp] theorem onLines_cons (line : DartString) (lines : List DartString) :
    onLines (line :: lines) = line ++ (crlf ++ onLines lines) := by
  rw [onLines, flatMap_cons, append_assoc]
  rfl

@[simp] theorem onLines_append (lines more : List DartString) :
    onLines (lines ++ more) = onLines lines ++ onLines more :=
  flatMap_append

theorem intercalate_crlf (lines : List DartString) (last : DartString) :
    intercalate crlf (lines ++ [last]) = onLines lines ++ last := by
  induction lines with
  | nil => simp [intercalate]
  | cons line lines ih =>
    obtain ⟨next, more, hmore⟩ : ∃ next more, lines ++ [last] = next :: more :=
      exists_cons_of_ne_nil (append_ne_nil_of_right_ne_nil _ (cons_ne_nil _ _))
    rw [cons_append, hmore, intercalate_cons_cons, ← hmore, ih, onLines_cons]
    simp

theorem mem_intercalate {u : Fin 65536} {between : DartString} {pieces : List DartString}
    (h : u ∈ intercalate between pieces) : u ∈ between ∨ ∃ piece ∈ pieces, u ∈ piece := by
  induction pieces with
  | nil => cases h
  | cons piece pieces ih =>
  cases pieces with
  | nil =>
    rw [intercalate_singleton] at h
    exact .inr ⟨piece, mem_cons_self, h⟩
  | cons next pieces =>
  rcases mem_append.mp h with h | h
  · exact .inr ⟨piece, mem_cons_self, h⟩
  rcases mem_append.mp h with h | h
  · exact .inl h
  · refine (ih h).imp_right ?_
    rintro ⟨found, hfound, hu⟩
    exact ⟨found, mem_cons_of_mem piece hfound, hu⟩

theorem mem_onLines {u : Fin 65536} {lines : List DartString} :
    u ∈ onLines lines ↔ ∃ line ∈ lines, u ∈ line ∨ u ∈ crlf := by
  simp only [onLines, mem_flatMap, mem_append]

theorem noPair_onLines {a b : Fin 65536} {lines : List DartString}
    (h : ∀ line ∈ lines, NoPair a b (line ++ crlf))
    (hseam : a = 10 → ∀ line ∈ lines, (line ++ crlf).head? ≠ some b) :
    NoPair a b (onLines lines) := by
  induction lines with
  | nil => exact List.IsChain.nil
  | cons line lines ih =>
  have hrest := ih (fun l hl => h l (mem_cons_of_mem line hl))
    (fun ha l hl => hseam ha l (mem_cons_of_mem line hl))
  rw [onLines, flatMap_cons]
  refine NoPair.append (h line mem_cons_self) hrest fun hlast => ?_
  -- a line ends in a line feed, so the pair would start with one
  have hlf : (line ++ crlf).getLast? = some 10 := by
    rw [getLast?_append]
    rfl
  rw [hlf, Option.some.injEq] at hlast
  cases lines with
  | nil => exact Option.some_ne_none _ |>.symm
  | cons next lines =>
    rw [flatMap_cons, head?_append_of_ne_nil _ (by simp [crlf])]
    exact hseam hlast.symm next (mem_cons_of_mem line mem_cons_self)

/-! ### Cutting into lines -/

/-- Put a character in front of the first line. -/
def consHead (u : Fin 65536) : List DartString → List DartString
  | [] => [[u]]
  | line :: lines => (u :: line) :: lines

/-- `split` at a line feed or a carriage return with a line feed. -/
def splitLines : DartString → List DartString
  | [] => [[]]
  | u :: text =>
    if u = 10 then [] :: splitLines text
    else if u = 13 ∧ text.head? = some 10 then splitLines text
    else consHead u (splitLines text)

/-- What a loop over the line feeds reads: the lines, the last also without one. -/
def rawLines : DartString → List DartString
  | [] => []
  | u :: text => if u = 10 then [] :: rawLines text else consHead u (rawLines text)

section

variable {line : DartString} (h10 : 10 ∉ line) (h13 : 13 ∉ line)

include h10 h13

theorem splitLines_append (text : DartString) :
    splitLines (line ++ (crlf ++ text)) = line :: splitLines text := by
  induction line with
  | nil =>
    show splitLines (13 :: 10 :: text) = _
    rw [splitLines, if_neg (by decide), if_pos ⟨rfl, rfl⟩, splitLines, if_pos rfl]
  | cons u line ih =>
    rw [mem_cons, not_or] at h10 h13
    rw [cons_append, splitLines, if_neg (Ne.symm h10.1),
      if_neg (fun h => h13.1 h.1.symm), ih h10.2 h13.2]
    rfl

theorem splitLines_line : splitLines line = [line] := by
  induction line with
  | nil => rfl
  | cons u line ih =>
    rw [mem_cons, not_or] at h10 h13
    rw [splitLines, if_neg (Ne.symm h10.1), if_neg (fun h => h13.1 h.1.symm), ih h10.2 h13.2]
    rfl

end

theorem splitLines_intercalate {lines : List DartString} {last : DartString}
    (h10 : ∀ line ∈ lines ++ [last], 10 ∉ line) (h13 : ∀ line ∈ lines ++ [last], 13 ∉ line) :
    splitLines (intercalate crlf (lines ++ [last])) = lines ++ [last] := by
  rw [intercalate_crlf]
  induction lines with
  | nil => exact splitLines_line (h10 last mem_cons_self) (h13 last mem_cons_self)
  | cons line lines ih =>
    rw [onLines_cons, append_assoc, append_assoc,
      splitLines_append (h10 line mem_cons_self) (h13 line mem_cons_self),
      ih (fun l hl => h10 l (mem_cons_of_mem line hl))
        (fun l hl => h13 l (mem_cons_of_mem line hl)), cons_append]

theorem rawLines_append {line : DartString} (h : 10 ∉ line) (text : DartString) :
    rawLines (line ++ 10 :: text) = line :: rawLines text := by
  induction line with
  | nil => rw [nil_append, rawLines, if_pos rfl]
  | cons u line ih =>
    rw [mem_cons, not_or] at h
    rw [cons_append, rawLines, if_neg (Ne.symm h.1), ih h.2]
    rfl

theorem rawLines_onLines {lines : List DartString} (h : ∀ line ∈ lines, 10 ∉ line)
    (text : DartString) :
    rawLines (onLines lines ++ text) = lines.map (· ++ [13]) ++ rawLines text := by
  induction lines with
  | nil => rfl
  | cons line lines ih =>
  have hcr : 10 ∉ line ++ [13] := by
    rw [mem_append, not_or]
    exact ⟨h line mem_cons_self, by decide⟩
  have htext : onLines (line :: lines) ++ text =
      (line ++ [13]) ++ 10 :: (onLines lines ++ text) := by
    rw [onLines_cons, crlf]
    simp
  rw [htext, rawLines_append hcr, ih fun l hl => h l (mem_cons_of_mem line hl)]
  rfl

/-! ### Trimming and lower case -/

/-- `String.trimRight`. -/
def trimRight (s : DartString) : DartString := (s.reverse.dropWhile isWhitespace).reverse

theorem trimRight_append {space : DartString} (h : ∀ u ∈ space, isWhitespace u = true)
    (s : DartString) : trimRight (s ++ space) = trimRight s := by
  unfold trimRight
  rw [reverse_append, dropWhile_append]
  have hnil : space.reverse.dropWhile isWhitespace = [] :=
    dropWhile_eq_nil_iff.mpr fun u hu => h u (mem_reverse.mp hu)
  rw [hnil]
  rfl

theorem trimRight_of_last {s : DartString} (h : ∀ u ∈ s.getLast?, isWhitespace u = false) :
    trimRight s = s := by
  unfold trimRight
  rw [dropWhile_eq_self_iff.mpr, reverse_reverse]
  intro hpos
  rw [length_reverse] at hpos
  have hne := length_pos_iff.mp hpos
  rw [getElem_zero, head_reverse]
  exact Bool.not_eq_true _ ▸ h _ (getLast?_eq_getLast_of_ne_nil hne)

theorem trim_eq (s : DartString) : trim s = trimRight (s.dropWhile isWhitespace) := rfl

theorem trim_cons {u : Fin 65536} (h : isWhitespace u = true) (s : DartString) :
    trim (u :: s) = trim s := by
  rw [trim_eq, trim_eq, dropWhile_cons_of_pos h]

section

variable {s : DartString} (hhead : ∀ u ∈ s.head?, isWhitespace u = false)
  (hlast : ∀ u ∈ s.getLast?, isWhitespace u = false)

include hhead hlast

theorem trim_of_ends : trim s = s := by
  rw [trim_eq]
  cases s with
  | nil => rfl
  | cons u s =>
    rw [dropWhile_cons_of_neg (by rw [hhead u rfl]; exact Bool.false_ne_true),
      trimRight_of_last hlast]

theorem trim_append {space : DartString} (h : ∀ u ∈ space, isWhitespace u = true) :
    trim (s ++ space) = s := by
  cases s with
  | nil =>
    have hnil : space.dropWhile isWhitespace = [] := dropWhile_eq_nil_iff.mpr h
    rw [nil_append, trim_eq, hnil]
    rfl
  | cons u s =>
    rw [trim_eq, cons_append,
      dropWhile_cons_of_neg (by rw [hhead u rfl]; exact Bool.false_ne_true),
      ← cons_append, trimRight_append h, trimRight_of_last hlast]

end

theorem not_of_mem_head?_dropWhile {p : Fin 65536 → Bool} {s : DartString} {u : Fin 65536}
    (h : u ∈ (s.dropWhile p).head?) : p u = false := by
  have hhead := head?_dropWhile_not p s
  rwa [h] at hhead

theorem trim_spec (s : DartString) :
    (∃ front back, s = front ++ (trim s ++ back) ∧ (∀ u ∈ front, isWhitespace u = true) ∧
      ∀ u ∈ back, isWhitespace u = true) ∧
      (∀ u ∈ (trim s).head?, isWhitespace u = false) ∧
      ∀ u ∈ (trim s).getLast?, isWhitespace u = false := by
  have hback : trim s ++ (s.dropWhile isWhitespace).rtakeWhile isWhitespace =
      s.dropWhile isWhitespace := rdropWhile_append_rtakeWhile
  refine ⟨⟨s.takeWhile isWhitespace, (s.dropWhile isWhitespace).rtakeWhile isWhitespace, ?_,
    fun u => mem_takeWhile_imp, fun u => mem_rtakeWhile_imp⟩, ?_, ?_⟩
  · rw [hback, takeWhile_append_dropWhile]
  · intro u hu
    apply not_of_mem_head?_dropWhile
    rw [← hback, head?_append, hu]
    rfl
  · intro u hu
    rw [trim, getLast?_reverse] at hu
    exact not_of_mem_head?_dropWhile hu

theorem isWhitespace_of_mem_crlf {u : Fin 65536} (h : u ∈ crlf) : isWhitespace u = true := by
  rcases mem_cons.mp h with rfl | h
  · rfl
  · rw [mem_singleton.mp h]
    rfl

theorem trim_append_cr {s : DartString} (h : ∀ u ∈ s, isWhitespace u = false) :
    trim (s ++ [13]) = s := by
  refine trim_append (fun u hu => h u (mem_of_mem_head? hu))
    (fun u hu => h u (mem_of_getLast? hu)) fun u hu => ?_
  rw [mem_singleton.mp hu]
  rfl

/-- A lower-case letter of the first 256 characters; the multiplication sign is none. -/
def lowerUnit (u : Fin 65536) : Fin 65536 :=
  if (65 ≤ u.val ∧ u.val ≤ 90) ∨ (0xC0 ≤ u.val ∧ u.val ≤ 0xDE ∧ u.val ≠ 0xD7) then u + 32 else u

/-- `String.toLowerCase`, of text in the first 256 characters. -/
def toLowerCase (s : DartString) : DartString := s.map lowerUnit

/-- `latin1.decode`. -/
def ofLatin1 (bytes : Bytes) : DartString := bytes.map fun byte => Fin.ofNat 65536 byte.toNat

/-- `latin1.encode`: `none` where it throws. -/
def toLatin1 (s : DartString) : Option Bytes :=
  if s.all fun u => decide (u.val < 256) then some (s.map fun u => UInt8.ofNat u.val) else none

theorem ofLatin1_toLatin1 {s : DartString} (h : ∀ u ∈ s, u.val < 256) :
    ∃ bytes, toLatin1 s = some bytes ∧ ofLatin1 bytes = s ∧ bytes.length = s.length := by
  refine ⟨s.map fun u => UInt8.ofNat u.val, ?_, ?_, length_map _⟩
  · rw [toLatin1, if_pos]
    exact all_eq_true.mpr fun u hu => decide_eq_true (h u hu)
  unfold ofLatin1
  rw [map_map]
  conv_rhs => rw [← map_id s]
  refine map_congr_left fun u hu => ?_
  ext
  show (UInt8.ofNat u.val).toNat % 65536 = u.val
  rw [UInt8.toNat_ofNat', Nat.mod_eq_of_lt (h u hu), Nat.mod_eq_of_lt u.isLt]

end DartString

end Lib
