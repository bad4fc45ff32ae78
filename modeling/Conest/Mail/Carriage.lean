import Conest.Mail.CarrierMail

/-!
# A frame mailed is the frame read

The round trip of `build` and `read`. The first half is about lines: fields that are written as header
lines are what `headers` holds (`get_headers`), and the lines before the armored message have no `B`
and no `-E` in them (`FrontLine`), so that the searches of `read` end where `build` put what they look
for. The second half puts the layers together (`read_build`): the part of the text between the marks is
the armor of the message, which is decrypted to the version and the frame.
-/

open Lib
open List hiding Vector
open Lib.DartString

namespace Conest
namespace Mail
namespace CarrierMail

/-! ### Header fields -/

variable {line : DartString}

/-- The header line of a field. -/
def fieldLine (field : DartString × DartString) : DartString := field.1 ++ 58 :: field.2

/-- A name that is read as a name. -/
structure FieldName (name : DartString) : Prop where
  ne_nil : name ≠ []
  no_colon : 58 ∉ name
  not_folded : name.head? ≠ some 32 ∧ name.head? ≠ some 9

/-- The name under which a field is kept. -/
def keyOf (name : DartString) : DartString := toLowerCase (trim name)

namespace HeaderReader

section

variable (r : HeaderReader)

include r

theorem flush_value : r.flush.value = [] := by
  unfold flush
  split <;> rfl

theorem readLine_fieldLine {field : DartString × DartString} (h : FieldName field.1) :
    r.readLine (fieldLine field) =
      { r.flush with name := some (keyOf field.1), value := field.2 } := by
  obtain ⟨name, value⟩ := field
  obtain ⟨u, rest, rfl⟩ := exists_cons_of_ne_nil h.ne_nil
  have hcolon := indexOf_singleton h.no_colon value
  have hfolded : ¬ ((fieldLine (u :: rest, value)).head? = some 32 ∨
      (fieldLine (u :: rest, value)).head? = some 9) := fun hline =>
    hline.elim h.not_folded.1 h.not_folded.2
  have htake : (fieldLine (u :: rest, value)).take (rest.length + 1) = u :: rest :=
    take_left' rfl
  have hdrop : (fieldLine (u :: rest, value)).drop (rest.length + 1 + 1) = value := by
    have hname : (fieldLine (u :: rest, value)).drop (rest.length + 1) = 58 :: value :=
      drop_left' rfl
    rw [← drop_drop, hname]
    rfl
  unfold readLine
  rw [if_neg hfolded]
  have hindex : indexOf [58] (fieldLine (u :: rest, value)) = some (rest.length + 1) := hcolon
  simp[hindex, htake, hdrop, flush_value, nil_append, keyOf]

theorem get_flush (name value key : DartString) :
    ({ r.flush with name := some name, value := value } : HeaderReader).flush.result.get key =
      (r.flush.result.get key).or (if name = key then some (trim value) else none) := by
  show (if r.flush.result.contains name then r.flush.result
    else r.flush.result.insert name (trim value)).get key = _
  by_cases hkey : name = key
  · subst hkey
    rw [if_pos rfl]
    unfold FMap.contains
    cases hget : r.flush.result.get name with
    | none => rw [Option.isSome_none, if_neg Bool.false_ne_true, FMap.get_insert, if_pos rfl]; rfl
    | some found => rw [Option.isSome_some, if_pos rfl, hget]; rfl
  · rw [if_neg hkey, Option.or_none]
    split
    · rfl
    · rw [FMap.get_insert, if_neg (Ne.symm hkey)]

end

theorem get_foldl {fields : List (DartString × DartString)} (h : ∀ f ∈ fields, FieldName f.1)
    (r : HeaderReader) (key : DartString) :
    ((fields.map fieldLine).foldl readLine r).flush.result.get key =
      (r.flush.result.get key).or
        ((fields.find? fun f => keyOf f.1 == key).map fun f => trim f.2) := by
  induction fields generalizing r with
  | nil => exact (Option.or_none).symm
  | cons f fields ih =>
  have hf := h f mem_cons_self
  rw [map_cons, foldl_cons, ih fun g hg => h g (mem_cons_of_mem f hg),
    r.readLine_fieldLine hf, get_flush, Option.or_assoc]
  congr 1
  by_cases hkey : keyOf f.1 = key
  · rw [if_pos hkey, find?_cons_of_pos (by rw [hkey]; exact beq_self_eq_true key)]
    rfl
  · have hskip : ¬ (keyOf f.1 == key) = true := fun heq => hkey (eq_of_beq heq)
    rw [if_neg hkey, Option.none_or,
      find?_cons_of_neg (p := fun f : DartString × DartString => keyOf f.1 == key) hskip]

end HeaderReader

/-- **The headers of a block of fields**: for each name the value of its first field. -/
theorem get_headers {fields : List (DartString × DartString)} {last : DartString × DartString}
    (h : ∀ f ∈ fields ++ [last], FieldName f.1)
    (hlines : ∀ f ∈ fields ++ [last], 10 ∉ fieldLine f ∧ 13 ∉ fieldLine f) (key : DartString) :
    (headers (intercalate crlf ((fields ++ [last]).map fieldLine))).get key =
      ((fields ++ [last]).find? fun f => keyOf f.1 == key).map fun f => trim f.2 := by
  have hsplit : splitLines (intercalate crlf ((fields ++ [last]).map fieldLine)) =
      (fields ++ [last]).map fieldLine := by
    rw [map_append]
    apply splitLines_intercalate
    · intro line hline
      rw [← map_singleton, ← map_append] at hline
      obtain ⟨f, hf, rfl⟩ := mem_map.mp hline
      exact (hlines f hf).1
    · intro line hline
      rw [← map_singleton, ← map_append] at hline
      obtain ⟨f, hf, rfl⟩ := mem_map.mp hline
      exact (hlines f hf).2
  rw [headers, hsplit, HeaderReader.get_foldl h]
  rfl

/-! ### The characters of the lines -/

/-- Printable, and neither of the letters that the marks are told by. -/
def isMild (u : Fin 65536) : Bool := decide (32 ≤ u.val ∧ u.val < 127) && u != 66 && u != 69

abbrev Mild (s : DartString) : Prop := s.all isMild = true

theorem Mild.append {s t : DartString} (hs : Mild s) (ht : Mild t) : Mild (s ++ t) := by
  rw [Mild, all_append, hs, ht]
  rfl

/-- A line before the armored message. -/
structure FrontLine (line : DartString) : Prop where
  printable : ∀ u ∈ line, 32 ≤ u.val ∧ u.val < 127
  no_b : 66 ∉ line
  no_e : NoPair 45 69 line

theorem FrontLine.of_mild (h : Mild line) : FrontLine line := by
  have hunit : ∀ u ∈ line, (32 ≤ u.val ∧ u.val < 127) ∧ u ≠ 66 ∧ u ≠ 69 := by
    intro u hu
    have hmild := all_eq_true.mp h u hu
    simp only [isMild, Bool.and_eq_true, decide_eq_true_eq, bne_iff_ne] at hmild
    exact ⟨hmild.1.1, hmild.1.2, hmild.2⟩
  exact ⟨fun u hu => (hunit u hu).1, fun hu => (hunit _ hu).2.1 rfl,
    noPair_of_right fun hu => (hunit _ hu).2.2 rfl⟩

theorem FrontLine.of_all
    (h : line.all (fun u => decide (32 ≤ u.val ∧ u.val < 127) && u != 66) = true)
    (hpair : NoPair 45 69 line) : FrontLine line := by
  have hunit : ∀ u ∈ line, (32 ≤ u.val ∧ u.val < 127) ∧ u ≠ 66 := by
    intro u hu
    have hall := all_eq_true.mp h u hu
    simp only [Bool.and_eq_true, decide_eq_true_eq, bne_iff_ne] at hall
    exact hall
  exact ⟨fun u hu => (hunit u hu).1, fun hu => (hunit _ hu).2 rfl, hpair⟩

theorem mild_of_plausible {address : DartString} (h : isPlausibleMailAddress address = true) :
    Mild address := by
  refine all_eq_true.mpr fun u hu => ?_
  have hunit := addressUnit_of_plausible h u hu
  have hlow := hunit.low
  have hhigh := hunit.high
  have hcapital := hunit.not_capital
  have h66 : u ≠ 66 := by rintro rfl; revert hcapital; decide
  have h69 : u ≠ 69 := by rintro rfl; revert hcapital; decide
  rw [isMild, bne_iff_ne.mpr h66, bne_iff_ne.mpr h69, decide_eq_true ⟨by omega, by omega⟩]
  rfl

theorem mild_domainOf {sender : DartString} (h : Mild sender) : Mild (domainOf sender) := by
  refine all_eq_true.mpr fun u hu => ?_
  have hmem := (takeWhile_sublist _).mem (mem_reverse.mp hu)
  exact all_eq_true.mp h u (mem_reverse.mp hmem)

theorem mild_token {length : ℕ} (draws : Vector (Fin 36) length) : Mild (token draws) := by
  have halphabet : ∀ draw : Fin 36,
      isMild ((ofString "abcdefghijklmnopqrstuvwxyz0123456789").getD draw 0) = true := by decide
  refine all_eq_true.mpr fun u hu => ?_
  obtain ⟨draw, -, rfl⟩ := mem_map.mp hu
  exact halphabet draw

theorem mild_boundaryOf (draws : MailDraws) : Mild (boundaryOf draws) :=
  Mild.append (by decide) (mild_token _)

theorem mild_of_chars {s : String} (h : ∀ c ∈ s.toList, c.isDigit = true ∨ c = '-') :
    Mild (ofString s) := by
  refine all_eq_true.mpr fun u hu => ?_
  obtain ⟨c, hc, hunit⟩ := mem_flatMap.mp hu
  -- the units of an ASCII character are its code
  have hcode : ∀ n, n < 59 → 44 < n → isMild (Fin.ofNat 65536 n) = true := by decide
  rcases h c hc with hdigit | rfl
  · simp only [Char.isDigit, Bool.and_eq_true, decide_eq_true_eq] at hdigit
    have hlow : 48 ≤ c.toNat := hdigit.1
    have hhigh : c.toNat ≤ 57 := hdigit.2
    unfold unitsOf at hunit
    rw [if_pos (by omega), mem_singleton] at hunit
    rw [hunit]
    exact hcode _ (by omega) (by omega)
  · rw [mem_singleton.mp hunit]
    rfl

theorem mild_decimal (n : ℤ) : Mild (decimal n) := by
  have hrepr : ∀ (m : ℕ) (c : Char), c ∈ (Nat.repr m).toList → c.isDigit = true := by
    intro m c hc
    refine Nat.isDigit_of_mem_toDigits (b := 10) (n := m) (by decide) (by decide) ?_
    rwa [Nat.repr, String.toList_ofList] at hc
  apply mild_of_chars
  intro c hc
  cases n with
  | ofNat m => exact .inl (hrepr m c hc)
  | negSucc m =>
  have hminus : (toString (Int.negSucc m)).toList = '-' :: (Nat.repr (m + 1)).toList := by
    show (("-" : String) ++ Nat.repr (m + 1)).toList = _
    rw [String.toList_append]
    rfl
  rw [hminus] at hc
  rcases mem_cons.mp hc with rfl | hc
  · exact .inr rfl
  · exact .inl (hrepr _ c hc)

theorem mild_two (n : ℕ) : Mild (two n) := by
  refine Mild.append ?_ (mild_decimal n)
  refine all_eq_true.mpr fun u hu => ?_
  rw [(mem_replicate.mp hu).2]
  rfl

theorem mild_rfc5322Date (utc : UtcDate) : Mild (rfc5322Date utc) := by
  have hdays : ∀ day : Fin 7, Mild (days.getD day []) := by decide
  have hmonths : ∀ month : Fin 12, Mild (months.getD month []) := by decide
  refine Mild.append (Mild.append (Mild.append (Mild.append (Mild.append (Mild.append (Mild.append
    (Mild.append (Mild.append (Mild.append (Mild.append (Mild.append (Mild.append (hdays _) ?_)
      (mild_decimal _)) ?_) (hmonths _)) ?_) (mild_decimal _)) ?_) (mild_two _)) ?_) (mild_two _)) ?_)
        (mild_two _)) ?_ <;> decide

/-! ### What stands before the armored message -/

section Layout

variable (digests : Digests) {sender recipient : DartString} (mailboxKey frame : Bytes) (date : UtcDate)
  (draws : MailDraws)

/-- All lines before the armored message. -/
def frontLines (sender recipient : DartString) (date : UtcDate) (draws : MailDraws) :
    List DartString :=
  headerLines sender recipient date draws ++ [contentTypeLine draws] ++ partLines draws

theorem frontLine_headerLines (hsender : isPlausibleMailAddress sender = true)
    (hrecipient : isPlausibleMailAddress recipient = true) :
    ∀ line ∈ headerLines sender recipient date draws, FrontLine line := by
  have hfrom := mild_of_plausible hsender
  have hto := mild_of_plausible hrecipient
  simp only [headerLines, forall_mem_cons]
  refine ⟨.of_mild (.append (.append (by decide) hfrom) (by decide)),
    .of_mild (.append (.append (by decide) hto) (by decide)), .of_mild (by decide),
    .of_mild (.append (by decide) (mild_rfc5322Date date)),
    .of_mild (.append (.append (.append (.append (by decide) (mild_token _)) (by decide))
      (mild_domainOf hfrom)) (by decide)),
    .of_all (by decide) (by decide), forall_mem_nil _⟩

theorem frontLine_contentTypeLine : FrontLine (contentTypeLine draws) :=
  .of_mild (.append (.append (by decide) (mild_boundaryOf draws)) (by decide))

theorem frontLine_partLines : ∀ line ∈ partLines draws, FrontLine line := by
  have hboundary : FrontLine (ofString "--" ++ boundaryOf draws) :=
    .of_mild (.append (by decide) (mild_boundaryOf draws))
  have hempty : FrontLine [] := .of_mild rfl
  simp only [partLines, forall_mem_cons]
  exact ⟨hempty, hboundary, .of_mild (by decide), .of_all (by decide) (by decide), hempty,
    .of_mild (by decide), hempty, hboundary, .of_mild (by decide), .of_mild (by decide),
    .of_mild (by decide), hempty, forall_mem_nil _⟩

theorem frontLine_closingLines : ∀ line ∈ closingLines draws, FrontLine line := by
  simp only [closingLines, forall_mem_cons]
  exact ⟨.of_mild rfl, .of_mild (.append (.append (by decide) (mild_boundaryOf draws)) (by decide)),
    forall_mem_nil _⟩

theorem frontLine_frontLines (hsender : isPlausibleMailAddress sender = true)
    (hrecipient : isPlausibleMailAddress recipient = true) :
    ∀ line ∈ frontLines sender recipient date draws, FrontLine line := by
  intro line hline
  rcases mem_append.mp hline with hline | hline
  · rcases mem_append.mp hline with hline | hline
    · exact frontLine_headerLines date draws hsender hrecipient line hline
    · rw [mem_singleton.mp hline]
      exact frontLine_contentTypeLine draws
  · exact frontLine_partLines draws line hline

/-- The armored message, from mark to mark. -/
def armored (digests : Digests) (mailboxKey frame : Bytes) (draws : MailDraws) : DartString :=
  onLines (OpenPgpArmor.armorLines (sealed digests mailboxKey frame draws)) ++ OpenPgpArmor.endLine

theorem trimRight_encode :
    trimRight (OpenPgpArmor.encode (sealed digests mailboxKey frame draws)) =
      armored digests mailboxKey frame draws := by
  have hlast : ∀ u ∈ (armored digests mailboxKey frame draws).getLast?, isWhitespace u = false := by
    intro u hu
    have hend : OpenPgpArmor.endLine.getLast? = some 45 := by decide
    rw [armored, getLast?_append, hend] at hu
    rw [← Option.some.inj hu]
    decide
  rw [OpenPgpArmor.encode_eq, ← append_assoc, trimRight_append fun u => isWhitespace_of_mem_crlf]
  exact trimRight_of_last hlast

/-- **The layout of a mail**: lines, the armored message, and the closing boundary. -/
theorem build_eq :
    build digests sender recipient mailboxKey frame date draws =
      onLines (frontLines sender recipient date draws) ++
        (armored digests mailboxKey frame draws ++ (crlf ++ onLines (closingLines draws))) := by
  rw [build, trimRight_encode, ← frontLines, intercalate_crlf]
  simp

/-! ### The searches -/

section

variable (h : FrontLine line)

include h

theorem FrontLine.not_mem {u : Fin 65536} (hu : u.val < 32) : u ∉ line :=
  fun hmem => Nat.not_lt.mpr (h.printable u hmem).1 hu

theorem FrontLine.not_lf : 10 ∉ line := h.not_mem (by decide)

theorem FrontLine.not_cr : 13 ∉ line := h.not_mem (by decide)

end

theorem frontLine_fields (hsender : isPlausibleMailAddress sender = true)
    (hrecipient : isPlausibleMailAddress recipient = true) :
    ∀ line ∈ headerLines sender recipient date draws ++ [contentTypeLine draws],
      FrontLine line ∧ line ≠ [] := by
  intro line hline
  rcases mem_append.mp hline with hline | hline
  · refine ⟨frontLine_headerLines date draws hsender hrecipient line hline, ?_⟩
    simp only [headerLines, mem_cons, not_mem_nil, or_false] at hline
    rcases hline with rfl | rfl | rfl | rfl | rfl | rfl <;> exact cons_ne_nil _ _
  · rw [mem_singleton.mp hline]
    exact ⟨frontLine_contentTypeLine draws, cons_ne_nil _ _⟩

theorem noPair_lf_cr {lines : List DartString} (h : ∀ line ∈ lines, FrontLine line ∧ line ≠ []) :
    NoPair 10 13 (onLines lines) := by
  apply noPair_onLines
  · intro line hline
    have hcr : 10 ∉ line ++ [13] := by
      rw [mem_append, not_or]
      exact ⟨(h line hline).1.not_lf, by decide⟩
    have hsplit : line ++ crlf = (line ++ [13]) ++ [10] := by rw [append_assoc]; rfl
    rw [hsplit]
    refine (noPair_of_left hcr).append (noPair_of_right (by decide)) fun _ => ?_
    decide
  · -- the first character of a line is no carriage return
    rintro - line hline hhead
    obtain ⟨hfront, hne⟩ := h line hline
    rw [head?_append_of_ne_nil _ hne] at hhead
    exact hfront.not_cr (mem_of_mem_head? hhead)

section

variable (hsender : isPlausibleMailAddress sender = true)
  (hrecipient : isPlausibleMailAddress recipient = true)

include hsender hrecipient

theorem headerEnd_build : ∃ rest, build digests sender recipient mailboxKey frame date draws =
        intercalate crlf (headerLines sender recipient date draws ++ [contentTypeLine draws]) ++
          rest ∧
      headerEnd (build digests sender recipient mailboxKey frame date draws) =
        some (intercalate crlf
          (headerLines sender recipient date draws ++ [contentTypeLine draws])).length := by
  have hpair := noPair_lf_cr (frontLine_fields date draws hsender hrecipient)
  have hpart : partLines draws = [] :: (partLines draws).tail := rfl
  rw [build_eq, frontLines, hpart, onLines_append, onLines_cons, nil_append]
  generalize headerLines sender recipient date draws = lines at hpair ⊢
  generalize onLines (partLines draws).tail = parts
  generalize armored digests mailboxKey frame draws ++ (crlf ++ onLines (closingLines draws)) = message
  have hjoin : onLines (lines ++ [contentTypeLine draws]) =
      intercalate crlf (lines ++ [contentTypeLine draws]) ++ crlf := by
    rw [intercalate_crlf, onLines_append, onLines_cons, onLines_nil, append_nil,
      append_assoc]
  rw [hjoin] at hpair ⊢
  generalize intercalate crlf (lines ++ [contentTypeLine draws]) = block at hpair ⊢
  refine ⟨crlf ++ (crlf ++ parts) ++ message, by simp, ?_⟩
  have hfound : indexOf ([13] ++ 10 :: 13 :: [10])
      (block ++ (([13] ++ 10 :: 13 :: [10]) ++ (parts ++ message))) = some block.length :=
    indexOf_of_pair _ hpair
  have htext : block ++ crlf ++ (crlf ++ parts) ++ message =
      block ++ (([13] ++ 10 :: 13 :: [10]) ++ (parts ++ message)) := by
    simp[crlf, append_assoc, cons_append, nil_append]
  have hmark : crlf ++ crlf = [13] ++ 10 :: 13 :: [10] := rfl
  rw [headerEnd, htext, hmark, hfound]
  rfl

theorem begin_build :
    indexOf OpenPgpArmor.beginLine (build digests sender recipient mailboxKey frame date draws) =
      some (onLines (frontLines sender recipient date draws)).length := by
  have hfront := frontLine_frontLines date draws hsender hrecipient
  rw [build_eq]
  generalize frontLines sender recipient date draws = lines at hfront ⊢
  have hmark : OpenPgpArmor.beginLine =
      ofString "----" ++ 45 :: 66 :: ofString "EGIN PGP MESSAGE-----" := by decide
  have hstart : ∃ rest, armored digests mailboxKey frame draws = OpenPgpArmor.beginLine ++ rest := by
    exact ⟨_, rfl⟩
  obtain ⟨rest, hrest⟩ := hstart
  have hpair : NoPair 45 66 (onLines lines ++ (ofString "----" ++ [45])) := by
    apply noPair_of_right
    rw [mem_append, not_or]
    refine ⟨fun hmem => ?_, by decide⟩
    obtain ⟨line, hline, hu | hu⟩ := mem_onLines.mp hmem
    · exact (hfront line hline).no_b hu
    · exact absurd hu (by decide)
  rw [hrest, append_assoc, hmark]
  exact indexOf_of_pair _ hpair

theorem end_build :
    indexOf OpenPgpArmor.endLine (build digests sender recipient mailboxKey frame date draws) =
      some ((onLines (frontLines sender recipient date draws)).length +
        (onLines (OpenPgpArmor.armorLines (sealed digests mailboxKey frame draws))).length) := by
  have hfront := frontLine_frontLines date draws hsender hrecipient
  rw [build_eq]
  generalize frontLines sender recipient date draws = lines at hfront ⊢
  have hmark : OpenPgpArmor.endLine =
      ofString "----" ++ 45 :: 69 :: ofString "ND PGP MESSAGE-----" := by decide
  have hline : ∀ line ∈ lines ++ OpenPgpArmor.armorLines (sealed digests mailboxKey frame draws),
      NoPair 45 69 line := by
    intro line hmem
    rcases mem_append.mp hmem with hmem | hmem
    · exact (hfront line hmem).no_e
    · exact OpenPgpArmor.noPair_of_mem_armorLines line hmem
  have hlines : NoPair 45 69
      (onLines (lines ++ OpenPgpArmor.armorLines (sealed digests mailboxKey frame draws))) := by
    refine noPair_onLines (fun line hmem => ?_) (fun h => absurd h (by decide))
    exact (hline line hmem).append (noPair_of_right (by decide)) fun _ => by decide
  have hpair : NoPair 45 69
      (onLines (lines ++ OpenPgpArmor.armorLines (sealed digests mailboxKey frame draws)) ++
        (ofString "----" ++ [45])) :=
    hlines.append (noPair_of_right (by decide)) fun _ => by decide
  have htext : onLines lines ++ (armored digests mailboxKey frame draws ++
      (crlf ++ onLines (closingLines draws))) =
        onLines (lines ++ OpenPgpArmor.armorLines (sealed digests mailboxKey frame draws)) ++
          (OpenPgpArmor.endLine ++ (crlf ++ onLines (closingLines draws))) := by
    rw [armored, onLines_append]
    simp
  rw [htext, hmark, indexOf_of_pair _ hpair, onLines_append, length_append]

end

/-! ### The headers that are read -/

/-- The fields of the header lines. -/
def mailFields (sender recipient : DartString) (date : UtcDate) (draws : MailDraws) :
    List (DartString × DartString) :=
  [(ofString "From", 32 :: 60 :: (sender ++ [62])),
    (ofString "To", ofString " <" ++ recipient ++ ofString ">"),
    (ofString "Subject", ofString " [...]"),
    (ofString "Date", ofString " " ++ rfc5322Date date),
    (ofString "Message-ID", ofString " <" ++ token draws.messageId ++ ofString "@" ++
      domainOf sender ++ ofString ">"),
    (ofString "MIME-Version", ofString " 1.0")]

def contentTypeField (draws : MailDraws) : DartString × DartString :=
  (ofString "Content-Type",
    ofString " multipart/encrypted; protocol=\"application/pgp-encrypted\"; boundary=\"" ++
      boundaryOf draws ++ ofString "\"")

theorem map_fieldLine :
    (mailFields sender recipient date draws ++ [contentTypeField draws]).map fieldLine =
      headerLines sender recipient date draws ++ [contentTypeLine draws] := by
  have hfrom : ofString "From: <" = ofString "From" ++ 58 :: [32, 60] := by decide
  have hto : ofString "To: <" = ofString "To" ++ 58 :: ofString " <" := by decide
  have hsubject : ofString "Subject: [...]" = ofString "Subject" ++ 58 :: ofString " [...]" := by decide
  have hdate : ofString "Date: " = ofString "Date" ++ 58 :: ofString " " := by decide
  have hid : ofString "Message-ID: <" = ofString "Message-ID" ++ 58 :: ofString " <" := by decide
  have hmime : ofString "MIME-Version: 1.0" = ofString "MIME-Version" ++ 58 :: ofString " 1.0" := by
    decide
  have htype : ofString
      "Content-Type: multipart/encrypted; protocol=\"application/pgp-encrypted\"; boundary=\"" =
      ofString "Content-Type" ++ 58 :: ofString
        " multipart/encrypted; protocol=\"application/pgp-encrypted\"; boundary=\"" := by decide
  have hclose : ofString ">" = [62] := by decide
  simp[mailFields, contentTypeField, headerLines, contentTypeLine, fieldLine,
    map_cons, map_nil, hfrom, hto, hsubject, hdate, hid, hmime, htype, hclose,
    append_assoc, cons_append, nil_append]

theorem fieldName_of_mem :
    ∀ f ∈ mailFields sender recipient date draws ++ [contentTypeField draws], FieldName f.1 := by
  have hname : ∀ name : DartString, (decide (name ≠ []) && !name.contains 58 &&
      (name.head? != some 32 && name.head? != some 9)) = true → FieldName name := by
    intro name h
    simp only [Bool.and_eq_true, decide_eq_true_eq, Bool.not_eq_true', bne_iff_ne] at h
    refine ⟨h.1.1, fun hmem => ?_, h.2⟩
    rw [contains_iff_mem.mpr hmem] at h
    cases h.1.2
  simp only [mailFields, contentTypeField, cons_append, nil_append, forall_mem_cons]
  refine ⟨hname _ ?_, hname _ ?_, hname _ ?_, hname _ ?_, hname _ ?_, hname _ ?_, hname _ ?_,
    forall_mem_nil _⟩ <;> decide

theorem headers_build (hsender : isPlausibleMailAddress sender = true)
    (hrecipient : isPlausibleMailAddress recipient = true) :
    let fields := headers (intercalate crlf
      (headerLines sender recipient date draws ++ [contentTypeLine draws]))
    fields.get (ofString "from") = some (60 :: (sender ++ [62])) ∧
      ∃ type, fields.get (ofString "content-type") = some type ∧
        ofString "multipart/encrypted" <+: toLowerCase type := by
  have hfront := frontLine_fields date draws hsender hrecipient
  have hlines : ∀ f ∈ mailFields sender recipient date draws ++ [contentTypeField draws],
      10 ∉ fieldLine f ∧ 13 ∉ fieldLine f := by
    intro f hf
    have hmem := mem_map_of_mem (f := fieldLine) hf
    rw [map_fieldLine] at hmem
    exact ⟨(hfront _ hmem).1.not_lf, (hfront _ hmem).1.not_cr⟩
  have hget := get_headers (@fieldName_of_mem sender recipient date draws) hlines
  rw [map_fieldLine] at hget
  intro fields
  constructor
  · -- the first field is the sender's
    have hkey : keyOf (ofString "From") = ofString "from" := by decide
    have htrim : trim (32 :: 60 :: (sender ++ [62])) = 60 :: (sender ++ [62]) := by
      rw [trim_cons rfl]
      refine trim_of_ends (fun u hu => ?_) fun u hu => ?_
      · rw [← Option.some.inj hu]
        rfl
      · rw [← cons_append, getLast?_append] at hu
        rw [← Option.some.inj hu]
        rfl
    rw [hget, mailFields, cons_append]
    exact congrArg some htrim
  · have hnone : (mailFields sender recipient date draws).find?
        (fun f => keyOf f.1 == ofString "content-type") = none := by
      rw [find?_eq_none]
      simp only [mailFields, forall_mem_cons]
      refine ⟨?_, ?_, ?_, ?_, ?_, ?_, forall_mem_nil _⟩ <;> decide
    have hkey : (keyOf (contentTypeField draws).1 == ofString "content-type") = true := by
      have hname : keyOf (ofString "Content-Type") = ofString "content-type" := by decide
      exact beq_iff_eq.mpr hname
    have hfind : [contentTypeField draws].find? (fun f => keyOf f.1 == ofString "content-type") =
        some (contentTypeField draws) := by
      rw [find?_singleton, if_pos hkey]
    rw [hget]
    refine ⟨trim (contentTypeField draws).2, rfl, ?_⟩
    have hvalue : (contentTypeField draws).2 = 32 :: (ofString "multipart/encrypted" ++
        (ofString "; protocol=\"application/pgp-encrypted\"; boundary=\"" ++ (boundaryOf draws ++ [34]))) := by
      have hfront : ofString " multipart/encrypted; protocol=\"application/pgp-encrypted\"; boundary=\"" =
          32 :: (ofString "multipart/encrypted" ++
            ofString "; protocol=\"application/pgp-encrypted\"; boundary=\"") := by decide
      have hquote : ofString "\"" = [34] := by decide
      rw [contentTypeField, hfront, hquote]
      simp
    have hlower : toLowerCase (ofString "multipart/encrypted") = ofString "multipart/encrypted" := by
      decide
    rw [hvalue, trim_cons rfl, trim_of_ends]
    · exact ⟨_, congrArg (· ++ _) hlower.symm⟩
    · intro u hu
      rw [← Option.some.inj hu]
      rfl
    · intro u hu
      rw [← append_assoc, ← append_assoc, getLast?_append] at hu
      rw [← Option.some.inj hu]
      rfl

/-! ### The round trip -/

theorem length_le_packet (tag : ℕ) (body : Bytes) : body.length ≤ (OpenPgp.packet tag body).length := by
  rw [OpenPgp.packet, length_cons, length_append]
  omega

theorem length_le_sealed : frame.length < (sealed digests mailboxKey frame draws).length := by
  have hliteral := length_le_packet 11 (OpenPgpSymmetric.literalBody (carrierMailVersion :: frame))
  have hbody : (OpenPgpSymmetric.literalBody (carrierMailVersion :: frame)).length =
      6 + (frame.length + 1) := length_append
  rw [sealed, OpenPgpSymmetric.encrypt, length_append]
  refine Nat.lt_of_lt_of_le ?_ (Nat.le_add_left _ _)
  refine Nat.lt_of_lt_of_le ?_ (length_le_packet 18 _)
  rw [OpenPgpSymmetric.length_sealData]
  omega

section

variable (hsender : isPlausibleMailAddress sender = true)
  (hrecipient : isPlausibleMailAddress recipient = true)

include hsender hrecipient

theorem latin1_build :
    ∀ u ∈ build digests sender recipient mailboxKey frame date draws, u.val < 256 := by
  have hlines : ∀ lines : List DartString, (∀ line ∈ lines, ∀ u ∈ line, u.val < 256) →
      ∀ u ∈ onLines lines, u.val < 256 := by
    intro lines h u hu
    obtain ⟨line, hline, hu | hu⟩ := mem_onLines.mp hu
    · exact h line hline u hu
    · have hcrlf : crlf.all (fun u => decide (u.val < 256)) = true := by decide
      exact of_decide_eq_true (all_eq_true.mp hcrlf u hu)
  have hfront : ∀ line : DartString, FrontLine line → ∀ u ∈ line, u.val < 256 := fun line h u hu =>
    Nat.lt_of_lt_of_le (h.printable u hu).2 (by decide)
  have hend : ∀ u ∈ OpenPgpArmor.endLine ++ crlf, u.val < 256 := by
    have hall : (OpenPgpArmor.endLine ++ crlf).all (fun u => decide (u.val < 256)) = true := by decide
    exact fun u hu => of_decide_eq_true (all_eq_true.mp hall u hu)
  intro u hu
  rw [build_eq, armored] at hu
  rcases mem_append.mp hu with hu | hu
  · exact hlines _ (fun line hline =>
      hfront line (frontLine_frontLines date draws hsender hrecipient line hline)) u hu
  rw [append_assoc, ← append_assoc OpenPgpArmor.endLine] at hu
  rcases mem_append.mp hu with hu | hu
  · exact hlines _ (fun line hline u hu => OpenPgpArmor.latin1_of_mem_armorLines line hline u hu) u hu
  rcases mem_append.mp hu with hu | hu
  · exact hend u hu
  · exact hlines _ (fun line hline => hfront line (frontLine_closingLines draws line hline)) u hu

theorem openFrame_build (hframe : frame ≠ [])
    (hlength : (build digests sender recipient mailboxKey frame date draws).length ≤
      maxCarrierMailBytes) :
    openFrame digests (build digests sender recipient mailboxKey frame date draws) mailboxKey =
      some frame := by
  have hsealed := length_le_sealed digests mailboxKey frame draws
  -- what fits into a mail is far below the limits of the layers under it
  have hsmall : (sealed digests mailboxKey frame draws).length ≤ maxCarrierMailBytes := by
    refine Nat.le_trans ?_ hlength
    rw [build_eq, armored]
    simp only [length_append, OpenPgpArmor.length_armorLines, DartString.length_base64Encode]
    omega
  unfold maxCarrierMailBytes at hsmall
  have hdecode : OpenPgpArmor.decode (armored digests mailboxKey frame draws)
      OpenPgpArmor.maxDecodedBytes = some (sealed digests mailboxKey frame draws) := by
    rw [armored, ← append_nil OpenPgpArmor.endLine]
    refine OpenPgpArmor.decode_armorLines ?_ (le_refl _) (.inl rfl)
    unfold OpenPgpArmor.maxDecodedBytes
    omega
  have hdecrypt : OpenPgpSymmetric.decrypt digests (sealed digests mailboxKey frame draws) mailboxKey =
      some (carrierMailVersion :: frame) := by
    refine OpenPgpSymmetric.decrypt_encrypt digests draws.salt draws.random mailboxKey ?_
    rw [length_cons]
    omega
  have hcut : ((build digests sender recipient mailboxKey frame date draws).take
      ((onLines (frontLines sender recipient date draws)).length +
        (onLines (OpenPgpArmor.armorLines (sealed digests mailboxKey frame draws))).length +
        OpenPgpArmor.endLine.length)).drop (onLines (frontLines sender recipient date draws)).length =
      armored digests mailboxKey frame draws := by
    have hend : (onLines (frontLines sender recipient date draws)).length +
        (onLines (OpenPgpArmor.armorLines (sealed digests mailboxKey frame draws))).length +
        OpenPgpArmor.endLine.length =
        (onLines (frontLines sender recipient date draws) ++
          armored digests mailboxKey frame draws).length := by
      rw [length_append, armored, length_append, Nat.add_assoc]
    rw [hend, build_eq, ← append_assoc, take_left, drop_left]
  rw [openFrame, begin_build digests mailboxKey frame date draws hsender hrecipient, Option.bind_some,
    end_build digests mailboxKey frame date draws hsender hrecipient, Option.bind_some,
    if_neg (Nat.not_lt.mpr (Nat.le_add_right _ _)), hcut, hdecode, Option.bind_some, hdecrypt,
    Option.bind_some, if_neg]
  · rfl
  · have hpos := length_pos_iff.mpr hframe
    rw [not_or, length_cons]
    exact ⟨by omega, fun h => h rfl⟩

/-- **A frame mailed is the frame read**, with the sender it was mailed from. -/
theorem read_build (hframe : frame ≠ []) :
    ∃ raw, toLatin1 (build digests sender recipient mailboxKey frame date draws) = some raw ∧
      (raw.length ≤ maxCarrierMailBytes → read digests raw mailboxKey = some (sender, frame)) := by
  obtain ⟨raw, hraw, htext, hlength⟩ := ofLatin1_toLatin1
    (latin1_build digests mailboxKey frame date draws hsender hrecipient)
  refine ⟨raw, hraw, fun hmax => ?_⟩
  obtain ⟨rest, hsplit, hend⟩ := headerEnd_build digests mailboxKey frame date draws hsender hrecipient
  obtain ⟨hfrom, type, htype, hencrypted⟩ := headers_build date draws hsender hrecipient
  have hopen := openFrame_build digests mailboxKey frame date draws hsender hrecipient hframe
    (hlength ▸ hmax)
  have htake : (build digests sender recipient mailboxKey frame date draws).take
      (intercalate crlf
        (headerLines sender recipient date draws ++ [contentTypeLine draws])).length =
      intercalate crlf (headerLines sender recipient date draws ++ [contentTypeLine draws]) := by
    rw [hsplit, take_left]
  rw [read, if_neg (Nat.not_lt.mpr hmax)]
  simp[htext, hend, Option.bind_some, htake, hfrom, htype, Option.getD_some, if_pos hencrypted,
    parseMailAddress_of_plausible hsender, hopen, Option.map_some]

end

theorem length_build_le :
    (build digests sender recipient mailboxKey frame date draws).length ≤
      (onLines (frontLines sender recipient date draws)).length +
        (onLines (closingLines draws)).length + 2 * frame.length + 300 := by
  have hinner := OpenPgpSymmetric.length_packet_le 11
    (OpenPgpSymmetric.literalBody (carrierMailVersion :: frame))
  have hbody : (OpenPgpSymmetric.literalBody (carrierMailVersion :: frame)).length =
      6 + (frame.length + 1) := length_append
  have hskesk := OpenPgpSymmetric.length_packet_le 3 (OpenPgpSymmetric.skeskBody draws.salt)
  rw [OpenPgpSymmetric.length_skeskBody] at hskesk
  have hsealed : (sealed digests mailboxKey frame draws).length ≤ frame.length + 79 := by
    rw [sealed, OpenPgpSymmetric.encrypt, length_append]
    have hseipd := OpenPgpSymmetric.length_packet_le 18 (OpenPgpSymmetric.sealData digests
      (OpenPgpSymmetric.s2k digests mailboxKey draws.salt.toList
        (OpenPgpSymmetric.countBytes OpenPgpSymmetric.s2kCount.toNat)) draws.random
      (OpenPgp.packet 11 (OpenPgpSymmetric.literalBody (carrierMailVersion :: frame))))
    rw [OpenPgpSymmetric.length_sealData] at hseipd
    omega
  have hlines := OpenPgpArmor.length_bodyLines_le (base64Encode (sealed digests mailboxKey frame draws))
  have hencoded := DartString.length_base64Encode (sealed digests mailboxKey frame draws)
  have hend : OpenPgpArmor.endLine.length = 25 := by decide
  have hcrlf : crlf.length = 2 := rfl
  rw [build_eq, armored]
  simp only [length_append, OpenPgpArmor.length_armorLines]
  omega

end Layout

/-- **The carriage of frames by mail**, and the layers under it: packets, armor and encryption are each
read back, and a mail is read as the frame and the sender it was built from. -/
theorem carriage_round_trip (digests : Digests) :
    (∀ (sender recipient : DartString) (mailboxKey frame : Bytes) (date : UtcDate) (draws : MailDraws),
      isPlausibleMailAddress sender = true → isPlausibleMailAddress recipient = true → frame ≠ [] →
      ∃ raw, toLatin1 (build digests sender recipient mailboxKey frame date draws) = some raw ∧
        (raw.length ≤ maxCarrierMailBytes → read digests raw mailboxKey = some (sender, frame))) ∧
    (∀ packets : List (ℕ × Bytes), (∀ p ∈ packets, p.1 < 64 ∧ p.2.length < 2 ^ 32) →
      packets.length ≤ OpenPgp.maxPackets →
      OpenPgp.readPackets (packets.flatMap fun p => OpenPgp.packet p.1 p.2) = some packets) ∧
    (∀ (data : Bytes) (decodedLimit : ℤ), data.length ≤ decodedLimit →
      decodedLimit ≤ OpenPgpArmor.maxDecodedBytes →
      OpenPgpArmor.decode (OpenPgpArmor.encode data) decodedLimit = some data) ∧
    (∀ (salt : Vector UInt8 8) (random : Vector UInt8 16) (data password : Bytes),
      data.length < 2 ^ 31 →
      OpenPgpSymmetric.decrypt digests (OpenPgpSymmetric.encrypt digests salt random data password)
        password = some data) := by
  refine ⟨?_, ?_, ?_, ?_⟩
  · intro sender recipient mailboxKey frame date draws hsender hrecipient hframe
    exact read_build digests mailboxKey frame date draws hsender hrecipient hframe
  · intro packets hpackets hcount
    exact OpenPgp.readPackets_writePackets hpackets hcount
  · intro data decodedLimit hdata hlimit
    exact OpenPgpArmor.decode_encode hdata hlimit
  · intro salt random data password hdata
    exact OpenPgpSymmetric.decrypt_encrypt digests salt random password hdata

namespace Sample

def digests : Digests := ⟨fun _ => Vector.replicate 32 0, fun _ => Vector.replicate 20 0⟩

def date : UtcDate := ⟨2026, 0, 31, 5, 9, 5, 0⟩

def draws : MailDraws :=
  ⟨Vector.replicate 24 3, Vector.replicate 20 30, Vector.replicate 8 1, Vector.replicate 16 2⟩

theorem frame_arrives : ∃ raw,
    toLatin1 (build digests (ofString "a-b@chat.test") (ofString "c@d.e") [1, 2] [7, 8, 9] date draws) =
      some raw ∧
    read digests raw [1, 2] = some (ofString "a-b@chat.test", [7, 8, 9]) := by
  obtain ⟨raw, hraw, hread⟩ := (carriage_round_trip digests).1 (ofString "a-b@chat.test")
    (ofString "c@d.e") [1, 2] [7, 8, 9] date draws (by decide) (by decide) (cons_ne_nil _ _)
  refine ⟨raw, hraw, hread ?_⟩
  have hlength : raw.length =
      (build digests (ofString "a-b@chat.test") (ofString "c@d.e") [1, 2] [7, 8, 9] date draws).length := by
    unfold toLatin1 at hraw
    split at hraw
    · rw [← Option.some.inj hraw, length_map]
    · cases hraw
  have hfront : (onLines (frontLines (ofString "a-b@chat.test") (ofString "c@d.e") date draws)).length ≤
      1000 := by decide +kernel
  have hclosing : (onLines (closingLines draws)).length ≤ 100 := by decide
  have hbound := @length_build_le digests (ofString "a-b@chat.test") (ofString "c@d.e") [1, 2] [7, 8, 9]
    date draws
  unfold maxCarrierMailBytes
  rw [length_cons, length_cons, length_cons, length_nil] at hbound
  omega

end Sample

end CarrierMail
end Mail
end Conest
