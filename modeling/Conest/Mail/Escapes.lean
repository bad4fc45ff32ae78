import Conest.Lib.Escapes

/-!
# Escapes in mail

`decodeQuotedPrintable` and `_percentDecode` are scans for a `=` and for a `%`. Both read the two
characters after it with `int.tryParse`, so a sign or white space next to one digit also passes for
a number, and a byte comes out that nobody wrote. A text is read as the escapes in it say exactly
when no marker in it is followed by such a pair (`decodeQuotedPrintable_eq_iff`,
`percentDecode_eq_iff`); an encoding of bytes holds none, and gives them back.
-/

open Lib DartString List Option

namespace Conest
namespace Mail

/-! ### What the code does -/

variable {u v : Fin 65536}

/-- `unit & 0xff`. -/
def lowByte (u : Fin 65536) : UInt8 := UInt8.ofNat u.val

/-- What the loop of `decodeQuotedPrintable` does at a `=`, by the text after it: what it adds, and
by how much more the index moves. -/
def softOrNumber (after : DartString) : Option (Bytes × ℕ) :=
  if after.head? = some 10 then some ([], 1)
  else if after.take 2 = crlf then some ([], 2)
  else if 2 ≤ after.length then
    (intTryParse16 (after.take 2)).map fun value => ([UInt8.ofInt value], 2)
  else none

def decodeQuotedPrintable (text : DartString) : Bytes := scan 61 softOrNumber lowByte 0 text

/-- What the loop of `_percentDecode` does at a `%`. -/
def number (after : DartString) : Option (List ℤ × ℕ) :=
  if 2 ≤ after.length then (intTryParse16 (after.take 2)).map fun value => ([value], 2)
  else none

def percentDecode (text : DartString) : List ℤ :=
  scan 37 number (fun u => ((lowByte u).toNat : ℤ)) 0 text

/-! ### What the escapes say -/

/-- The byte that two hexadecimal digits stand for. -/
def hexPair? : DartString → Option UInt8
  | u :: v :: _ => (hexDigit? u).bind fun a => (hexDigit? v).map fun b => UInt8.ofNat (16 * a + b)
  | _ => none

/-- The escapes of quoted-printable text: soft line breaks, and bytes by two hexadecimal digits. -/
def softOrHex (after : DartString) : Option (Bytes × ℕ) :=
  if after.head? = some 10 then some ([], 1)
  else if after.take 2 = crlf then some ([], 2)
  else (hexPair? after).map fun byte => ([byte], 2)

def quotedPrintableBytes (text : DartString) : Bytes := scan 61 softOrHex lowByte 0 text

/-- The escapes of percent encoding. -/
def hexByte (after : DartString) : Option (List ℤ × ℕ) :=
  (hexPair? after).map fun byte => ([(byte.toNat : ℤ)], 2)

def percentBytes (text : DartString) : List ℤ :=
  scan 37 hexByte (fun u => ((lowByte u).toNat : ℤ)) 0 text

/-! ### The pairs that pass for a number -/

/-- One hexadecimal digit, after a sign or next to white space. -/
def IsLenient (u v : Fin 65536) : Prop :=
  (u = 43 ∨ u = 45 ∨ isWhitespace u = true) ∧ (hexDigit? v).isSome ∨
    (hexDigit? u).isSome ∧ isWhitespace v = true

instance (u v : Fin 65536) : Decidable (IsLenient u v) := inferInstanceAs (Decidable (_ ∨ _))

theorem hexDigit?_of_isWhitespace (h : isWhitespace u = true) : hexDigit? u = none := by
  simp only [isWhitespace, Bool.or_eq_true, decide_eq_true_eq, contains_eq_mem,
    mem_cons, not_mem_nil, or_false] at h
  simp only [hexDigit?]
  rw [if_neg (by omega), if_neg (by omega), if_neg (by omega)]

theorem hexDigit?_lt {a : ℕ} (h : hexDigit? u = some a) : a < 16 := by
  simp only [hexDigit?] at h
  split_ifs at h with h₁ h₂ h₃ <;> simp only [some.injEq] at h <;> omega

theorem isWhitespace_of_hexDigit (h : (hexDigit? u).isSome) : isWhitespace u = false := by
  by_contra hspace
  rw [Bool.not_eq_false] at hspace
  rw [hexDigit?_of_isWhitespace hspace] at h
  exact absurd h (by decide)

theorem sign_facts (h : u = 43 ∨ u = 45) : hexDigit? u = none ∧ isWhitespace u = false := by
  obtain rfl | rfl := h <;> decide

theorem hexDigits?_singleton (u : Fin 65536) : hexDigits? [u] = hexDigit? u := by
  cases h : hexDigit? u <;> simp [hexDigits?, h]

theorem hexDigits?_pair (u v : Fin 65536) :
    hexDigits? [u, v] = (hexDigit? u).bind fun a => (hexDigit? v).map fun b => 16 * a + b := by
  cases h : hexDigit? u <;> cases h' : hexDigit? v <;> simp [hexDigits?, h, h']

theorem trim_pair : trim [u, v] = if isWhitespace u then if isWhitespace v then [] else [v]
      else if isWhitespace v then [u] else [u, v] := by
  cases hu : isWhitespace u <;> cases hv : isWhitespace v <;> simp [trim, hu, hv]

theorem intTryParse16_single {s : DartString} (h : trim s = [u]) :
    intTryParse16 s = (hexDigit? u).map fun n => (n : ℤ) := by
  rw [intTryParse16, h]
  by_cases hsign : u = 43 ∨ u = 45
  · rw [(sign_facts hsign).1]
    simp [hsign]
  · simp [hsign, hexDigits?_singleton]

theorem intTryParse16_pair (u v : Fin 65536) :
    (∃ a b, hexDigit? u = some a ∧ hexDigit? v = some b ∧
        intTryParse16 [u, v] = some ((16 * a + b : ℕ) : ℤ)) ∨
      ((hexDigit? u).bind fun _ => hexDigit? v) = none ∧ IsLenient u v ∧
        (intTryParse16 [u, v]).isSome ∨
      ((hexDigit? u).bind fun _ => hexDigit? v) = none ∧ ¬ IsLenient u v ∧
        intTryParse16 [u, v] = none := by
  -- By what the trimming leaves of the pair.
  have htrim := trim_pair (u := u) (v := v)
  cases hu : isWhitespace u with
  | true =>
    have hdu := hexDigit?_of_isWhitespace hu
    cases hv : isWhitespace v with
    | true =>
      have hdv := hexDigit?_of_isWhitespace hv
      rw [hu, hv] at htrim
      refine .inr (.inr ⟨by rw [hdu]; rfl, by simp [IsLenient, hdu, hdv], ?_⟩)
      simp [intTryParse16, htrim]
    | false =>
    rw [hu, hv] at htrim
    have hparse := intTryParse16_single htrim
    cases hdv : hexDigit? v with
    | none =>
      exact .inr (.inr ⟨by rw [hdu]; rfl, by simp [IsLenient, hdu, hdv],
        by rw [hparse, hdv]; rfl⟩)
    | some b =>
      exact .inr (.inl ⟨by rw [hdu]; rfl, by simp [IsLenient, hu, hdv],
        by rw [hparse, hdv]; rfl⟩)
  | false =>
    cases hv : isWhitespace v with
    | true =>
      have hdv := hexDigit?_of_isWhitespace hv
      rw [hu, hv] at htrim
      have hparse := intTryParse16_single htrim
      cases hdu : hexDigit? u with
      | none =>
        exact .inr (.inr ⟨rfl, by simp [IsLenient, hdu, hdv], by rw [hparse, hdu]; rfl⟩)
      | some a =>
        exact .inr (.inl ⟨hdv, by simp [IsLenient, hv, hdu], by rw [hparse, hdu]; rfl⟩)
    | false =>
    rw [hu, hv] at htrim
    by_cases hsign : u = 43 ∨ u = 45
    · have hdu := (sign_facts hsign).1
      have hparse : intTryParse16 [u, v] =
          (hexDigit? v).map fun n => if u = 45 then -(n : ℤ) else n := by
        simp [intTryParse16, htrim, hsign, hexDigits?_singleton]
      cases hdv : hexDigit? v with
      | none =>
        exact .inr (.inr ⟨by rw [hdu]; rfl, by simp [IsLenient, hdu, hdv],
          by rw [hparse, hdv]; rfl⟩)
      | some b =>
        refine .inr (.inl ⟨by rw [hdu]; rfl, .inl ⟨?_, by rw [hdv]; rfl⟩,
          by rw [hparse, hdv]; rfl⟩)
        exact hsign.imp_right .inl
    · have hparse : intTryParse16 [u, v] = (hexDigits? [u, v]).map fun n => (n : ℤ) := by
        simp [intTryParse16, htrim, hsign]
      rw [hexDigits?_pair] at hparse
      have hnot : ¬ IsLenient u v := by
        simp [IsLenient, hsign, hu, hv]
      cases hdu : hexDigit? u with
      | none => exact .inr (.inr ⟨rfl, hnot, by rw [hparse, hdu]; rfl⟩)
      | some a =>
        cases hdv : hexDigit? v with
        | none => exact .inr (.inr ⟨rfl, hnot, by rw [hparse, hdu, hdv]; rfl⟩)
        | some b => exact .inl ⟨a, b, rfl, rfl, by rw [hparse, hdu, hdv]; rfl⟩

/-! ### Reading as the escapes say -/

theorem hexPair?_eq (u v : Fin 65536) (rest : DartString) :
    hexPair? (u :: v :: rest) =
      (hexDigit? u).bind fun a => (hexDigit? v).map fun b => UInt8.ofNat (16 * a + b) := rfl

theorem intTryParse16_of_hexPair {after : DartString} {byte : UInt8}
    (h : hexPair? after = some byte) :
    2 ≤ after.length ∧ intTryParse16 (after.take 2) = some (byte.toNat : ℤ) := by
  match after, h with
  | u :: v :: rest, h =>
    obtain ⟨a, ha, h⟩ := bind_eq_some_iff.mp h
    obtain ⟨b, hb, rfl⟩ := map_eq_some_iff.mp h
    refine ⟨by simp, ?_⟩
    have hlt : 16 * a + b < 256 := by
      have := hexDigit?_lt ha
      have := hexDigit?_lt hb
      omega
    change intTryParse16 [u, v] = _
    obtain ⟨a', b', ha', hb', hparse⟩ | ⟨hnone, -⟩ | ⟨hnone, -⟩ := intTryParse16_pair u v
    · rw [ha] at ha'
      rw [hb] at hb'
      rw [hparse, ← some.inj ha', ← some.inj hb', UInt8.toNat_ofNat_of_lt' hlt]
    · rw [ha, hb] at hnone
      simp at hnone
    · rw [ha, hb] at hnone
      simp at hnone

theorem ofInt_toNat (byte : UInt8) : UInt8.ofInt byte.toNat = byte := by
  have hlt := byte.toNat_lt
  have hmod : ((byte.toNat : ℤ) % 2 ^ 8).toNat = byte.toNat := by omega
  rw [UInt8.ofInt, hmod, UInt8.ofNat_toNat]

/-- The text starts with a pair that only passes for a number. -/
def StartsLenient : DartString → Prop
  | u :: v :: _ => IsLenient u v
  | _ => False

theorem not_startsLenient {after : DartString} {byte : UInt8} (h : hexPair? after = some byte) :
    ¬ StartsLenient after := by
  match after, h with
  | u :: v :: rest, h =>
    obtain ⟨a, ha, h⟩ := bind_eq_some_iff.mp h
    obtain ⟨b, hb, -⟩ := map_eq_some_iff.mp h
    have hu := isWhitespace_of_hexDigit (by rw [ha]; rfl)
    have hv := isWhitespace_of_hexDigit (by rw [hb]; rfl)
    have hsign : ¬ (u = 43 ∨ u = 45) := by
      intro hsign
      rw [(sign_facts hsign).1] at ha
      simp at ha
    change ¬ IsLenient u v
    simp [IsLenient, hu, hv, hsign]

theorem startsLenient_iff {after : DartString} (h : hexPair? after = none) :
    StartsLenient after ↔ 2 ≤ after.length ∧ (intTryParse16 (after.take 2)).isSome := by
  match after, h with
  | [], _ => simp [StartsLenient]
  | [_], _ => simp [StartsLenient]
  | u :: v :: rest, h =>
    rw [and_iff_right (by simp)]
    change IsLenient u v ↔ (intTryParse16 [u, v]).isSome
    obtain ⟨a, b, ha, hb, -⟩ | ⟨-, hlenient, hsome⟩ | ⟨-, hlenient, hnone⟩ := intTryParse16_pair u v
    · rw [hexPair?_eq, ha, hb] at h
      simp at h
    · exact iff_of_true hlenient hsome
    · rw [hnone]
      exact iff_of_false hlenient (by simp)

theorem marker_not_mem {marker : Fin 65536} (hdigit : hexDigit? marker = none)
    (hspace : isWhitespace marker = false) (hsign : marker ≠ 43 ∧ marker ≠ 45) {after : DartString}
    (hlen : 2 ≤ after.length) (h : (intTryParse16 (after.take 2)).isSome) :
    marker ∉ after.take 2 := by
  match after, hlen with
  | u :: v :: rest, _ =>
    change marker ∉ [u, v]
    change (intTryParse16 [u, v]).isSome at h
    rw [mem_cons, mem_singleton]
    obtain ⟨a, b, ha, hb, -⟩ | ⟨-, hlenient, -⟩ | ⟨-, -, hnone⟩ := intTryParse16_pair u v
    · rintro (rfl | rfl)
      · rw [hdigit] at ha
        simp at ha
      · rw [hdigit] at hb
        simp at hb
    · rintro (rfl | rfl) <;> simp [IsLenient, hdigit, hspace, hsign] at hlenient
    · rw [hnone] at h
      simp at h

/-! #### After a percent sign -/

theorem number_eq_some {after : DartString} {r : List ℤ × ℕ} :
    number after = some r ↔
      2 ≤ after.length ∧ ∃ value, intTryParse16 (after.take 2) = some value ∧ ([value], 2) = r := by
  unfold number
  split_ifs with hlen
  · rw [map_eq_some_iff, and_iff_right hlen]
  · exact iff_of_false (by simp) fun h => hlen h.1

theorem number_of_hexByte (after : DartString) (r : List ℤ × ℕ) (h : hexByte after = some r) :
    number after = some r := by
  obtain ⟨byte, hbyte, rfl⟩ := map_eq_some_iff.mp h
  obtain ⟨hlen, hparse⟩ := intTryParse16_of_hexPair hbyte
  exact number_eq_some.mpr ⟨hlen, _, hparse, rfl⟩

theorem contained_number : Contained 37 number := by
  intro after out skip h
  obtain ⟨hlen, value, hvalue, hr⟩ := number_eq_some.mp h
  obtain ⟨-, rfl⟩ := Prod.mk.inj hr
  exact ⟨hlen, marker_not_mem (by decide) (by decide) (by decide) hlen (by rw [hvalue]; rfl)⟩

theorem number_eq_iff {after : DartString} :
    number after = hexByte after ↔ ¬ StartsLenient after := by
  cases hpair : hexPair? after with
  | some byte =>
    have hstrict : hexByte after = some ([(byte.toNat : ℤ)], 2) := by
      rw [hexByte, hpair]
      rfl
    exact iff_of_true ((number_of_hexByte after _ hstrict).trans hstrict.symm)
      (not_startsLenient hpair)
  | none =>
  have hstrict : hexByte after = none := by
    rw [hexByte, hpair]
    rfl
  rw [hstrict, startsLenient_iff hpair, number]
  split_ifs with hlen
  · rw [map_eq_none_iff, and_iff_right hlen, not_isSome_iff_eq_none]
  · exact iff_of_true rfl fun h => hlen h.1

/-! #### After an equals sign -/

theorem softOrNumber_eq_some {after : DartString} {r : Bytes × ℕ}
    (h : softOrNumber after = some r) :
    after.head? = some 10 ∧ r = ([], 1) ∨ after.take 2 = crlf ∧ r = ([], 2) ∨
      2 ≤ after.length ∧ (intTryParse16 (after.take 2)).isSome ∧ r.1.length = 1 ∧ r.2 = 2 := by
  unfold softOrNumber at h
  split_ifs at h with hline hcrlf hlen
  · exact .inl ⟨hline, (some.inj h).symm⟩
  · exact .inr (.inl ⟨hcrlf, (some.inj h).symm⟩)
  · obtain ⟨value, hvalue, rfl⟩ := map_eq_some_iff.mp h
    exact .inr (.inr ⟨hlen, by rw [hvalue]; rfl, rfl, rfl⟩)

theorem softOrNumber_of_softOrHex (after : DartString) (r : Bytes × ℕ)
    (h : softOrHex after = some r) : softOrNumber after = some r := by
  unfold softOrHex at h
  unfold softOrNumber
  split_ifs at h ⊢ with hline hcrlf hlen
  · exact h
  · exact h
  · obtain ⟨byte, hbyte, rfl⟩ := map_eq_some_iff.mp h
    rw [(intTryParse16_of_hexPair hbyte).2, map_some, ofInt_toNat]
  · obtain ⟨byte, hbyte, -⟩ := map_eq_some_iff.mp h
    exact absurd (intTryParse16_of_hexPair hbyte).1 hlen

theorem contained_softOrNumber : Contained 61 softOrNumber := by
  intro after out skip h
  obtain ⟨hline, hr⟩ | ⟨hcrlf, hr⟩ | ⟨hlen, hparse, -, hskip⟩ := softOrNumber_eq_some h
  · obtain ⟨-, rfl⟩ := Prod.mk.inj hr
    match after, hline with
    | u :: rest, hline =>
      obtain rfl := some.inj hline
      exact ⟨by simp, by change (61 : Fin 65536) ∉ [10]; decide⟩
  · obtain ⟨-, rfl⟩ := Prod.mk.inj hr
    refine ⟨?_, by rw [hcrlf]; decide⟩
    have := congrArg length hcrlf
    rw [length_take] at this
    change min 2 after.length = 2 at this
    omega
  · change skip = 2 at hskip
    subst hskip
    exact ⟨hlen, marker_not_mem (by decide) (by decide) (by decide) hlen hparse⟩

theorem softOrNumber_eq_iff {after : DartString} :
    softOrNumber after = softOrHex after ↔ (after.head? ≠ some 10 → ¬ StartsLenient after) := by
  unfold softOrNumber softOrHex
  split_ifs with hline hcrlf hlen
  · exact iff_of_true rfl fun h => absurd hline h
  · refine iff_of_true rfl fun _ => ?_
    match after, hcrlf with
    | u :: v :: rest, hcrlf =>
      obtain ⟨rfl, htail⟩ := cons.inj hcrlf
      obtain ⟨rfl, -⟩ := cons.inj htail
      change ¬ IsLenient 13 10
      decide
  · cases hpair : hexPair? after with
    | some byte =>
      refine iff_of_true ?_ fun _ => not_startsLenient hpair
      rw [(intTryParse16_of_hexPair hpair).2, map_some, ofInt_toNat]
      rfl
    | none =>
      rw [startsLenient_iff hpair, imp_iff_right hline, map_none, map_eq_none_iff,
        and_iff_right hlen, not_isSome_iff_eq_none]
  · cases hpair : hexPair? after with
    | some byte => exact absurd (intTryParse16_of_hexPair hpair).1 hlen
    | none =>
      rw [startsLenient_iff hpair]
      exact iff_of_true rfl fun _ h => hlen h.1

/-! ### Texts and encodings -/

/-- No marker of the text is followed by a pair that only passes for a number. -/
def NoLenient (marker : Fin 65536) (text : DartString) : Prop :=
  ∀ front after, text = front ++ marker :: after → ¬ StartsLenient after

/-- No `=` of the text, one that ends its line apart, is followed by such a pair. -/
def NoLenientWithin (text : DartString) : Prop :=
  ∀ front after, text = front ++ 61 :: after → after.head? ≠ some 10 → ¬ StartsLenient after

theorem decodeQuotedPrintable_eq_iff (text : DartString) :
    decodeQuotedPrintable text = quotedPrintableBytes text ↔ NoLenientWithin text := by
  have hshort : ∀ after out skip, softOrNumber after = some (out, skip) → softOrHex after = none →
      out.length < skip + 1 := by
    intro after out skip h _
    obtain ⟨-, hr⟩ | ⟨-, hr⟩ | ⟨-, -, hlen, hskip⟩ := softOrNumber_eq_some h
    · obtain ⟨rfl, -⟩ := Prod.mk.inj hr
      exact Nat.succ_pos _
    · obtain ⟨rfl, -⟩ := Prod.mk.inj hr
      exact Nat.succ_pos _
    · dsimp only at hlen hskip
      omega
  apply (scan_eq_iff contained_softOrNumber softOrNumber_of_softOrHex hshort text).trans
  exact forall_congr' fun front => forall_congr' fun after =>
    imp_congr_right fun _ => softOrNumber_eq_iff

theorem percentDecode_eq_iff (text : DartString) :
    percentDecode text = percentBytes text ↔ NoLenient 37 text := by
  have hshort : ∀ after out skip, number after = some (out, skip) → hexByte after = none →
      out.length < skip + 1 := by
    intro after out skip h _
    obtain ⟨-, value, -, hr⟩ := number_eq_some.mp h
    obtain ⟨rfl, rfl⟩ := Prod.mk.inj hr
    simp
  apply (scan_eq_iff contained_number number_of_hexByte hshort text).trans
  exact forall_congr' fun front => forall_congr' fun after =>
    imp_congr_right fun _ => number_eq_iff

/-- The text is a quoted-printable encoding of the bytes. -/
inductive QuotedPrintable : Bytes → DartString → Prop
  | nil : QuotedPrintable [] []
  | plain {bytes : Bytes} {text : DartString} (u : Fin 65536) (hu : u ≠ 61)
      (h : QuotedPrintable bytes text) : QuotedPrintable (lowByte u :: bytes) (u :: text)
  | hex {bytes : Bytes} {text : DartString} (u v : Fin 65536) (byte : UInt8)
      (hbyte : hexPair? [u, v] = some byte) (h : QuotedPrintable bytes text) :
      QuotedPrintable (byte :: bytes) (61 :: u :: v :: text)
  | softLine {bytes : Bytes} {text : DartString} (h : QuotedPrintable bytes text) :
      QuotedPrintable bytes (61 :: 10 :: text)
  | softCrlf {bytes : Bytes} {text : DartString} (h : QuotedPrintable bytes text) :
      QuotedPrintable bytes (61 :: 13 :: 10 :: text)

/-- The text is a percent encoding of the bytes. -/
inductive PercentEncoded : Bytes → DartString → Prop
  | nil : PercentEncoded [] []
  | plain {bytes : Bytes} {text : DartString} (u : Fin 65536) (hu : u ≠ 37)
      (h : PercentEncoded bytes text) : PercentEncoded (lowByte u :: bytes) (u :: text)
  | hex {bytes : Bytes} {text : DartString} (u v : Fin 65536) (byte : UInt8)
      (hbyte : hexPair? [u, v] = some byte) (h : PercentEncoded bytes text) :
      PercentEncoded (byte :: bytes) (37 :: u :: v :: text)

theorem ne_break_of_hexPair {byte : UInt8} (h : hexPair? [u, v] = some byte) : u ≠ 10 ∧ u ≠ 13 := by
  obtain ⟨a, ha, -⟩ := bind_eq_some_iff.mp h
  constructor <;> rintro rfl <;> revert ha <;> decide +revert

theorem decodeQuotedPrintable_of_encoding {bytes : Bytes} {text : DartString}
    (h : QuotedPrintable bytes text) : decodeQuotedPrintable text = bytes := by
  induction h with
  | nil => rfl
  | plain u hu _ ih =>
    rw [decodeQuotedPrintable, scan_plain hu]
    exact congrArg _ ih
  | @hex bytes text u v byte hbyte _ ih =>
    have hpair : hexPair? (u :: v :: text) = some byte := hbyte
    obtain ⟨h10, h13⟩ := ne_break_of_hexPair hbyte
    have hsoft : softOrHex (u :: v :: text) = some ([byte], 2) := by
      rw [softOrHex, if_neg (by simpa using h10), if_neg (by simp [crlf, h13]), hpair]
      rfl
    rw [decodeQuotedPrintable, scan_escape (softOrNumber_of_softOrHex _ _ hsoft)]
    exact congrArg _ ih
  | @softLine bytes text _ ih =>
    exact ih
  | @softCrlf bytes text _ ih =>
    exact ih

theorem percentDecode_of_encoding {bytes : Bytes} {text : DartString}
    (h : PercentEncoded bytes text) :
    percentDecode text = bytes.map fun byte => (byte.toNat : ℤ) := by
  induction h with
  | nil => rfl
  | plain u hu _ ih =>
    rw [percentDecode, scan_plain hu]
    exact congrArg _ ih
  | @hex bytes text u v byte hbyte _ ih =>
  have hpair : hexPair? (u :: v :: text) = some byte := hbyte
  have hescape : hexByte (u :: v :: text) = some ([(byte.toNat : ℤ)], 2) := by
    rw [hexByte, hpair]
    rfl
  rw [percentDecode, scan_escape (number_of_hexByte _ _ hescape)]
  exact congrArg _ ih

/-- The escapes of mail are read as what they say exactly where no marker is followed by one
hexadecimal digit beside a sign or white space; encodings of bytes give the bytes back. -/
theorem escapes_decode_iff (text : DartString) (bytes : Bytes) :
    (decodeQuotedPrintable text = quotedPrintableBytes text ↔ NoLenientWithin text) ∧
    (percentDecode text = percentBytes text ↔ NoLenient 37 text) ∧
    (QuotedPrintable bytes text → decodeQuotedPrintable text = bytes) ∧
    (PercentEncoded bytes text →
      percentDecode text = bytes.map fun byte => (byte.toNat : ℤ)) :=
  ⟨decodeQuotedPrintable_eq_iff text, percentDecode_eq_iff text,
    decodeQuotedPrintable_of_encoding, percentDecode_of_encoding⟩

theorem escapes_decode_letter :
    decodeQuotedPrintable (ofString "=41") = [65] ∧ percentDecode (ofString "%4a") = [74] :=
  ⟨(escapes_decode_iff _ [65]).2.2.1 (.hex 52 49 65 rfl .nil),
    (escapes_decode_iff _ [74]).2.2.2 (.hex 52 97 74 rfl .nil)⟩

theorem sign_swallowed :
    decodeQuotedPrintable (ofString "x=+5") = [120, 5] ∧
      quotedPrintableBytes (ofString "x=+5") = [120, 61, 43, 53] ∧
      percentDecode (ofString "%-1") = [-1] ∧ percentBytes (ofString "%-1") = [37, 45, 49] := by
  decide

end Mail
end Conest
