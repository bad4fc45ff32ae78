import Conest.Lib.Dart

/-!
# UTF-8 of Dart strings

A Dart string is well formed when its surrogates pair up, and then it is the text of a sequence of
characters (`scalars`). `utf8Encode` writes them in UTF-8 and puts U+FFFD in the place of a
surrogate that pairs with nothing; `utf8Decode` refuses what is not UTF-8 and drops a byte order
mark in front, as `dart:convert` does. `utf8DecodeMalformed` reads anything. So a well-formed string
is read back by both unless it begins with that mark (`utf8Decode_utf8Encode`,
`utf8DecodeMalformed_utf8Encode`), and bytes that are read are
the bytes of what was read unless they begin with it (`utf8Decode_eq_some`).
-/

namespace Lib

open List Option
namespace DartString

/-! ### Characters -/

variable {s : DartString} {u : Fin 65536}

def isHighSurrogate (u : Fin 65536) : Bool := decide (0xD800 ≤ u.val ∧ u.val < 0xDC00)

def isLowSurrogate (u : Fin 65536) : Bool := decide (0xDC00 ≤ u.val ∧ u.val < 0xE000)

/-- The character of a surrogate pair. -/
def pairChar (u v : Fin 65536) : Char :=
  Char.ofNat (0x10000 + (u.val - 0xD800) * 0x400 + (v.val - 0xDC00))

/-- The character of a unit on its own. -/
def unitChar (u : Fin 65536) : Char :=
  if isHighSurrogate u || isLowSurrogate u then Char.ofNat 0xFFFD else Char.ofNat u.val

/-- The characters of a string. -/
def scalars : DartString → List Char
  | [] => []
  | [u] => [unitChar u]
  | u :: v :: rest =>
    if isHighSurrogate u && isLowSurrogate v then pairChar u v :: scalars rest
    else unitChar u :: scalars (v :: rest)

/-- The string of a sequence of characters. -/
def ofChars (cs : List Char) : DartString := cs.flatMap unitsOf

/-- Every surrogate is one of a pair. -/
def WellFormed (s : DartString) : Prop := ofChars (scalars s) = s

instance (s : DartString) : Decidable (WellFormed s) :=
  inferInstanceAs (Decidable (ofChars (scalars s) = s))

/-! ### The two directions -/

def utf8Encode (s : DartString) : Bytes := (scalars s).flatMap String.utf8EncodeChar

/-- The byte order mark, as a code unit. -/
def byteOrderMark : Fin 65536 := ⟨0xFEFF, by decide⟩

/-- Without a byte order mark in front. -/
def dropMark : DartString → DartString
  | [] => []
  | u :: s => if u = byteOrderMark then s else u :: s

theorem dropMark_cons (u : Fin 65536) (s : DartString) :
    dropMark (u :: s) = if u = byteOrderMark then s else u :: s := rfl

/-- `utf8.decode`, `none` where it throws. -/
def utf8Decode (bytes : Bytes) : Option DartString :=
  (bytes.toByteArray.utf8Decode?).map fun cs => dropMark (ofChars cs.toList)

/-- The rest of a character: `need` bytes, the first of them between the bounds. What breaks it off
is left, and what there was of it is one U+FFFD. -/
def malformedRest : ℕ → UInt8 → UInt8 → ℕ → Bytes → Char × Bytes
  | 0, _, _, value, rest => (Char.ofNat value, rest)
  | need + 1, low, high, value, byte :: rest =>
    if low ≤ byte ∧ byte ≤ high then
      malformedRest need 0x80 0xBF (value * 64 + (byte.toNat - 0x80)) rest
    else (Char.ofNat 0xFFFD, byte :: rest)
  | _ + 1, _, _, _, [] => (Char.ofNat 0xFFFD, [])

/-- The character that begins with a byte. -/
def malformedChar (byte : UInt8) (rest : Bytes) : Char × Bytes :=
  if byte < 0x80 then (Char.ofNat byte.toNat, rest)
  else if byte < 0xC2 then (Char.ofNat 0xFFFD, rest)
  else if byte < 0xE0 then malformedRest 1 0x80 0xBF (byte.toNat - 0xC0) rest
  else if byte < 0xF0 then
    malformedRest 2 (if byte = 0xE0 then 0xA0 else 0x80) (if byte = 0xED then 0x9F else 0xBF)
      (byte.toNat - 0xE0) rest
  else if byte < 0xF5 then
    malformedRest 3 (if byte = 0xF0 then 0x90 else 0x80) (if byte = 0xF4 then 0x8F else 0xBF)
      (byte.toNat - 0xF0) rest
  else (Char.ofNat 0xFFFD, rest)

/-- The characters of some bytes. Each takes one byte or more, so their number is fuel enough. -/
def malformedChars : ℕ → Bytes → List Char
  | fuel + 1, byte :: rest =>
    let (c, rest) := malformedChar byte rest
    c :: malformedChars fuel rest
  | _, _ => []

/-- `utf8.decode` with `allowMalformed`. -/
def utf8DecodeMalformed (bytes : Bytes) : DartString :=
  dropMark (ofChars (malformedChars bytes.length bytes))

/-! ### Characters and their units -/

theorem not_surrogate_of_char (c : Char) :
    c.toNat < 0xD800 ∨ 0xDFFF < c.toNat ∧ c.toNat < 0x110000 :=
  c.valid

theorem unitsOf_small {c : Char} (h : c.toNat < 0x10000) :
    ∃ u, unitsOf c = [u] ∧ isHighSurrogate u = false ∧ isLowSurrogate u = false ∧
      unitChar u = c := by
  have hvalid := not_surrogate_of_char c
  have hval : (Fin.ofNat 65536 c.toNat).val = c.toNat := Nat.mod_eq_of_lt h
  have hhigh : isHighSurrogate (Fin.ofNat 65536 c.toNat) = false := by
    unfold isHighSurrogate
    rw [decide_eq_false_iff_not]
    omega
  have hlow : isLowSurrogate (Fin.ofNat 65536 c.toNat) = false := by
    unfold isLowSurrogate
    rw [decide_eq_false_iff_not]
    omega
  refine ⟨Fin.ofNat 65536 c.toNat, if_pos h, hhigh, hlow, ?_⟩
  unfold unitChar
  rw [hhigh, hlow, Bool.or_self, if_neg Bool.false_ne_true, hval, Char.ofNat_toNat]

theorem unitsOf_large {c : Char} (h : ¬ c.toNat < 0x10000) :
    ∃ u v, unitsOf c = [u, v] ∧ isHighSurrogate u = true ∧ isLowSurrogate v = true ∧
      pairChar u v = c := by
  have hvalid := not_surrogate_of_char c
  have hu : (Fin.ofNat 65536 (0xD800 + (c.toNat - 0x10000) / 0x400)).val =
      0xD800 + (c.toNat - 0x10000) / 0x400 := Nat.mod_eq_of_lt (by omega)
  have hv : (Fin.ofNat 65536 (0xDC00 + (c.toNat - 0x10000) % 0x400)).val =
      0xDC00 + (c.toNat - 0x10000) % 0x400 := Nat.mod_eq_of_lt (by omega)
  refine ⟨_, _, if_neg h, ?_, ?_, ?_⟩
  · unfold isHighSurrogate
    rw [decide_eq_true_eq]
    omega
  · unfold isLowSurrogate
    rw [decide_eq_true_eq]
    omega
  · have hsum : 0x10000 + (0xD800 + (c.toNat - 0x10000) / 0x400 - 0xD800) * 0x400 +
        (0xDC00 + (c.toNat - 0x10000) % 0x400 - 0xDC00) = c.toNat := by omega
    unfold pairChar
    rw [hu, hv, hsum, Char.ofNat_toNat]

theorem scalars_cons (h : isHighSurrogate u = false) (s : DartString) :
    scalars (u :: s) = unitChar u :: scalars s := by
  cases s with
  | nil => rfl
  | cons v rest => rw [scalars, h, Bool.false_and, if_neg Bool.false_ne_true]

@[simp] theorem ofChars_cons (c : Char) (cs : List Char) :
    ofChars (c :: cs) = unitsOf c ++ ofChars cs := flatMap_cons

theorem scalars_ofChars (cs : List Char) : scalars (ofChars cs) = cs := by
  induction cs with
  | nil => rfl
  | cons c cs ih =>
  rw [ofChars_cons]
  by_cases h : c.toNat < 0x10000
  · obtain ⟨u, hunits, hhigh, -, hchar⟩ := unitsOf_small h
    rw [hunits, singleton_append, scalars_cons hhigh, hchar, ih]
  · obtain ⟨u, v, hunits, hhigh, hlow, hchar⟩ := unitsOf_large h
    rw [hunits, cons_append, singleton_append, scalars, hhigh, hlow, Bool.and_self,
      if_pos rfl, hchar, ih]

theorem wellFormed_ofChars (cs : List Char) : WellFormed (ofChars cs) := by
  unfold WellFormed
  rw [scalars_ofChars]

/-! ### Well-formed strings -/

theorem wellFormed_iff : WellFormed s ↔ ∃ cs, s = ofChars cs := by
  constructor
  · exact fun h => ⟨scalars s, h.symm⟩
  · rintro ⟨cs, rfl⟩
    exact wellFormed_ofChars cs

theorem WellFormed.append {t : DartString} (hs : WellFormed s) (ht : WellFormed t) :
    WellFormed (s ++ t) := by
  obtain ⟨cs, rfl⟩ := wellFormed_iff.mp hs
  obtain ⟨ds, rfl⟩ := wellFormed_iff.mp ht
  exact wellFormed_iff.mpr ⟨cs ++ ds, flatMap_append.symm⟩

theorem wellFormed_nil : WellFormed [] := rfl

theorem wellFormed_singleton (h : (isHighSurrogate u || isLowSurrogate u) = false) :
    WellFormed [u] := by
  have hbounds : u.val < 0xD800 ∨ 0xE000 ≤ u.val := by
    rw [Bool.or_eq_false_iff] at h
    have hhigh := of_decide_eq_false h.1
    have hlow := of_decide_eq_false h.2
    omega
  have hvalid : u.val.isValidChar := by
    rcases hbounds with hlt | hge
    · exact .inl hlt
    · exact .inr ⟨by omega, by omega⟩
  have hchar : (unitChar u).toNat = u.val := by
    unfold unitChar
    rw [if_neg (by rw [h]; exact Bool.false_ne_true), Char.toNat_ofNat, if_pos hvalid]
  refine wellFormed_iff.mpr ⟨[unitChar u], ?_⟩
  unfold ofChars unitsOf
  rw [flatMap_singleton, hchar, if_pos u.isLt]
  exact congrArg (fun v => [v]) (Fin.ext (Nat.mod_eq_of_lt u.isLt).symm)

theorem wellFormed_of_small (h : ∀ u ∈ s, u.val < 0xD800) : WellFormed s := by
  induction s with
  | nil => exact wellFormed_nil
  | cons u s ih =>
  have hu : (isHighSurrogate u || isLowSurrogate u) = false := by
    have := h u mem_cons_self
    rw [Bool.or_eq_false_iff]
    exact ⟨decide_eq_false (by omega), decide_eq_false (by omega)⟩
  exact (wellFormed_singleton hu).append (ih fun v hv => h v (mem_cons_of_mem _ hv))

theorem WellFormed.cons_small (hu : u.val < 0xD800) (hs : WellFormed s) : WellFormed (u :: s) :=
  @WellFormed.append [u] s (wellFormed_of_small fun v hv => by
    rw [mem_singleton.mp hv]
    exact hu) hs

theorem wellFormed_pair {v : Fin 65536} (hu : isHighSurrogate u = true)
    (hv : isLowSurrogate v = true) : WellFormed [u, v] := by
  have hhigh := of_decide_eq_true hu
  have hlow := of_decide_eq_true hv
  have hchar : (pairChar u v).toNat =
      0x10000 + (u.val - 0xD800) * 0x400 + (v.val - 0xDC00) := by
    unfold pairChar
    rw [Char.toNat_ofNat, if_pos (.inr ⟨by omega, by omega⟩)]
  refine wellFormed_iff.mpr ⟨[pairChar u v], ?_⟩
  unfold ofChars unitsOf
  rw [flatMap_singleton, if_neg (by omega)]
  refine congrArg₂ (fun a b => [a, b]) (Fin.ext ?_) (Fin.ext ?_)
  · refine Eq.trans ?_ (Nat.mod_eq_of_lt (by omega)).symm
    omega
  · refine Eq.trans ?_ (Nat.mod_eq_of_lt (by omega)).symm
    omega

/-! ### Encoding and decoding -/

theorem utf8Encode_ofChars (cs : List Char) :
    utf8Encode (ofChars cs) = cs.flatMap String.utf8EncodeChar := by
  unfold utf8Encode
  rw [scalars_ofChars]

theorem length_scalars_le (s : DartString) : (scalars s).length ≤ s.length := by
  induction s using scalars.induct with
  | case1 => exact Nat.le_refl 0
  | case2 u => exact Nat.le_refl 1
  | case3 u v rest h ih =>
    rw [scalars, if_pos h, length_cons, length_cons, length_cons]
    omega
  | case4 u v rest h ih =>
    rw [scalars, if_neg h]
    exact Nat.succ_le_succ ih

theorem length_utf8Encode_le (s : DartString) : (utf8Encode s).length ≤ 4 * s.length := by
  have hchars : ∀ cs : List Char, (cs.flatMap String.utf8EncodeChar).length ≤ 4 * cs.length := by
    intro cs
    induction cs with
    | nil => exact Nat.le_refl 0
    | cons c cs ih =>
      have hc := Char.utf8Size_le_four c
      rw [flatMap_cons, length_append, String.length_utf8EncodeChar, length_cons]
      omega
  calc (utf8Encode s).length ≤ 4 * (scalars s).length := hchars _
    _ ≤ 4 * s.length := Nat.mul_le_mul_left 4 (length_scalars_le s)
/-- **A well-formed string is read back**, but for a byte order mark in front. -/
theorem utf8Decode_utf8Encode (h : WellFormed s) :
    utf8Decode (utf8Encode s) = some (dropMark s) := by
  have hdecode : ((utf8Encode s).toByteArray.utf8Decode?) = some (scalars s).toArray :=
    utf8Decode?_utf8Encode
  unfold utf8Decode
  rw [hdecode]
  exact congrArg (fun t => some (dropMark t)) h

/-- **Bytes that are read** are those of a well-formed string, and what is read is that string but
for a byte order mark in front. -/
theorem utf8Decode_eq_some {bytes : Bytes} (h : utf8Decode bytes = some s) :
    ∃ t, WellFormed t ∧ utf8Encode t = bytes ∧ s = dropMark t := by
  obtain ⟨cs, hcs, rfl⟩ := map_eq_some_iff.mp h
  refine ⟨ofChars cs.toList, wellFormed_ofChars _, ?_, rfl⟩
  have hsome : (bytes.toByteArray.utf8Decode?).isSome = true := by
    rw [hcs]
    rfl
  have hback := ByteArray.utf8Encode_get_utf8Decode? (h := hsome)
  have hget : (bytes.toByteArray.utf8Decode?).get hsome = cs := by
    simp [hcs]
  rw [hget] at hback
  rw [utf8Encode_ofChars]
  have hlist := congrArg (fun b : ByteArray => b.data.toList) hback
  simpa [List.utf8Encode] using hlist

theorem dropMark_eq_self : dropMark s = s ↔ s.head? ≠ some byteOrderMark := by
  cases s with
  | nil => exact iff_of_true rfl (by simp)
  | cons u s =>
  rw [dropMark_cons, head?_cons, Ne, some.injEq]
  constructor
  · intro h hu
    rw [if_pos hu] at h
    exact absurd (congrArg length h) (by simp)
  · exact fun hu => if_neg hu

/-! ### Bytes with a mark in front -/

/-- Bytes of a text that begins with a byte order mark. -/
def StartsWithMark (bytes : Bytes) : Prop := ∃ t, bytes = utf8Encode (byteOrderMark :: t)

theorem utf8Encode_mark (s : DartString) :
    utf8Encode (byteOrderMark :: s) =
      String.utf8EncodeChar (unitChar byteOrderMark) ++ utf8Encode s := by
  unfold utf8Encode
  rw [scalars_cons (by decide), flatMap_cons]

theorem utf8Decode_mark (s : DartString) :
    utf8Decode (utf8Encode (byteOrderMark :: s)) = some (ofChars (scalars s)) := by
  have hunits : unitsOf (unitChar byteOrderMark) = [byteOrderMark] := by decide
  have hchars : ofChars (unitChar byteOrderMark :: scalars s) =
      byteOrderMark :: ofChars (scalars s) := by
    rw [ofChars_cons, hunits, singleton_append]
  have hbytes : utf8Encode (byteOrderMark :: s) =
      utf8Encode (byteOrderMark :: ofChars (scalars s)) := by
    unfold utf8Encode
    rw [scalars_cons (by decide), scalars_cons (by decide), scalars_ofChars]
  rw [hbytes, utf8Decode_utf8Encode (hchars ▸ wellFormed_ofChars _)]
  rw [dropMark_cons, if_pos rfl]

/-- **What is read is written as it stood** unless a byte order mark was in front. -/
theorem utf8Encode_of_decode {bytes : Bytes} (h : utf8Decode bytes = some s) :
    utf8Encode s = bytes ↔ ¬ StartsWithMark bytes := by
  constructor
  · rintro hs ⟨t, rfl⟩
    rw [utf8Decode_mark, some.injEq] at h
    subst h
    have hlength := congrArg length hs
    have hpos : 0 < (String.utf8EncodeChar (unitChar byteOrderMark)).length := by decide
    rw [utf8Encode_ofChars, utf8Encode_mark, length_append] at hlength
    exact absurd hlength (by change (utf8Encode t).length ≠ _; omega)
  intro hmark
  obtain ⟨t, -, rfl, rfl⟩ := utf8Decode_eq_some h
  rw [dropMark_eq_self.mpr]
  rintro hhead
  cases t with
  | nil => cases hhead
  | cons u t =>
    obtain rfl : u = byteOrderMark := some.inj hhead
    exact hmark ⟨t, rfl⟩

theorem decode_eq_nil {bytes : Bytes} (h : utf8Decode bytes = some s) (hbytes : bytes ≠ []) :
    s = [] ↔ bytes = utf8Encode [byteOrderMark] := by
  constructor
  · rintro rfl
    obtain ⟨t, -, rfl, hdrop⟩ := utf8Decode_eq_some h
    match t, hdrop with
    | [], _ => exact absurd rfl hbytes
    | u :: t, hdrop =>
      rw [dropMark_cons] at hdrop
      by_cases hu : u = byteOrderMark
      · rw [if_pos hu] at hdrop
        rw [hu, ← hdrop]
      · rw [if_neg hu] at hdrop
        exact nomatch hdrop
  · rintro rfl
    exact (some.inj h).symm

/-! ### Reading what may be malformed -/

theorem toNat_byte {n : ℕ} (h : n < 256) : (UInt8.ofNat n).toNat = n := UInt8.toNat_ofNat_of_lt' h

theorem malformedChar_ofNat {n : ℕ} (h : n < 256) (rest : Bytes) :
    malformedChar (UInt8.ofNat n) rest =
      if n < 0x80 then (Char.ofNat n, rest)
      else if n < 0xC2 then (Char.ofNat 0xFFFD, rest)
      else if n < 0xE0 then malformedRest 1 0x80 0xBF (n - 0xC0) rest
      else if n < 0xF0 then
        malformedRest 2 (if n = 0xE0 then 0xA0 else 0x80) (if n = 0xED then 0x9F else 0xBF)
          (n - 0xE0) rest
      else if n < 0xF5 then
        malformedRest 3 (if n = 0xF0 then 0x90 else 0x80) (if n = 0xF4 then 0x8F else 0xBF)
          (n - 0xF0) rest
      else (Char.ofNat 0xFFFD, rest) := by
  unfold malformedChar
  simp only [UInt8.lt_iff_toNat_lt, ← UInt8.toNat_inj, toNat_byte h]
  rfl

theorem malformedRest_succ {need d value : ℕ} {low high : UInt8} (hd : d < 64)
    (hlow : low.toNat ≤ d + 0x80) (hhigh : d + 0x80 ≤ high.toNat) (rest : Bytes) :
    malformedRest (need + 1) low high value (UInt8.ofNat (d + 0x80) :: rest) =
      malformedRest need 0x80 0xBF (value * 64 + d) rest := by
  have hbyte : (UInt8.ofNat (d + 0x80)).toNat = d + 0x80 := toNat_byte (by omega)
  have hin : low ≤ UInt8.ofNat (d + 0x80) ∧ UInt8.ofNat (d + 0x80) ≤ high := by
    rw [UInt8.le_iff_toNat_le, UInt8.le_iff_toNat_le, hbyte]
    exact ⟨hlow, hhigh⟩
  rw [malformedRest, if_pos hin, hbyte, Nat.add_sub_cancel]

theorem malformedRest_next {need d value : ℕ} (hd : d < 64) (rest : Bytes) :
    malformedRest (need + 1) 0x80 0xBF value (UInt8.ofNat (d + 0x80) :: rest) =
      malformedRest need 0x80 0xBF (value * 64 + d) rest :=
  malformedRest_succ hd (by change 0x80 ≤ _; omega) (by change _ ≤ 0xBF; omega) rest

theorem malformedChar_utf8EncodeChar (c : Char) (rest : Bytes) :
    ∃ byte front, String.utf8EncodeChar c = byte :: front ∧
      malformedChar byte (front ++ rest) = (c, rest) := by
  have hvalid := not_surrogate_of_char c
  have hback : Char.ofNat c.toNat = c := Char.ofNat_toNat c
  have hval : c.val.toNat = c.toNat := rfl
  unfold String.utf8EncodeChar
  rw [hval]
  generalize c.toNat = v at *
  dsimp only
  -- By the number of bytes.
  split_ifs with h₁ h₂ h₃
  · refine ⟨_, [], rfl, ?_⟩
    rw [malformedChar_ofNat (by omega), if_pos (by omega), hback, nil_append]
  · refine ⟨_, _, rfl, ?_⟩
    have hvalue : (v / 64 % 32 + 0xC0 - 0xC0) * 64 + v % 64 = v := by omega
    rw [malformedChar_ofNat (by omega), if_neg (by omega), if_neg (by omega), if_pos (by omega),
      cons_append, nil_append, malformedRest_next (by omega), hvalue, malformedRest,
      hback]
  · refine ⟨_, _, rfl, ?_⟩
    have hvalue : ((v / 4096 % 16 + 0xE0 - 0xE0) * 64 + v / 64 % 64) * 64 + v % 64 = v := by omega
    rw [malformedChar_ofNat (by omega), if_neg (by omega), if_neg (by omega), if_neg (by omega),
      if_pos (by omega), cons_append, cons_append, nil_append, malformedRest_succ,
      malformedRest_next (by omega), hvalue, malformedRest, hback]
    · omega
    · split_ifs
      · change 0xA0 ≤ _
        omega
      · change 0x80 ≤ _
        omega
    · split_ifs
      · change _ ≤ 0x9F
        omega
      · change _ ≤ 0xBF
        omega
  · refine ⟨_, _, rfl, ?_⟩
    have hvalue : (((v / 262144 % 8 + 0xF0 - 0xF0) * 64 + v / 4096 % 64) * 64 + v / 64 % 64) * 64 +
        v % 64 = v := by omega
    rw [malformedChar_ofNat (by omega), if_neg (by omega), if_neg (by omega), if_neg (by omega),
      if_neg (by omega), if_pos (by omega), cons_append, cons_append, cons_append,
      nil_append, malformedRest_succ, malformedRest_next (by omega),
      malformedRest_next (by omega), hvalue, malformedRest, hback]
    · omega
    · split_ifs
      · change 0x90 ≤ _
        omega
      · change 0x80 ≤ _
        omega
    · split_ifs
      · change _ ≤ 0x8F
        omega
      · change _ ≤ 0xBF
        omega

theorem malformedChars_utf8Encode (cs : List Char) (fuel : ℕ)
    (h : (cs.flatMap String.utf8EncodeChar).length ≤ fuel) :
    malformedChars fuel (cs.flatMap String.utf8EncodeChar) = cs := by
  induction cs generalizing fuel with
  | nil => cases fuel <;> rfl
  | cons c cs ih =>
  obtain ⟨byte, front, hbytes, hchar⟩ :=
    malformedChar_utf8EncodeChar c (cs.flatMap String.utf8EncodeChar)
  rw [flatMap_cons, hbytes] at h ⊢
  rw [length_append, length_cons] at h
  cases fuel with
  | zero => exact absurd h (by omega)
  | succ fuel =>
    rw [cons_append, malformedChars, hchar]
    dsimp only
    rw [ih fuel (by omega)]

theorem utf8DecodeMalformed_utf8Encode (h : WellFormed s) :
    utf8DecodeMalformed (utf8Encode s) = dropMark s := by
  rw [utf8DecodeMalformed, utf8Encode, malformedChars_utf8Encode _ _ le_rfl, h]

end DartString
end Lib
