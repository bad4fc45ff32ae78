import Conest.Lib.Dart

/-!
# Base64, written and read back

`base64Encode` writes groups of three bytes as four digits and pads the last group; what it writes,
`base64Decode` reads back (`base64Decode_base64Encode`). The digits and the padding are kept apart:
decoding first takes the digits off the front, so the proof needs that padding is no digit, that a
digit is read as it was written, and that the bits of the last group fit.
-/

namespace Lib

open List

namespace DartString

/-- The standard alphabet. -/
def base64Char (n : ℕ) : Fin 65536 :=
  Fin.ofNat 65536 (if n < 26 then 65 + n else if n < 52 then 71 + n else if n < 62 then n - 4
    else if n = 62 then 43 else 47)

/-- The digits of a list of bytes. -/
def base64Digits : List ℕ → List ℕ
  | a :: b :: c :: rest =>
    a / 4 :: (a % 4 * 16 + b / 16) :: (b % 16 * 4 + c / 64) :: c % 64 :: base64Digits rest
  | [a, b] => [a / 4, a % 4 * 16 + b / 16, b % 16 * 4]
  | [a] => [a / 4, a % 4 * 16]
  | [] => []

/-- How many padding marks follow them. -/
def base64Padding (length : ℕ) : ℕ := (3 - length % 3) % 3

def base64Encode (bytes : Bytes) : DartString :=
  (base64Digits (bytes.map UInt8.toNat)).map base64Char ++
    List.replicate (base64Padding bytes.length) 61

theorem base64Digit_base64Char {n : ℕ} (h : n < 64) : base64Digit (base64Char n) = some n := by
  revert n
  decide

theorem base64Digits_lt {bytes : List ℕ} (h : ∀ b ∈ bytes, b < 256) :
    ∀ d ∈ base64Digits bytes, d < 64 := by
  induction bytes using base64Digits.induct with
  | case1 a b c rest ih =>
    simp only [base64Digits, forall_mem_cons] at h ⊢
    obtain ⟨ha, hb, hc, hrest⟩ := h
    exact ⟨by omega, by omega, by omega, by omega, ih hrest⟩
  | case2 a b =>
    simp only [base64Digits, forall_mem_cons] at h ⊢
    obtain ⟨ha, hb, -⟩ := h
    exact ⟨by omega, by omega, by omega, by simp⟩
  | case3 a =>
    simp only [base64Digits, forall_mem_cons] at h ⊢
    exact ⟨by omega, by omega, by simp⟩
  | case4 => simp [base64Digits]

theorem base64Bytes_base64Digits {bytes : List ℕ} (h : ∀ b ∈ bytes, b < 256) :
    base64Bytes (base64Digits bytes) = bytes := by
  induction bytes using base64Digits.induct with
  | case1 a b c rest ih =>
    simp only [forall_mem_cons] at h
    obtain ⟨ha, hb, hc, hrest⟩ := h
    simp only [base64Digits, base64Bytes, ih hrest, cons.injEq]
    exact ⟨by omega, by omega, by omega, trivial⟩
  | case2 a b =>
    simp only [forall_mem_cons] at h
    obtain ⟨ha, hb, -⟩ := h
    simp only [base64Digits, base64Bytes, cons.injEq]
    exact ⟨by omega, by omega, trivial⟩
  | case3 a =>
    simp only [base64Digits, base64Bytes, cons.injEq]
    exact ⟨by omega, trivial⟩
  | case4 => rfl

theorem length_base64Digits (bytes : List ℕ) :
    (base64Digits bytes).length + base64Padding bytes.length = 4 * ((bytes.length + 2) / 3) := by
  induction bytes using base64Digits.induct with
  | case1 a b c rest ih =>
    unfold base64Padding at ih ⊢
    simp only [base64Digits, length_cons]
    omega
  | case2 a b => simp [base64Digits, base64Padding]
  | case3 a => simp [base64Digits, base64Padding]
  | case4 => simp [base64Digits, base64Padding]

theorem length_base64Encode (bytes : Bytes) :
    (base64Encode bytes).length = 4 * ((bytes.length + 2) / 3) := by
  have h := length_base64Digits (bytes.map UInt8.toNat)
  rw [length_map] at h
  rw [base64Encode, length_append, length_map, length_replicate, h]

theorem base64Digits_last (bytes : List ℕ) :
    (bytes.length % 3 = 0 ∧ (base64Digits bytes).length % 4 = 0) ∨
    (bytes.length % 3 = 1 ∧ (base64Digits bytes).length % 4 = 2 ∧
      (base64Digits bytes).getLastD 0 % 16 = 0) ∨
    (bytes.length % 3 = 2 ∧ (base64Digits bytes).length % 4 = 3 ∧
      (base64Digits bytes).getLastD 0 % 4 = 0) := by
  induction bytes using base64Digits.induct with
  | case1 a b c rest ih =>
    have hlast : ∀ (w x y z : ℕ) (l : List ℕ), l.length % 4 ≠ 0 →
        (w :: x :: y :: z :: l).getLastD 0 = l.getLastD 0 := by
      intro w x y z l hl
      cases l with
      | nil => simp at hl
      | cons d l => simp
    simp only [base64Digits, length_cons]
    rcases ih with ⟨h1, h2⟩ | ⟨h1, h2, h3⟩ | ⟨h1, h2, h3⟩
    · exact .inl ⟨by omega, by omega⟩
    · refine .inr (.inl ⟨by omega, by omega, ?_⟩)
      rw [hlast _ _ _ _ _ (by omega)]
      exact h3
    · refine .inr (.inr ⟨by omega, by omega, ?_⟩)
      rw [hlast _ _ _ _ _ (by omega)]
      exact h3
  | case2 a b =>
    refine .inr (.inr ⟨rfl, rfl, ?_⟩)
    show b % 16 * 4 % 4 = 0
    omega
  | case3 a =>
    refine .inr (.inl ⟨rfl, rfl, ?_⟩)
    show a % 4 * 16 % 16 = 0
    omega
  | case4 => exact .inl ⟨rfl, rfl⟩

theorem takeWhile_digits {digits : List ℕ} (h : ∀ d ∈ digits, d < 64) (count : ℕ) :
    ((digits.map base64Char ++ replicate count (61 : Fin 65536)).takeWhile fun u =>
      (base64Digit u).isSome).filterMap base64Digit = digits := by
  induction digits with
  | nil =>
    cases count with
    | zero => rfl
    | succ count =>
      rfl
  | cons d digits ih =>
  have hd := base64Digit_base64Char (h d mem_cons_self)
  rw [map_cons, cons_append, takeWhile_cons_of_pos (by rw [hd]; rfl),
    filterMap_cons, hd]
  show d :: _ = _
  rw [ih fun d' hd' => h d' (mem_cons_of_mem d hd')]

theorem base64Decode_base64Encode (bytes : Bytes) :
    base64Decode (base64Encode bytes) = some (bytes.map UInt8.toNat) := by
  have hbytes : ∀ b ∈ bytes.map UInt8.toNat, b < 256 := by
    intro b hb
    obtain ⟨byte, -, rfl⟩ := mem_map.mp hb
    exact byte.toNat_lt
  have hdigits := takeWhile_digits (base64Digits_lt hbytes) (base64Padding bytes.length)
  have hlast := base64Digits_last (bytes.map UInt8.toNat)
  rw [length_map] at hlast
  unfold base64Decode base64Encode
  simp only [hdigits]
  have htail : ((base64Digits (bytes.map UInt8.toNat)).map base64Char ++
      replicate (base64Padding bytes.length) (61 : Fin 65536)).drop
        (base64Digits (bytes.map UInt8.toNat)).length =
      replicate (base64Padding bytes.length) 61 := by
    rw [drop_append_of_le_length (by rw [length_map]), ← map_drop, drop_length,
      map_nil, nil_append]
  rw [htail, base64Bytes_base64Digits hbytes]
  unfold base64Padding
  rcases hlast with ⟨h1, h2⟩ | ⟨h1, h2, h3⟩ | ⟨h1, h2, h3⟩
  · rw [h1, h2]
    rfl
  · rw [h1, h2, h3]
    rfl
  · rw [h1, h2, h3]
    rfl

end DartString

end Lib
