import Conest.Lib.Dart

/-!
# Numbers in bytes, the highest first

`bigEndian` writes the low bytes of a number and `ofBigEndian` reads them back, modulo what the width
holds (`ofBigEndian_bigEndian`). `take?` splits off the next bytes of an input, if there are enough.
-/

namespace Lib

open List

/-- The low `width` bytes of a number, the highest first. -/
def bigEndian (width n : ℕ) : Bytes :=
  (List.range width).reverse.map fun i => UInt8.ofNat (n >>> (8 * i))

/-- The number that bytes spell. -/
def ofBigEndian : Bytes → ℕ
  | [] => 0
  | byte :: bytes => byte.toNat * 256 ^ bytes.length + ofBigEndian bytes

theorem bigEndian_succ (width n : ℕ) :
    bigEndian (width + 1) n = UInt8.ofNat (n >>> (8 * width)) :: bigEndian width n := by
  unfold bigEndian
  rw [range_succ, reverse_append]
  rfl

@[simp] theorem bigEndian_length (width n : ℕ) : (bigEndian width n).length = width := by
  unfold bigEndian
  rw [length_map, length_reverse, length_range]

theorem ofBigEndian_bigEndian (width n : ℕ) : ofBigEndian (bigEndian width n) = n % 256 ^ width := by
  induction width with
  | zero =>
    rw [pow_zero, Nat.mod_one]
    rfl
  | succ width ih =>
  have hshift : n >>> (8 * width) = n / 256 ^ width := by
    rw [Nat.shiftRight_eq_div_pow, Nat.pow_mul]
  calc ofBigEndian (bigEndian (width + 1) n)
      = (n / 256 ^ width % 256) * 256 ^ width + n % 256 ^ width := by
        rw [bigEndian_succ, ofBigEndian, bigEndian_length, ih, hshift, UInt8.toNat_ofNat']
    _ = n % 256 ^ (width + 1) := by
        rw [Nat.pow_succ, Nat.mod_mul, Nat.mul_comm, Nat.add_comm]

theorem ofBigEndian_lt (bytes : Bytes) : ofBigEndian bytes < 256 ^ bytes.length := by
  induction bytes with
  | nil => decide
  | cons byte bytes ih =>
  have hbyte : byte.toNat ≤ 255 := Nat.le_of_lt_succ byte.toNat_lt
  calc ofBigEndian (byte :: bytes)
      = byte.toNat * 256 ^ bytes.length + ofBigEndian bytes := rfl
    _ ≤ 255 * 256 ^ bytes.length + ofBigEndian bytes :=
        Nat.add_le_add_right (Nat.mul_le_mul_right _ hbyte) _
    _ < 255 * 256 ^ bytes.length + 256 ^ bytes.length := Nat.add_lt_add_left ih _
    _ = 256 ^ (byte :: bytes).length := by
        rw [length_cons]
        omega

theorem bigEndian_ofBigEndian (bytes : Bytes) :
    bigEndian bytes.length (ofBigEndian bytes) = bytes := by
  induction bytes with
  | nil => rfl
  | cons byte bytes ih =>
  have hlt := ofBigEndian_lt bytes
  have hpos : 0 < 256 ^ bytes.length := Nat.pow_pos (by decide)
  have hlow : ∀ m, bigEndian bytes.length (m * 256 ^ bytes.length + ofBigEndian bytes) =
      bigEndian bytes.length (ofBigEndian bytes) := by
    intro m
    refine map_congr_left fun i hi => ?_
    rw [mem_reverse, mem_range] at hi
    -- the high part is a multiple of what is shifted out and of a byte more
    obtain ⟨k, hk⟩ := Nat.exists_eq_add_of_lt hi
    have hsplit : m * 256 ^ bytes.length = 256 ^ i * (m * 256 ^ k * 256) := by
      rw [hk, pow_add]
      ring
    have hshift : ∀ n, n >>> (8 * i) = n / 256 ^ i := fun n => by
      rw [Nat.shiftRight_eq_div_pow, Nat.pow_mul]
    rw [hshift, hshift, hsplit, Nat.mul_add_div (Nat.pow_pos (by decide))]
    refine UInt8.toNat_inj.mp ?_
    rw [UInt8.toNat_ofNat', UInt8.toNat_ofNat', Nat.mul_add_mod_self_right]
  have hshift : (byte.toNat * 256 ^ bytes.length + ofBigEndian bytes) >>> (8 * bytes.length) =
      byte.toNat := by
    rw [Nat.shiftRight_eq_div_pow, Nat.pow_mul, Nat.mul_comm, Nat.mul_add_div hpos,
      Nat.div_eq_of_lt hlt, Nat.add_zero]
  rw [length_cons, bigEndian_succ, ofBigEndian, hshift, hlow, ih, UInt8.ofNat_toNat]

/-- Split off the next bytes, if there are enough. -/
def take? (bytes : Bytes) (count : ℕ) : Option (Bytes × Bytes) :=
  if bytes.length < count then none else some (bytes.take count, bytes.drop count)

theorem take?_append {front : Bytes} {count : ℕ} (h : front.length = count) (rest : Bytes) :
    take? (front ++ rest) count = some (front, rest) := by
  unfold take?
  rw [if_neg, take_left' h, drop_left' h]
  rw [length_append]
  omega

theorem take?_eq_some {bytes front rest : Bytes} {count : ℕ}
    (h : take? bytes count = some (front, rest)) : bytes = front ++ rest ∧ front.length = count := by
  unfold take? at h
  split at h
  · cases h
  cases h
  refine ⟨(take_append_drop count bytes).symm, ?_⟩
  rw [length_take]
  omega

end Lib
