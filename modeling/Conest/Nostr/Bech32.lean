import Conest.Lib.BitGroups
import Conest.Lib.Text

/-!
# Bech32

Names of bytes: a prefix, `1`, and characters of five bits, the last six of which are a checksum.
The bits of a name are the bits of its bytes and fewer than five zeros (`convert_pad`,
`convert_exact`). The checksum is a register of thirty bits that runs over the name: one step is
linear in the register (`feedback_xor`) and loses nothing of it (`feedback_injective`), so one
character that is another changes the end of every run (`polymod_ne`), and the last six characters
are determined by those before them.
-/

namespace Conest
namespace Nostr
namespace Bech32

open Lib Lib.DartString List Option

/-- The case mapping of the strings. -/
structure CaseMapping where
  toLowerCase : DartString → DartString
  toUpperCase : DartString → DartString

def charset : DartString := ofString "qpzry9x8gf2tvdw0s3jn54khce6mua7l"

def generator : List ℕ := [0x3b6a57b2, 0x26508e6d, 0x1ea119fa, 0x3d4233dd, 0x2a1462b3]

/-- The generators of the bits of `top`, on top of `check`. -/
def addGenerators (top : ℕ) (generators : List (ℕ × ℕ)) (check : ℕ) : ℕ :=
  generators.foldl (fun check (g, bit) => if (top >>> bit) &&& 1 = 1 then check ^^^ g else check)
    check

/-- One round of `polymod`. The register stays below `2 ^ 30`, so nothing is lost of it. -/
def polymodStep (check value : ℕ) : ℕ :=
  addGenerators (check >>> 25) generator.zipIdx (((check &&& 0x1ffffff) <<< 5) ^^^ value)

def polymod (values : List ℕ) : ℕ := values.foldl polymodStep 1

def expand (pre : DartString) : List ℕ :=
  pre.map (fun unit => unit.val >>> 5) ++ 0 :: pre.map (fun unit => unit.val &&& 31)

/-! ### Regrouping bits -/

/-- Where the loop of `convert` is. The accumulator wraps. -/
structure Groups where
  accumulator : BitVec 64
  bits : ℕ
  out : List ℕ

/-- `accumulator >> bits & maxValue`. -/
def groupAt (width : ℕ) (accumulator : BitVec 64) (bits : ℕ) : ℕ :=
  (accumulator.sshiftRight bits &&& BitVec.ofNat 64 (2 ^ width - 1)).toNat

/-- `accumulator << (width - bits) & maxValue`: what is left, filled up with zeros. -/
def lastGroup (width : ℕ) (accumulator : BitVec 64) (bits : ℕ) : ℕ :=
  ((accumulator <<< (width - bits)) &&& BitVec.ofNat 64 (2 ^ width - 1)).toNat

/-- `while (bits >= to)`. A round takes away a bit or more: their number is fuel enough. -/
def drain (width : ℕ) : ℕ → Groups → Groups
  | 0, g => g
  | fuel + 1, g =>
    if width ≤ g.bits then
      drain width fuel
        { g with
          bits := g.bits - width
          out := g.out ++ [groupAt width g.accumulator (g.bits - width)] }
    else g

/-- One value, of `source` bits, into groups of `target` bits. No value is negative. -/
def addValue (source target : ℕ) (g : Groups) (value : ℕ) : Option Groups :=
  if value >>> source ≠ 0 then none
  else
    some (drain target (g.bits + source)
      { g with
        accumulator := (g.accumulator <<< source) ||| BitVec.ofNat 64 value
        bits := g.bits + source })

/-- Groups of `source` bits as groups of `target` bits. -/
def convert (data : List ℕ) (source target : ℕ) (pad : Bool) : Option (List ℕ) := do
  let g ← data.foldlM (addValue source target) ⟨0, 0, []⟩
  if pad then
    if 0 < g.bits then pure (g.out ++ [lastGroup target g.accumulator g.bits]) else pure g.out
  else if source ≤ g.bits ∨ lastGroup target g.accumulator g.bits ≠ 0 then none
  else pure g.out

/-! ### Names -/

/-- The six characters of a checksum. -/
def checksumOf (polymod : ℕ) : List ℕ :=
  (List.range 6).map fun i => (polymod >>> (5 * (5 - i))) &&& 31

/-- The checksum of a prefix and data. -/
def checksum (pre : DartString) (data : List ℕ) : List ℕ :=
  checksumOf (polymod (expand pre ++ data ++ [0, 0, 0, 0, 0, 0]) ^^^ 1)

/-- The characters of values. -/
def chars (values : List ℕ) : DartString := values.map fun v => charset.getD v 0

/-- None where it throws. -/
def encode (pre : DartString) (bytes : List ℕ) : Option DartString :=
  (convert bytes 8 5 true).map fun data =>
    pre ++ ofString "1" ++ chars (data ++ checksum pre data)

def decode (cases : CaseMapping) (input : DartString) : Option (DartString × Bytes) :=
  if input.length > 5000 ∨
      (cases.toLowerCase input ≠ input ∧ cases.toUpperCase input ≠ input) then none
  else
    let text := cases.toLowerCase input
    -- `lastIndexOf('1')`, and −1 where there is none
    match text.reverse.idxOf? 49 with
    | none => none
    | some behind =>
      let separator := text.length - 1 - behind
      if separator < 1 ∨ separator + 7 > text.length then none
      else
        let pre := text.take separator
        match (text.drop (separator + 1)).mapM (charset.idxOf? ·) with
        | none => none
        | some values =>
          if polymod (expand pre ++ values) ≠ 1 then none
          else
            (convert (values.take (values.length - 6)) 5 8 false).map fun bytes =>
              (pre, bytes.map UInt8.ofNat)

/-! ### The register -/

theorem testBit_iff (top bit : ℕ) : (top >>> bit) &&& 1 = 1 ↔ top.testBit bit = true := by
  rw [Nat.and_one_is_mod, Nat.shiftRight_eq_div_pow, Nat.testBit_eq_decide_div_mod_eq,
    decide_eq_true_iff]

/-- What the generators of `top` come to. -/
def taken (top : ℕ) : List (ℕ × ℕ) → ℕ
  | [] => 0
  | (g, bit) :: rest => (if top.testBit bit then g else 0) ^^^ taken top rest

theorem addGenerators_eq (top : ℕ) (generators : List (ℕ × ℕ)) (check : ℕ) :
    addGenerators top generators check = check ^^^ taken top generators := by
  induction generators generalizing check with
  | nil => exact (Nat.xor_zero check).symm
  | cons entry rest ih =>
  obtain ⟨g, bit⟩ := entry
  unfold addGenerators at ih ⊢
  rw [foldl_cons, ih, taken, ← Nat.xor_assoc]
  congr 1
  dsimp only
  by_cases htop : top.testBit bit = true
  · rw [if_pos ((testBit_iff top bit).mpr htop), if_pos htop]
  · rw [if_neg fun h => htop ((testBit_iff top bit).mp h), if_neg htop, Nat.xor_zero]

theorem taken_xor (a b : ℕ) (generators : List (ℕ × ℕ)) :
    taken (a ^^^ b) generators = taken a generators ^^^ taken b generators := by
  induction generators with
  | nil => exact (Nat.xor_zero 0).symm
  | cons entry rest ih =>
  obtain ⟨g, bit⟩ := entry
  simp only [taken, ih, Nat.testBit_xor]
  -- one generator: it is there on the left when it is there on exactly one side
  cases a.testBit bit <;> cases b.testBit bit <;>
    simp [Nat.xor_left_comm, Nat.xor_assoc]

/-- A round without a value. -/
def feedback (check : ℕ) : ℕ := polymodStep check 0

theorem feedback_eq (check : ℕ) :
    feedback check = (check &&& 0x1ffffff) <<< 5 ^^^ taken (check >>> 25) generator.zipIdx := by
  unfold feedback polymodStep
  rw [addGenerators_eq, Nat.xor_zero]

theorem polymodStep_eq (check value : ℕ) : polymodStep check value = feedback check ^^^ value := by
  rw [feedback_eq]
  unfold polymodStep
  rw [addGenerators_eq, Nat.xor_assoc, Nat.xor_comm value, ← Nat.xor_assoc]

theorem feedback_xor (a b : ℕ) : feedback (a ^^^ b) = feedback a ^^^ feedback b := by
  have hshift : ((a ^^^ b) &&& 0x1ffffff) <<< 5 =
      (a &&& 0x1ffffff) <<< 5 ^^^ (b &&& 0x1ffffff) <<< 5 := by
    rw [Nat.and_xor_distrib_right, Nat.shiftLeft_xor_distrib]
  rw [feedback_eq, feedback_eq, feedback_eq, hshift, Nat.shiftRight_xor_distrib, taken_xor]
  simp[Nat.xor_assoc, Nat.xor_left_comm]

theorem taken_lt (top : ℕ) : taken top generator.zipIdx < 2 ^ 30 := by
  have hall : ∀ entry ∈ generator.zipIdx, entry.1 < 2 ^ 30 := by decide
  generalize generator.zipIdx = generators at hall
  induction generators with
  | nil => exact Nat.two_pow_pos 30
  | cons entry rest ih =>
    refine Nat.xor_lt_two_pow ?_ (ih fun e he => hall e (mem_cons_of_mem _ he))
    split
    · exact hall _ mem_cons_self
    · decide

theorem shift_lt (check : ℕ) : (check &&& 0x1ffffff) <<< 5 < 2 ^ 30 := by
  have hmask : check &&& 0x1ffffff ≤ 0x1ffffff := Nat.and_le_right
  omega

theorem feedback_lt (check : ℕ) : feedback check < 2 ^ 30 := by
  rw [feedback_eq]
  exact Nat.xor_lt_two_pow (shift_lt check) (taken_lt _)

theorem feedback_of_lt {check : ℕ} (h : check < 2 ^ 25) : feedback check = check <<< 5 := by
  have htop : check >>> 25 = 0 := by
    rw [Nat.shiftRight_eq_div_pow]
    exact Nat.div_eq_of_lt h
  have hmask : check &&& 0x1ffffff = check := by
    have hand := Nat.and_two_pow_sub_one_eq_mod check 25
    rw [Nat.mod_eq_of_lt h] at hand
    exact hand
  rw [feedback_eq, htop, hmask]
  exact Nat.xor_zero _

theorem eq_zero_of_taken {top : ℕ} (htop : top < 32) (h : taken top generator.zipIdx % 32 = 0) :
    top = 0 := by
  have hall : ∀ top < 32, taken top generator.zipIdx % 32 = 0 → top = 0 := by decide
  exact hall top htop h

theorem eq_zero_of_feedback {check : ℕ} (hcheck : check < 2 ^ 30) (h : feedback check = 0) :
    check = 0 := by
  have htop : check >>> 25 < 32 := by
    omega
  -- what is moved leaves the low five bits to the generators
  have hlow : taken (check >>> 25) generator.zipIdx % 32 = 0 := by
    rw [feedback_eq] at h
    have heq : (check &&& 0x1ffffff) <<< 5 = taken (check >>> 25) generator.zipIdx :=
      Nat.xor_eq_zero_iff.mp h
    rw [← heq, Nat.shiftLeft_eq]
    exact Nat.mul_mod_left _ _
  have hzero : check >>> 25 = 0 := eq_zero_of_taken htop hlow
  have hsmall : check < 2 ^ 25 := by
    omega
  rw [feedback_of_lt hsmall] at h
  omega

theorem feedback_injective {a b : ℕ} (ha : a < 2 ^ 30) (hb : b < 2 ^ 30)
    (h : feedback a = feedback b) : a = b := by
  have hxor : feedback (a ^^^ b) = 0 := by rw [feedback_xor, h, Nat.xor_self]
  exact Nat.xor_eq_zero_iff.mp (eq_zero_of_feedback (Nat.xor_lt_two_pow ha hb) hxor)

/-! ### Runs of the register -/

theorem polymodStep_lt {check value : ℕ} (hvalue : value < 2 ^ 30) :
    polymodStep check value < 2 ^ 30 := by
  rw [polymodStep_eq]
  exact Nat.xor_lt_two_pow (feedback_lt check) hvalue

section

variable {values : List ℕ} (hvalues : ∀ v ∈ values, v < 2 ^ 30)

include hvalues

theorem foldl_lt {check : ℕ} (hcheck : check < 2 ^ 30) :
    values.foldl polymodStep check < 2 ^ 30 := by
  induction values generalizing check with
  | nil => exact hcheck
  | cons v values ih =>
    exact ih (fun w hw => hvalues w (mem_cons_of_mem _ hw))
      (polymodStep_lt (hvalues v mem_cons_self))

theorem foldl_injective {a b : ℕ} (ha : a < 2 ^ 30) (hb : b < 2 ^ 30)
    (h : values.foldl polymodStep a = values.foldl polymodStep b) : a = b := by
  induction values generalizing a b with
  | nil => exact h
  | cons v values ih =>
  have hv := hvalues v mem_cons_self
  have hstep := ih (fun w hw => hvalues w (mem_cons_of_mem _ hw)) (polymodStep_lt hv)
    (polymodStep_lt hv) h
  rw [polymodStep_eq, polymodStep_eq] at hstep
  exact feedback_injective ha hb (Nat.xor_left_injective hstep)

end

theorem polymod_ne {front back : List ℕ} {v w : ℕ} (hback : ∀ u ∈ back, u < 2 ^ 30)
    (hv : v < 2 ^ 30) (hw : w < 2 ^ 30) (hne : v ≠ w) :
    polymod (front ++ v :: back) ≠ polymod (front ++ w :: back) := by
  unfold polymod
  simp only [foldl_append, foldl_cons]
  intro h
  have hstep := foldl_injective hback (polymodStep_lt hv) (polymodStep_lt hw) h
  rw [polymodStep_eq, polymodStep_eq] at hstep
  exact hne (Nat.xor_right_injective hstep)

/-! ### The last six characters -/

/-- Characters in a number, five bits each. -/
def packed (values : List ℕ) : ℕ := values.foldl (fun n v => n <<< 5 ^^^ v) 0

theorem packed_snoc (values : List ℕ) (v : ℕ) :
    packed (values ++ [v]) = packed values <<< 5 ^^^ v := by
  unfold packed
  rw [foldl_append]
  rfl

theorem packed_lt {values : List ℕ} (h : ∀ v ∈ values, v < 32) :
    packed values < 2 ^ (5 * values.length) := by
  induction values using reverseRecOn with
  | nil => exact Nat.one_pos
  | append_singleton values v ih =>
  have hrest := ih fun w hw => h w (mem_append_left _ hw)
  have hv : v < 2 ^ 5 := h v (mem_append_right _ mem_cons_self)
  rw [packed_snoc, length_append, length_singleton, Nat.mul_add_one, Nat.pow_add]
  refine Nat.xor_lt_two_pow ?_ ?_ |>.trans_eq (Nat.pow_add 2 (5 * values.length) 5)
  · rw [Nat.shiftLeft_eq, Nat.pow_add]
    exact Nat.mul_lt_mul_of_pos_right hrest (Nat.two_pow_pos 5)
  · exact hv.trans_le (Nat.pow_le_pow_right Nat.zero_lt_two (Nat.le_add_left 5 _))

theorem bitsOf_snoc (n v : ℕ) (hv : v < 32) (width : ℕ) :
    bitsOf (n <<< 5 ^^^ v).testBit (width + 5) = bitsOf n.testBit width ++ bitsOf v.testBit 5 := by
  rw [bitsOf_add]
  congr 1
  · refine bitsOf_congr fun i _ => ?_
    have hhigh : v.testBit (i + 5) = false :=
      Nat.testBit_lt_two_pow
        (hv.trans_le (Nat.pow_le_pow_right Nat.zero_lt_two (Nat.le_add_left 5 i)))
    rw [Nat.testBit_xor, hhigh, Bool.xor_false, Nat.testBit_shiftLeft,
      decide_eq_true (Nat.le_add_left 5 i), Bool.true_and, Nat.add_sub_cancel]
  · refine bitsOf_congr fun i hi => ?_
    have hlow : ¬ 5 ≤ i := not_le.mpr hi
    rw [Nat.testBit_xor, Nat.testBit_shiftLeft, decide_eq_false hlow, Bool.false_and,
      Bool.false_xor]

theorem bitsOf_packed {values : List ℕ} (h : ∀ v ∈ values, v < 32) :
    bitsOf (packed values).testBit (5 * values.length) = groupBits 5 values := by
  induction values using reverseRecOn with
  | nil => rfl
  | append_singleton values v ih =>
    have hv : v < 32 := h v (mem_append_right _ mem_cons_self)
    rw [packed_snoc, length_append, length_singleton, Nat.mul_add_one,
      bitsOf_snoc _ _ hv, ih fun w hw => h w (mem_append_left _ hw), groupBits_append,
      groupBits_cons, groupBits_nil, append_nil]

theorem foldl_packed {values : List ℕ} (hlength : values.length ≤ 6) (h : ∀ v ∈ values, v < 32)
    (check : ℕ) :
    values.foldl polymodStep check =
      (replicate values.length 0).foldl polymodStep check ^^^ packed values := by
  induction values using reverseRecOn with
  | nil => exact (Nat.xor_zero check).symm
  | append_singleton values v ih =>
  rw [length_append, length_singleton] at hlength ⊢
  have hvalues : ∀ w ∈ values, w < 32 := fun w hw => h w (mem_append_left _ hw)
  -- what was packed before is short enough to be moved only
  have hsmall : packed values < 2 ^ 25 :=
    (packed_lt hvalues).trans_le (Nat.pow_le_pow_right Nat.zero_lt_two (by omega))
  rw [replicate_succ', foldl_append, foldl_append, foldl_cons,
    foldl_nil, foldl_cons, foldl_nil, ih (by omega) hvalues, polymodStep_eq,
    feedback_xor, feedback_of_lt hsmall, packed_snoc, polymodStep_eq, Nat.xor_zero,
    Nat.xor_assoc]

theorem checksumOf_lt (n : ℕ) : ∀ v ∈ checksumOf n, v < 32 := by
  intro v hv
  obtain ⟨i, -, rfl⟩ := mem_map.mp hv
  exact Nat.lt_succ_of_le Nat.and_le_right

@[simp] theorem length_checksumOf (n : ℕ) : (checksumOf n).length = 6 := by
  rw [checksumOf, length_map, length_range]

theorem bitsOf_checksumOf (n : ℕ) : groupBits 5 (checksumOf n) = bitsOf n.testBit 30 := by
  have hgroup (k : ℕ) :
      bitsOf ((n >>> k) &&& 31).testBit 5 = bitsOf (fun i => n.testBit (i + k)) 5 := by
    refine bitsOf_congr fun i hi => ?_
    have hmask : (31 : ℕ).testBit i = true := by
      change (2 ^ 5 - 1).testBit i = true
      rw [Nat.testBit_two_pow_sub_one, decide_eq_true hi]
    rw [Nat.testBit_and, hmask, Bool.and_true, Nat.testBit_shiftRight, Nat.add_comm]
  rw [show (30 : ℕ) = 5 + (5 + (5 + (5 + (5 + 5)))) from rfl, bitsOf_add, bitsOf_add, bitsOf_add,
    bitsOf_add, bitsOf_add, ← hgroup, ← hgroup, ← hgroup, ← hgroup, ← hgroup]
  have hlast : bitsOf n.testBit 5 = bitsOf ((n >>> 0) &&& 31).testBit 5 := (hgroup 0).symm
  rw [hlast]
  change groupBits 5 [_, _, _, _, _, _] = _
  simp only [groupBits_cons, groupBits_nil, append_nil]

theorem packed_checksumOf {n : ℕ} (h : n < 2 ^ 30) : packed (checksumOf n) = n := by
  have hlt := packed_lt (checksumOf_lt n)
  have hbits := bitsOf_packed (checksumOf_lt n)
  exact eq_of_testBit_bitsOf hlt h (hbits.trans (bitsOf_checksumOf n))

theorem checksumOf_packed {values : List ℕ} (hlength : values.length = 6)
    (h : ∀ v ∈ values, v < 32) : checksumOf (packed values) = values := by
  refine groupBits_inj (Nat.succ_pos 4) (checksumOf_lt _) h ?_
  have hbits := bitsOf_packed h
  rw [hlength] at hbits
  rw [bitsOf_checksumOf]
  exact hbits

theorem expand_lt (pre : DartString) : ∀ v ∈ expand pre, v < 2 ^ 30 := by
  intro v hv
  rw [expand, mem_append, mem_cons] at hv
  rcases hv with hv | rfl | hv
  · obtain ⟨u, -, rfl⟩ := mem_map.mp hv
    omega
  · exact Nat.two_pow_pos 30
  · obtain ⟨u, -, rfl⟩ := mem_map.mp hv
    have hle : u.val &&& 31 ≤ 31 := Nat.and_le_right
    omega

theorem polymod_lt {values : List ℕ} (h : ∀ v ∈ values, v < 2 ^ 30) : polymod values < 2 ^ 30 :=
  foldl_lt h (Nat.one_lt_two_pow (by omega))

theorem polymod_eq_one_iff {pre : DartString} {data last : List ℕ} (hdata : ∀ v ∈ data, v < 32)
    (hlast : ∀ v ∈ last, v < 32) (hlength : last.length = 6) :
    polymod (expand pre ++ data ++ last) = 1 ↔ last = checksum pre data := by
  have hfront : ∀ v ∈ expand pre ++ data, v < 2 ^ 30 := by
    intro v hv
    rcases mem_append.mp hv with hv | hv
    · exact expand_lt pre v hv
    · exact (hdata v hv).trans (by decide)
  -- the register at the end of the data and six zeros
  have hzeros : polymod (expand pre ++ data ++ [0, 0, 0, 0, 0, 0]) < 2 ^ 30 := by
    refine polymod_lt fun v hv => ?_
    rcases mem_append.mp hv with hv | hv
    · exact hfront v hv
    · rw [eq_of_mem_replicate (n := 6) hv]
      exact Nat.two_pow_pos 30
  have hpacked : polymod (expand pre ++ data ++ last) =
      polymod (expand pre ++ data ++ [0, 0, 0, 0, 0, 0]) ^^^ packed last := by
    unfold polymod
    rw [foldl_append, foldl_packed (le_of_eq hlength) hlast, hlength, ← foldl_append]
    rfl
  rw [hpacked]
  unfold checksum
  constructor
  · intro h
    have heq : packed last = polymod (expand pre ++ data ++ [0, 0, 0, 0, 0, 0]) ^^^ 1 := by
      rw [← h, ← Nat.xor_assoc, Nat.xor_self, Nat.zero_xor]
    rw [← heq, checksumOf_packed hlength hlast]
  · intro h
    rw [h, packed_checksumOf (Nat.xor_lt_two_pow hzeros (Nat.one_lt_two_pow (by omega))),
      ← Nat.xor_assoc, Nat.xor_self, Nat.zero_xor]

theorem checksum_lt (pre : DartString) (data : List ℕ) : ∀ v ∈ checksum pre data, v < 32 :=
  checksumOf_lt _

@[simp] theorem length_checksum (pre : DartString) (data : List ℕ) :
    (checksum pre data).length = 6 :=
  length_checksumOf _

/-! ### The bits stay -/

theorem getLsbD_mask (width : ℕ) (accumulator : BitVec 64) (i : ℕ) :
    (accumulator &&& BitVec.ofNat 64 (2 ^ width - 1)).getLsbD i =
      (accumulator.getLsbD i && decide (i < width)) := by
  rw [BitVec.getLsbD_and, BitVec.getLsbD_ofNat, Nat.testBit_two_pow_sub_one]
  by_cases hi : i < 64
  · rw [decide_eq_true hi, Bool.true_and]
  · rw [BitVec.getLsbD_of_ge accumulator i (not_lt.mp hi), Bool.false_and, Bool.false_and]

theorem mask_lt {width : ℕ} (hwidth : width < 64) (accumulator : BitVec 64) :
    (accumulator &&& BitVec.ofNat 64 (2 ^ width - 1)).toNat < 2 ^ width := by
  have hpow : 2 ^ width < 2 ^ 64 := Nat.pow_lt_pow_right (by decide) hwidth
  have hpos : 0 < 2 ^ width := Nat.two_pow_pos width
  rw [BitVec.toNat_and, BitVec.toNat_ofNat]
  exact (Nat.and_le_right).trans_lt (by omega)

theorem bitsOf_groupAt {width bits : ℕ} (h : bits + width ≤ 64) (accumulator : BitVec 64) :
    bitsOf (groupAt width accumulator bits).testBit width =
      bitsOf (fun i => accumulator.getLsbD (i + bits)) width := by
  refine bitsOf_congr fun i hi => ?_
  unfold groupAt
  rw [BitVec.testBit_toNat, getLsbD_mask, BitVec.getLsbD_sshiftRight,
    decide_eq_true hi]
  have hlow : i < 64 := by omega
  have hin : bits + i < 64 := by omega
  rw [if_pos hin, Nat.add_comm bits i]
  simp [hlow]

theorem bitsOf_lastGroup {width bits : ℕ} (hwidth : width < 64) (hbits : bits ≤ width)
    (accumulator : BitVec 64) :
    bitsOf (lastGroup width accumulator bits).testBit width =
      bitsOf accumulator.getLsbD bits ++ replicate (width - bits) false := by
  have hcut : width = bits + (width - bits) := by omega
  have hbit (i : ℕ) (hi : i < width) : (lastGroup width accumulator bits).testBit i =
      (decide (width - bits ≤ i) && accumulator.getLsbD (i - (width - bits))) := by
    unfold lastGroup
    rw [BitVec.testBit_toNat, getLsbD_mask, BitVec.getLsbD_shiftLeft,
      decide_eq_true hi]
    have hlow : i < 64 := hi.trans hwidth
    by_cases hle : width - bits ≤ i
    · simp [hlow, hle]
    · simp [hlow, hle, not_le.mp hle]
  have hsplit : bitsOf (lastGroup width accumulator bits).testBit width =
      bitsOf (fun i => (lastGroup width accumulator bits).testBit (i + (width - bits))) bits ++
        bitsOf (lastGroup width accumulator bits).testBit (width - bits) := by
    rw [← bitsOf_add, ← hcut]
  rw [hsplit]
  congr 1
  · -- the high bits are those of the accumulator
    refine bitsOf_congr fun i hi => ?_
    rw [hbit _ (by omega), decide_eq_true (Nat.le_add_left _ _), Bool.true_and,
      Nat.add_sub_cancel]
  · refine bitsOf_eq_replicate.mpr fun i hi => ?_
    rw [hbit i (by omega), decide_eq_false (not_le.mpr hi), Bool.false_and]

section

variable {width : ℕ} (hwidth : width < 64) (accumulator : BitVec 64) (bits : ℕ)

include hwidth accumulator bits

theorem groupAt_lt : groupAt width accumulator bits < 2 ^ width :=
  mask_lt hwidth _

theorem lastGroup_lt : lastGroup width accumulator bits < 2 ^ width :=
  mask_lt hwidth _

end

/-- The bits of what is out and of what is still in the accumulator. -/
def Groups.stream (target : ℕ) (g : Groups) : List Bool :=
  groupBits target g.out ++ bitsOf g.accumulator.getLsbD g.bits

/-- What holds between two values. -/
structure Groups.Fits (target : ℕ) (g : Groups) : Prop where
  out : ∀ v ∈ g.out, v < 2 ^ target
  bits : g.bits < target

theorem drain_spec {target : ℕ} (htarget : 0 < target) (hsmall : target < 64) :
    ∀ (fuel : ℕ) (g : Groups), g.bits ≤ fuel → g.bits ≤ 64 → (∀ v ∈ g.out, v < 2 ^ target) →
      (drain target fuel g).stream target = g.stream target ∧
        (drain target fuel g).Fits target := by
  intro fuel
  induction fuel with
  | zero =>
    intro g hfuel _ hout
    exact ⟨rfl, hout, by rw [drain]; omega⟩
  | succ fuel ih =>
  intro g hfuel hbits hout
  rw [drain]
  split
  · next hle =>
    have hgroups : ∀ v ∈ g.out ++ [groupAt target g.accumulator (g.bits - target)],
        v < 2 ^ target := by
      intro v hv
      rcases mem_append.mp hv with hv | hv
      · exact hout v hv
      · rw [mem_singleton.mp hv]
        exact groupAt_lt hsmall _ _
    obtain ⟨hstream, hfits⟩ := ih
      { g with
        bits := g.bits - target
        out := g.out ++ [groupAt target g.accumulator (g.bits - target)] }
      (show g.bits - target ≤ fuel by omega) (show g.bits - target ≤ 64 by omega) hgroups
    refine ⟨hstream.trans ?_, hfits⟩
    have hcut : g.bits = target + (g.bits - target) := by omega
    calc groupBits target (g.out ++ [groupAt target g.accumulator (g.bits - target)]) ++
          bitsOf g.accumulator.getLsbD (g.bits - target)
        = groupBits target g.out ++
            (bitsOf (fun i => g.accumulator.getLsbD (i + (g.bits - target))) target ++
              bitsOf g.accumulator.getLsbD (g.bits - target)) := by
          rw [groupBits_append, groupBits_cons, groupBits_nil, append_nil,
            bitsOf_groupAt (by omega), append_assoc]
      _ = groupBits target g.out ++ bitsOf g.accumulator.getLsbD g.bits := by
          rw [← bitsOf_add, ← hcut]
  next hlt => exact ⟨rfl, hout, not_le.mp hlt⟩

section

variable {source target : ℕ} (hsource : source ≤ 8) (htarget : 0 < target) (hsmall : target ≤ 8)

include hsource htarget hsmall

theorem addValue_spec {g : Groups} (hg : g.Fits target) {value : ℕ} : if value < 2 ^ source then
      ∃ g', addValue source target g value = some g' ∧ g'.Fits target ∧
        g'.stream target = g.stream target ++ bitsOf value.testBit source
    else addValue source target g value = none := by
  have hshift : value >>> source = 0 ↔ value < 2 ^ source := by
    rw [Nat.shiftRight_eq_div_pow, Nat.div_eq_zero_iff_lt (Nat.two_pow_pos source)]
  unfold addValue
  split
  · next hvalue =>
    rw [if_neg (not_not.mpr (hshift.mpr hvalue))]
    have hbits := hg.bits
    obtain ⟨hstream, hfits⟩ := drain_spec htarget (by omega) (g.bits + source)
      { g with
        accumulator := (g.accumulator <<< source) ||| BitVec.ofNat 64 value
        bits := g.bits + source } le_rfl (show g.bits + source ≤ 64 by omega) hg.out
    refine ⟨_, rfl, hfits, hstream.trans ?_⟩
    unfold Groups.stream
    rw [append_assoc, bitsOf_add]
    congr 2
    · -- what was in the accumulator moves up
      refine bitsOf_congr fun i hi => ?_
      have hlow : i + source < 64 := by omega
      have hhigh : value.testBit (i + source) = false :=
        Nat.testBit_lt_two_pow
          (hvalue.trans_le (Nat.pow_le_pow_right Nat.zero_lt_two (Nat.le_add_left source i)))
      rw [BitVec.getLsbD_or, BitVec.getLsbD_shiftLeft, BitVec.getLsbD_ofNat, hhigh,
        decide_eq_true hlow, decide_eq_false (Nat.not_lt.mpr (Nat.le_add_left source i)),
        Nat.add_sub_cancel, Bool.and_false, Bool.or_false, Bool.true_and, Bool.not_false,
        Bool.true_and]
    · refine bitsOf_congr fun i hi => ?_
      have hlow : i < 64 := by omega
      rw [BitVec.getLsbD_or, BitVec.getLsbD_shiftLeft, BitVec.getLsbD_ofNat, decide_eq_true hlow,
        decide_eq_true hi, Bool.not_true, Bool.and_false, Bool.false_and, Bool.false_or,
        Bool.true_and]
  next hvalue => rw [if_pos fun h => hvalue (hshift.mp h)]

/-- **Regrouping keeps the bits**, and takes only numbers of `source` bits. -/
theorem foldlM_spec (data : List ℕ) {g : Groups} (hg : g.Fits target) :
    if ∀ v ∈ data, v < 2 ^ source then
      ∃ g', data.foldlM (addValue source target) g = some g' ∧ g'.Fits target ∧
        g'.stream target = g.stream target ++ groupBits source data
    else data.foldlM (addValue source target) g = none := by
  induction data generalizing g with
  | nil =>
    exact ⟨g, rfl, hg, (append_nil _).symm⟩
  | cons v data ih =>
  have hstep := @addValue_spec source target hsource htarget hsmall g hg v
  rw [foldlM_cons]
  by_cases hv : v < 2 ^ source
  · rw [if_pos hv] at hstep
    obtain ⟨g', hadd, hfits, hstream⟩ := hstep
    have hrest := ih hfits
    rw [hadd]
    by_cases hdata : ∀ w ∈ data, w < 2 ^ source
    · rw [if_pos hdata] at hrest
      obtain ⟨g'', hfold, hfits', hstream'⟩ := hrest
      have hboth : ∀ w ∈ v :: data, w < 2 ^ source := forall_mem_cons.mpr ⟨hv, hdata⟩
      rw [if_pos hboth]
      refine ⟨g'', hfold, hfits', ?_⟩
      rw [hstream', hstream, append_assoc, groupBits_cons]
    · rw [if_neg hdata] at hrest
      have hboth : ¬ ∀ w ∈ v :: data, w < 2 ^ source := fun h =>
        hdata (forall_mem_cons.mp h).2
      rw [if_neg hboth]
      exact hrest
  · rw [if_neg hv] at hstep
    have hboth : ¬ ∀ w ∈ v :: data, w < 2 ^ source := fun h => hv (forall_mem_cons.mp h).1
    rw [if_neg hboth, hstep]
    rfl

end

theorem lastGroup_eq_zero_iff {width bits : ℕ} (hwidth : width < 64) (hbits : bits ≤ width)
    (accumulator : BitVec 64) :
    lastGroup width accumulator bits = 0 ↔
      bitsOf accumulator.getLsbD bits = replicate bits false := by
  have hsplit := bitsOf_lastGroup hwidth hbits accumulator
  have hzeros : replicate width false =
      replicate bits false ++ replicate (width - bits) false := by
    rw [replicate_append_replicate]
    congr 1
    omega
  constructor
  · intro h
    have hzero : bitsOf (0 : ℕ).testBit width = replicate width false :=
      bitsOf_eq_replicate.mpr fun i _ => Nat.zero_testBit i
    rw [h, hzero, hzeros] at hsplit
    exact (append_cancel_right hsplit).symm
  · intro h
    rw [h, ← hzeros] at hsplit
    refine eq_of_testBit_bitsOf (lastGroup_lt hwidth accumulator bits) (Nat.two_pow_pos width) ?_
    rw [hsplit]
    exact (bitsOf_eq_replicate.mpr fun i _ => Nat.zero_testBit i).symm

theorem start_fits {target : ℕ} (h : 0 < target) : Groups.Fits target ⟨0, 0, []⟩ :=
  ⟨fun _ hv => absurd hv not_mem_nil, h⟩

/-- **Bytes in characters**: the bits of the bytes, and fewer than five zeros. -/
theorem convert_pad {bytes : List ℕ} (h : ∀ b ∈ bytes, b < 2 ^ 8) :
    ∃ data k, convert bytes 8 5 true = some data ∧ (∀ v ∈ data, v < 32) ∧ k < 5 ∧
      groupBits 5 data = groupBits 8 bytes ++ replicate k false := by
  have hfold := @foldlM_spec 8 5 le_rfl (by decide) (by decide) bytes _
    (start_fits (by decide))
  rw [if_pos h] at hfold
  obtain ⟨g, hg, hfits, hstream⟩ := hfold
  have hbits := hfits.bits
  have hbytes : groupBits 5 g.out ++ bitsOf g.accumulator.getLsbD g.bits = groupBits 8 bytes :=
    hstream
  unfold convert
  rw [hg]
  dsimp only [bind, bind_some]
  by_cases hempty : 0 < g.bits
  · rw [if_pos hempty]
    refine ⟨_, 5 - g.bits, rfl, ?_, by omega, ?_⟩
    · intro v hv
      rcases mem_append.mp hv with hv | hv
      · exact hfits.out v hv
      · rw [mem_singleton.mp hv]
        exact lastGroup_lt (by decide) _ _
    · rw [groupBits_append, groupBits_cons, groupBits_nil, append_nil,
        bitsOf_lastGroup (by decide) hbits.le, ← append_assoc, hbytes]
  · have hzero : g.bits = 0 := by omega
    rw [if_neg hempty]
    refine ⟨_, 0, rfl, hfits.out, by decide, ?_⟩
    rw [hzero, bitsOf, append_nil] at hbytes
    rw [hbytes, replicate_zero, append_nil]

theorem length_convert {bytes data : List ℕ} (h : convert bytes 8 5 true = some data)
    (hbytes : ∀ b ∈ bytes, b < 2 ^ 8) : 8 * bytes.length ≤ 5 * data.length := by
  obtain ⟨other, k, hother, -, -, hbits⟩ := convert_pad hbytes
  obtain rfl : other = data := some.inj (hother.symm.trans h)
  have hlength := congrArg length hbits
  simp only [length_append, length_groupBits, length_replicate] at hlength
  omega

theorem leftover {width bits k : ℕ} {out bytes : List ℕ} {f : ℕ → Bool}
    (hout : ∀ v ∈ out, v < 2 ^ width) (hbytes : ∀ b ∈ bytes, b < 2 ^ width) (hbits : bits < width)
    (hk : k < width)
    (h : groupBits width out ++ bitsOf f bits = groupBits width bytes ++ replicate k false) :
    bits = k ∧ out = bytes ∧ bitsOf f bits = replicate bits false := by
  have hlength := congrArg length h
  simp only [length_append, length_groupBits, length_replicate, length_bitsOf] at hlength
  have heq : bits = k := by
    have hmod := congrArg (· % width) hlength
    simpa only [Nat.mul_add_mod, Nat.mod_eq_of_lt hbits, Nat.mod_eq_of_lt hk] using hmod
  have hsame : (groupBits width out).length = (groupBits width bytes).length := by
    rw [length_groupBits, length_groupBits]
    omega
  obtain ⟨hgroups, hrest⟩ := append_inj h hsame
  refine ⟨heq, groupBits_inj (Nat.zero_lt_of_lt hk) hout hbytes hgroups, ?_⟩
  rw [hrest, heq]

/-- **Characters in bytes**: read when what is behind the last byte is fewer than five zeros. -/
theorem convert_exact {values bytes : List ℕ} :
    convert values 5 8 false = some bytes ↔
      (∀ v ∈ values, v < 32) ∧ (∀ b ∈ bytes, b < 256) ∧
        ∃ k < 5, groupBits 5 values = groupBits 8 bytes ++ replicate k false := by
  have hfold := @foldlM_spec 5 8 (by decide) (by decide) le_rfl values _
    (start_fits (by decide))
  unfold convert
  by_cases hvalues : ∀ v ∈ values, v < 2 ^ 5
  · rw [if_pos hvalues] at hfold
    obtain ⟨g, hg, hfits, hstream⟩ := hfold
    have hbits := hfits.bits
    have hread : groupBits 8 g.out ++ bitsOf g.accumulator.getLsbD g.bits = groupBits 5 values :=
      hstream
    rw [hg]
    dsimp only [bind, bind_some]
    by_cases hbad : 5 ≤ g.bits ∨ lastGroup 8 g.accumulator g.bits ≠ 0
    · rw [if_pos hbad]
      refine ⟨fun h => absurd h (by simp), fun ⟨_, hbytes, k, hk, heq⟩ => ?_⟩
      -- what is left has the length of the zeros, and so it is the zeros
      obtain ⟨hlength, _, hrest⟩ := leftover hfits.out hbytes hbits (by omega) (hread.trans heq)
      rcases hbad with hbad | hbad
      · omega
      · exact absurd ((lastGroup_eq_zero_iff (by decide) hbits.le _).mpr hrest) hbad
    rw [if_neg hbad]
    rw [not_or, not_not] at hbad
    have hzeros := (lastGroup_eq_zero_iff (by decide) hbits.le _).mp hbad.2
    constructor
    · intro h
      obtain rfl : g.out = bytes := some.inj h
      exact ⟨hvalues, hfits.out, g.bits, by omega, by rw [← hread, hzeros]⟩
    · rintro ⟨_, hbytes, k, hk, heq⟩
      obtain ⟨_, hout, _⟩ := leftover hfits.out hbytes hbits (by omega) (hread.trans heq)
      rw [hout]
      rfl
  · rw [if_neg hvalues] at hfold
    rw [hfold]
    exact ⟨fun h => absurd h (by simp), fun h => absurd h.1 hvalues⟩

/-! ### Names and bytes -/

/-- An ASCII character in lower case. -/
def asciiLower (u : Fin 65536) : Fin 65536 :=
  if 65 ≤ u.val ∧ u.val ≤ 90 then Fin.ofNat 65536 (u.val + 32) else u

/-- The mapping of the language takes ASCII characters one by one, wherever they stand. -/
structure CaseMapping.Lawful (cases : CaseMapping) : Prop where
  nil : cases.toLowerCase [] = []
  ascii : ∀ (s t : DartString) (u : Fin 65536), u.val < 128 →
    cases.toLowerCase (s ++ u :: t) = cases.toLowerCase s ++ asciiLower u :: cases.toLowerCase t

/-- A character that no mapping to lower case changes. -/
def IsLower (u : Fin 65536) : Prop := u.val < 128 ∧ ¬ (65 ≤ u.val ∧ u.val ≤ 90)

instance (u : Fin 65536) : Decidable (IsLower u) := inferInstanceAs (Decidable (_ ∧ _))

namespace CaseMapping.Lawful

variable {cases : CaseMapping} (h : cases.Lawful)

include h

theorem append_lower (s : DartString) {t : DartString} (ht : ∀ u ∈ t, IsLower u) :
    cases.toLowerCase (s ++ t) = cases.toLowerCase s ++ t := by
  induction t generalizing s with
  | nil => rw [append_nil, append_nil]
  | cons u t ih =>
    have hu := ht u mem_cons_self
    have hrest := ih [] fun w hw => ht w (mem_cons_of_mem _ hw)
    rw [h.nil, nil_append] at hrest
    rw [h.ascii s t u hu.1, hrest, asciiLower, if_neg hu.2]

theorem of_lower {t : DartString} (ht : ∀ u ∈ t, IsLower u) : cases.toLowerCase t = t := by
  have happend := h.append_lower [] ht
  rwa [h.nil] at happend

theorem of_ascii {t : DartString} (ht : ∀ u ∈ t, u.val < 128) :
    cases.toLowerCase t = t.map asciiLower := by
  induction t with
  | nil => exact h.nil
  | cons u t ih =>
    have hcons := h.ascii [] t u (ht u mem_cons_self)
    rw [nil_append, h.nil, nil_append] at hcons
    rw [hcons, ih fun w hw => ht w (mem_cons_of_mem _ hw), map_cons]

end CaseMapping.Lawful

theorem length_charset : charset.length = 32 := by decide

theorem isLower_charset : ∀ u ∈ charset, IsLower u ∧ u ≠ 49 := by
  intro u hu
  have hall : (charset.all fun u => decide (IsLower u ∧ u ≠ 49)) = true := by decide
  exact of_decide_eq_true (all_eq_true.mp hall u hu)

theorem idxOf?_charset {u : Fin 65536} {v : ℕ} :
    charset.idxOf? u = some v ↔ v < 32 ∧ charset.getD v 0 = u := by
  constructor
  · intro h
    obtain ⟨hlt, heq, -⟩ := idxOf?_eq_some_iff.mp h
    rw [length_charset] at hlt
    exact ⟨hlt, by rw [getD_eq_getElem _ _ (length_charset.symm ▸ hlt), heq]⟩
  · rintro ⟨hv, rfl⟩
    have hall : ∀ v < 32, charset.idxOf? (charset.getD v 0) = some v := by decide
    exact hall v hv

theorem mapM_idxOf? {tail : DartString} {values : List ℕ} :
    tail.mapM (charset.idxOf? ·) = some values ↔ (∀ v ∈ values, v < 32) ∧ chars values = tail := by
  induction tail generalizing values with
  | nil =>
    constructor
    · intro h
      obtain rfl : [] = values := some.inj h
      exact ⟨fun v hv => absurd hv not_mem_nil, rfl⟩
    · rintro ⟨_, h⟩
      rw [map_eq_nil_iff.mp h]
      rfl
  | cons u tail ih =>
  rw [mapM_cons]
  constructor
  · intro h
    obtain ⟨v, hv, h⟩ := bind_eq_some_iff.mp h
    obtain ⟨rest, hrest, h⟩ := bind_eq_some_iff.mp h
    obtain rfl : v :: rest = values := some.inj h
    obtain ⟨hlt, hchar⟩ := idxOf?_charset.mp hv
    obtain ⟨hall, htail⟩ := ih.mp hrest
    exact ⟨forall_mem_cons.mpr ⟨hlt, hall⟩, congrArg₂ cons hchar htail⟩
  rintro ⟨hall, h⟩
  obtain ⟨v, rest, rfl⟩ : ∃ v rest, values = v :: rest := by
    cases values with
    | nil => exact absurd h (cons_ne_nil u tail).symm
    | cons v rest => exact ⟨v, rest, rfl⟩
  obtain ⟨hchar, htail⟩ := cons.inj h
  obtain ⟨hlt, hrest⟩ := forall_mem_cons.mp hall
  have hv : charset.idxOf? u = some v := idxOf?_charset.mpr ⟨hlt, hchar⟩
  rw [hv, bind_eq_bind, ih.mpr ⟨hrest, htail⟩]
  rfl

section

variable {values : List ℕ} (h : ∀ v ∈ values, v < 32)

include h

theorem mem_charset_of_chars {u : Fin 65536} (hu : u ∈ chars values) : u ∈ charset := by
  obtain ⟨v, hv, rfl⟩ := mem_map.mp hu
  have hlt : v < charset.length := by
    rw [length_charset]
    exact h v hv
  rw [getD_eq_getElem _ _ hlt]
  exact getElem_mem hlt

theorem isLower_chars : ∀ u ∈ chars values, IsLower u ∧ u ≠ 49 :=
  fun u hu => isLower_charset u (mem_charset_of_chars h hu)

end

theorem idxOf?_reverse {text : DartString} {u : Fin 65536} {behind : ℕ} :
    text.reverse.idxOf? u = some behind ↔
      ∃ front tail, text = front ++ u :: tail ∧ u ∉ tail ∧ tail.length = behind := by
  rw [idxOf?_eq_some_iff]
  constructor
  · rintro ⟨hlt, hat, hbefore⟩
    have hsplit : text.reverse =
        text.reverse.take behind ++ u :: text.reverse.drop (behind + 1) := by
      rw [← hat, getElem_cons_drop, take_append_drop]
    refine ⟨(text.reverse.drop (behind + 1)).reverse, (text.reverse.take behind).reverse, ?_, ?_,
      ?_⟩
    · have hreverse := congrArg reverse hsplit
      rw [reverse_reverse, reverse_append, reverse_cons,
        append_assoc] at hreverse
      exact hreverse
    · intro hmem
      obtain ⟨j, hj, hget⟩ := mem_iff_getElem.mp (mem_reverse.mp hmem)
      rw [length_take] at hj
      rw [getElem_take] at hget
      exact hbefore j (by omega) hget
    · rw [length_reverse, length_take]
      omega
  · rintro ⟨front, tail, rfl, hnot, rfl⟩
    have hreverse : (front ++ u :: tail).reverse = tail.reverse ++ u :: front.reverse := by
      rw [reverse_append, reverse_cons, append_assoc, singleton_append]
    have hlt : tail.length < (front ++ u :: tail).reverse.length := by
      rw [length_reverse, length_append, length_cons]
      omega
    refine ⟨hlt, ?_, fun j hj hget => ?_⟩
    · have hle : tail.reverse.length ≤ tail.length := le_of_eq length_reverse
      simp
    · have hin : j < tail.reverse.length := by rwa [length_reverse]
      simp only [hreverse, getElem_append_left hin] at hget
      exact hnot (mem_reverse.mp (hget ▸ getElem_mem hin))

theorem name_inj {pre other tail rest : DartString} (htail : 49 ∉ tail) (hrest : 49 ∉ rest)
    (h : pre ++ (49 : Fin 65536) :: tail = other ++ (49 : Fin 65536) :: rest) :
    pre = other ∧ tail = rest := by
  have hfirst : (pre ++ (49 : Fin 65536) :: tail).reverse.idxOf? 49 = some tail.length :=
    idxOf?_reverse.mpr ⟨pre, tail, rfl, htail, rfl⟩
  have hsecond : (other ++ (49 : Fin 65536) :: rest).reverse.idxOf? 49 = some rest.length :=
    idxOf?_reverse.mpr ⟨other, rest, rfl, hrest, rfl⟩
  rw [h, hsecond] at hfirst
  obtain ⟨hpre, hcons⟩ := append_inj' h (by
    rw [length_cons, length_cons, some.inj hfirst])
  exact ⟨hpre, (cons.inj hcons).2⟩

theorem decode_of_split {cases : CaseMapping} {input front tail : DartString}
    (hlength : input.length ≤ 5000)
    (hcase : cases.toLowerCase input = input ∨ cases.toUpperCase input = input)
    (htext : cases.toLowerCase input = front ++ 49 :: tail) (htail : 49 ∉ tail) :
    decode cases input =
      if front.length < 1 ∨ front.length + 7 > front.length + (tail.length + 1) then none
      else
        match tail.mapM (charset.idxOf? ·) with
        | none => none
        | some values =>
          if polymod (expand front ++ values) ≠ 1 then none
          else
            (convert (values.take (values.length - 6)) 5 8 false).map fun bytes =>
              (front, bytes.map UInt8.ofNat) := by
  have hguard : ¬ (input.length > 5000 ∨
      (cases.toLowerCase input ≠ input ∧ cases.toUpperCase input ≠ input)) := by
    rintro (hlong | ⟨hlower, hupper⟩)
    · omega
    · exact hcase.elim hlower hupper
  have hidx : (front ++ (49 : Fin 65536) :: tail).reverse.idxOf? 49 = some tail.length :=
    idxOf?_reverse.mpr ⟨front, tail, rfl, htail, rfl⟩
  have hseparator : (front ++ (49 : Fin 65536) :: tail).length - 1 - tail.length =
      front.length := by
    rw [length_append, length_cons]
    omega
  have hdrop : (front ++ (49 : Fin 65536) :: tail).drop (front.length + 1) = tail := by
    rw [drop_append, drop_eq_nil_of_le (Nat.le_succ _), nil_append,
      Nat.add_sub_cancel_left, drop_succ_cons, drop_zero]
  unfold decode
  rw [if_neg hguard, htext]
  dsimp only
  rw [hidx]
  dsimp only
  rw [hseparator, hdrop, take_left, length_append, length_cons]

/-- **What is accepted**: a prefix, `1`, characters of whole bytes and their checksum. -/
theorem decode_eq_some_iff {cases : CaseMapping} {input pre : DartString} {bytes : Bytes} :
    decode cases input = some (pre, bytes) ↔
      input.length ≤ 5000 ∧
        (cases.toLowerCase input = input ∨ cases.toUpperCase input = input) ∧ pre ≠ [] ∧
        ∃ data, (∀ v ∈ data, v < 32) ∧ convert data 5 8 false = some (bytes.map UInt8.toNat) ∧
          cases.toLowerCase input = pre ++ 49 :: chars (data ++ checksum pre data) := by
  constructor
  · intro h
    by_cases hguard : input.length > 5000 ∨
        (cases.toLowerCase input ≠ input ∧ cases.toUpperCase input ≠ input)
    · unfold decode at h
      rw [if_pos hguard] at h
      cases h
    rw [not_or, not_and_or, not_not, not_not, not_lt] at hguard
    obtain ⟨hlength, hcase⟩ := hguard
    -- the last `1`
    obtain ⟨front, tail, htext, htail⟩ : ∃ front tail,
        cases.toLowerCase input = front ++ 49 :: tail ∧ 49 ∉ tail := by
      cases hidx : (cases.toLowerCase input).reverse.idxOf? 49 with
      | none =>
        unfold decode at h
        rw [if_neg (not_or.mpr ⟨not_lt.mpr hlength, not_and_or.mpr (hcase.imp not_not.mpr
          not_not.mpr)⟩)] at h
        dsimp only at h
        rw [hidx] at h
        cases h
      | some behind =>
        obtain ⟨front, tail, htext, htail, -⟩ := idxOf?_reverse.mp hidx
        exact ⟨front, tail, htext, htail⟩
    rw [decode_of_split hlength hcase htext htail] at h
    split at h
    · cases h
    next hsize =>
    rw [not_or, not_lt] at hsize
    split at h
    · cases h
    next values hvalues =>
    obtain ⟨hlt, hchars⟩ := mapM_idxOf?.mp hvalues
    split at h
    · cases h
    next hsum =>
    obtain ⟨read, hread, heq⟩ := map_eq_some_iff.mp h
    obtain ⟨rfl, rfl⟩ := Prod.mk.inj heq
    have hcount : values.length = tail.length := by rw [← hchars, chars, length_map]
    have hsplit : values.take (values.length - 6) ++ values.drop (values.length - 6) =
        values := take_append_drop _ _
    have hlast : (values.drop (values.length - 6)).length = 6 := by
      rw [length_drop]
      omega
    have hdata : ∀ v ∈ values.take (values.length - 6), v < 32 := fun v hv =>
      hlt v (mem_of_mem_take hv)
    have hbytes := (convert_exact.mp hread).2.1
    refine ⟨hlength, hcase, ne_nil_of_length_pos hsize.1, _, hdata, ?_, ?_⟩
    · rw [hread, List.map_map]
      refine congrArg some ((map_id _).symm.trans (map_congr_left fun b hb => ?_))
      exact (UInt8.toNat_ofNat_of_lt' (hbytes b hb)).symm
    · rw [not_not, ← hsplit, ← append_assoc, polymod_eq_one_iff hdata
        (fun v hv => hlt v (mem_of_mem_drop hv)) hlast] at hsum
      rw [htext, ← hchars, ← hsum, hsplit]
  · rintro ⟨hlength, hcase, hpre, data, hdata, hconvert, htext⟩
    have hall : ∀ v ∈ data ++ checksum pre data, v < 32 := by
      intro v hv
      rcases mem_append.mp hv with hv | hv
      · exact hdata v hv
      · exact checksum_lt pre data v hv
    have htail : 49 ∉ chars (data ++ checksum pre data) := fun hmem =>
      (isLower_chars hall 49 hmem).2 rfl
    have hsum : polymod (expand pre ++ (data ++ checksum pre data)) = 1 := by
      rw [← append_assoc]
      exact (polymod_eq_one_iff hdata (checksum_lt pre data) (length_checksum pre data)).mpr rfl
    have hcount : (chars (data ++ checksum pre data)).length = data.length + 6 := by
      rw [chars, length_map, length_append, length_checksum]
    have htake : (data ++ checksum pre data).take ((data ++ checksum pre data).length - 6) =
        data := by
      rw [length_append, length_checksum, Nat.add_sub_cancel, take_left]
    have hpos : 0 < pre.length := length_pos_of_ne_nil hpre
    rw [decode_of_split hlength hcase htext htail, if_neg (by omega), mapM_idxOf?.mpr ⟨hall, rfl⟩]
    dsimp only
    rw [if_neg (not_not.mpr hsum), htake, hconvert, Option.map_some, List.map_map]
    refine congrArg some (Prod.ext rfl ((map_congr_left fun b _ => ?_).trans (map_id _)))
    exact UInt8.ofNat_toNat

theorem toNat_lt (bytes : Bytes) : ∀ b ∈ bytes.map UInt8.toNat, b < 2 ^ 8 := by
  intro b hb
  obtain ⟨byte, -, rfl⟩ := mem_map.mp hb
  exact byte.toNat_lt

theorem encode_eq (pre : DartString) (bytes : Bytes) :
    ∃ data, (∀ v ∈ data, v < 32) ∧ convert data 5 8 false = some (bytes.map UInt8.toNat) ∧
      convert (bytes.map UInt8.toNat) 8 5 true = some data ∧
      encode pre (bytes.map UInt8.toNat) =
        some (pre ++ 49 :: chars (data ++ checksum pre data)) := by
  obtain ⟨data, k, hconvert, hdata, hk, hbits⟩ := convert_pad (toNat_lt bytes)
  refine ⟨data, hdata, convert_exact.mpr ⟨hdata, toNat_lt bytes, k, hk, hbits⟩, hconvert, ?_⟩
  unfold encode
  rw [hconvert, map_some, append_assoc]
  rfl

section

variable {cases : CaseMapping}

theorem decode_encode (law : cases.Lawful) {pre : DartString} (hpre : pre ≠ [])
    (hlower : cases.toLowerCase pre = pre) (bytes : Bytes) :
    ∃ name, encode pre (bytes.map UInt8.toNat) = some name ∧
      (name.length ≤ 5000 → decode cases name = some (pre, bytes)) := by
  obtain ⟨data, hdata, hconvert, -, hencode⟩ := encode_eq pre bytes
  refine ⟨_, hencode, fun hlength => ?_⟩
  have hall : ∀ v ∈ data ++ checksum pre data, v < 32 := by
    intro v hv
    exact (mem_append.mp hv).elim (hdata v) (checksum_lt pre data v)
  have hsame : cases.toLowerCase (pre ++ 49 :: chars (data ++ checksum pre data)) =
      pre ++ 49 :: chars (data ++ checksum pre data) := by
    rw [law.append_lower pre, hlower]
    refine forall_mem_cons.mpr ⟨by decide, fun u hu => (isLower_chars hall u hu).1⟩
  exact decode_eq_some_iff.mpr ⟨hlength, .inl hsame, hpre, data, hdata, hconvert, hsame⟩

/-- **What is accepted is the name of what it is read as**, but for the case. -/
theorem encode_of_decode {input pre : DartString} {bytes : Bytes}
    (h : decode cases input = some (pre, bytes)) :
    encode pre (bytes.map UInt8.toNat) = some (cases.toLowerCase input) := by
  obtain ⟨-, -, -, data, hdata, hconvert, htext⟩ := decode_eq_some_iff.mp h
  obtain ⟨other, hother, hagain, -, hencode⟩ := encode_eq pre bytes
  -- both are the bits of the same bytes and fewer than five zeros
  obtain ⟨-, -, k, hk, hbits⟩ := convert_exact.mp hconvert
  obtain ⟨-, -, m, hm, hbits'⟩ := convert_exact.mp hagain
  have hlength := congrArg length hbits
  have hlength' := congrArg length hbits'
  simp only [length_append, length_groupBits, length_replicate] at hlength hlength'
  have hkm : k = m := by omega
  have hsame : data = other :=
    groupBits_inj (Nat.succ_pos 4) hdata hother (by rw [hbits, hbits', hkm])
  rw [hencode, htext, hsame]

/-- **A character that is another is found out**, wherever it stands behind the separator. -/
theorem decode_set (law : cases.Lawful) {pre : DartString} (hlower : cases.toLowerCase pre = pre)
    {bytes : Bytes} {name : DartString} (hname : encode pre (bytes.map UInt8.toNat) = some name)
    {i : ℕ} (hi : pre.length < i) (hlt : i < name.length) {u : Fin 65536} (hu : u ∈ charset)
    (hne : name[i]? ≠ some u) : decode cases (name.set i u) = none := by
  obtain ⟨data, hdata, -, -, hencode⟩ := encode_eq pre bytes
  obtain rfl : pre ++ 49 :: chars (data ++ checksum pre data) = name :=
    some.inj (hencode.symm.trans hname)
  have hall : ∀ v ∈ data ++ checksum pre data, v < 32 := by
    intro v hv
    exact (mem_append.mp hv).elim (hdata v) (checksum_lt pre data v)
  have hsum : polymod (expand pre ++ (data ++ checksum pre data)) = 1 := by
    rw [← append_assoc]
    exact (polymod_eq_one_iff hdata (checksum_lt pre data) (length_checksum pre data)).mpr rfl
  generalize data ++ checksum pre data = values at *
  -- the place among the values, and the value put there
  obtain ⟨j, rfl⟩ : ∃ j, i = pre.length + 1 + j := ⟨i - (pre.length + 1), by omega⟩
  have hj : j < values.length := by
    rw [length_append, length_cons, chars, length_map] at hlt
    omega
  obtain ⟨w, hw⟩ := isSome_iff_exists.mp (isSome_idxOf?.mpr hu)
  obtain ⟨hw, hchar⟩ := idxOf?_charset.mp hw
  have hset : (pre ++ 49 :: chars values).set (pre.length + 1 + j) u =
      pre ++ 49 :: chars (values.set j w) := by
    rw [set_append_right (pre.length + 1 + j) u (by omega),
      show pre.length + 1 + j - pre.length = j + 1 by omega, set_cons_succ, chars, chars,
      map_set, hchar]
  have hold : (pre ++ 49 :: chars values)[pre.length + 1 + j]? =
      some (charset.getD values[j] 0) := by
    rw [getElem?_append_right (by omega),
      show pre.length + 1 + j - pre.length = j + 1 by omega, getElem?_cons_succ, chars,
      getElem?_map, getElem?_eq_getElem hj, map_some]
  have hvalue : values[j] ≠ w := by
    rintro rfl
    exact hne (hold.trans (congrArg some hchar))
  have hnew : ∀ v ∈ values.set j w, v < 32 := fun v hv =>
    (mem_or_eq_of_mem_set hv).elim (hall v) fun h => h ▸ hw
  rw [hset]
  refine eq_none_iff_forall_ne_some.mpr fun ⟨other, read⟩ hread => ?_
  obtain ⟨-, -, -, rest, hrest, -, htext⟩ := decode_eq_some_iff.mp hread
  have hsame : cases.toLowerCase (pre ++ 49 :: chars (values.set j w)) =
      pre ++ 49 :: chars (values.set j w) := by
    rw [law.append_lower pre, hlower]
    refine forall_mem_cons.mpr ⟨by decide, fun u hu => (isLower_chars hnew u hu).1⟩
  have hlast : ∀ v ∈ rest ++ checksum other rest, v < 32 := by
    intro v hv
    exact (mem_append.mp hv).elim (hrest v) (checksum_lt other rest v)
  -- what was read ends in its checksum, so the register ends as it did before
  rw [hsame] at htext
  obtain ⟨rfl, hchars⟩ := name_inj (fun h => (isLower_chars hnew 49 h).2 rfl)
    (fun h => (isLower_chars hlast 49 h).2 rfl) htext
  have hvalues : values.set j w = rest ++ checksum pre rest := by
    have hleft := mapM_idxOf?.mpr ⟨hnew, hchars⟩
    rw [mapM_idxOf?.mpr ⟨hlast, rfl⟩] at hleft
    exact (some.inj hleft).symm
  have hend : polymod (expand pre ++ values.set j w) = 1 := by
    rw [hvalues, ← append_assoc]
    exact (polymod_eq_one_iff hrest (checksum_lt pre rest) (length_checksum pre rest)).mpr rfl
  have hsplit : values = values.take j ++ values[j] :: values.drop (j + 1) := by
    rw [getElem_cons_drop, take_append_drop]
  have hsplit' : values.set j w = values.take j ++ w :: values.drop (j + 1) :=
    set_eq_take_append_cons_drop.trans (if_pos hj)
  have hsmall {v : ℕ} (hv : v < 32) : v < 2 ^ 30 := hv.trans (by decide)
  refine @polymod_ne (expand pre ++ values.take j) (values.drop (j + 1)) _ _
    (fun v hv => hsmall (hall v (mem_of_mem_drop hv)))
    (hsmall (hall _ (getElem_mem hj))) (hsmall hw) hvalue ?_
  rw [append_assoc, append_assoc, ← hsplit, ← hsplit', hsum, hend]

end

end Bech32
end Nostr
end Conest
