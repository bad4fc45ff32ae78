import Conest.Lib.LinkedMap
import Conest.Lib.Outcome
import Conest.Lib.Utf8

/-!
# The radio's protobuf

What `ProtoWriter` writes with different field numbers `ProtoReader.fields` reads back
(`fields_toBytes`): a varint is read as the bits that were written (`readVarintFrom_varintFrom`), a
field as one entry of the map. On other bytes the reader ends too, for every field takes a byte. But
the end of a block is a sum of 64 bits: a length near `2 ^ 63` makes it negative, which passes the
check and is no end of a view. `fields_total_iff` says that this is the only error that is no
`FormatException`.
-/

namespace Conest
namespace Radio

open Lib List

/-! ### Integers of 64 bits -/

variable {shift result rounds : ℕ} {calls : List ProtoCall}

/-- The bits of an integer. -/
def bitsOf (value : ℤ) : ℕ := (value % 2 ^ 64).toNat

/-- The integer of 64 bits. -/
def signed (bits : ℕ) : ℤ := if bits < 2 ^ 63 then bits else bits - 2 ^ 64

def IsInt64 (value : ℤ) : Prop := -2 ^ 63 ≤ value ∧ value < 2 ^ 63

theorem bitsOf_lt (value : ℤ) : bitsOf value < 2 ^ 64 := by
  unfold bitsOf
  omega

theorem signed_bitsOf {value : ℤ} (h : IsInt64 value) : signed (bitsOf value) = value := by
  obtain ⟨hlow, hhigh⟩ := h
  unfold signed bitsOf
  split <;> omega

theorem bitsOf_natCast {n : ℕ} (h : n < 2 ^ 64) : bitsOf n = n := by
  unfold bitsOf
  omega

theorem signed_bitsOf_of_nonneg {value : ℤ} (h : 0 ≤ value) (hlt : value < 2 ^ 64) :
    signed (bitsOf value) = if value < 2 ^ 63 then value else value - 2 ^ 64 := by
  unfold signed bitsOf
  split <;> split <;> omega

/-! ### Writing -/

namespace WireType

def varint : ℕ := 0
def fixed64 : ℕ := 1
def lengthDelimited : ℕ := 2
def fixed32 : ℕ := 5

end WireType

/-- The loop of `_varint`. Ten rounds are enough for 64 bits. -/
def varintFrom : ℕ → ℕ → Bytes
  | 0, _ => []
  | rounds + 1, remaining =>
    if remaining / 128 = 0 then [UInt8.ofNat (remaining % 128)]
    else UInt8.ofNat (remaining % 128 + 128) :: varintFrom rounds (remaining / 128)

def varint (value : ℤ) : Bytes := varintFrom 10 (bitsOf value)

def key (field wireType : ℕ) : Bytes := varint ((field <<< 3 ||| wireType : ℕ) : ℤ)

/-- So many bytes, the lowest first. -/
def littleEndian : ℕ → ℕ → Bytes
  | 0, _ => []
  | size + 1, value => UInt8.ofNat (value % 256) :: littleEndian size (value / 256)

def ofLittleEndian : Bytes → ℕ
  | [] => 0
  | byte :: rest => byte.toNat + 256 * ofLittleEndian rest

/-- A call of a writer. -/
inductive ProtoCall where
  | uint (field : ℕ) (value : ℤ)
  | boolean (field : ℕ) (value : Bool)
  | fixed32 (field : ℕ) (value : ℤ)
  | bytes (field : ℕ) (value : Bytes)
  | string (field : ℕ) (value : DartString)
  /-- The bytes of another writer. -/
  | message (field : ℕ) (value : Bytes)
  | emptyMessage (field : ℕ)

namespace ProtoWriter

def uint (field : ℕ) (value : ℤ) : Bytes :=
  if value = 0 then [] else key field WireType.varint ++ varint value

def boolean (field : ℕ) (value : Bool) : Bytes := if value then uint field 1 else []

def fixed32 (field : ℕ) (value : ℤ) : Bytes :=
  if value = 0 then []
  else key field WireType.fixed32 ++ littleEndian 4 (value % 2 ^ 32).toNat

def bytes (field : ℕ) (value : Bytes) : Bytes :=
  if value.isEmpty then []
  else key field WireType.lengthDelimited ++ (varint value.length ++ value)

def string (field : ℕ) (value : DartString) : Bytes := bytes field (DartString.utf8Encode value)

def message (field : ℕ) (value : Bytes) : Bytes := bytes field value

/-- A message with no content, which is written. -/
def emptyMessage (field : ℕ) : Bytes := key field WireType.lengthDelimited ++ varint 0

end ProtoWriter

/-- What a call adds to the bytes. -/
def ProtoCall.write : ProtoCall → Bytes
  | uint field value => ProtoWriter.uint field value
  | boolean field value => ProtoWriter.boolean field value
  | fixed32 field value => ProtoWriter.fixed32 field value
  | bytes field value => ProtoWriter.bytes field value
  | string field value => ProtoWriter.string field value
  | message field value => ProtoWriter.message field value
  | emptyMessage field => ProtoWriter.emptyMessage field

/-- `toBytes` after these calls. -/
def toBytes (calls : List ProtoCall) : Bytes := calls.flatMap ProtoCall.write

/-! ### Reading -/

inductive ProtoError where
  /-- A `FormatException`. -/
  | format (message : String)
  /-- The `RangeError` of a view that ends before it begins. -/
  | range
deriving DecidableEq

inductive ProtoValue where
  | int (value : ℤ)
  | bytes (value : Bytes)
deriving DecidableEq

/-- The loop of `_readVarint`, with the bits so far. -/
def readVarintFrom : ℕ → ℕ → Bytes → Except ProtoError (ℕ × Bytes)
  | _, _, [] => .error (.format "Malformed protobuf varint.")
  | shift, result, byte :: rest =>
    if 63 < shift then .error (.format "Malformed protobuf varint.")
    else
      let result := result ||| (byte.toNat % 128) <<< shift % 2 ^ 64
      if byte.toNat < 128 then .ok (result, rest) else readVarintFrom (shift + 7) result rest

def readVarint (data : Bytes) : Except ProtoError (ℤ × Bytes) :=
  (readVarintFrom 0 0 data).map fun read => (signed read.1, read.2)

/-- The block of `size` bytes that `rest` begins with, in `length` bytes altogether. -/
def readBlock (length : ℕ) (size : ℤ) (rest : Bytes) : Except ProtoError (Bytes × Bytes) :=
  let offset : ℤ := length - rest.length
  let finish := signed (bitsOf (offset + size))
  if size < 0 ∨ length < finish then .error (.format "Truncated protobuf field.")
  else if finish < offset then .error .range
  else .ok (rest.take size.toNat, rest.drop size.toNat)

/-- The `switch` of `next`. -/
def readValue (length type : ℕ) (rest : Bytes) : Except ProtoError (ProtoValue × Bytes) :=
  if type = WireType.varint then (readVarint rest).map fun read => (.int read.1, read.2)
  else if type = WireType.fixed32 then
    (readBlock length 4 rest).map fun read => (.int (ofLittleEndian read.1), read.2)
  else if type = WireType.fixed64 then
    (readBlock length 8 rest).map fun read => (.int (signed (ofLittleEndian read.1)), read.2)
  else if type = WireType.lengthDelimited then do
    let (size, rest) ← readVarint rest
    (readBlock length size rest).map fun read => (.bytes read.1, read.2)
  else .error (.format ("Unsupported protobuf wire type " ++ toString type ++ "."))

/-- `next`: the number of the field, its value, and the bytes left. -/
def next (length : ℕ) (data : Bytes) : Except ProtoError (ℤ × ProtoValue × Bytes) := do
  let (key, rest) ← readVarint data
  let (value, rest) ← readValue length (key % 8).toNat rest
  pure (key / 8, value, rest)

/-- The loop of `fields`, for no more than so many rounds. -/
def fieldsFrom (length : ℕ) : ℕ → LinkedMap ℤ ProtoValue → Bytes →
    Outcome ProtoError (LinkedMap ℤ ProtoValue)
  | _, result, [] => .ok result
  | 0, _, _ :: _ => .diverges
  | rounds + 1, result, byte :: data =>
    match next length (byte :: data) with
    | .error e => .error e
    | .ok (field, value, rest) => fieldsFrom length rounds (result.put field value) rest

/-- `ProtoReader.fields`. -/
def fields (data : Bytes) : Outcome ProtoError (LinkedMap ℤ ProtoValue) :=
  fieldsFrom data.length data.length LinkedMap.empty data

/-! ### What is written is read back -/

theorem or_digit {digit : ℕ} (hresult : result < 2 ^ shift) (hfit : digit * 2 ^ shift < 2 ^ 64) :
    result ||| digit <<< shift % 2 ^ 64 = result + digit * 2 ^ shift := by
  rw [Nat.shiftLeft_eq, Nat.mod_eq_of_lt hfit, Nat.or_comm, Nat.mul_comm,
    ← Nat.two_pow_add_eq_or_of_lt hresult, Nat.add_comm]

theorem readVarintFrom_varintFrom {remaining : ℕ}
    (hrounds : 0 < rounds ∧ remaining < 128 ^ rounds) (hshift : shift ≤ 63)
    (hresult : result < 2 ^ shift) (hfit : remaining * 2 ^ shift < 2 ^ 64) (rest : Bytes) :
    readVarintFrom shift result (varintFrom rounds remaining ++ rest) =
      .ok (result + remaining * 2 ^ shift, rest) := by
  induction rounds generalizing shift result remaining with
  | zero => exact absurd hrounds.1 (Nat.lt_irrefl 0)
  | succ rounds ih =>
  have hdigit : remaining % 128 * 2 ^ shift < 2 ^ 64 :=
    (Nat.mul_le_mul_right _ (Nat.mod_le _ _)).trans_lt hfit
  rw [varintFrom]
  by_cases hlast : remaining / 128 = 0
  · have hbyte : (UInt8.ofNat (remaining % 128)).toNat = remaining % 128 :=
      DartString.toNat_byte (by omega)
    have hall : remaining % 128 = remaining := by omega
    rw [if_pos hlast, singleton_append, readVarintFrom, if_neg (by omega), hbyte, Nat.mod_mod,
      or_digit hresult hdigit]
    dsimp only
    rw [if_pos (by omega), hall]
  -- the rest is not zero, so it begins below the top bit
  have hbyte : (UInt8.ofNat (remaining % 128 + 128)).toNat = remaining % 128 + 128 :=
    DartString.toNat_byte (by omega)
  have hsplit : remaining * 2 ^ shift =
      remaining % 128 * 2 ^ shift + remaining / 128 * 2 ^ (shift + 7) := by
    nth_rewrite 1 [← Nat.mod_add_div remaining 128]
    rw [pow_add]
    ring
  have hnext : remaining / 128 * 2 ^ (shift + 7) < 2 ^ 64 := by omega
  have hbelow : shift + 7 ≤ 63 := by
    by_contra habove
    have hpow : 2 ^ 64 ≤ 2 ^ (shift + 7) := Nat.pow_le_pow_right (by decide) (by omega)
    have hone := Nat.mul_le_mul_right (2 ^ (shift + 7)) (Nat.pos_of_ne_zero hlast)
    omega
  have hbits : result + remaining % 128 * 2 ^ shift < 2 ^ (shift + 7) := by
    have hmul : remaining % 128 * 2 ^ shift ≤ 127 * 2 ^ shift :=
      Nat.mul_le_mul_right _ (by omega)
    rw [pow_add]
    omega
  have hmore : 0 < rounds ∧ remaining / 128 < 128 ^ rounds := by
    obtain ⟨-, hrounds⟩ := hrounds
    rw [pow_succ] at hrounds
    refine ⟨Nat.pos_of_ne_zero fun hzero => ?_, by omega⟩
    rw [hzero] at hrounds
    omega
  rw [if_neg hlast, cons_append, readVarintFrom, if_neg (by omega), hbyte,
    Nat.add_mod_right, Nat.mod_mod, or_digit hresult hdigit]
  dsimp only
  rw [if_neg (by omega), ih hmore hbelow hbits hnext, hsplit, Nat.add_assoc]

theorem readVarint_varint {value : ℤ} (h : IsInt64 value) (rest : Bytes) :
    readVarint (varint value ++ rest) = .ok (value, rest) := by
  have hlt := bitsOf_lt value
  have hread : readVarintFrom 0 0 (varintFrom 10 (bitsOf value) ++ rest) =
      .ok (0 + bitsOf value * 2 ^ 0, rest) :=
    readVarintFrom_varintFrom ⟨by decide, hlt.trans (by norm_num)⟩ (by omega) (by omega) (by omega)
      rest
  rw [readVarint, varint, hread]
  simp [Except.map, signed_bitsOf h]

theorem ofLittleEndian_littleEndian {size value : ℕ} (h : value < 256 ^ size) :
    ofLittleEndian (littleEndian size value) = value := by
  induction size generalizing value with
  | zero =>
    rw [littleEndian, ofLittleEndian]
    omega
  | succ size ih =>
    have hbyte : (UInt8.ofNat (value % 256)).toNat = value % 256 :=
      UInt8.toNat_ofNat_of_lt' (Nat.mod_lt _ (by decide))
    rw [littleEndian, ofLittleEndian, hbyte, ih (by rw [pow_succ] at h; omega)]
    omega

@[simp] theorem length_littleEndian (size value : ℕ) : (littleEndian size value).length = size := by
  induction size generalizing value with
  | zero => rfl
  | succ size ih => rw [littleEndian, length_cons, ih]

theorem readBlock_append {length : ℕ} (hlength : length < 2 ^ 63) {block rest : Bytes}
    (h : (block ++ rest).length ≤ length) :
    readBlock length block.length (block ++ rest) = .ok (block, rest) := by
  rw [length_append] at h
  have hoffset : ((length : ℤ) - (block ++ rest).length + block.length) = length - rest.length := by
    rw [length_append]
    omega
  have hfinish : signed (bitsOf ((length : ℤ) - rest.length)) = length - rest.length := by
    rw [signed_bitsOf_of_nonneg (by omega) (by omega), if_pos (by omega)]
  unfold readBlock
  dsimp only
  rw [hoffset, hfinish, if_neg (by omega), if_neg (by rw [length_append]; omega),
    Int.toNat_natCast, take_left, drop_left]

section Next

variable {length field : ℕ} (hfield : field < 2 ^ 29)

include hfield

theorem readVarint_key {type : ℕ} (htype : type < 8) (rest : Bytes) :
    readVarint (key field type ++ rest) = .ok (field * 8 + type, rest) := by
  have hor : field <<< 3 ||| type = field * 8 + type := by
    rw [Nat.shiftLeft_eq, Nat.mul_comm, ← Nat.two_pow_add_eq_or_of_lt htype, Nat.mul_comm]
  rw [key, hor, readVarint_varint (by constructor <;> push_cast <;> omega)]
  push_cast
  rfl

theorem next_of_value {type : ℕ} (htype : type < 8) {written rest : Bytes} {value : ProtoValue}
    (h : readValue length type (written ++ rest) = .ok (value, rest)) :
    next length (key field type ++ (written ++ rest)) = .ok (field, value, rest) := by
  have hfield' : ((field : ℤ) * 8 + type) / 8 = field := by omega
  have htype' : (((field : ℤ) * 8 + type) % 8).toNat = type := by omega
  simp only [next, readVarint_key hfield htype, bind, Except.bind, pure, Except.pure, hfield',
    htype', h]

theorem next_uint {value : ℤ} (h : IsInt64 value) (hne : value ≠ 0) (rest : Bytes) :
    next length (ProtoWriter.uint field value ++ rest) = .ok (field, .int value, rest) := by
  rw [ProtoWriter.uint, if_neg hne, append_assoc]
  apply next_of_value hfield (by decide)
  rw [readValue, if_pos rfl, readVarint_varint h]
  rfl

theorem next_fixed32 {value : ℤ} (h : 0 < value ∧ value < 2 ^ 32) (hlength : length < 2 ^ 63)
    {rest : Bytes} (hrest : (ProtoWriter.fixed32 field value ++ rest).length ≤ length) :
    next length (ProtoWriter.fixed32 field value ++ rest) = .ok (field, .int value, rest) := by
  rw [ProtoWriter.fixed32, if_neg (by omega), append_assoc] at hrest ⊢
  rw [length_append] at hrest
  have hblock := readBlock_append hlength ((Nat.le_add_left _ _).trans hrest)
  rw [length_littleEndian] at hblock
  have hvalue : ofLittleEndian (littleEndian 4 (value % 2 ^ 32).toNat) = value.toNat := by
    rw [Int.emod_eq_of_lt h.1.le h.2]
    exact ofLittleEndian_littleEndian (by omega)
  apply next_of_value hfield (by decide)
  rw [readValue, if_neg (by decide), if_pos rfl]
  rw [show (4 : ℤ) = ((4 : ℕ) : ℤ) from rfl, hblock]
  show Except.ok (ProtoValue.int (ofLittleEndian _ : ℕ), rest) = _
  rw [hvalue, Int.toNat_of_nonneg h.1.le]

theorem next_block {value : Bytes} (hlength : length < 2 ^ 63) {rest : Bytes}
    (hrest : (key field WireType.lengthDelimited ++
      (varint value.length ++ (value ++ rest))).length ≤ length) :
    next length (key field WireType.lengthDelimited ++ (varint value.length ++ (value ++ rest))) =
      .ok (field, .bytes value, rest) := by
  have hle : (value ++ rest).length ≤ length := by
    rw [length_append, length_append] at hrest
    omega
  have hsize : IsInt64 value.length := by
    rw [length_append] at hle
    constructor <;> omega
  rw [← append_assoc (varint _)]
  apply next_of_value hfield (by decide)
  rw [readValue, if_neg (by decide), if_neg (by decide), if_neg (by decide), if_pos rfl,
    append_assoc, readVarint_varint hsize]
  simp only [bind, Except.bind, readBlock_append hlength hle]
  rfl

theorem next_bytes {value : Bytes} (hne : value ≠ []) (hlength : length < 2 ^ 63) {rest : Bytes}
    (hrest : (ProtoWriter.bytes field value ++ rest).length ≤ length) :
    next length (ProtoWriter.bytes field value ++ rest) = .ok (field, .bytes value, rest) := by
  have hwrite : ProtoWriter.bytes field value ++ rest =
      key field WireType.lengthDelimited ++ (varint value.length ++ (value ++ rest)) := by
    rw [ProtoWriter.bytes, if_neg (by simpa using hne)]
    simp
  rw [hwrite] at hrest ⊢
  exact next_block hfield hlength hrest

end Next

namespace ProtoCall

def field : ProtoCall → ℕ
  | uint field _ | boolean field _ | fixed32 field _ | bytes field _ | string field _
  | message field _ | emptyMessage field => field

/-- The value that a call writes; a default is not written. -/
def value : ProtoCall → Option ProtoValue
  | uint _ value | fixed32 _ value => if value = 0 then none else some (.int value)
  | boolean _ value => if value then some (.int 1) else none
  | bytes _ value | message _ value => if value = [] then none else some (.bytes value)
  | string _ value =>
    if DartString.utf8Encode value = [] then none else some (.bytes (DartString.utf8Encode value))
  | emptyMessage _ => some (.bytes [])

/-- The numbers fit their types. -/
def InRange : ProtoCall → Prop
  | uint _ value => IsInt64 value
  | fixed32 _ value => 0 ≤ value ∧ value < 2 ^ 32
  | _ => True

end ProtoCall

theorem write_bytes_of_nil {field : ℕ} {value : Bytes}
    (h : (if value = [] then none else some (ProtoValue.bytes value)) = none) :
    ProtoWriter.bytes field value = [] := by
  split at h
  · next hnil =>
    rw [hnil]
    rfl
  · cases h

theorem write_of_default {call : ProtoCall} (h : call.value = none) : call.write = [] := by
  cases call with
  | uint field value =>
    have hzero : value = 0 := by simpa [ProtoCall.value] using h
    exact if_pos hzero
  | boolean field value =>
    have hfalse : value = false := by simpa [ProtoCall.value] using h
    rw [ProtoCall.write, hfalse]
    rfl
  | fixed32 field value =>
    have hzero : value = 0 := by simpa [ProtoCall.value] using h
    exact if_pos hzero
  | bytes field value => exact write_bytes_of_nil h
  | string field value => exact write_bytes_of_nil h
  | message field value => exact write_bytes_of_nil h
  | emptyMessage field => cases h

theorem next_write {call : ProtoCall} {value : ProtoValue} (h : call.value = some value)
    (hrange : call.InRange) (hfield : call.field < 2 ^ 29) {length : ℕ} (hlength : length < 2 ^ 63)
    {rest : Bytes} (hrest : (call.write ++ rest).length ≤ length) :
    next length (call.write ++ rest) = .ok (call.field, value, rest) := by
  have hbytes : ∀ {bytes : Bytes},
      (if bytes = [] then none else some (ProtoValue.bytes bytes)) = some value →
      (ProtoWriter.bytes call.field bytes ++ rest).length ≤ length →
      next length (ProtoWriter.bytes call.field bytes ++ rest) = .ok (call.field, value, rest) := by
    intro bytes hvalue hle
    split at hvalue
    · cases hvalue
    next hne =>
    cases hvalue
    exact next_bytes hfield hne hlength hle
  cases call with
  | uint field number =>
    have hne : number ≠ 0 := by
      rintro rfl
      cases h
    obtain rfl : ProtoValue.int number = value := by simpa [ProtoCall.value, hne] using h
    exact next_uint hfield hrange hne rest
  | boolean field flag =>
    cases flag with
    | false => cases h
    | true =>
      cases h
      have hone : IsInt64 1 := by constructor <;> omega
      exact next_uint hfield hone (by decide) rest
  | fixed32 field number =>
    have hne : number ≠ 0 := by
      rintro rfl
      cases h
    obtain rfl : ProtoValue.int number = value := by simpa [ProtoCall.value, hne] using h
    obtain ⟨hlow, hhigh⟩ := hrange
    exact next_fixed32 hfield ⟨by omega, hhigh⟩ hlength hrest
  | bytes field bytes => exact hbytes h hrest
  | string field text => exact hbytes h hrest
  | message field bytes => exact hbytes h hrest
  | emptyMessage field =>
    cases h
    have hwrite : (ProtoCall.emptyMessage field).write ++ rest =
        key field WireType.lengthDelimited ++
          (varint (([] : Bytes).length) ++ ([] ++ rest)) := by
      rw [ProtoCall.write, ProtoWriter.emptyMessage, append_assoc]
      rfl
    rw [hwrite] at hrest ⊢
    exact next_block hfield hlength hrest

/-! ### What is left of the bytes -/

theorem readVarintFrom_spec {data : Bytes} (hresult : result < 2 ^ 64) :
    readVarintFrom shift result data = .error (.format "Malformed protobuf varint.") ∨
      ∃ bits rest, readVarintFrom shift result data = .ok (bits, rest) ∧ bits < 2 ^ 64 ∧
        rest.length < data.length := by
  induction data generalizing shift result with
  | nil => exact .inl rfl
  | cons byte data ih =>
  have hor : result ||| (byte.toNat % 128) <<< shift % 2 ^ 64 < 2 ^ 64 :=
    Nat.or_lt_two_pow hresult (Nat.mod_lt _ (by decide))
  unfold readVarintFrom
  split
  · exact .inl rfl
  dsimp only
  split
  · exact .inr ⟨_, _, rfl, hor, Nat.lt_succ_self _⟩
  obtain herror | ⟨bits, rest, hread, hbits, hrest⟩ := ih hor
  · exact .inl herror
  · exact .inr ⟨bits, rest, hread, hbits, Nat.lt_succ_of_lt hrest⟩

theorem readVarint_spec (data : Bytes) :
    readVarint data = .error (.format "Malformed protobuf varint.") ∨
      ∃ value rest, readVarint data = .ok (value, rest) ∧ value < 2 ^ 63 ∧
        rest.length < data.length := by
  have hzero : (0 : ℕ) < 2 ^ 64 := by decide
  unfold readVarint
  obtain hread | ⟨bits, rest, hread, hbits, hrest⟩ := readVarintFrom_spec hzero
  · rw [hread]
    exact .inl rfl
  rw [hread]
  refine .inr ⟨signed bits, rest, rfl, ?_, hrest⟩
  unfold signed
  split <;> omega

/-- The block of `size` bytes at the front of `rest` ends at `2 ^ 63` or behind. -/
def Wraps (length : ℕ) (size : ℤ) (rest : Bytes) : Prop :=
  0 ≤ size ∧ 2 ^ 63 ≤ (length : ℤ) - rest.length + size

/-- The block of the value wraps. -/
def ValueWraps (length type : ℕ) (rest : Bytes) : Prop :=
  type = WireType.fixed32 ∧ Wraps length 4 rest ∨ type = WireType.fixed64 ∧ Wraps length 8 rest ∨
    type = WireType.lengthDelimited ∧
      ∃ size rest', readVarint rest = .ok (size, rest') ∧ Wraps length size rest'

/-- What a read comes to: a `RangeError` if it wraps, and else another error or less than `n` bytes
that are left. -/
def ComesTo {α : Type} (wraps : Prop) (n : ℕ) : Except ProtoError (α × Bytes) → Prop
  | .ok read => ¬ wraps ∧ read.2.length < n
  | .error .range => wraps
  | .error (.format _) => ¬ wraps

theorem ComesTo.map {α β : Type} {wraps : Prop} {n : ℕ} {x : Except ProtoError (α × Bytes)}
    (h : ComesTo wraps n x) (f : α → β) :
    ComesTo wraps n (x.map fun read => (f read.1, read.2)) := by
  rcases x with (_ | _) | _ <;> exact h

section Reads

variable {length : ℕ} (hlength : length < 2 ^ 63)

include hlength

theorem readBlock_comesTo {size : ℤ} {rest : Bytes} (hrest : rest.length ≤ length)
    (hsize : size < 2 ^ 63) {n : ℕ} (hn : rest.length < n) :
    ComesTo (Wraps length size rest) n (readBlock length size rest) := by
  unfold readBlock
  dsimp only
  split
  · next htruncated =>
    rintro ⟨hpos, hwraps⟩
    rw [signed_bitsOf_of_nonneg (by omega) (by omega), if_neg (by omega)] at htruncated
    omega
  next hfits =>
  obtain ⟨hpos, -⟩ := not_or.mp hfits
  rw [signed_bitsOf_of_nonneg (by omega) (by omega)]
  split <;> split
  · omega
  · refine ⟨fun hwraps => absurd hwraps.2 (by omega), ?_⟩
    rw [length_drop]
    omega
  · exact ⟨by omega, by omega⟩
  · omega

theorem readValue_comesTo {type : ℕ} {rest : Bytes} (hrest : rest.length ≤ length) {n : ℕ}
    (hn : rest.length < n) :
    ComesTo (ValueWraps length type rest) n (readValue length type rest) := by
  have hfixed : ∀ (size : ℤ) (f : Bytes → ProtoValue), size < 2 ^ 63 →
      (ValueWraps length type rest ↔ Wraps length size rest) →
      ComesTo (ValueWraps length type rest) n
        ((readBlock length size rest).map fun read => (f read.1, read.2)) := by
    intro size f hsize hiff
    rw [hiff]
    exact (readBlock_comesTo hlength hrest hsize hn).map f
  unfold readValue
  split
  · next htype =>
    have hno : ¬ ValueWraps length type rest := by
      rw [htype]
      simp [ValueWraps, WireType.varint, WireType.fixed32, WireType.fixed64,
        WireType.lengthDelimited]
    obtain hread | ⟨value, rest', hread, -, hless⟩ := readVarint_spec rest
    · rw [hread]
      exact hno
    · rw [hread]
      exact ⟨hno, hless.trans hn⟩
  split
  · next htype =>
    exact hfixed 4 (fun block => .int (ofLittleEndian block)) (by omega) (by
      simp [ValueWraps, htype, WireType.fixed32, WireType.fixed64, WireType.lengthDelimited])
  split
  · next htype =>
    exact hfixed 8 (fun block => .int (signed (ofLittleEndian block))) (by omega) (by
      simp [ValueWraps, htype, WireType.fixed32, WireType.fixed64, WireType.lengthDelimited])
  next h0 h5 h1 =>
  have hwraps : ValueWraps length type rest ↔ type = WireType.lengthDelimited ∧
      ∃ size rest', readVarint rest = .ok (size, rest') ∧ Wraps length size rest' := by
    simp only [ValueWraps, h5, h1, false_and, false_or]
  rw [hwraps]
  split
  · next htype =>
    obtain hread | ⟨size, rest', hread, hsize, hless⟩ := readVarint_spec rest
    · rw [hread]
      rintro ⟨-, _, _, h, -⟩
      cases h
    have hblock := readBlock_comesTo hlength (hless.le.trans hrest) hsize (hless.trans hn)
    have hiff : (type = WireType.lengthDelimited ∧ ∃ size' rest'', readVarint rest =
        .ok (size', rest'') ∧ Wraps length size' rest'') ↔ Wraps length size rest' := by
      simp [htype, hread]
    rw [hiff, hread]
    exact hblock.map ProtoValue.bytes
  next htype => exact fun h => htype h.1

theorem next_comesTo {data : Bytes} (hle : data.length ≤ length) :
    ComesTo (∃ key rest, readVarint data = .ok (key, rest) ∧
      ValueWraps length (key % 8).toNat rest) data.length ((next length data).map Prod.snd) := by
  unfold next
  obtain hkey | ⟨key, rest, hkey, -, hless⟩ := readVarint_spec data
  · rw [hkey]
    rintro ⟨_, _, h, -⟩
    cases h
  have hvalue : ComesTo (ValueWraps length (key % 8).toNat rest) data.length
      (readValue length (key % 8).toNat rest) :=
    readValue_comesTo hlength (hless.le.trans hle) hless
  have hwraps : (∃ key' rest', readVarint data = .ok (key', rest') ∧
      ValueWraps length (key' % 8).toNat rest') ↔ ValueWraps length (key % 8).toNat rest := by
    simp [hkey]
  rw [hwraps, hkey]
  show ComesTo _ _ (Except.map Prod.snd ((readValue length (key % 8).toNat rest).bind _))
  cases hread : readValue length (key % 8).toNat rest <;> rw [hread] at hvalue <;> exact hvalue

end Reads

/-- The bytes lead to a block that wraps. -/
inductive Overruns (length : ℕ) : Bytes → Prop where
  | here {data rest : Bytes} {key : ℤ} (hkey : readVarint data = .ok (key, rest))
      (hvalue : ValueWraps length (key % 8).toNat rest) : Overruns length data
  | later {data rest : Bytes} {field : ℤ} {value : ProtoValue}
      (hnext : next length data = .ok (field, value, rest)) (hrest : Overruns length rest) :
      Overruns length data

/-! ### All fields -/

/-- What a call leaves in the map. -/
def stored (result : LinkedMap ℤ ProtoValue) (call : ProtoCall) : LinkedMap ℤ ProtoValue :=
  match call.value with
  | none => result
  | some value => result.put call.field value

/-- The value of the call for a field. -/
def written (calls : List ProtoCall) (field : ℤ) : Option ProtoValue :=
  (calls.find? fun call => decide ((call.field : ℤ) = field)).bind ProtoCall.value

/-- Calls with field numbers of protobuf, each once. -/
structure Writable (calls : List ProtoCall) : Prop where
  distinct : (calls.map ProtoCall.field).Nodup
  fields : ∀ call ∈ calls, 1 ≤ call.field ∧ call.field < 2 ^ 29
  values : ∀ call ∈ calls, call.InRange
  /-- The length of a list is an integer. -/
  short : (toBytes calls).length < 2 ^ 63

theorem get_stored (result : LinkedMap ℤ ProtoValue) (call : ProtoCall) (field : ℤ) :
    (stored result call).get field =
      if (call.field : ℤ) = field then call.value.or (result.get field) else result.get field := by
  unfold stored
  cases call.value with
  | none => exact (ite_self _).symm
  | some value =>
  rw [LinkedMap.get_put]
  by_cases h : (call.field : ℤ) = field
  · rw [if_pos h.symm, if_pos h]
    rfl
  · rw [if_neg fun heq => h heq.symm, if_neg h]

theorem get_foldl_stored (h : (calls.map ProtoCall.field).Nodup) (result : LinkedMap ℤ ProtoValue)
    (field : ℤ) :
    (calls.foldl stored result).get field = (written calls field).or (result.get field) := by
  induction calls generalizing result with
  | nil => rfl
  | cons call calls ih =>
  rw [map_cons, nodup_cons] at h
  rw [foldl_cons, ih h.2, get_stored]
  by_cases hfield : (call.field : ℤ) = field
  · -- no call after this one has its field
    have hnone : calls.find? (fun call => decide ((call.field : ℤ) = field)) = none := by
      apply find?_eq_none.mpr
      intro other hmem hother
      have hsame : other.field = call.field := by
        have := of_decide_eq_true hother
        omega
      exact h.1 (hsame ▸ mem_map_of_mem hmem)
    rw [written, written, hnone, if_pos hfield,
      find?_cons_of_pos (by simpa using hfield)]
    rfl
  · rw [if_neg hfield, written, written, find?_cons_of_neg (by simpa using hfield)]

theorem fieldsFrom_toBytes {length : ℕ} (hlength : length < 2 ^ 63)
    (hfields : ∀ call ∈ calls, call.field < 2 ^ 29 ∧ call.InRange)
    (hrounds : (toBytes calls).length ≤ rounds) (hle : (toBytes calls).length ≤ length)
    (result : LinkedMap ℤ ProtoValue) :
    fieldsFrom length rounds result (toBytes calls) = .ok (calls.foldl stored result) := by
  induction calls generalizing rounds result with
  | nil => cases rounds <;> rfl
  | cons call calls ih =>
  have htail := fun call' hcall' => hfields call' (mem_cons_of_mem call hcall')
  have hsplit : toBytes (call :: calls) = call.write ++ toBytes calls := flatMap_cons
  rw [hsplit] at hrounds hle ⊢
  rw [foldl_cons]
  cases hvalue : call.value with
  | none =>
    rw [write_of_default hvalue, nil_append] at hrounds hle ⊢
    rw [ih htail hrounds hle, stored, hvalue]
  | some value =>
  obtain ⟨hfield, hrange⟩ := hfields call mem_cons_self
  have hnext := next_write hvalue hrange hfield hlength hle
  -- the field takes a byte or more, or there would be nothing to read
  have hcomes := next_comesTo hlength hle
  rw [hnext] at hcomes
  have hless := hcomes.2
  cases hdata : call.write ++ toBytes calls with
  | nil =>
    rw [hdata] at hless
    exact absurd hless (Nat.not_lt_zero _)
  | cons byte data =>
  rw [hdata] at hrounds hle hnext hless
  cases rounds with
  | zero => exact absurd hrounds (Nat.not_succ_le_zero _)
  | succ rounds =>
    rw [fieldsFrom, hnext]
    dsimp only
    rw [ih htail (Nat.lt_succ_iff.mp (hless.trans_le hrounds)) (hless.le.trans hle), stored,
      hvalue]

/-- What is written is read back. -/
def ReadsBack (calls : List ProtoCall) : Prop :=
  ∃ result, fields (toBytes calls) = .ok result ∧ ∀ field, result.get field = written calls field

theorem fields_toBytes {calls : List ProtoCall} (h : Writable calls) : ReadsBack calls := by
  refine ⟨_, fieldsFrom_toBytes h.short (fun call hcall =>
    ⟨(h.fields call hcall).2, h.values call hcall⟩) le_rfl le_rfl LinkedMap.empty, ?_⟩
  intro field
  rw [get_foldl_stored h.distinct, LinkedMap.get_empty, Option.or_none]

/-! ### Any bytes -/

/-- The reader returns or throws a `FormatException`. -/
def EndsWell (data : Bytes) : Prop :=
  (∃ result, fields data = .ok result) ∨ ∃ message, fields data = .error (.format message)

theorem fieldsFrom_spec {length rounds : ℕ} (hlength : length < 2 ^ 63) {data : Bytes}
    (hrounds : data.length ≤ rounds) (hle : data.length ≤ length)
    (result : LinkedMap ℤ ProtoValue) :
    fieldsFrom length rounds result data ≠ .diverges ∧
      (fieldsFrom length rounds result data = .error .range ↔ Overruns length data) := by
  have hnil : ¬ Overruns length [] := by
    rintro (⟨hkey, -⟩ | ⟨hnext, -⟩)
    · cases hkey
    · cases hnext
  induction rounds generalizing data result with
  | zero =>
    rw [length_eq_zero_iff.mp (Nat.le_zero.mp hrounds)]
    simp [fieldsFrom, hnil]
  | succ rounds ih =>
  cases data with
  | nil => simp [fieldsFrom, hnil]
  | cons byte data =>
  have hcomes := next_comesTo hlength hle
  rw [fieldsFrom]
  cases hnext : next length (byte :: data) with
  | error e =>
    rw [hnext] at hcomes
    refine ⟨fun h => (by cases h), ?_⟩
    cases e with
    | format message =>
      refine iff_of_false (fun h => (by cases h)) ?_
      rintro (⟨hkey, hvalue⟩ | ⟨hlater, -⟩)
      · exact hcomes ⟨_, _, hkey, hvalue⟩
      · cases hnext.symm.trans hlater
    | range =>
      obtain ⟨key, rest, hkey, hvalue⟩ := hcomes
      exact iff_of_true rfl (.here hkey hvalue)
  | ok read =>
  rw [hnext] at hcomes
  obtain ⟨hno, hless⟩ := hcomes
  obtain ⟨hends, hiff⟩ := ih (Nat.lt_succ_iff.mp (hless.trans_le hrounds)) (hless.le.trans hle)
    (result.put read.1 read.2.1)
  refine ⟨hends, hiff.trans ⟨.later hnext, ?_⟩⟩
  rintro (⟨hkey, hvalue⟩ | ⟨hlater, hrest⟩)
  · exact absurd ⟨_, _, hkey, hvalue⟩ hno
  · cases hnext.symm.trans hlater
    exact hrest

/-- **What is written is read back, and any bytes are read or refused**, exactly when they do not
lead to a block that wraps. -/
theorem fields_total_iff (calls : List ProtoCall) (data : Bytes) (hcalls : Writable calls)
    (hdata : data.length < 2 ^ 63) :
    ReadsBack calls ∧ EndsWell data ↔ ¬ Overruns data.length data := by
  obtain ⟨hends, hrange⟩ := fieldsFrom_spec hdata le_rfl le_rfl LinkedMap.empty
  rw [← hrange, and_iff_right (fields_toBytes hcalls)]
  change fields data ≠ .diverges at hends
  change EndsWell data ↔ ¬ fields data = .error .range
  unfold EndsWell
  cases hread : fields data with
  | ok result => simp
  | error e => cases e <;> simp
  | diverges => exact absurd hread hends

theorem fields_total_greeting :
    ReadsBack [.uint 1 (-1), .bytes 2 [104, 105], .boolean 3 false, .fixed32 4 7] ∧
      EndsWell [0x0a, 5] ↔ ¬ Overruns 2 [0x0a, 5] :=
  fields_total_iff _ _
    { distinct := by decide
      fields := by decide
      values := by
        rintro call hcall
        simp only [mem_cons, not_mem_nil, or_false] at hcall
        rcases hcall with rfl | rfl | rfl | rfl
        · constructor <;> omega
        · trivial
        · trivial
        · constructor <;> omega
      short := by decide } (by decide)

/-- **A length of `2 ^ 63 - 1`**: a `RangeError`. -/
theorem length_wraps :
    fields [0x0a, 0xff, 0xff, 0xff, 0xff, 0xff, 0xff, 0xff, 0xff, 0x7f] = .error .range ∧
      ¬ EndsWell [0x0a, 0xff, 0xff, 0xff, 0xff, 0xff, 0xff, 0xff, 0xff, 0x7f] := by
  have hread : fields [0x0a, 0xff, 0xff, 0xff, 0xff, 0xff, 0xff, 0xff, 0xff, 0x7f] =
      .error .range := by rfl
  refine ⟨hread, ?_⟩
  rintro (⟨result, h⟩ | ⟨message, h⟩)
  · rw [hread] at h
    cases h
  · rw [hread] at h
    cases h

end Radio
end Conest
