import Conest.Beam.Decoder

/-!
# Beam frames in bytes

A frame travels behind a header of 50 bytes, the last four of which are the CRC-32C of the frame
with zeros in their place (`encodeBytes`). `decodeBytes` reads it back, and what it accepts is a
frame that the decoder may take (`Decodable`): `frames_carried`. A step of the checksum is
one-to-one in what it has so far and in the byte (`crcStep_inj`), so of two accepted strings none is
the other with one byte altered (`altered_refused`).

A length of 2 ^ 63 and more is negative in the source; it is refused here as too large, by the same
check.
-/

namespace Conest
namespace Beam

open Lib List

/-! ### The checksum -/

/-- One bit of an entry of `_crc32cTable`. -/
def crcShift (value : UInt32) : UInt32 :=
  if value &&& 1 = 1 then (value >>> 1) ^^^ 0x82f63b78 else value >>> 1

/-- `_crc32cTable[index]` -/
def crc32cTable (index : UInt32) : UInt32 := crcShift^[8] index

def crcStep (crc : UInt32) (byte : UInt8) : UInt32 :=
  crc32cTable ((crc ^^^ byte.toUInt32) &&& 0xff) ^^^ (crc >>> 8)

/-- `_crc32c` -/
def crc32c (bytes : Bytes) : UInt32 := bytes.foldl crcStep 0xffffffff ^^^ 0xffffffff

-- the check value of CRC-32C
example : crc32c [0x31, 0x32, 0x33, 0x34, 0x35, 0x36, 0x37, 0x38, 0x39] = 0xe3069283 := by
  decide +kernel

/-- One bit back; the polynomial has the highest bit. -/
def crcUnshift (value : UInt32) : UInt32 :=
  if value < 0x80000000 then value <<< 1 else ((value ^^^ 0x82f63b78) <<< 1) ||| 1

theorem crc32cTable_inj : ∀ index < 256,
    crcUnshift^[8] (crc32cTable (UInt32.ofNat index) >>> 24 <<< 24) &&& 0xff =
      UInt32.ofNat index := by
  decide +kernel

theorem entry_inj {x y : UInt32} (hx : x < 256) (hy : y < 256)
    (h : crc32cTable x >>> 24 = crc32cTable y >>> 24) : x = y := by
  have hx' := crc32cTable_inj x.toNat (UInt32.lt_iff_toNat_lt.mp hx)
  have hy' := crc32cTable_inj y.toNat (UInt32.lt_iff_toNat_lt.mp hy)
  rw [UInt32.ofNat_toNat] at hx' hy'
  exact (hx'.symm.trans (h ▸ hy'))

/-- The highest byte of a step is that of the entry, and the rest is shifted in. -/
theorem mix_inj {x y : UInt32}
    (h : crc32cTable (x &&& 0xff) ^^^ (x >>> 8) = crc32cTable (y &&& 0xff) ^^^ (y >>> 8)) :
    x = y := by
  have hgone : ∀ z : UInt32, z >>> 8 >>> 24 = 0 := fun z => by
    have hz := z.toNat_lt
    refine UInt32.toNat_inj.mp ?_
    simp only [UInt32.toNat_shiftRight, UInt32.reduceToNat, Nat.shiftRight_eq_div_pow,
      Nat.reduceMod, Nat.reducePow]
    omega
  have hmod : ∀ z : UInt32, (z &&& 0xff).toNat = z.toNat % 256 := fun z => by
    rw [UInt32.toNat_and]
    exact Nat.and_two_pow_sub_one_eq_mod z.toNat 8
  have hlow : ∀ z : UInt32, z &&& 0xff < 256 := fun z => by
    rw [UInt32.lt_iff_toNat_lt, hmod]
    exact Nat.mod_lt _ (by decide)
  have htop : crc32cTable (x &&& 0xff) >>> 24 = crc32cTable (y &&& 0xff) >>> 24 := by
    have hshift := congrArg (· >>> (24 : UInt32)) h
    simpa only [UInt32.shiftRight_xor, hgone, UInt32.xor_zero] using hshift
  have hsame := entry_inj (hlow x) (hlow y) htop
  rw [hsame, UInt32.xor_right_inj] at h
  have hmodEq := congrArg UInt32.toNat hsame
  have hdivEq := congrArg UInt32.toNat h
  rw [hmod, hmod] at hmodEq
  simp only [UInt32.toNat_shiftRight, UInt32.reduceToNat, Nat.shiftRight_eq_div_pow,
      Nat.reduceMod, Nat.reducePow] at hdivEq
  refine UInt32.toNat_inj.mp ?_
  omega

theorem crcStep_inj {crc crc' : UInt32} {byte byte' : UInt8}
    (h : crcStep crc byte = crcStep crc' byte') :
    crc ^^^ byte.toUInt32 = crc' ^^^ byte'.toUInt32 := by
  have hshift : ∀ (c : UInt32) (b : UInt8), c >>> 8 = (c ^^^ b.toUInt32) >>> 8 := fun c b => by
    have hgone : b.toUInt32 >>> 8 = 0 := by
      have hb := b.toNat_lt
      refine UInt32.toNat_inj.mp ?_
      simp only [UInt32.toNat_shiftRight, UInt8.toNat_toUInt32, UInt32.reduceToNat,
        Nat.shiftRight_eq_div_pow, Nat.reduceMod, Nat.reducePow]
      omega
    rw [UInt32.shiftRight_xor, hgone, UInt32.xor_zero]
  refine mix_inj ?_
  rw [← hshift, ← hshift]
  exact h

theorem foldl_crcStep_inj {bytes : Bytes} {crc crc' : UInt32}
    (h : bytes.foldl crcStep crc = bytes.foldl crcStep crc') : crc = crc' := by
  induction bytes generalizing crc crc' with
  | nil => exact h
  | cons byte bytes ih => exact (UInt32.xor_left_inj _).mp (crcStep_inj (ih h))

theorem crc32c_set {bytes : Bytes} {i : ℕ} (hi : i < bytes.length) {byte : UInt8}
    (h : crc32c (bytes.set i byte) = crc32c bytes) : byte = bytes[i] := by
  unfold crc32c at h
  rw [UInt32.xor_left_inj] at h
  generalize (0xffffffff : UInt32) = crc at h
  induction bytes generalizing i crc with
  | nil => cases hi
  | cons first bytes ih =>
  cases i with
  | zero => exact UInt8.toUInt32_inj.mp ((UInt32.xor_right_inj _).mp
      (crcStep_inj (foldl_crcStep_inj h)))
  | succ i => exact ih (Nat.lt_of_succ_lt_succ hi) _ h

/-! ### The codec -/

def magic : Bytes := [0x43, 0x42, 0x4d, 0x31]

/-- `BeamMode.values` -/
def BeamMode.values : List BeamMode := [publicMode, contactEncrypted, contactInvite]

def BeamMode.index : BeamMode → ℕ
  | publicMode => 0
  | contactEncrypted => 1
  | contactInvite => 2

namespace BeamFrame

/-- The parts of a frame, with a checksum. -/
def parts (frame : BeamFrame) (crc : ℕ) : List Bytes :=
  [magic, [1], [UInt8.ofNat frame.mode.index], [if frame.systematic then 1 else 0], [0],
    frame.transferIdBytes, bigEndian 8 frame.originalLength, bigEndian 2 frame.blockSize,
    bigEndian 4 frame.sourceBlockCount, bigEndian 4 frame.seed, bigEndian 2 frame.degree,
    bigEndian 2 frame.payload.length, bigEndian 4 crc, frame.payload]

def assembled (frame : BeamFrame) (crc : ℕ) : Bytes := (frame.parts crc).flatten

def encodeBytes (frame : BeamFrame) : Except BeamError Bytes :=
  if frame.transferIdBytes.length ≠ 16 ∨ frame.originalLength = 0 ∨
      conestBeamMaximumPayloadBytes + 64 * 1024 + 4 < frame.originalLength ∨
      frame.blockSize = 0 ∨ 2048 < frame.blockSize ∨ frame.sourceBlockCount = 0 ∨
      frame.degree = 0 ∨ frame.sourceBlockCount < frame.degree ∨
      frame.payload.length ≠ frame.blockSize then
    .error (.argument "Beam frame fields are out of range.")
  else .ok (frame.assembled (crc32c (frame.assembled 0)).toNat)

/-- The bytes of a field. -/
def fieldBytes (bytes : Bytes) (offset width : ℕ) : Bytes := (bytes.drop offset).take width

/-- `getUint8`, `getUint16`, `getUint32` and `getUint64`. -/
def field (bytes : Bytes) (offset width : ℕ) : ℕ := ofBigEndian (fieldBytes bytes offset width)

/-- A copy with zeros for the checksum. -/
def unchecked (bytes : Bytes) : Bytes := bytes.take 46 ++ (bigEndian 4 0 ++ bytes.drop 50)

/-- The frame that the fields make. -/
def ofFields (mode : BeamMode) (bytes : Bytes) : BeamFrame where
  mode
  transferIdBytes := fieldBytes bytes 8 16
  originalLength := field bytes 24 8
  blockSize := field bytes 32 2
  sourceBlockCount := field bytes 34 4
  seed := field bytes 38 4
  degree := field bytes 42 2
  systematic := field bytes 6 1 % 2 = 1
  payload := bytes.drop 50

def decodeBytes (bytes : Bytes) : Except BeamError BeamFrame :=
  if bytes.length < 50 ∨ fieldBytes bytes 0 4 ≠ magic then
    .error (.format "Beam frame header is invalid.")
  else if field bytes 4 1 ≠ 1 then .error (.format "Unsupported Beam frame version.")
  else
    match BeamMode.values[field bytes 5 1]? with
    | none => .error (.format "Beam frame dimensions are invalid.")
    | some mode =>
      if field bytes 44 2 = 0 ∨ bytes.length ≠ 50 + field bytes 44 2 then
        .error (.format "Beam frame dimensions are invalid.")
      else if (crc32c (unchecked bytes)).toNat ≠ field bytes 46 4 then
        .error (.format "Beam frame CRC32C mismatch.")
      else
        let frame := ofFields mode bytes
        if frame.originalLength = 0 ∨
            conestBeamMaximumPayloadBytes + 64 * 1024 + 4 < frame.originalLength ∨
            frame.blockSize = 0 ∨ 2048 < frame.blockSize ∨ frame.sourceBlockCount = 0 ∨
            frame.degree = 0 ∨ frame.sourceBlockCount < frame.degree ∨
            frame.payload.length ≠ frame.blockSize ∨
            (frame.originalLength + frame.blockSize - 1) / frame.blockSize ≠
              frame.sourceBlockCount ∨
            frame.systematic = true ∧
              (frame.degree ≠ 1 ∨ frame.sourceBlockCount ≤ frame.seed) then
          .error (.format "Beam frame fields are out of range.")
        else .ok frame

/-! ### What is accepted -/

variable {bytes : Bytes} {frame : BeamFrame}

theorem length_fieldBytes {offset width : ℕ} (h : offset + width ≤ bytes.length) :
    (fieldBytes bytes offset width).length = width := by
  unfold fieldBytes
  rw [length_take, length_drop]
  omega

theorem field_lt (bytes : Bytes) (offset width : ℕ) : field bytes offset width < 256 ^ width :=
  (ofBigEndian_lt _).trans_le (Nat.pow_le_pow_right (by decide) (length_take_le _ _))

/-- **What is accepted** has its checksum and is a frame that the decoder may take. -/
theorem accepted (h : decodeBytes bytes = .ok frame) :
    50 ≤ bytes.length ∧ (crc32c (unchecked bytes)).toNat = field bytes 46 4 ∧
      frame.Decodable ∧ frame.degree < 2 ^ 16 := by
  unfold decodeBytes at h
  split at h
  · cases h
  next hheader =>
  split at h
  · cases h
  split at h
  · cases h
  split at h
  · cases h
  split at h
  · cases h
  next hcrc =>
  dsimp only at h
  split at h
  · cases h
  next hfields =>
  obtain rfl := Except.ok.inj h
  have hlength : 50 ≤ bytes.length := not_lt.mp (not_or.mp hheader).1
  simp only [not_or, not_lt, not_not, not_and, not_le] at hfields hcrc
  obtain ⟨hpos, hlong, hblock, hshort, -, hdegree, hdegrees, hpayload, hcount, hsystematic⟩ :=
    hfields
  refine ⟨hlength, hcrc, ⟨length_fieldBytes (by omega), ⟨Nat.pos_of_ne_zero hpos, hlong⟩,
    ⟨Nat.pos_of_ne_zero hblock, hshort⟩, hcount, field_lt bytes 38 4,
    ⟨Nat.pos_of_ne_zero hdegree, hdegrees⟩, hpayload, hsystematic⟩, field_lt bytes 42 2⟩

/-! ### What is sent -/

theorem fieldBytes_flatten {parts : List Bytes} {part : Bytes} {i offset width : ℕ}
    (hpart : parts[i]? = some part) (hoffset : (parts.take i).flatten.length = offset)
    (hwidth : part.length = width) : fieldBytes parts.flatten offset width = part := by
  obtain ⟨hi, rfl⟩ := List.getElem?_eq_some_iff.mp hpart
  have hsplit : parts.flatten =
      (parts.take i).flatten ++ (parts[i] ++ (parts.drop (i + 1)).flatten) := by
    rw [← flatten_cons, ← drop_eq_getElem_cons hi, ← flatten_append, take_append_drop]
  unfold fieldBytes
  rw [hsplit, drop_left' hoffset, take_left' hwidth]

section

variable {crc : ℕ}

theorem fieldBytes_assembled {part : Bytes} {i offset width : ℕ}
    (hpart : (frame.parts crc)[i]? = some part)
    (hoffset : ((frame.parts crc).take i).flatten.length = offset) (hwidth : part.length = width) :
    fieldBytes (frame.assembled crc) offset width = part :=
  fieldBytes_flatten hpart hoffset hwidth

theorem field_assembled {i offset width n : ℕ}
    (hpart : (frame.parts crc)[i]? = some (bigEndian width n))
    (hoffset : ((frame.parts crc).take i).flatten.length = offset) (hn : n < 256 ^ width) :
    field (frame.assembled crc) offset width = n := by
  unfold field
  rw [fieldBytes_assembled hpart hoffset (bigEndian_length _ _), ofBigEndian_bigEndian,
    Nat.mod_eq_of_lt hn]

end

section

variable (h : frame.Decodable) (crc : ℕ)

include h

theorem assembled_eq : ∃ front : Bytes, front.length = 46 ∧
    ∀ crc, frame.assembled crc = front ++ (bigEndian 4 crc ++ frame.payload) := by
  refine ⟨((frame.parts 0).take 12).flatten, ?_, fun crc => ?_⟩
  · simp [parts, magic, h.id]
  · simp [assembled, parts]

theorem length_assembled : (frame.assembled crc).length = 50 + frame.payload.length := by
  obtain ⟨front, hfront, hparts⟩ := assembled_eq h
  rw [hparts, length_append, length_append, bigEndian_length, hfront]
  omega

theorem drop_assembled : (frame.assembled crc).drop 50 = frame.payload := by
  obtain ⟨front, hfront, hparts⟩ := assembled_eq h
  rw [hparts, ← append_assoc, drop_left']
  rw [length_append, bigEndian_length, hfront]

theorem unchecked_assembled : unchecked (frame.assembled crc) = frame.assembled 0 := by
  have hdrop := drop_assembled h crc
  obtain ⟨front, hfront, hparts⟩ := assembled_eq h
  unfold unchecked
  rw [hdrop, hparts, hparts, take_left' hfront]

theorem ofFields_assembled (hdegree : frame.degree < 2 ^ 16) :
    ofFields frame.mode (frame.assembled crc) = frame := by
  have horiginal : frame.originalLength ≤ 67174404 := h.original.2
  have hblock := h.block.2
  have hcount : frame.sourceBlockCount < 256 ^ 4 := by
    have hle := Nat.div_le_self (frame.originalLength + frame.blockSize - 1) frame.blockSize
    rw [h.count] at hle
    omega
  have hid : fieldBytes (frame.assembled crc) 8 16 = frame.transferIdBytes :=
    fieldBytes_assembled (i := 5) rfl rfl h.id
  have hsystematic : fieldBytes (frame.assembled crc) 6 1 =
      [if frame.systematic then 1 else 0] := fieldBytes_assembled (i := 3) rfl rfl rfl
  unfold ofFields
  rw [hid, drop_assembled h,
    field_assembled (i := 6) rfl (by simp [parts, magic, h.id]) (by omega),
    field_assembled (i := 7) rfl (by simp [parts, magic, h.id]) (by omega),
    field_assembled (i := 8) rfl (by simp [parts, magic, h.id]) hcount,
    field_assembled (i := 9) rfl (by simp [parts, magic, h.id]) h.seed,
    field_assembled (i := 10) rfl (by simp [parts, magic, h.id]) hdegree, field, hsystematic]
  obtain ⟨mode, transferIdBytes, original, block, count, seed, degree, systematic, payload⟩ := frame
  cases systematic <;> rfl

theorem decodeBytes_assembled (hdegree : frame.degree < 2 ^ 16) {sum : UInt32}
    (hsum : crc32c (frame.assembled 0) = sum) :
    decodeBytes (frame.assembled sum.toNat) = .ok frame := by
  have hblock := h.block
  have horiginal := h.original
  have hdegrees := h.degree
  have hpayload := h.payload
  have hlarge : frame.payload.length < 256 ^ 2 := by omega
  have hcrc : field (frame.assembled sum.toNat) 46 4 = sum.toNat :=
    field_assembled (i := 12) rfl (by simp [parts, magic, h.id]) sum.toNat_lt
  have hsize : field (frame.assembled sum.toNat) 44 2 = frame.payload.length :=
    field_assembled (i := 11) rfl (by simp [parts, magic, h.id]) hlarge
  have hmagic : fieldBytes (frame.assembled sum.toNat) 0 4 = magic :=
    fieldBytes_assembled (i := 0) rfl rfl rfl
  have hversion : fieldBytes (frame.assembled sum.toNat) 4 1 = [1] :=
    fieldBytes_assembled (i := 1) rfl rfl rfl
  have hmode : fieldBytes (frame.assembled sum.toNat) 5 1 = [UInt8.ofNat frame.mode.index] :=
    fieldBytes_assembled (i := 2) rfl rfl rfl
  have hvalues : BeamMode.values[ofBigEndian [UInt8.ofNat frame.mode.index]]? =
      some frame.mode := by
    cases frame.mode <;> rfl
  unfold decodeBytes
  rw [hmagic, length_assembled h, if_neg (by simp), field, hversion, if_neg (by decide), field,
    hmode, hvalues]
  dsimp only
  rw [hsize, if_neg (by omega), unchecked_assembled h, hsum, hcrc, if_neg (not_not.mpr rfl),
    ofFields_assembled h _ hdegree, if_neg]
  simp only [not_or, not_lt, not_not, not_and, not_le]
  exact ⟨horiginal.1.ne', horiginal.2, hblock.1.ne', hblock.2, (by omega), hdegrees.1.ne',
    hdegrees.2, hpayload, h.count, h.systematic⟩

theorem encodeBytes_eq : encodeBytes frame =
    .ok (frame.assembled (crc32c (frame.assembled 0)).toNat) := by
  have hblock := h.block
  have horiginal := h.original
  have hdegrees := h.degree
  unfold encodeBytes
  rw [if_neg]
  simp only [not_or, not_lt, not_not]
  exact ⟨h.id, horiginal.1.ne', horiginal.2, hblock.1.ne', hblock.2, (by omega), hdegrees.1.ne',
    hdegrees.2, h.payload⟩

end

/-- **Frames in bytes.** A frame can be received at all if and only if it is one that the decoder
may take, with a degree of two bytes; and then it is received from the bytes that it is sent as. -/
theorem frames_carried (frame : BeamFrame) :
    ((∃ bytes, decodeBytes bytes = .ok frame) ↔ frame.Decodable ∧ frame.degree < 2 ^ 16) ∧
      ((∃ bytes, decodeBytes bytes = .ok frame) ↔
        ∃ bytes, encodeBytes frame = .ok bytes ∧ decodeBytes bytes = .ok frame) := by
  have hsent : frame.Decodable ∧ frame.degree < 2 ^ 16 →
      ∃ bytes, encodeBytes frame = .ok bytes ∧ decodeBytes bytes = .ok frame :=
    fun h => ⟨_, encodeBytes_eq h.1, decodeBytes_assembled h.1 h.2 rfl⟩
  have hforget : (∃ bytes, encodeBytes frame = .ok bytes ∧ decodeBytes bytes = .ok frame) →
      ∃ bytes, decodeBytes bytes = .ok frame := fun ⟨bytes, _, hbytes⟩ => ⟨bytes, hbytes⟩
  have haccepted : (∃ bytes, decodeBytes bytes = .ok frame) →
      frame.Decodable ∧ frame.degree < 2 ^ 16 := fun ⟨_, hbytes⟩ => (accepted hbytes).2.2
  exact ⟨⟨haccepted, hforget ∘ hsent⟩, ⟨hsent ∘ haccepted, hforget⟩⟩

/-! ### One byte altered -/

theorem field_split {front sum rest : Bytes} (hfront : front.length = 46) (hsum : sum.length = 4) :
    field (front ++ (sum ++ rest)) 46 4 = ofBigEndian sum ∧
      unchecked (front ++ (sum ++ rest)) = front ++ (bigEndian 4 0 ++ rest) := by
  unfold field fieldBytes unchecked
  rw [drop_left' hfront, take_left' hsum, take_left' hfront, ← append_assoc front sum, drop_left']
  · exact ⟨rfl, rfl⟩
  · rw [length_append, hfront, hsum]

theorem altered_refused (h : decodeBytes bytes = .ok frame) {i : ℕ} (hi : i < bytes.length)
    {byte : UInt8} (hne : byte ≠ bytes[i]) :
    ∃ error, decodeBytes (bytes.set i byte) = .error error := by
  cases haltered : decodeBytes (bytes.set i byte) with
  | error error => exact ⟨error, rfl⟩
  | ok other =>
  refine absurd ?_ hne
  obtain ⟨hlength, hcrc, -⟩ := accepted h
  obtain ⟨-, hcrc', -⟩ := accepted haltered
  obtain ⟨front, sum, rest, hfront, hsum, rfl⟩ : ∃ front sum rest : Bytes, front.length = 46 ∧
      sum.length = 4 ∧ bytes = front ++ (sum ++ rest) := by
    refine ⟨bytes.take 46, (bytes.drop 46).take 4, (bytes.drop 46).drop 4, ?_, ?_, ?_⟩
    · rw [length_take]
      omega
    · rw [length_take, length_drop]
      omega
    · rw [take_append_drop, take_append_drop]
  rw [(field_split hfront hsum).1, (field_split hfront hsum).2] at hcrc
  have hset : ∀ front' sum' rest' : Bytes, front'.length = 46 → sum'.length = 4 →
      (front ++ (sum ++ rest)).set i byte = front' ++ (sum' ++ rest') →
      (crc32c (front' ++ (bigEndian 4 0 ++ rest'))).toNat = ofBigEndian sum' := by
    intro front' sum' rest' hfront' hsum' heq
    rw [heq, (field_split hfront' hsum').1, (field_split hfront' hsum').2] at hcrc'
    exact hcrc'
  -- in front of the checksum, in it, or behind it
  rw [getElem_append]
  split
  · next hlt =>
    have hsame := UInt32.toNat_inj.mp ((hset (front.set i byte) sum rest
      (by rw [length_set, hfront]) hsum (set_append_left i byte hlt)).trans hcrc.symm)
    rw [← set_append_left i byte hlt] at hsame
    rw [crc32c_set (by rw [length_append]; omega) hsame, getElem_append_left hlt]
  next hge =>
  rw [getElem_append]
  split
  · next hlt =>
    have hsame := hcrc.symm.trans (hset front (sum.set (i - front.length) byte) rest hfront
      (by rw [length_set, hsum])
      (by rw [set_append_right i byte (not_lt.mp hge), set_append_left _ byte hlt]))
    have hbytes := bigEndian_ofBigEndian (sum.set (i - front.length) byte)
    rw [length_set, ← hsame, bigEndian_ofBigEndian] at hbytes
    have hget := getElem_set_self (l := sum) (i := i - front.length) (a := byte)
      (by rw [length_set]; exact hlt)
    rw [← hget]
    exact getElem_of_eq hbytes.symm _
  · next hge' =>
    have hrest : i - front.length - sum.length < rest.length := by
      rw [length_append, length_append] at hi
      omega
    have hzeros : (bigEndian 4 0).length = sum.length := hsum ▸ bigEndian_length 4 0
    have hsame := UInt32.toNat_inj.mp ((hset front sum
      (rest.set (i - front.length - sum.length) byte) hfront hsum (by
        rw [set_append_right i byte (not_lt.mp hge),
          set_append_right _ byte (not_lt.mp hge')])).trans hcrc.symm)
    have hmoved : front ++ (bigEndian 4 0 ++ rest.set (i - front.length - sum.length) byte) =
        (front ++ (bigEndian 4 0 ++ rest)).set i byte := by
      rw [set_append_right i byte (not_lt.mp hge),
        set_append_right _ byte (by rw [hzeros]; exact not_lt.mp hge'), hzeros]
    rw [hmoved] at hsame
    rw [crc32c_set (by rw [length_append, length_append, hzeros]; omega) hsame, getElem_append_right
      (not_lt.mp hge), getElem_append_right (by rw [hzeros]; exact not_lt.mp hge')]
    simp only [hzeros]

/-- A frame of one byte. In `smallest_altered` the byte that no field has is altered. -/
def smallest : BeamFrame where
  mode := .publicMode
  transferIdBytes := replicate 16 0
  originalLength := 1
  blockSize := 1
  sourceBlockCount := 1
  seed := 0
  degree := 1
  systematic := true
  payload := [0]

theorem decodable_smallest : smallest.Decodable :=
  ⟨rfl, by decide, by decide, rfl, by decide, by decide, rfl, fun _ => by decide⟩

theorem smallest_altered : ∃ error, decodeBytes
    ((smallest.assembled (crc32c (smallest.assembled 0)).toNat).set 7 1) = .error error :=
  altered_refused (decodeBytes_assembled decodable_smallest (by decide) rfl)
    (by rw [length_assembled decodable_smallest]; decide) (by decide)

end BeamFrame

end Beam
end Conest
