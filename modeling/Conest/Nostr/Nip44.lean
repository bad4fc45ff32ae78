import Conest.Lib.Base64
import Conest.Lib.Outcome
import Conest.Nostr.ChaCha20

/-!
# NIP-44 payloads

A payload is the base64 form of a version, a nonce, the encrypted and padded plaintext, and a MAC
over the nonce and the ciphertext. The padded size of a plaintext grows with it
(`paddedLength_mono`) and never gets over 65536, so the size checks of `decrypt` let every payload
of `encrypt` pass (`decrypt_encrypt`). The other way round, what `decrypt` returns, encrypted again under the nonce of
the payload, gives the ciphertext of the payload up to the padding, which nothing checks
(`decrypt_sound`).

HMAC-SHA-256 is any function to 32 bytes.
-/

open Lib DartString List

namespace Conest
namespace Nostr
namespace Nip44

def minPlaintextBytes : ℕ := 1
def maxPlaintextBytes : ℕ := 65535

/-! ### Padding -/

def paddedLength (length : ℕ) : ℕ :=
  if length ≤ 32 then 32
  else
    let nextPower := 1 <<< (length - 1).size
    let chunk := if nextPower ≤ 256 then 32 else nextPower / 8
    chunk * ((length - 1) / chunk + 1)

theorem paddedLength_eq {length : ℕ} (h : 32 < length) :
    ∃ chunk, 0 < chunk ∧ chunk ∣ 2 ^ (length - 1).size ∧
      chunk = (if 2 ^ (length - 1).size ≤ 256 then 32 else 2 ^ (length - 1).size / 8) ∧
      paddedLength length = chunk * ((length - 1) / chunk + 1) := by
  have hsize : 6 ≤ (length - 1).size := Nat.lt_size.mpr (by omega)
  obtain ⟨k, hk⟩ := Nat.exists_eq_add_of_le hsize
  refine ⟨_, ?_, ?_, rfl, ?_⟩
  · split_ifs with hsmall
    · decide
    · exact Nat.div_pos (by omega) (by decide)
  · rw [hk, pow_add]
    split_ifs with hsmall
    · exact ⟨2 * 2 ^ k, by ring⟩
    · exact ⟨8, by omega⟩
  · rw [paddedLength, if_neg (by omega), Nat.one_shiftLeft]

theorem le_paddedLength (length : ℕ) : length ≤ paddedLength length := by
  by_cases h : length ≤ 32
  · rw [paddedLength, if_pos h]
    exact h
  · obtain ⟨chunk, hpos, -, -, heq⟩ := paddedLength_eq (not_le.mp h)
    have := Nat.lt_mul_div_succ (length - 1) hpos
    omega

theorem paddedLength_le {length : ℕ} (h : 32 < length) :
    paddedLength length ≤ 2 ^ (length - 1).size := by
  obtain ⟨chunk, hpos, ⟨m, hm⟩, -, heq⟩ := paddedLength_eq h
  have hlt : length - 1 < 2 ^ (length - 1).size := Nat.lt_size_self _
  rw [heq, hm]
  apply Nat.mul_le_mul_left
  rw [Nat.succ_le_iff, Nat.div_lt_iff_lt_mul hpos, Nat.mul_comm]
  rwa [hm] at hlt

theorem paddedLength_mono {a b : ℕ} (hab : a ≤ b) : paddedLength a ≤ paddedLength b := by
  by_cases ha : a ≤ 32
  · by_cases hb : b ≤ 32
    · rw [paddedLength, paddedLength, if_pos ha, if_pos hb]
    · have := le_paddedLength b
      rw [paddedLength, if_pos ha]
      omega
  obtain hsame | hless := (Nat.size_le_size (show a - 1 ≤ b - 1 by omega)).eq_or_lt
  · -- the same chunk, and more of it
    obtain ⟨chunk, -, -, hchunk, heq⟩ := paddedLength_eq (not_le.mp ha)
    obtain ⟨chunk', -, -, hchunk', heq'⟩ := paddedLength_eq (show 32 < b by omega)
    rw [hsame, ← hchunk'] at hchunk
    rw [heq, heq', hchunk]
    apply Nat.mul_le_mul_left
    apply Nat.succ_le_succ
    exact Nat.div_le_div_right (by omega)
  -- a power of two lies between
  calc paddedLength a ≤ 2 ^ (a - 1).size := paddedLength_le (not_le.mp ha)
    _ ≤ 2 ^ ((b - 1).size - 1) := Nat.pow_le_pow_right (by decide) (by omega)
    _ ≤ b - 1 := Nat.lt_size.mp (by omega)
    _ ≤ b := Nat.sub_le b 1
    _ ≤ paddedLength b := le_paddedLength b

theorem paddedLength_bounds {length : ℕ} (h : length ≤ maxPlaintextBytes) :
    32 ≤ paddedLength length ∧ paddedLength length ≤ 65536 := by
  refine ⟨?_, ?_⟩
  · exact paddedLength_mono (Nat.zero_le _)
  · exact paddedLength_mono h

/-! ### Payloads -/

/-- 32 bytes, as a hash has them. -/
abbrev Digest := {bytes : Bytes // bytes.length = 32}

/-- `sublistView`. -/
def sublistView (bytes : Bytes) (start stop : ℕ) : Except Thrown Bytes :=
  if start ≤ stop ∧ stop ≤ bytes.length then .ok ((bytes.take stop).drop start)
  else .error .range

variable (hmac : Bytes → Bytes → Digest)

/-- The loop of `_hkdfExpand`. -/
def expandFrom (prk info : Bytes) (length : ℕ) (out previous : Bytes) (counter : ℕ) : Bytes :=
  if out.length < length then
    let previous := (hmac prk (previous ++ info ++ [UInt8.ofNat counter])).1
    expandFrom prk info length (out ++ previous) previous (counter + 1)
  else out
termination_by length - out.length
decreasing_by
  rw [List.length_append, (hmac prk _).2]
  omega

/-- `_hkdfExpand`. -/
def hkdfExpand (prk info : Bytes) (length : ℕ) : Except Thrown Bytes :=
  sublistView (expandFrom hmac prk info length [] [] 1) 0 length

structure MessageKeys where
  chachaKey : Bytes
  chachaNonce : Bytes
  hmacKey : Bytes

def messageKeys (conversationKey nonce : Bytes) : Except Thrown MessageKeys :=
  if conversationKey.length ≠ 32 ∨ nonce.length ≠ 32 then
    .error (.argument "Conversation keys and nonces are 32 bytes.")
  else do
    let okm ← hkdfExpand hmac conversationKey nonce 76
    let chachaKey ← sublistView okm 0 32
    let chachaNonce ← sublistView okm 32 44
    let hmacKey ← sublistView okm 44 76
    return { chachaKey, chachaNonce, hmacKey }

/-- The plaintext behind its length, filled up with zeros. -/
def pad (plaintext : Bytes) : Bytes :=
  UInt8.ofNat (plaintext.length >>> 8) :: UInt8.ofNat (plaintext.length &&& 0xff) ::
    (plaintext ++ List.replicate (paddedLength plaintext.length - plaintext.length) 0)

/-- `encrypt`; `random` gives the bytes of a nonce. -/
def encrypt (random : ℕ → Bytes) (plaintext conversationKey : Bytes) (nonce : Option Bytes) :
    Except Thrown DartString :=
  if plaintext.length < minPlaintextBytes ∨ maxPlaintextBytes < plaintext.length then
    .error (.argument "Plaintext size is outside the NIP-44 limits.")
  else do
    let usedNonce := nonce.getD (random 32)
    let keys ← messageKeys hmac conversationKey usedNonce
    let ciphertext ← chacha20 keys.chachaKey keys.chachaNonce (pad plaintext)
    let mac := (hmac keys.hmacKey (usedNonce ++ ciphertext)).1
    return base64Encode (2 :: (usedNonce ++ ciphertext ++ mac))

/-- The loop that compares the MACs: zero when they are the same. -/
def macDifference (expected mac : Bytes) : UInt8 :=
  (List.zipWith (· ^^^ ·) expected mac).foldl (· ||| ·) 0

/-- The end of `decrypt`: the plaintext between its length and the padding. -/
def unpad (padded : Bytes) : Except Thrown Bytes :=
  match padded with
  | high :: low :: _ =>
    let length := high.toNat <<< 8 ||| low.toNat
    if length < minPlaintextBytes ∨ padded.length ≠ 2 + paddedLength length then
      .error (.format "NIP-44 padding is invalid.")
    else sublistView padded 2 (2 + length)
  | _ => .error .range

/-- `decrypt` from the parts of a payload. -/
def openParts (conversationKey nonce ciphertext mac : Bytes) : Except Thrown Bytes := do
  let keys ← messageKeys hmac conversationKey nonce
  let expected := (hmac keys.hmacKey (nonce ++ ciphertext)).1
  if macDifference expected mac ≠ 0 then .error (.format "NIP-44 MAC mismatch.")
  else
    let padded ← chacha20 keys.chachaKey keys.chachaNonce ciphertext
    unpad padded

/-- `decrypt` from the bytes of a payload. -/
def openData (data conversationKey : Bytes) : Except Thrown Bytes :=
  if data.length < 99 ∨ 65603 < data.length then
    .error (.format "NIP-44 payload size is invalid.")
  else if data.head? ≠ some 2 then .error (.format "Unknown NIP-44 version.")
  else do
    let nonce ← sublistView data 1 33
    let ciphertext ← sublistView data 33 (data.length - 32)
    let mac ← sublistView data (data.length - 32) data.length
    openParts hmac conversationKey nonce ciphertext mac

/-- The bytes of a payload: `none` where `base64Decode` throws. -/
def payloadBytes (payload : DartString) : Option Bytes :=
  (base64Decode payload).map fun bytes => bytes.map UInt8.ofNat

def decrypt (payload : DartString) (conversationKey : Bytes) : Except Thrown Bytes :=
  if payload = [] ∨ payload.head? = some 35 then .error (.format "Unknown NIP-44 version.")
  else if payload.length < 132 ∨ 87472 < payload.length then
    .error (.format "NIP-44 payload size is invalid.")
  else
    match payloadBytes payload with
    | none => .error (.format "NIP-44 payload is not base64.")
    | some data => openData hmac data conversationKey

/-! ### The keys of a message -/

section

variable {bytes : Bytes} {start stop : ℕ}

theorem sublistView_ok (hstart : start ≤ stop) (hstop : stop ≤ bytes.length) :
    sublistView bytes start stop = .ok ((bytes.take stop).drop start) :=
  if_pos ⟨hstart, hstop⟩

theorem length_view (hstop : stop ≤ bytes.length) :
    ((bytes.take stop).drop start).length = stop - start := by
  rw [length_drop, length_take, Nat.min_eq_left hstop]

end

theorem le_length_expandFrom (prk info : Bytes) (length : ℕ) (out previous : Bytes) (counter : ℕ) :
    length ≤ (expandFrom hmac prk info length out previous counter).length := by
  fun_induction expandFrom hmac prk info length out previous counter with
  | case1 out previous counter h previous' ih => exact ih
  | case2 out previous counter h => omega

theorem messageKeys_ok {conversationKey nonce : Bytes} (hkey : conversationKey.length = 32)
    (hnonce : nonce.length = 32) :
    ∃ keys, messageKeys hmac conversationKey nonce = .ok keys ∧ keys.chachaKey.length = 32 ∧
      keys.chachaNonce.length = 12 := by
  have hlen := le_length_expandFrom hmac conversationKey nonce 76 [] [] 1
  obtain ⟨okm, hokm, hsize⟩ : ∃ okm, hkdfExpand hmac conversationKey nonce 76 = .ok okm ∧
      okm.length = 76 := ⟨_, sublistView_ok (Nat.zero_le _) hlen, length_view hlen⟩
  refine ⟨⟨(okm.take 32).drop 0, (okm.take 44).drop 32, (okm.take 76).drop 44⟩, ?_,
    length_view (by omega), length_view (by omega)⟩
  rw [messageKeys, if_neg (by rw [hkey, hnonce]; decide), hokm]
  simp only [except_ok_bind]
  rw [sublistView_ok (by decide) (by omega), sublistView_ok (by decide) (by omega),
    sublistView_ok (by decide) (by omega)]
  rfl

/-! ### Unpadding -/

theorem length_pad (plaintext : Bytes) :
    (pad plaintext).length = 2 + paddedLength plaintext.length := by
  have := le_paddedLength plaintext.length
  simp only [pad, length_cons, length_append, length_replicate]
  omega

theorem take_pad (plaintext : Bytes) :
    (pad plaintext).take (2 + plaintext.length) =
      UInt8.ofNat (plaintext.length >>> 8) :: UInt8.ofNat (plaintext.length &&& 0xff) ::
        plaintext := by
  rw [pad, Nat.add_comm, take_succ_cons, take_succ_cons, take_left]

theorem length_bytes {high low : ℕ} (hlow : low < 256) : high <<< 8 ||| low = 256 * high + low := by
  rw [← Nat.shiftLeft_add_eq_or_of_lt hlow, Nat.shiftLeft_eq, Nat.mul_comm]

theorem length_of_bytes {length : ℕ} (h : length ≤ maxPlaintextBytes) :
    (UInt8.ofNat (length >>> 8)).toNat <<< 8 ||| (UInt8.ofNat (length &&& 0xff)).toNat =
      length := by
  unfold maxPlaintextBytes at h
  have hand : length &&& 0xff = length % 256 := Nat.and_two_pow_sub_one_eq_mod length 8
  have hshift : length >>> 8 = length / 256 := Nat.shiftRight_eq_div_pow length 8
  rw [length_bytes (UInt8.toNat_lt _), UInt8.toNat_ofNat', UInt8.toNat_ofNat']
  omega

theorem unpad_pad {plaintext : Bytes} (hmin : minPlaintextBytes ≤ plaintext.length)
    (hmax : plaintext.length ≤ maxPlaintextBytes) : unpad (pad plaintext) = .ok plaintext := by
  have hle := le_paddedLength plaintext.length
  have hlen := length_pad plaintext
  have hfront := take_pad plaintext
  have hlength := length_of_bytes hmax
  change (if _ < minPlaintextBytes ∨ _ then _ else sublistView (pad plaintext) 2 (2 + _)) = _
  rw [hlength, if_neg (by rw [not_or, not_lt, not_not]; exact ⟨hmin, hlen⟩),
    sublistView_ok (by omega) (by omega), hfront]
  rfl

theorem of_unpad {padded plaintext : Bytes} (h : unpad padded = .ok plaintext) :
    minPlaintextBytes ≤ plaintext.length ∧ plaintext.length ≤ maxPlaintextBytes ∧
      padded.length = 2 + paddedLength plaintext.length ∧
      padded.take (2 + plaintext.length) = (pad plaintext).take (2 + plaintext.length) := by
  unfold unpad at h
  split at h
  · next high low rest =>
    have hhigh := high.toNat_lt
    have hlow := low.toNat_lt
    generalize hlength : high.toNat <<< 8 ||| low.toNat = length at h
    rw [length_bytes hlow] at hlength
    dsimp only at h
    split_ifs at h with hbad
    rw [not_or, not_lt, not_not] at hbad
    have hle := le_paddedLength length
    rw [sublistView_ok (by omega) (by omega)] at h
    have hplain := Except.ok.inj h
    have hsize : plaintext.length = length := by
      rw [← hplain, length_view (by omega)]
      omega
    have hmax : length ≤ maxPlaintextBytes := by
      unfold maxPlaintextBytes
      omega
    rw [take_pad, hsize]
    refine ⟨hbad.1, hmax, hbad.2, ?_⟩
    -- the two bytes in front are those of the length
    have hand : length &&& 0xff = length % 256 := Nat.and_two_pow_sub_one_eq_mod length 8
    have hshift : length >>> 8 = length / 256 := Nat.shiftRight_eq_div_pow length 8
    have h0 : UInt8.ofNat (length >>> 8) = high := by
      apply UInt8.toNat_inj.mp
      rw [UInt8.toNat_ofNat']
      omega
    have h1 : UInt8.ofNat (length &&& 0xff) = low := by
      apply UInt8.toNat_inj.mp
      rw [UInt8.toNat_ofNat']
      omega
    rw [h0, h1, ← hplain, Nat.add_comm 2]
    rfl
  · simp at h

theorem unpad_error {padded : Bytes} {e : Thrown} (hlen : 2 ≤ padded.length)
    (h : unpad padded = .error e) : ∃ message, e = .format message := by
  unfold unpad at h
  split at h
  · next high low rest =>
    dsimp only at h
    split_ifs at h with hbad
    · exact ⟨_, (Except.error.inj h).symm⟩
    · have hle := le_paddedLength (high.toNat <<< 8 ||| low.toNat)
      rw [sublistView_ok (by omega) (by omega)] at h
      simp at h
  next hshort =>
  cases padded with
  | nil => simp at hlen
  | cons high tail =>
    cases tail with
    | nil => simp at hlen
    | cons low rest => exact absurd rfl (hshort high low rest)

/-! ### The parts of a payload -/

theorem macDifference_self (mac : Bytes) : macDifference mac mac = 0 := by
  unfold macDifference
  induction mac with
  | nil => rfl
  | cons byte mac ih =>
    rw [zipWith_cons_cons, UInt8.xor_self]
    exact ih

theorem payloadBytes_base64Encode (data : Bytes) :
    payloadBytes (base64Encode data) = some data := by
  have hback : ∀ byte : UInt8, UInt8.ofNat byte.toNat = byte := fun _ => UInt8.ofNat_toNat
  rw [payloadBytes, base64Decode_base64Encode, Option.map_some, map_map]
  exact congrArg some ((map_congr_left fun byte _ => hback byte).trans (map_id _))

theorem openData_parts {nonce ciphertext mac : Bytes} (conversationKey : Bytes)
    (hnonce : nonce.length = 32) (hmac32 : mac.length = 32) (hmin : 34 ≤ ciphertext.length)
    (hmax : ciphertext.length ≤ 65538) :
    openData hmac (2 :: (nonce ++ ciphertext ++ mac)) conversationKey =
      openParts hmac conversationKey nonce ciphertext mac := by
  have hlen : (2 :: (nonce ++ ciphertext ++ mac)).length = 33 + ciphertext.length + 32 := by
    simp only [length_cons, length_append]
    omega
  have h33 : (2 :: (nonce ++ ciphertext ++ mac)).take 33 = 2 :: nonce := by
    rw [take_succ_cons, append_assoc, take_left' hnonce]
  have hcut : (2 :: (nonce ++ ciphertext ++ mac)).take (33 + ciphertext.length) =
      2 :: (nonce ++ ciphertext) := by
    rw [show 33 + ciphertext.length = 32 + ciphertext.length + 1 by omega, take_succ_cons,
      take_left' (by rw [length_append, hnonce])]
  rw [openData, if_neg (by omega), if_neg (by simp), hlen, Nat.add_sub_cancel,
    sublistView_ok (by omega) (by omega), sublistView_ok (by omega) (by omega),
    sublistView_ok (by omega) (by omega), h33, hcut, ← hlen, take_length]
  simp only [except_ok_bind]
  rw [drop_succ_cons, drop_zero, drop_succ_cons, drop_left' hnonce,
    show 33 + ciphertext.length = 32 + ciphertext.length + 1 by omega, drop_succ_cons,
    drop_left' (by rw [length_append, hnonce])]

theorem openData_cases (data conversationKey : Bytes) :
    (∃ message, openData hmac data conversationKey = .error (.format message)) ∨
    ∃ nonce ciphertext mac, data = 2 :: (nonce ++ ciphertext ++ mac) ∧ nonce.length = 32 ∧
      mac.length = 32 ∧ 34 ≤ ciphertext.length ∧
      openData hmac data conversationKey = openParts hmac conversationKey nonce ciphertext mac := by
  by_cases hlen : data.length < 99 ∨ 65603 < data.length
  · exact .inl ⟨_, if_pos hlen⟩
  by_cases hhead : data.head? = some 2
  · right
    cases data with
    | nil => simp at hhead
    | cons version body =>
    obtain rfl := Option.some.inj hhead
    rw [length_cons] at hlen
    have hparts : body = body.take 32 ++ (body.drop 32).take (body.length - 64) ++
        (body.drop 32).drop (body.length - 64) := by
      rw [append_assoc, take_append_drop, take_append_drop]
    have hnonce : (body.take 32).length = 32 := by
      rw [length_take]
      omega
    have hciphertext : ((body.drop 32).take (body.length - 64)).length = body.length - 64 := by
      rw [length_take, length_drop]
      omega
    have hmac32 : ((body.drop 32).drop (body.length - 64)).length = 32 := by
      rw [length_drop, length_drop]
      omega
    refine ⟨_, _, _, congrArg _ hparts, hnonce, hmac32, by omega, ?_⟩
    conv_lhs => rw [hparts]
    exact openData_parts hmac conversationKey hnonce hmac32 (by omega) (by omega)
  · exact .inl ⟨_, by rw [openData, if_neg hlen, if_pos hhead]⟩

/-! ### There and back -/

section

variable (random : ℕ → Bytes) {plaintext conversationKey : Bytes} {nonce : Option Bytes}
  (hmin : minPlaintextBytes ≤ plaintext.length) (hmax : plaintext.length ≤ maxPlaintextBytes)
  (hkey : conversationKey.length = 32) (hnonce : (nonce.getD (random 32)).length = 32)

include random hmin hmax hkey hnonce

theorem encrypt_ok : ∃ keys ciphertext,
      messageKeys hmac conversationKey (nonce.getD (random 32)) = .ok keys ∧
      chacha20 keys.chachaKey keys.chachaNonce (pad plaintext) = .ok ciphertext ∧
      ciphertext.length = 2 + paddedLength plaintext.length ∧
      encrypt hmac random plaintext conversationKey nonce =
        .ok (base64Encode (2 :: (nonce.getD (random 32) ++ ciphertext ++
          (hmac keys.hmacKey (nonce.getD (random 32) ++ ciphertext)).1))) := by
  obtain ⟨keys, hkeys, hkey32, hnonce12⟩ := messageKeys_ok hmac hkey hnonce
  obtain ⟨ciphertext, hciphertext, hlen⟩ := chacha20_ok hkey32 hnonce12 (pad plaintext)
  refine ⟨keys, ciphertext, hkeys, hciphertext, hlen.trans (length_pad plaintext), ?_⟩
  rw [encrypt, if_neg (by rw [not_or, not_lt, not_lt]; exact ⟨hmin, hmax⟩)]
  simp only [hkeys, except_ok_bind, hciphertext]
  rfl

theorem decrypt_encrypt :
    ∃ payload, encrypt hmac random plaintext conversationKey nonce = .ok payload ∧
      decrypt hmac payload conversationKey = .ok plaintext := by
  obtain ⟨keys, ciphertext, hkeys, hciphertext, hlen, hencrypt⟩ :=
    encrypt_ok hmac random hmin hmax hkey hnonce
  refine ⟨_, hencrypt, ?_⟩
  generalize nonce.getD (random 32) = usedNonce at *
  have hbounds := paddedLength_bounds hmax
  have hmac32 := (hmac keys.hmacKey (usedNonce ++ ciphertext)).2
  generalize hmacEq : (hmac keys.hmacKey (usedNonce ++ ciphertext)).1 = mac at *
  -- the size of the text, and its first character
  have hsize := length_base64Encode (2 :: (usedNonce ++ ciphertext ++ mac))
  simp only [length_cons, length_append, hnonce, hlen, hmac32] at hsize
  have hfirst : (base64Encode (2 :: (usedNonce ++ ciphertext ++ mac))).head? = some 65 := by
    match usedNonce, hnonce with
    | a :: b :: _, _ => rfl
  rw [decrypt, if_neg, if_neg (by omega), payloadBytes_base64Encode]
  · change openData hmac _ conversationKey = _
    rw [openData_parts hmac conversationKey hnonce hmac32 (by omega) (by omega), openParts, hkeys]
    simp only [except_ok_bind]
    rw [hmacEq, macDifference_self, chacha20_chacha20 hciphertext]
    exact unpad_pad hmin hmax
  · rw [hfirst]
    rintro (hnil | hhash)
    · rw [hnil] at hfirst
      simp at hfirst
    · exact absurd hhash (by decide)

end

/-- Opening the parts of a payload fails only by saying so; what comes out is, encrypted again, the
same ciphertext as far as the padding does not count. -/
theorem openParts_cases {conversationKey nonce ciphertext : Bytes} (mac : Bytes)
    (hkey : conversationKey.length = 32) (hnonce : nonce.length = 32)
    (hlen : 34 ≤ ciphertext.length) :
    (∃ message, openParts hmac conversationKey nonce ciphertext mac = .error (.format message)) ∨
    ∃ plaintext, openParts hmac conversationKey nonce ciphertext mac = .ok plaintext ∧
      minPlaintextBytes ≤ plaintext.length ∧ plaintext.length ≤ maxPlaintextBytes ∧
      ∃ keys ciphertext', messageKeys hmac conversationKey nonce = .ok keys ∧
        chacha20 keys.chachaKey keys.chachaNonce (pad plaintext) = .ok ciphertext' ∧
        ciphertext'.length = ciphertext.length ∧
        ciphertext'.take (2 + plaintext.length) = ciphertext.take (2 + plaintext.length) := by
  obtain ⟨keys, hkeys, hkey32, hnonce12⟩ := messageKeys_ok hmac hkey hnonce
  obtain ⟨padded, hpadded, hpaddedLen⟩ := chacha20_ok hkey32 hnonce12 ciphertext
  have hopen : openParts hmac conversationKey nonce ciphertext mac =
      if macDifference (hmac keys.hmacKey (nonce ++ ciphertext)).1 mac ≠ 0 then
        .error (.format "NIP-44 MAC mismatch.") else unpad padded := by
    rw [openParts, hkeys]
    simp[except_ok_bind, hpadded]
  rw [hopen]
  split_ifs with hmacs
  · exact .inl ⟨_, rfl⟩
  · cases hunpad : unpad padded with
    | error e =>
      obtain ⟨message, rfl⟩ := unpad_error (by omega) hunpad
      exact .inl ⟨message, rfl⟩
    | ok plaintext =>
      obtain ⟨hmin, hmax, hsize, hfront⟩ := of_unpad hunpad
      obtain ⟨ciphertext', hciphertext', hlen'⟩ := chacha20_ok hkey32 hnonce12 (pad plaintext)
      refine .inr ⟨plaintext, rfl, hmin, hmax, keys, ciphertext', hkeys, hciphertext', ?_, ?_⟩
      · rw [hlen', length_pad, ← hsize, hpaddedLen]
      · exact take_chacha20 hciphertext' (chacha20_chacha20 hpadded) hfront.symm

/-- **What `decrypt` returns** has a legal size and is, encrypted again under the nonce of the
payload, the ciphertext of the payload up to the padding; it throws nothing but a
`FormatException`. -/
theorem decrypt_sound (random : ℕ → Bytes) (payload : DartString) {conversationKey : Bytes}
    (hkey : conversationKey.length = 32) :
    (∃ message, decrypt hmac payload conversationKey = .error (.format message)) ∨
    ∃ plaintext data payload' data', decrypt hmac payload conversationKey = .ok plaintext ∧
      minPlaintextBytes ≤ plaintext.length ∧ plaintext.length ≤ maxPlaintextBytes ∧
      payloadBytes payload = some data ∧
      encrypt hmac random plaintext conversationKey (some ((data.take 33).drop 1)) = .ok payload' ∧
      payloadBytes payload' = some data' ∧ data'.length = data.length ∧
      (data'.drop 33).take (2 + plaintext.length) = (data.drop 33).take (2 + plaintext.length) := by
  unfold decrypt
  split_ifs with hversion hsize
  · exact .inl ⟨_, rfl⟩
  · exact .inl ⟨_, rfl⟩
  · cases hdata : payloadBytes payload with
    | none => exact .inl ⟨_, rfl⟩
    | some data =>
      change (∃ message, openData hmac data conversationKey = _) ∨
        ∃ _ _ _ _, openData hmac data conversationKey = _ ∧ _
      obtain hformat | ⟨nonce, ciphertext, mac, rfl, hnonce, hmac32, hlen, heq⟩ :=
        openData_cases hmac data conversationKey
      · exact .inl hformat
      · rw [heq]
        obtain hformat | ⟨plaintext, hopen, hmin, hmax, keys, ciphertext', hkeys, hciphertext',
          hlen', hfront⟩ := openParts_cases hmac mac hkey hnonce hlen
        · exact .inl hformat
        · -- under the nonce of the payload the keys are those of the payload
          have hview : ((2 :: (nonce ++ ciphertext ++ mac)).take 33).drop 1 = nonce := by
            rw [take_succ_cons, append_assoc, take_left' hnonce]
            rfl
          obtain ⟨keys₂, ciphertext₂, hkeys₂, hciphertext₂, hsize₂, hencrypt⟩ :=
            @encrypt_ok hmac random plaintext conversationKey (some nonce) hmin hmax hkey hnonce
          change messageKeys hmac conversationKey nonce = _ at hkeys₂
          obtain rfl := Except.ok.inj (hkeys.symm.trans hkeys₂)
          obtain rfl := Except.ok.inj (hciphertext'.symm.trans hciphertext₂)
          have htake : 2 + plaintext.length ≤ ciphertext'.length := by
            have := le_paddedLength plaintext.length
            omega
          refine .inr ⟨plaintext, _, _,
            2 :: (nonce ++ ciphertext' ++ (hmac keys.hmacKey (nonce ++ ciphertext')).1), hopen,
            hmin, hmax, rfl, ?_, payloadBytes_base64Encode _, ?_, ?_⟩
          · rw [hview]
            exact hencrypt
          · simp[length_cons, length_append, hlen', hmac32,
              (hmac keys.hmacKey (nonce ++ ciphertext')).2]
          · rw [drop_succ_cons, drop_succ_cons, append_assoc, append_assoc,
              drop_left' hnonce, drop_left' hnonce,
              take_append_of_le_length htake,
              take_append_of_le_length (hlen' ▸ htake)]
            exact hfront

theorem payloads (random : ℕ → Bytes) :
    (∀ plaintext conversationKey nonce, minPlaintextBytes ≤ plaintext.length →
      plaintext.length ≤ maxPlaintextBytes → conversationKey.length = 32 →
      (nonce.getD (random 32)).length = 32 →
      ∃ payload, encrypt hmac random plaintext conversationKey nonce = .ok payload ∧
        decrypt hmac payload conversationKey = .ok plaintext) ∧
    (∀ a b, a ≤ b → b ≤ maxPlaintextBytes → paddedLength a ≤ paddedLength b) ∧
    (∀ length, length ≤ maxPlaintextBytes →
      length ≤ paddedLength length ∧ paddedLength length ≤ 65536) ∧
    ∀ payload conversationKey, conversationKey.length = 32 →
      (∃ message, decrypt hmac payload conversationKey = .error (.format message)) ∨
      ∃ plaintext data payload' data', decrypt hmac payload conversationKey = .ok plaintext ∧
        minPlaintextBytes ≤ plaintext.length ∧ plaintext.length ≤ maxPlaintextBytes ∧
        payloadBytes payload = some data ∧
        encrypt hmac random plaintext conversationKey (some ((data.take 33).drop 1)) =
          .ok payload' ∧
        payloadBytes payload' = some data' ∧ data'.length = data.length ∧
        (data'.drop 33).take (2 + plaintext.length) =
          (data.drop 33).take (2 + plaintext.length) :=
  ⟨fun _ _ _ hmin hmax hkey hnonce => decrypt_encrypt hmac random hmin hmax hkey hnonce,
    fun _ _ hab _ => paddedLength_mono hab,
    fun length h => ⟨le_paddedLength length, (paddedLength_bounds h).2⟩,
    fun payload _ hkey => decrypt_sound hmac random payload hkey⟩

theorem payloads_of_one_byte :
    ∃ payload, encrypt (fun _ _ => ⟨List.replicate 32 7, List.length_replicate⟩) (fun _ => [])
        [65] (List.replicate 32 1) (some (List.replicate 32 2)) = .ok payload ∧
      decrypt (fun _ _ => ⟨List.replicate 32 7, List.length_replicate⟩) payload
        (List.replicate 32 1) = .ok [65] :=
  (payloads _ _).1 [65] _ (some _) (by decide) (by decide) rfl rfl

end Nip44
end Nostr
end Conest
