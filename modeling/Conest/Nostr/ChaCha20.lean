import Conest.Lib.Dart
import Conest.Lib.Keystream

/-!
# ChaCha20

The pad of `chacha20` is a block of sixteen words for each value of the counter, and the input is
combined with it: so it undoes itself (`chacha20_chacha20`), and what it makes of the front of an
input depends on the front alone (`take_chacha20`).
-/

open Lib

namespace Conest
namespace Nostr

/-- What the code throws. -/
inductive Thrown where
  | argument (message : String)
  | format (message : String)
  | range
  deriving DecidableEq

namespace ChaCha20

abbrev Words := Vector UInt32 16

/-- `_rotl`. -/
def rotl (value shift : UInt32) : UInt32 := (value <<< shift) ||| (value >>> (32 - shift))

/-- `_quarter`. -/
def quarter (s : Words) (a b c d : Fin 16) : Words :=
  let s := s.set a (s[a] + s[b])
  let s := s.set d (rotl (s[d] ^^^ s[a]) 16)
  let s := s.set c (s[c] + s[d])
  let s := s.set b (rotl (s[b] ^^^ s[c]) 12)
  let s := s.set a (s[a] + s[b])
  let s := s.set d (rotl (s[d] ^^^ s[a]) 8)
  let s := s.set c (s[c] + s[d])
  s.set b (rotl (s[b] ^^^ s[c]) 7)

/-- One pass of the loop over `round`. -/
def round (working : Words) : Words :=
  let working := quarter working 0 4 8 12
  let working := quarter working 1 5 9 13
  let working := quarter working 2 6 10 14
  let working := quarter working 3 7 11 15
  let working := quarter working 0 5 10 15
  let working := quarter working 1 6 11 12
  let working := quarter working 2 7 8 13
  quarter working 3 4 9 14

/-- `ByteData.getUint32` at a word, little endian. -/
def wordAt (bytes : Bytes) (index : ℕ) : UInt32 :=
  (bytes.getD (4 * index) 0).toUInt32 ||| (bytes.getD (4 * index + 1) 0).toUInt32 <<< 8 |||
    (bytes.getD (4 * index + 2) 0).toUInt32 <<< 16 |||
    (bytes.getD (4 * index + 3) 0).toUInt32 <<< 24

/-- `ByteData.setUint32`, little endian. -/
def wordBytes (word : UInt32) : Bytes :=
  [word.toUInt8, (word >>> 8).toUInt8, (word >>> 16).toUInt8, (word >>> 24).toUInt8]

/-- The state before the first block. -/
def initial (key nonce : Bytes) : Words :=
  #v[0x61707865, 0x3320646e, 0x79622d32, 0x6b206574, wordAt key 0, wordAt key 1, wordAt key 2,
    wordAt key 3, wordAt key 4, wordAt key 5, wordAt key 6, wordAt key 7, 0, wordAt nonce 0,
    wordAt nonce 1, wordAt nonce 2]

-- where the counter is
theorem counterWord_lt : 12 < 16 := by decide

/-- The block of a counter. -/
def block (state : Words) (counter : ℕ) : Bytes :=
  let state := state.set 12 (UInt32.ofNat counter) counterWord_lt
  let working := (List.range 10).foldl (fun working _ => round working) state
  (List.finRange 16).flatMap fun index => wordBytes (working[index] + state[index])

theorem length_block (state : Words) (counter : ℕ) : (block state counter).length = 64 := by
  simp [block, wordBytes]

/-- The keystream of a key and a nonce of zeros, as the standard has it. -/
example : (block (initial (List.replicate 32 0) (List.replicate 12 0)) 0).take 8 =
    [0x76, 0xb8, 0xe0, 0xad, 0xa0, 0xf1, 0x3d, 0x90] := by
  decide +kernel

end ChaCha20

open ChaCha20

def chacha20 (key nonce input : Bytes) : Except Thrown Bytes :=
  if key.length ≠ 32 ∨ nonce.length ≠ 12 then
    .error (.argument "ChaCha20 takes a 32-byte key and a 12-byte nonce.")
  else .ok (applyPad (· ^^^ ·) (block (initial key nonce)) 64 0 input)

variable {key nonce input output : Bytes}

theorem chacha20_ok (hkey : key.length = 32) (hnonce : nonce.length = 12) (input : Bytes) :
    ∃ output, chacha20 key nonce input = .ok output ∧ output.length = input.length := by
  refine ⟨_, if_neg ?_, length_applyPad (length_block _) (by decide) _ _⟩
  rw [hkey, hnonce]
  decide

theorem of_chacha20 (h : chacha20 key nonce input = .ok output) :
    output = applyPad (· ^^^ ·) (block (initial key nonce)) 64 0 input := by
  unfold chacha20 at h
  split_ifs at h
  exact (Except.ok.inj h).symm

theorem chacha20_chacha20 (h : chacha20 key nonce input = .ok output) :
    chacha20 key nonce output = .ok input := by
  have houtput := of_chacha20 h
  unfold chacha20 at h ⊢
  split_ifs at h ⊢ with hsize
  rw [houtput, applyPad_applyPad (length_block _) (by decide)]
  intro a k
  rw [UInt8.xor_assoc, UInt8.xor_self, UInt8.xor_zero]

theorem take_chacha20 {input' output' : Bytes} {n : ℕ} (h : chacha20 key nonce input = .ok output)
    (h' : chacha20 key nonce input' = .ok output') (hfront : input.take n = input'.take n) :
    output.take n = output'.take n := by
  rw [of_chacha20 h, of_chacha20 h', take_applyPad (length_block _) (by decide),
    take_applyPad (length_block _) (by decide), hfront]

end Nostr
end Conest
