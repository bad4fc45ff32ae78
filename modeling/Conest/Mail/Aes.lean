import Conest.Lib.Dart

/-!
# The AES block cipher

Block encryption as the mail carrier has it: the S-box is computed by walking the multiplicative
group with a generator and its inverse, the state is column-major (row `r`, column `c` at index
`4 * c + r`), and the key may have 16, 24 or 32 bytes. Only the forward direction is needed.
-/

open Lib

namespace Conest
namespace Mail
namespace AesBlockCipher

/-- The sixteen bytes of the state. -/
abbrev State := Vector UInt8 16

def xtime (value : UInt8) : UInt8 := (value <<< 1) ^^^ (if value &&& 0x80 ≠ 0 then 0x1b else 0)

def rotl8 (value shift : UInt8) : UInt8 := (value <<< shift) ||| (value >>> (8 - shift))

/-! ### The S-box -/

/-- One turn of the walk: `p` is multiplied by 3 and `q` by its inverse. -/
def walk (pq : UInt8 × UInt8) : UInt8 × UInt8 :=
  let p := pq.1 ^^^ (pq.1 <<< 1) ^^^ (if pq.1 &&& 0x80 ≠ 0 then 0x1b else 0)
  let q := pq.2 ^^^ (pq.2 <<< 1)
  let q := q ^^^ (q <<< 2)
  let q := q ^^^ (q <<< 4)
  (p, if q &&& 0x80 ≠ 0 then q ^^^ 0x09 else q)

/-- What the walk writes at `p`. -/
def affine (q : UInt8) : UInt8 := q ^^^ rotl8 q 1 ^^^ rotl8 q 2 ^^^ rotl8 q 3 ^^^ rotl8 q 4 ^^^ 0x63

/-- The loop of `_buildSbox`, which ends when `p` is 1 again. -/
def fillSbox : ℕ → UInt8 × UInt8 → Vector UInt8 256 → Vector UInt8 256
  | 0, _, sbox => sbox
  | turns + 1, pq, sbox =>
    let next := walk pq
    let sbox := sbox.set next.1.toNat (affine next.2) next.1.toNat_lt
    if next.1 = 1 then sbox else fillSbox turns next sbox

/-- `_buildSbox`. -/
def sbox : Vector UInt8 256 := (fillSbox 255 (1, 1) (Vector.replicate 256 0)).set 0 0x63

example : sbox.toList.take 4 = [0x63, 0x7c, 0x77, 0x7b] := by decide +kernel

def substitute (value : UInt8) : UInt8 := sbox.get ⟨value.toNat, value.toNat_lt⟩

/-! ### The rounds -/

def subBytes (s : State) : State := s.map substitute

def shiftRows (s : State) : State :=
  #v[s[0], s[5], s[10], s[15], s[4], s[9], s[14], s[3], s[8], s[13], s[2], s[7], s[12], s[1], s[6],
    s[11]]

def mixColumn (a0 a1 a2 a3 : UInt8) : Vector UInt8 4 :=
  let all := a0 ^^^ a1 ^^^ a2 ^^^ a3
  #v[a0 ^^^ all ^^^ xtime (a0 ^^^ a1), a1 ^^^ all ^^^ xtime (a1 ^^^ a2),
    a2 ^^^ all ^^^ xtime (a2 ^^^ a3), a3 ^^^ all ^^^ xtime (a3 ^^^ a0)]

def mixColumns (s : State) : State :=
  mixColumn s[0] s[1] s[2] s[3] ++ mixColumn s[4] s[5] s[6] s[7] ++
    mixColumn s[8] s[9] s[10] s[11] ++ mixColumn s[12] s[13] s[14] s[15]

def addRoundKey (roundKeys : Bytes) (s : State) (round : ℕ) : State :=
  s.mapFinIdx fun i byte _ => byte ^^^ roundKeys.getD (round * 16 + i) 0

/-! ### The round keys -/

/-- The word that is combined with the one `nk` words before: the word before, rotated and
substituted at the start of each key length. -/
def scheduleWord (nk i : ℕ) (words : Bytes) (rcon : UInt8) : Vector UInt8 4 :=
  let temp := Vector.ofFn fun j : Fin 4 => words.getD ((i - 1) * 4 + j) 0
  if i % nk = 0 then
    #v[substitute temp[1] ^^^ rcon, substitute temp[2], substitute temp[3], substitute temp[0]]
  else if 6 < nk ∧ i % nk = 4 then temp.map substitute
  else temp

/-- The loop of `_expand`, with the words written so far. -/
def expandFrom (nk : ℕ) : ℕ → ℕ → Bytes → UInt8 → Bytes
  | 0, _, words, _ => words
  | count + 1, i, words, rcon =>
    let temp := scheduleWord nk i words rcon
    let word := temp.mapFinIdx fun j byte _ => words.getD ((i - nk) * 4 + j) 0 ^^^ byte
    expandFrom nk count (i + 1) (words ++ word.toList) (if i % nk = 0 then xtime rcon else rcon)

def roundsOf (key : Bytes) : ℕ := key.length / 4 + 6

/-- `_expand`. -/
def expand (key : Bytes) : Bytes :=
  let nk := key.length / 4
  expandFrom nk (4 * (roundsOf key + 1) - nk) nk key 1

/-- `encryptBlock`. -/
def encryptBlock (key : Bytes) (input : State) : State :=
  let roundKeys := expand key
  let rounds := roundsOf key
  let s := (List.range' 1 (rounds - 1)).foldl
    (fun s round => addRoundKey roundKeys (mixColumns (shiftRows (subBytes s))) round)
    (addRoundKey roundKeys input 0)
  addRoundKey roundKeys (shiftRows (subBytes s)) rounds

end AesBlockCipher
end Mail
end Conest
