import Conest.Lib.Cfb
import Conest.Mail.Aes
import Conest.Mail.Packets

/-!
# Password-encrypted OpenPGP messages

`encrypt` writes a password packet and an integrity-protected data packet, `decrypt` reads them back
behind a row of checks. Each part of the reader has a lemma that it accepts what the writer wrote:
the password packet gives the same key (`passwordKey_encrypt`), the data packet opens to the literal
packet in it (`openData_sealData`), and the literal packet holds the data (`literalData_literalBody`). The
hash functions are arbitrary; the block cipher is AES, of which the round trip uses nothing.
-/

open Lib
open List hiding Vector

namespace Conest
namespace Mail

/-- The hash functions. -/
structure Digests where
  sha256 : Bytes → Vector UInt8 32
  sha1 : Bytes → Vector UInt8 20

namespace OpenPgpSymmetric

open OpenPgp

def aes256 : UInt8 := 9
def sha256Id : UInt8 := 8

/-- How many bytes are hashed for the key, as a coded byte. -/
def s2kCount : UInt8 := 0x60

def countBytes (coded : ℕ) : ℕ := (16 + (coded &&& 15)) <<< ((coded >>> 4) + 6)

/-- What is hashed: the unit over and over, until `remaining` bytes are reached. -/
def repeated (unit : Bytes) (remaining : ℕ) : Bytes :=
  if _h : 0 < remaining ∧ unit ≠ [] then
    unit.take (min remaining unit.length) ++ repeated unit (remaining - min remaining unit.length)
  else []
termination_by remaining
decreasing_by
  have := List.length_pos_iff.mpr _h.2
  omega

/-- `_s2k`: the key of a password. -/
def s2k (digests : Digests) (password salt : Bytes) (count : ℕ) : Bytes :=
  let unit := salt ++ password
  (digests.sha256 (repeated unit (max count unit.length))).toList

/-- The block of a register: the first sixteen bytes. -/
def blockOf (register : Bytes) : AesBlockCipher.State :=
  Vector.ofFn fun i => register.getD i 0

/-- What `encryptBlock` makes of a register. -/
def keystream (key register : Bytes) : Bytes :=
  (AesBlockCipher.encryptBlock key (blockOf register)).toList

/-- `cfb`, with a zero start value. -/
def cfb (key : Bytes) (encrypt : Bool) (input : Bytes) : Bytes :=
  Lib.cfb (· ^^^ ·) (keystream key) 16 encrypt (List.replicate 16 0) input

/-- The password packet's body. -/
def skeskBody (salt : Vector UInt8 8) : Bytes :=
  [4, aes256, 3, sha256Id] ++ salt.toList ++ [s2kCount]

/-- The literal packet: binary, no file name, no date. -/
def literalBody (data : Bytes) : Bytes := [0x62, 0, 0, 0, 0, 0] ++ data

/-- The data packet's body: random bytes, the last two again, the packet, and the digest of it all. -/
def sealData (digests : Digests) (key : Bytes) (random : Vector UInt8 16) (inner : Bytes) : Bytes :=
  let mdcInput := random.toList ++ random.toList.drop 14 ++ inner ++ [0xd3, 0x14]
  1 :: cfb key true (mdcInput ++ (digests.sha1 mdcInput).toList)

def encrypt (digests : Digests) (salt : Vector UInt8 8) (random : Vector UInt8 16)
    (data password : Bytes) : Bytes :=
  let key := s2k digests password salt.toList (countBytes s2kCount.toNat)
  packet 3 (skeskBody salt) ++
    packet 18 (sealData digests key random (packet 11 (literalBody data)))

/-- The key that a password packet asks for; it may not ask for more hashing than `encrypt` does. -/
def passwordKey (digests : Digests) (skesk password : Bytes) : Option Bytes :=
  if skesk.length ≠ 13 ∨ skesk.getD 0 0 ≠ 4 ∨ skesk.getD 1 0 ≠ aes256 ∨ skesk.getD 2 0 ≠ 3 ∨
      skesk.getD 3 0 ≠ sha256Id then none
  else if s2kCount < skesk.getD 12 0 then none
  else
    some (s2k digests password ((skesk.drop 4).take 8) (countBytes (skesk.getD 12 0).toNat))

/-- The inner packets of a data packet, if the quick check and the digest fit. -/
def openData (digests : Digests) (key seipd : Bytes) : Option Bytes :=
  if seipd = [] ∨ seipd.getD 0 0 ≠ 1 ∨ seipd.length < 1 + 18 + 22 then none
  else
    let plain := cfb key false (seipd.drop 1)
    if plain.getD 14 0 ≠ plain.getD 16 0 ∨ plain.getD 15 0 ≠ plain.getD 17 0 then none
    else
      let body := plain.take (plain.length - 20)
      let mdc := plain.drop (plain.length - 20)
      if (digests.sha1 body).toList ≠ mdc ∨ body.getD (body.length - 2) 0 ≠ 0xd3 ∨
          body.getD (body.length - 1) 0 ≠ 0x14 then none
      else some ((body.take (body.length - 2)).drop 18)

/-- The data of a literal packet, behind the file name and the date. -/
def literalData (literal : Bytes) : Option Bytes :=
  if literal.length < 6 then none
  else
    let start := 2 + (literal.getD 1 0).toNat + 4
    if literal.length < start then none else some (literal.drop start)

/-- `decrypt`: `none` where it throws. -/
def decrypt (digests : Digests) (message password : Bytes) : Option Bytes :=
  match readPackets message with
  | some [(3, skesk), (18, seipd)] =>
    (passwordKey digests skesk password).bind fun key =>
      (openData digests key seipd).bind fun inner =>
        match readPackets inner with
        | some [(11, literal)] => literalData literal
        | _ => none
  | _ => none

/-! ### The parts of a message -/

variable {digests : Digests}

theorem length_keystream (key register : Bytes) : (keystream key register).length = 16 := by
  rw [keystream, Vector.length_toList]

theorem xor_xor_self (byte stream : UInt8) : byte ^^^ stream ^^^ stream = byte := by
  rw [UInt8.xor_assoc, UInt8.xor_self, UInt8.xor_zero]

theorem cfb_cfb (key input : Bytes) : cfb key false (cfb key true input) = input :=
  Lib.cfb_cfb (length_keystream key) (Nat.succ_pos 15) xor_xor_self _ input

theorem length_cfb (key : Bytes) (encrypt : Bool) (input : Bytes) :
    (cfb key encrypt input).length = input.length :=
  Lib.length_cfb (length_keystream key) (Nat.succ_pos 15) encrypt _ input

theorem length_skeskBody (salt : Vector UInt8 8) : (skeskBody salt).length = 13 := by
  simp only [skeskBody, length_append, Vector.length_toList]
  rfl

/-- **The password packet** asks for the key that the message was encrypted with. -/
theorem passwordKey_encrypt (salt : Vector UInt8 8) (password : Bytes) :
    passwordKey digests (skeskBody salt) password =
      some (s2k digests password salt.toList (countBytes s2kCount.toNat)) := by
  have hlength := length_skeskBody salt
  have hsalt : salt.toList.length = 8 := Vector.length_toList
  have hcount : (skeskBody salt).getD 12 0 = s2kCount := by
    rw [skeskBody, getD_eq_getElem?_getD]
    simp
  have htake : ((skeskBody salt).drop 4).take 8 = salt.toList := by
    exact take_left' hsalt
  unfold passwordKey
  rw [if_neg, if_neg, hcount, htake]
  · rw [hcount]
    exact UInt8.lt_irrefl s2kCount
  · rw [not_or]
    exact ⟨fun h => h hlength, by simp [skeskBody]⟩

theorem quick_check (random : Vector UInt8 16) (rest : Bytes) :
    let plain := random.toList ++ random.toList.drop 14 ++ rest
    plain.getD 14 0 = plain.getD 16 0 ∧ plain.getD 15 0 = plain.getD 17 0 := by
  have hlength : random.toList.length = 16 := Vector.length_toList
  simp only [getD_eq_getElem?_getD, append_assoc]
  constructor
  · rw [getElem?_append_left (by omega), getElem?_append_right (by omega),
      getElem?_append_left (by simp), getElem?_drop, hlength]
  · rw [getElem?_append_left (by omega), getElem?_append_right (by omega),
      getElem?_append_left (by simp), getElem?_drop, hlength]

theorem last_two (front : Bytes) (a b : UInt8) :
    let body := front ++ [a, b]
    body.getD (body.length - 2) 0 = a ∧ body.getD (body.length - 1) 0 = b ∧
      body.take (body.length - 2) = front := by
  have hlength : (front ++ [a, b]).length = front.length + 2 := length_append
  simp only [hlength, getD_eq_getElem?_getD, Nat.add_sub_cancel, Nat.add_succ_sub_one]
  refine ⟨?_, ?_, take_left⟩
  · rw [getElem?_append_right (Nat.le_refl _), Nat.sub_self]
    rfl
  · rw [getElem?_append_right (Nat.le_add_right _ 1), Nat.add_sub_cancel_left]
    rfl

theorem openData_sealData (key : Bytes) (random : Vector UInt8 16) (inner : Bytes) :
    openData digests key (sealData digests key random inner) = some inner := by
  have hrandom : random.toList.length = 16 := Vector.length_toList
  unfold openData sealData
  generalize hinput : random.toList ++ random.toList.drop 14 ++ inner ++ [0xd3, 0x14] = mdcInput
  have hfront : mdcInput = (random.toList ++ random.toList.drop 14) ++ (inner ++ [0xd3, 0x14]) := by
    rw [← hinput, append_assoc]
  have hlength : mdcInput.length = inner.length + 20 := by
    rw [← hinput]
    simp only [length_append, length_drop, hrandom, length_cons, length_nil]
    omega
  have hmdc : (digests.sha1 mdcInput).toList.length = 20 := Vector.length_toList
  have hbody : (mdcInput ++ (digests.sha1 mdcInput).toList).length - 20 = mdcInput.length := by
    rw [length_append, hmdc, Nat.add_sub_cancel]
  have hquick := quick_check random ((inner ++ [0xd3, 0x14]) ++ (digests.sha1 mdcInput).toList)
  rw [← append_assoc, ← hfront] at hquick
  have hmarks := last_two (random.toList ++ random.toList.drop 14 ++ inner) 0xd3 0x14
  rw [hinput] at hmarks
  rw [if_neg]
  · simp only [drop_succ_cons, drop_zero, cfb_cfb]
    rw [if_neg, hbody, take_left, drop_left, if_neg]
    · -- the two marks at the end go, and the eighteen random bytes in front
      rw [hmarks.2.2]
      refine congrArg some (drop_left' ?_)
      rw [length_append, length_drop, hrandom]
    · rw [not_or, not_or]
      exact ⟨fun h => h rfl, fun h => h hmarks.1, fun h => h hmarks.2.1⟩
    · rw [not_or]
      exact ⟨fun h => h hquick.1, fun h => h hquick.2⟩
  · rw [not_or, not_or]
    refine ⟨cons_ne_nil _ _, fun h => h rfl, ?_⟩
    rw [length_cons, length_cfb]
    omega

theorem literalData_literalBody (data : Bytes) : literalData (literalBody data) = some data := by
  unfold literalData literalBody
  rw [if_neg, if_neg]
  · rfl
  · show ¬ ([0x62, 0, 0, 0, 0, 0] ++ data : Bytes).length < 6
    simp
  · simp

theorem length_packet_le (tag : ℕ) (body : Bytes) : (packet tag body).length ≤ body.length + 6 := by
  have h := length_packetLength_le body.length
  rw [packet, length_cons, length_append]
  omega

theorem length_sealData (key : Bytes) (random : Vector UInt8 16) (inner : Bytes) :
    (sealData digests key random inner).length = inner.length + 41 := by
  simp only [sealData, length_cons, length_cfb, length_append, Vector.length_toList,
    length_drop, length_nil]
  omega

theorem decrypt_encrypt (digests : Digests) (salt : Vector UInt8 8) (random : Vector UInt8 16)
    (password : Bytes) {data : Bytes} (h : data.length < 2 ^ 31) :
    decrypt digests (encrypt digests salt random data password) password = some data := by
  have hliteral : (literalBody data).length = data.length + 6 := by
    rw [literalBody, length_append]
    exact Nat.add_comm _ _
  have hinner := length_packet_le 11 (literalBody data)
  have houter : readPackets (encrypt digests salt random data password) =
      some [(3, skeskBody salt), (18, sealData digests
        (s2k digests password salt.toList (countBytes s2kCount.toNat)) random
        (packet 11 (literalBody data)))] := by
    have hwritten : encrypt digests salt random data password = writePackets [(3, skeskBody salt),
        (18, sealData digests (s2k digests password salt.toList (countBytes s2kCount.toNat)) random
          (packet 11 (literalBody data)))] := by
      simp[encrypt, writePackets, flatMap_cons, flatMap_nil, append_nil]
    rw [hwritten]
    refine readPackets_writePackets ?_ (Nat.le_add_left 2 4094)
    rintro p hp
    rcases mem_cons.mp hp with rfl | hp
    · exact ⟨Nat.le_add_left 4 60, by rw [length_skeskBody]; exact Nat.lt_of_sub_eq_succ rfl⟩
    rw [mem_singleton.mp hp]
    refine ⟨Nat.le_add_left 19 45, ?_⟩
    rw [length_sealData]
    omega
  have hsingle : readPackets (packet 11 (literalBody data)) = some [(11, literalBody data)] := by
    have hwritten : packet 11 (literalBody data) = writePackets [(11, literalBody data)] := by
      simp[writePackets, flatMap_cons, flatMap_nil, append_nil]
    rw [hwritten]
    refine readPackets_writePackets ?_ (Nat.le_add_left 1 4095)
    rintro p hp
    rw [mem_singleton.mp hp]
    refine ⟨Nat.le_add_left 12 52, ?_⟩
    rw [hliteral]
    omega
  simp only [decrypt, houter, passwordKey_encrypt, Option.bind_some, openData_sealData, hsingle]
  exact literalData_literalBody data

end OpenPgpSymmetric
end Mail
end Conest
