import Conest.Lib.BigEndian

/-!
# Signatures and keys

`Signature.tryRead` reads the fields of a version 4 signature and its two areas of subpackets, and
`KeyMaterial.read` those of a key. `Signature.verify` asks whether the subpackets rule out the
signer, whether the signature is of now, and only then whether Ed25519 accepts it.

The hashes and Ed25519 are the fields of a `Primitives`. A signature keeps the bytes it was read
from, so reading them again gives the same (`tryRead_raw`).
-/

namespace Conest
namespace Mail
namespace OpenPgp

open Lib List

/-- The primitives. `ed25519` takes the public key, the message and the signature. -/
structure Primitives where
  sha1 : Bytes → Bytes
  sha224 : Bytes → Bytes
  sha256 : Bytes → Bytes
  sha384 : Bytes → Bytes
  sha512 : Bytes → Bytes
  ed25519 : Bytes → Bytes → Bytes → Bool

def ecdh : UInt8 := 18
def eddsaLegacy : UInt8 := 22
def sha256Id : UInt8 := 8
def aes128 : UInt8 := 7
def aes256 : UInt8 := 9

def ed25519Oid : Bytes := [0x2b, 0x06, 0x01, 0x04, 0x01, 0xda, 0x47, 0x0f, 0x01]
def cv25519Oid : Bytes := [0x2b, 0x06, 0x01, 0x04, 0x01, 0x97, 0x55, 0x01, 0x05, 0x01]

/-- The ways in which a key is refused. -/
inductive Refusal where
  /-- "OpenPGP key too large." -/
  | tooLarge
  /-- What `readPackets` throws. -/
  | packets
  /-- "Not an OpenPGP public key." -/
  | notPublicKey
  /-- "Truncated." -/
  | truncated
  /-- "Only v4 OpenPGP keys are supported." -/
  | notV4
  /-- "Only Ed25519 OpenPGP keys are supported." -/
  | notEd25519
  /-- "Malformed Ed25519 OpenPGP key." -/
  | malformedEd25519
  /-- "Too many OpenPGP signatures to check." -/
  | tooManySignatures
  /-- "This OpenPGP key was revoked." -/
  | revoked
  /-- "The OpenPGP key has no signed user id." -/
  | noUserId
  /-- "This OpenPGP key has expired." -/
  | expired
  /-- "The OpenPGP key has no encryption key." -/
  | noEncryptionKey
  deriving DecidableEq

/-! ### The reader -/

/-- A `_Reader` is the bytes it has not read. -/
abbrev Reader := StateT Bytes (Except Refusal)

namespace Reader

def byte : Reader UInt8
  | [] => .error .truncated
  | byte :: rest => .ok (byte, rest)

def take (length : ℕ) : Reader Bytes := fun data =>
  match take? data length with
  | none => .error .truncated
  | some split => .ok split

def be16 : Reader ℕ := do
  let high ← byte
  let low ← byte
  return high.toNat <<< 8 ||| low.toNat

def be32 : Reader ℕ := do
  let high ← be16
  let low ← be16
  return high <<< 16 ||| low

def mpi : Reader Bytes := do take (((← be16) + 7) >>> 3)

/-- A reader that gives back no more than it was given. -/
def Shrinks {α : Type} (reader : Reader α) : Prop :=
  ∀ data value rest, reader data = .ok (value, rest) → rest.length ≤ data.length

variable {α β : Type}

section

variable {reader : Reader α} {next : α → Reader β}

theorem bind_ok {data rest : Bytes} {value : β} (h : (reader >>= next) data = .ok (value, rest)) :
    ∃ first middle, reader data = .ok (first, middle) ∧ next first middle = .ok (value, rest) := by
  change (reader data >>= fun p => next p.1 p.2) = .ok (value, rest) at h
  cases hread : reader data with
  | error refusal =>
    rw [hread] at h
    cases h
  | ok read =>
    rw [hread] at h
    exact ⟨read.1, read.2, rfl, h⟩

theorem Shrinks.bind (h : reader.Shrinks) (hnext : ∀ first, (next first).Shrinks) :
    (reader >>= next).Shrinks := by
  intro data value rest hread
  obtain ⟨first, middle, hfirst, hrest⟩ := bind_ok hread
  exact (hnext first middle value rest hrest).trans (h data first middle hfirst)

end

theorem shrinks_pure (value : α) : (pure value : Reader α).Shrinks := by
  intro data value' rest h
  cases h
  exact le_rfl

theorem shrinks_throw (refusal : Refusal) : (throw refusal : Reader α).Shrinks := by
  intro data value rest h
  cases h

theorem length_byte {data rest : Bytes} {value : UInt8} (h : byte data = .ok (value, rest)) :
    rest.length < data.length := by
  cases data with
  | nil => cases h
  | cons first tail =>
    cases h
    exact Nat.lt_succ_self _

theorem shrinks_byte : byte.Shrinks := fun _ _ _ h => (length_byte h).le

theorem shrinks_take (length : ℕ) : (take length).Shrinks := by
  intro data value rest h
  unfold take at h
  split at h
  · cases h
  case h_2 split hsplit =>
    cases h
    rw [(take?_eq_some hsplit).1, length_append]
    exact Nat.le_add_left _ _

theorem shrinks_be16 : be16.Shrinks :=
  shrinks_byte.bind fun _ => shrinks_byte.bind fun _ => shrinks_pure _

theorem shrinks_be32 : be32.Shrinks :=
  shrinks_be16.bind fun _ => shrinks_be16.bind fun _ => shrinks_pure _

end Reader

/-- Pad with zeros on the left. -/
def leftPad (bytes : Bytes) (length : ℕ) : Bytes :=
  List.replicate (length - bytes.length) 0 ++ bytes

/-! ### Signatures -/

/-- Subpackets this reader knows. Others marked critical void the signature. -/
def understood : List UInt8 := [2, 3, 9, 11, 16, 21, 22, 23, 25, 27, 30, 33, 35]

/-- One subpacket: its type, and its data. -/
def subpacket : Reader (UInt8 × Bytes) := do
  let first ← Reader.byte
  let length ←
    if first < 192 then pure first.toNat
    else if first < 255 then do
      let low ← Reader.byte
      pure ((first.toNat - 192) <<< 8 + low.toNat + 192)
    else Reader.be32
  if length < 1 then throw .truncated
  let type ← Reader.byte
  let data ← Reader.take (length - 1)
  return (type, data)

/-- The loop of `_subpackets`. Each subpacket takes a byte or more, so the length of the area is
fuel enough (`subpacketsFrom_of_le`). It is `none` where the source throws, and where it gives up on
one that is critical; either voids the signature. -/
def subpacketsFrom (strict : Bool) : ℕ → Bytes → Option (List (UInt8 × Bytes))
  | _, [] => some []
  | 0, _ :: _ => none
  | fuel + 1, first :: area =>
    match subpacket (first :: area) with
    | .error _ => none
    | .ok ((type, data), rest) =>
      if strict ∧ type &&& 0x80 ≠ 0 ∧ type &&& 0x7f ∉ understood then none
      else (subpacketsFrom strict fuel rest).map ((type &&& 0x7f, data) :: ·)

/-- `_subpackets`: each under its kind, in the order they stand in. -/
def subpackets (strict : Bool) (area : Bytes) : Option (List (UInt8 × Bytes)) :=
  subpacketsFrom strict area.length area

theorem length_subpacket {area rest : Bytes} {read : UInt8 × Bytes}
    (h : subpacket area = .ok (read, rest)) : rest.length < area.length := by
  obtain ⟨first, middle, hfirst, hrest⟩ := Reader.bind_ok h
  refine lt_of_le_of_lt ?_ (Reader.length_byte hfirst)
  have hbody : ∀ length : ℕ, Reader.Shrinks (do
      if length < 1 then throw .truncated
      let type ← Reader.byte
      let data ← Reader.take (length - 1)
      return (type, data)) := by
    intro length
    split
    · exact (Reader.shrinks_throw _).bind fun _ => Reader.shrinks_byte.bind fun _ =>
        (Reader.shrinks_take _).bind fun _ => Reader.shrinks_pure _
    · exact Reader.shrinks_byte.bind fun _ =>
        (Reader.shrinks_take _).bind fun _ => Reader.shrinks_pure _
  revert hrest
  split
  · exact hbody _ _ _ _
  split
  · intro hrest
    obtain ⟨low, after, hlow, hafter⟩ := Reader.bind_ok hrest
    exact (hbody ((first.toNat - 192) <<< 8 + low.toNat + 192) _ _ _ hafter).trans
      (Reader.length_byte hlow).le
  · intro hrest
    obtain ⟨length, after, hlength, hafter⟩ := Reader.bind_ok hrest
    exact (hbody _ _ _ _ hafter).trans (Reader.shrinks_be32 _ _ _ hlength)

theorem subpacketsFrom_of_le (strict : Bool) {fuel : ℕ} {area : Bytes} (h : area.length ≤ fuel) :
    subpacketsFrom strict fuel area = subpackets strict area := by
  -- the fuel on either side is enough for what is left of the area
  suffices hall : ∀ n fuel fuel' area, area.length ≤ n → area.length ≤ fuel → area.length ≤ fuel' →
      subpacketsFrom strict fuel area = subpacketsFrom strict fuel' area from
    hall area.length fuel area.length area le_rfl h le_rfl
  intro n
  induction n with
  | zero =>
    intro fuel fuel' area hn _ _
    obtain rfl : area = [] := length_eq_zero_iff.mp (Nat.le_zero.mp hn)
    rw [subpacketsFrom, subpacketsFrom]
  | succ n ih =>
  intro fuel fuel' area hn hfuel hfuel'
  cases area with
  | nil => rw [subpacketsFrom, subpacketsFrom]
  | cons first tail =>
  rw [length_cons] at hn hfuel hfuel'
  obtain ⟨fuel, rfl⟩ : ∃ k, fuel = k + 1 := ⟨fuel - 1, by omega⟩
  obtain ⟨fuel', rfl⟩ : ∃ k, fuel' = k + 1 := ⟨fuel' - 1, by omega⟩
  rw [subpacketsFrom, subpacketsFrom]
  cases hread : subpacket (first :: tail) with
  | error refusal => rfl
  | ok read =>
  obtain ⟨⟨type, data⟩, rest⟩ := read
  have hrest := length_subpacket hread
  rw [length_cons] at hrest
  have hsame := ih fuel fuel' rest (by omega) (by omega) (by omega)
  simp[hsame]
/-- What is read of a signature. `hashedLength` is the length of the hashed subpackets. -/
structure Signature.Fields where
  type : UInt8
  hashAlgorithm : UInt8
  hashedLength : ℕ
  hashed : List (UInt8 × Bytes)
  unhashed : List (UInt8 × Bytes)
  left16 : Bytes
  r : Bytes
  s : Bytes

/-- `_Signature`: what was read, and `raw`, the packet's body it was read from. -/
structure Signature extends Signature.Fields where
  raw : Bytes

namespace Signature

/-- The fields one after the other. The inner `none` is where the source returns `null`. -/
def fields : Reader (Option Fields) := do
  if (← Reader.byte) ≠ 4 then return none
  let type ← Reader.byte
  if (← Reader.byte) ≠ eddsaLegacy then return none
  let hashAlgorithm ← Reader.byte
  let hashedLength ← Reader.be16
  let hashedBytes ← Reader.take hashedLength
  let some hashed := subpackets true hashedBytes | return none
  let unhashedBytes ← Reader.take (← Reader.be16)
  let some unhashed := subpackets false unhashedBytes | return none
  let left16 ← Reader.take 2
  let r ← Reader.mpi
  let s ← Reader.mpi
  if r.length > 32 ∨ s.length > 32 then return none
  return some {
    type, hashAlgorithm, hashedLength, hashed, unhashed, left16
    r := leftPad r 32
    s := leftPad s 32 }

/-- `_Signature.tryRead`. -/
def tryRead (body : Bytes) : Option Signature :=
  match fields body with
  | .ok (some fields, _) => some { fields with raw := body }
  | _ => none

section

variable {body : Bytes} {signature : Signature} (h : tryRead body = some signature)

include h

theorem raw_of_tryRead : signature.raw = body := by
  unfold tryRead at h
  split at h
  · cases h
    rfl
  · cases h

theorem tryRead_raw : tryRead signature.raw = some signature := by
  rw [raw_of_tryRead h]
  exact h

end

/-- All subpackets of a kind. -/
def all (area : List (UInt8 × Bytes)) (kind : UInt8) : List Bytes :=
  (area.filter fun subpacket => subpacket.1 = kind).map Prod.snd

/-- `hashed[kind]?.firstOrNull`. -/
def hashed? (signature : Signature) (kind : UInt8) : Option Bytes :=
  (all signature.hashed kind).head?

variable (signature : Signature)

/-- Version through hashed subpackets: the signed trailer's start. -/
def hashedArea : Bytes := signature.raw.take (6 + signature.hashedLength)

/-- The number in a hashed subpacket of four bytes. -/
def number? (kind : UInt8) : Option ℕ :=
  match signature.hashed? kind with
  | none => none
  | some bytes => if bytes.length = 4 then some (ofBigEndian bytes) else none

def created : ℕ := (signature.number? 2).getD 0

/-- The issuer subpackets do not rule out the fingerprint. -/
def mayBeFrom (fingerprint : Bytes) : Bool :=
  ((all signature.hashed 33 ++ all signature.unhashed 33).all fun issuer =>
    issuer.length = 21 ∧ issuer.head? = some 4 ∧ issuer.drop 1 = fingerprint) &&
  ((all signature.hashed 16 ++ all signature.unhashed 16).all fun issuer =>
    issuer.length = 8 ∧ issuer = fingerprint.drop 12)

end Signature

/-- `_hash`: MD5 and SHA-1 signatures are refused. -/
def Primitives.hash (c : Primitives) (algorithm : UInt8) : Option (Bytes → Bytes) :=
  if algorithm = 8 then some c.sha256
  else if algorithm = 9 then some c.sha384
  else if algorithm = 10 then some c.sha512
  else if algorithm = 11 then some c.sha224
  else none

/-- A moment in milliseconds, in whole seconds. -/
def seconds (now : ℤ) : ℤ := now.tdiv 1000

/-- The signature says when it was made, not far in the future, and it has not expired. -/
def Signature.isOf (signature : Signature) (now : ℤ) : Bool :=
  (signature.number? 2).isSome && decide (signature.created ≤ seconds now + 24 * 3600) &&
    (signature.number? 3).all fun expiry =>
      decide (expiry = 0 ∨ seconds now < signature.created + expiry)

/-- What the signature signs: the parts, and its own fields with their length. -/
def Signature.message (signature : Signature) (parts : List Bytes) : Bytes :=
  parts.flatten ++ signature.hashedArea ++
    (0x04 :: 0xff :: bigEndian 4 signature.hashedArea.length)

/-- `_Signature.verify`. -/
def Signature.verify (c : Primitives) (publicKey : Bytes) (parts : List Bytes) (fingerprint : Bytes)
    (now : ℤ) (signature : Signature) : Bool :=
  if signature.mayBeFrom fingerprint then
    match c.hash signature.hashAlgorithm with
    | none => false
    | some hash =>
      if signature.isOf now then
        let digest := hash (signature.message parts)
        digest.take 2 = signature.left16 && c.ed25519 publicKey digest (signature.r ++ signature.s)
      else false
  else false

/-! ### Key fields -/

/-- `_KeyMaterial`: the rest is what its reader has not read. -/
structure KeyMaterial where
  created : ℕ
  algorithm : UInt8
  rest : Bytes

namespace KeyMaterial

/-- The version, the time and the algorithm. -/
def fields : Reader (ℕ × UInt8) := do
  if (← Reader.byte) ≠ 4 then throw .notV4
  let created ← Reader.be32
  let algorithm ← Reader.byte
  return (created, algorithm)

def read (body : Bytes) : Except Refusal KeyMaterial :=
  match fields body with
  | .error refusal => .error refusal
  | .ok ((created, algorithm), rest) => .ok { created, algorithm, rest }

def tryRead (body : Bytes) : Option KeyMaterial := (read body).toOption

def eddsaPoint : Reader Bytes := do
  let oid ← Reader.take (← Reader.byte).toNat
  if oid ≠ ed25519Oid then throw .notEd25519
  let point ← Reader.mpi
  if point.length ≠ 33 ∨ point.head? ≠ some 0x40 then throw .malformedEd25519
  return point.drop 1

def eddsaKey (material : KeyMaterial) : Except Refusal Bytes :=
  (eddsaPoint material.rest).map Prod.fst

def cv25519Point : Reader (Option (Bytes × UInt8)) := do
  let oid ← Reader.take (← Reader.byte).toNat
  if oid ≠ cv25519Oid then return none
  let point ← Reader.mpi
  if point.length ≠ 33 ∨ point.head? ≠ some 0x40 then return none
  let kdf ← Reader.take (← Reader.byte).toNat
  -- KDF with SHA-256 and AES-128 or AES-256 key wrapping only
  match kdf with
  | [version, hash, wrap] =>
    if version ≠ 1 ∨ hash ≠ sha256Id ∨ (wrap ≠ aes128 ∧ wrap ≠ aes256) then return none
    return some (point.drop 1, wrap)
  | _ => return none

/-- The X25519 key and its key-wrap cipher. -/
def cv25519Key (material : KeyMaterial) : Option (Bytes × UInt8) :=
  match cv25519Point material.rest with
  | .ok (key, _) => key
  | .error _ => none

end KeyMaterial

/-- `_hashedKey`. -/
def hashedKey (body : Bytes) : Bytes :=
  0x99 :: UInt8.ofNat (body.length >>> 8) :: UInt8.ofNat (body.length &&& 0xff) :: body

/-- `_fingerprint`. -/
def Primitives.fingerprint (c : Primitives) (body : Bytes) : Bytes := c.sha1 (hashedKey body)

end OpenPgp
end Mail
end Conest
