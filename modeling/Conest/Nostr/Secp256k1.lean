import Conest.Lib.BigEndian
import Conest.Lib.Primality

/-!
# secp256k1, as it is computed

Points in Jacobian coordinates, keys, key agreement and the signatures of BIP-340. Coordinates are
integers modulo `p`, of which the source takes the remainder after each operation; scalars are
natural numbers. What throws is none. SHA-256 is that of the library.
-/

namespace Conest
namespace Nostr
namespace Secp256k1

open Lib

def p : ℕ := 0xfffffffffffffffffffffffffffffffffffffffffffffffffffffffefffffc2f

def n : ℕ := 0xfffffffffffffffffffffffffffffffebaaedce6af48a03bbfd25e8cd0364141

/-- `_Point`. -/
structure Point where
  x : ℤ
  y : ℤ
  z : ℤ
deriving DecidableEq

def g : Point where
  x := 0x79be667ef9dcbbac55a06295ce870b07029bfcdb2dce28d959f2815b16f81798
  y := 0x483ada7726a3c4655da4fbfc0e1108a8fd17b448a68554199c47d08ffb10d4b8
  z := 1

def sqrtExponent : ℕ := (p + 1) >>> 2

namespace Point

def infinity : Point := ⟨1, 1, 0⟩

def isInfinity (a : Point) : Bool := decide (a.z = 0)

/-- `modInverse`, none where there is no inverse. -/
def modInverse (z : ℤ) : Option ℤ :=
  if Int.gcd z p = 1 then some (Int.gcdA z p % p) else none

/-- The point with `z = 1`. -/
def affine (a : Point) : Option Point :=
  (modInverse a.z).map fun (zInv : ℤ) =>
    let zInv2 := zInv * zInv % p
    ⟨a.x * zInv2 % p, a.y * zInv2 * zInv % p, 1⟩

end Point

/-! ### Arithmetic of points -/

def double (a : Point) : Point :=
  if a.isInfinity ∨ a.y = 0 then Point.infinity
  else
    let ysq := a.y * a.y % p
    let s := 4 * a.x * ysq % p
    let m := 3 * a.x * a.x % p
    let x := (m * m - 2 * s) % p
    let y := (m * (s - x) - 8 * ysq * ysq) % p
    let z := 2 * a.y * a.z % p
    ⟨x, y, z⟩

def add (a b : Point) : Point :=
  if a.isInfinity then b
  else if b.isInfinity then a
  else
    let z1z1 := a.z * a.z % p
    let z2z2 := b.z * b.z % p
    let u1 := a.x * z2z2 % p
    let u2 := b.x * z1z1 % p
    let s1 := a.y * b.z * z2z2 % p
    let s2 := b.y * a.z * z1z1 % p
    if u1 = u2 then
      if s1 = s2 then double a else Point.infinity
    else
      let h := (u2 - u1) % p
      let r := (s2 - s1) % p
      let h2 := h * h % p
      let h3 := h * h2 % p
      let u1h2 := u1 * h2 % p
      let x := (r * r - h3 - 2 * u1h2) % p
      let y := (r * (u1h2 - x) - s1 * h3) % p
      let z := h * a.z * b.z % p
      ⟨x, y, z⟩

/-- The loop of `mul`, over the bits of what is left of the scalar. -/
def mulLoop : ℕ → Point → Point → ℕ → Point
  | 0, result, _, _ => result
  | fuel + 1, result, addend, k =>
    if k = 0 then result
    else
      mulLoop fuel (if k % 2 = 1 then add result addend else result) (double addend) (k >>> 1)

/-- A scalar has `log2 + 1` bits: fuel enough. -/
def mul (point : Point) (scalar : ℕ) : Point :=
  mulLoop (scalar.log2 + 1) Point.infinity point scalar

/-! ### Bytes -/

def toInt (bytes : Bytes) : ℕ :=
  bytes.foldl (fun result byte => (result <<< 8) ||| byte.toNat) 0

/-- The low 32 bytes. -/
def toBytes (value : ℤ) : Bytes := bigEndian 32 value.toNat

/-! ### Keys and signatures -/

def secretScalar (secretKey : Bytes) : Option ℕ :=
  if secretKey.length ≠ 32 then none
  else
    let d := toInt secretKey
    if d = 0 ∨ d ≥ n then none else some d

/-- The point with an even `y` and this `x`. -/
def liftX (x : ℕ) : Option Point :=
  if x ≥ p then none
  else
    let c := (modPow x 3 p + 7) % p
    let y := modPow c sqrtExponent p
    if modPow y 2 p ≠ c then none
    else some ⟨x, if y % 2 = 0 then y else p - y, 1⟩

def publicKey (secretKey : Bytes) : Option Bytes := do
  let d ← secretScalar secretKey
  let point ← (mul g d).affine
  pure (toBytes point.x)

def sharedX (secretKey publicKey : Bytes) : Option Bytes := do
  let d ← secretScalar secretKey
  let point ← liftX (toInt publicKey)
  let shared ← (mul point d).affine
  pure (toBytes shared.x)

def isValidPublicKey (publicKey : Bytes) : Bool :=
  decide (publicKey.length = 32) && (liftX (toInt publicKey)).isSome

variable (sha256 : Bytes → Bytes)

def taggedHash (tag : String) (message : Bytes) : Bytes :=
  let tagHash := sha256 (tag.toList.map fun c => UInt8.ofNat c.toNat)
  sha256 (tagHash ++ tagHash ++ message)

/-- `aux` is the randomness, given or drawn. -/
def sign (message secretKey aux : Bytes) : Option Bytes := do
  let d0 ← secretScalar secretKey
  let point ← (mul g d0).affine
  let d := if point.y % 2 = 0 then d0 else n - d0
  let masked := toBytes (d ^^^ toInt (taggedHash sha256 "BIP0340/aux" aux) : ℕ)
  let pBytes := toBytes point.x
  let k0 := toInt (taggedHash sha256 "BIP0340/nonce" (masked ++ pBytes ++ message)) % n
  if k0 = 0 then none
  else
    let r ← (mul g k0).affine
    let k := if r.y % 2 = 0 then k0 else n - k0
    let rBytes := toBytes r.x
    let e := toInt (taggedHash sha256 "BIP0340/challenge" (rBytes ++ pBytes ++ message)) % n
    pure (rBytes ++ toBytes ((k + e * d) % n : ℕ))

def verify (message publicKey signature : Bytes) : Bool :=
  if publicKey.length ≠ 32 ∨ signature.length ≠ 64 then false
  else
    match liftX (toInt publicKey) with
    | none => false
    | some point =>
      let r := toInt (signature.take 32)
      let s := toInt (signature.drop 32)
      if r ≥ p ∨ s ≥ n then false
      else
        let e := toInt (taggedHash sha256 "BIP0340/challenge"
          (signature.take 32 ++ publicKey ++ message)) % n
        let result := add (mul g s) (mul point (n - e))
        if result.isInfinity then false
        else
          match result.affine with
          | none => false
          | some affine => decide (affine.y % 2 = 0) && decide (affine.x = r)

end Secp256k1
end Nostr
end Conest
