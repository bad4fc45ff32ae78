import Conest.Lib.Dart

/-!
# Reticulum identities

An identity is an X25519 key for encryption and an Ed25519 key for signatures; its hash names it.
What is encrypted to an identity is an ephemeral key and a token, under keys that both sides derive
from their shared secret. The token is an initialisation vector, a ciphertext and a tag over both.

The primitives are the fields of a `Primitives`, each with the length of what it gives. `Lawful` is
what is assumed of them: both sides derive the same secret, and what is encrypted is decrypted. What
the identity encrypts it decrypts then (`RnsIdentity.decrypt_encrypt`), and its length is that of
the plaintext up to a block, and 80 bytes (`length_encrypt`).
-/

namespace Conest
namespace Reticulum

open Lib List

def rnsTruncatedHashBytes : ℕ := 16

def rnsNameHashBytes : ℕ := 10

/-- Thirty-two bytes: a hash, a tag, or a key of one of the curves. -/
abbrev Bytes32 := { bytes : Bytes // bytes.length = 32 }

/-- The length of a ciphertext of AES in CBC mode: padding fills up the last block, or adds one. -/
def paddedLength (length : ℕ) : ℕ := (length / 16 + 1) * 16

/-- The primitives. `x25519Public` is the public key of a seed; `x25519Shared` takes a seed and the
public key of the other side. `aesEncrypt` and `aesDecrypt` take the key, the nonce and the text;
`ed25519Verify` takes the public key, the message and the signature. -/
structure Primitives where
  sha256 : Bytes → Bytes32
  hmacSha256 : Bytes → Bytes → Bytes32
  x25519Public : Bytes → Bytes32
  x25519Shared : Bytes → Bytes → Bytes
  aesEncrypt : Bytes → Bytes → Bytes → Bytes
  aesDecrypt : Bytes → Bytes → Bytes → Option Bytes
  ed25519Verify : Bytes → Bytes → Bytes → Bool

/-- What the primitives are documented to do. -/
structure Primitives.Lawful (c : Primitives) : Prop where
  shared : ∀ ours theirs, c.x25519Shared ours (c.x25519Public theirs).1 =
    c.x25519Shared theirs (c.x25519Public ours).1
  length_aesEncrypt : ∀ key nonce plaintext,
    (c.aesEncrypt key nonce plaintext).length = paddedLength plaintext.length
  aesDecrypt_aesEncrypt : ∀ key nonce plaintext,
    c.aesDecrypt key nonce (c.aesEncrypt key nonce plaintext) = some plaintext

variable (c : Primitives)

/-! ### Hashes -/

def rnsFullHash (data : Bytes) : Bytes := (c.sha256 data).1

def rnsTruncatedHash (data : Bytes) : Bytes := (rnsFullHash c data).take rnsTruncatedHashBytes

def rnsDestinationHash (nameHash identityHash : Bytes) : Bytes :=
  rnsTruncatedHash c (nameHash ++ identityHash)

theorem length_rnsTruncatedHash (data : Bytes) :
    (rnsTruncatedHash c data).length = rnsTruncatedHashBytes := by
  unfold rnsTruncatedHash rnsFullHash
  rw [length_take, (c.sha256 data).2]
  rfl

/-- The blocks of a derived key, as many as it takes. -/
def hkdfBlocks (length : ℕ) (prk : Bytes) (counter : ℕ) (block out : Bytes) : Bytes :=
  if out.length < length then
    let next := c.hmacSha256 prk (block ++ [UInt8.ofNat counter])
    hkdfBlocks length prk (counter + 1) next.1 (out ++ next.1)
  else out
termination_by length - out.length
decreasing_by
  have hnext := (c.hmacSha256 prk (block ++ [UInt8.ofNat counter])).2
  rw [List.length_append, hnext]
  omega

def rnsHkdf (length : ℕ) (input salt : Bytes) : Bytes :=
  let usedSalt := if salt.isEmpty then List.replicate 32 0 else salt
  (hkdfBlocks c length (c.hmacSha256 usedSalt input).1 1 [] []).take length

theorem le_length_hkdfBlocks (length : ℕ) (prk : Bytes) (counter : ℕ) (block out : Bytes) :
    length ≤ (hkdfBlocks c length prk counter block out).length := by
  fun_induction hkdfBlocks c length prk counter block out with
  | case1 counter block out hlt next ih => exact ih
  | case2 counter block out hle => exact Nat.not_lt.mp hle

theorem length_rnsHkdf (length : ℕ) (input salt : Bytes) :
    (rnsHkdf c length input salt).length = length := by
  unfold rnsHkdf
  rw [length_take]
  exact Nat.min_eq_left (le_length_hkdfBlocks c length _ 1 [] [])

/-! ### Tokens -/

/-- A token under sixty-four bytes of key. -/
structure RnsToken where
  key : Bytes
  length_key : key.length = 64

namespace RnsToken

variable (token : RnsToken)

def signingKey : Bytes := token.key.take 32

def encryptionKey : Bytes := token.key.drop 32

def encrypt (iv plaintext : Bytes) : Bytes :=
  let signed := iv ++ c.aesEncrypt token.encryptionKey iv plaintext
  signed ++ (c.hmacSha256 token.signingKey signed).1

/-- Fails where the source throws. -/
def decrypt (bytes : Bytes) : Option Bytes :=
  if bytes.length < 16 + 16 + 32 then none
  else
    let signed := bytes.take (bytes.length - 32)
    let mac := bytes.drop (bytes.length - 32)
    if (c.hmacSha256 token.signingKey signed).1 ≠ mac then none
    else c.aesDecrypt token.encryptionKey (signed.take 16) (signed.drop 16)

end RnsToken

/-! ### Identities -/

/-- The public keys, and the seeds they are made of where the identity is one's own. -/
structure RnsIdentity where
  publicKey : Bytes
  encryption : Option Bytes
  length_publicKey : publicKey.length = 64
  publicKey_take : ∀ seed ∈ encryption, publicKey.take 32 = (c.x25519Public seed).1

namespace RnsIdentity

variable {c} (identity : RnsIdentity c)

def hash : Bytes := rnsTruncatedHash c identity.publicKey

/-- Another's identity. -/
def fromPublicKey (publicKey : Bytes) : Option (RnsIdentity c) :=
  if h : publicKey.length = 64 then some ⟨publicKey, none, h, fun _ hnone => nomatch hnone⟩
  else none

/-- The key of the token that two sides share, with the identity's hash as the salt. -/
def tokenOf (shared : Bytes) : RnsToken :=
  ⟨rnsHkdf c 64 shared identity.hash, length_rnsHkdf c _ _ _⟩

def verify (message signature : Bytes) : Bool :=
  decide (signature.length = 64) &&
    c.ed25519Verify (identity.publicKey.drop 32) message signature

/-- `ephemeral` is the seed of the key that is made for this, and `iv` what is drawn. -/
def encrypt (ephemeral iv plaintext : Bytes) : Bytes :=
  let shared := c.x25519Shared ephemeral (identity.publicKey.take 32)
  (c.x25519Public ephemeral).1 ++ (identity.tokenOf shared).encrypt c iv plaintext

/-- The outer `none` is the error of an identity that cannot decrypt. -/
def decrypt (ciphertext : Bytes) : Option (Option Bytes) :=
  match identity.encryption with
  | none => none
  | some seed =>
    if ciphertext.length ≤ 32 + 16 + 32 then some none
    else
      let shared := c.x25519Shared seed (ciphertext.take 32)
      some ((identity.tokenOf shared).decrypt c (ciphertext.drop 32))

variable {identity} {ephemeral iv plaintext : Bytes}

theorem length_encrypt (hlaw : c.Lawful) (hiv : iv.length = 16) :
    (identity.encrypt ephemeral iv plaintext).length = 80 + paddedLength plaintext.length := by
  unfold encrypt RnsToken.encrypt
  simp only [length_append]
  rw [(c.x25519Public ephemeral).2, (c.hmacSha256 _ _).2, hlaw.length_aesEncrypt]
  omega

end RnsIdentity

theorem RnsToken.decrypt_encrypt {c : Primitives} (hlaw : c.Lawful) (token : RnsToken)
    {iv : Bytes} (plaintext : Bytes) (hiv : iv.length = 16) :
    token.decrypt c (token.encrypt c iv plaintext) = some plaintext := by
  have hcipher := hlaw.length_aesEncrypt token.encryptionKey iv plaintext
  have hblock : 16 ≤ paddedLength plaintext.length := by
    unfold paddedLength
    omega
  unfold RnsToken.encrypt RnsToken.decrypt
  -- the parts of a token
  set signed := iv ++ c.aesEncrypt token.encryptionKey iv plaintext with hsigned
  set mac := c.hmacSha256 token.signingKey signed
  have hlength : (signed ++ mac.1).length - 32 = signed.length := by
    rw [length_append]
    omega
  have hlong : ¬ (signed ++ mac.1).length < 16 + 16 + 32 := by
    rw [length_append, length_append]
    omega
  rw [if_neg hlong, hlength, take_left, drop_left]
  rw [if_neg (not_not.mpr rfl), take_left' hiv, drop_left' hiv]
  exact hlaw.aesDecrypt_aesEncrypt _ iv plaintext

/-- **What is encrypted to an identity it decrypts**, whatever the ephemeral key is. -/
theorem RnsIdentity.decrypt_encrypt {c : Primitives} (hlaw : c.Lawful)
    {recipient identity : RnsIdentity c} {seed ephemeral iv plaintext : Bytes}
    (hseed : identity.encryption = some seed) (hkey : recipient.publicKey = identity.publicKey)
    (hiv : iv.length = 16) :
    identity.decrypt (recipient.encrypt ephemeral iv plaintext) = some (some plaintext) := by
  have hlong : (recipient.encrypt ephemeral iv plaintext).length =
      80 + paddedLength plaintext.length := RnsIdentity.length_encrypt hlaw hiv
  have hfront := (c.x25519Public ephemeral).2
  have hhash : recipient.hash = identity.hash := by
    unfold RnsIdentity.hash
    rw [hkey]
  -- both sides derive the same key
  have htoken : identity.tokenOf (c.x25519Shared seed (c.x25519Public ephemeral).1) =
      recipient.tokenOf (c.x25519Shared ephemeral (recipient.publicKey.take 32)) := by
    unfold RnsIdentity.tokenOf
    simp[hhash, hkey, identity.publicKey_take seed hseed, hlaw.shared ephemeral seed]
  unfold RnsIdentity.decrypt
  rw [hseed]
  simp only
  rw [if_neg]
  swap
  · rw [hlong]
    unfold paddedLength
    omega
  unfold RnsIdentity.encrypt
  rw [take_left' hfront, drop_left' hfront, htoken]
  exact congrArg some (RnsToken.decrypt_encrypt hlaw _ plaintext hiv)

end Reticulum
end Conest
