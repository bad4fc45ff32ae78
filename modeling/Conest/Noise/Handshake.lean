import Conest.Lib.BigEndian
import Conest.Lib.Outcome

/-!
# The Noise XX handshake

`NoiseXXHandshake` is one side of the handshake that two bitchat peers run before they write to each
other. Its three messages are `e`, then `e, ee, s, es`, then `s, se`; the side that writes the first
is the initiator. Keys, secrets, hashes and ciphers are those of the cryptography library, which is
a parameter here (`Primitives`).

`writeMessage` and `readMessage` change the handshake they are called on. Here they return the one
after the call, or what they throw. The messages so far are kept beside it in `transcript`, which
the source does not have: it keeps their hash.
-/

namespace Conest
namespace Noise

open Lib

/-! ### What the library provides -/

def keyBytes : ℕ := 32

def tagBytes : ℕ := 16

/-- The primitives of the cryptography library. -/
structure Primitives where
  /-- The public key of an X25519 private key. -/
  publicKey : Bytes → Bytes
  /-- The X25519 secret of a private key and a public one. -/
  sharedSecretKey : Bytes → Bytes → Bytes
  /-- SHA-256. -/
  hash : Bytes → Bytes
  /-- HMAC-SHA256 of some data with a key. -/
  calculateMac : Bytes → Bytes → Bytes
  /-- ChaCha20-Poly1305 of a plaintext with a key, a nonce and associated data. -/
  encrypt : Bytes → Bytes → Bytes → Bytes → Bytes × Bytes
  /-- Its inverse on a ciphertext and a mac, `none` where the mac does not match. -/
  decrypt : Bytes → Bytes → Bytes → Bytes → Bytes → Option Bytes

/-- What the handshake throws. -/
inductive NoiseError where
  | format (message : String)
  | state (message : String)
  | nullCheck
deriving DecidableEq

variable (p : Primitives)

/-! ### Ciphers -/

/-- A key, if there is one yet, and the nonce of its next use. -/
structure NoiseCipherState where
  key : Option Bytes
  nonce : ℕ
deriving DecidableEq

/-- Four zeros, then the value from its least byte on. -/
def nonceBytes (value : ℕ) : Bytes := List.replicate 4 0 ++ (bigEndian 8 value).reverse

namespace NoiseCipherState

def encryptWithAd (c : NoiseCipherState) (ad plaintext : Bytes) : Bytes × NoiseCipherState :=
  match c.key with
  | none => (plaintext, c)
  | some key =>
    let box := p.encrypt plaintext key (nonceBytes c.nonce) ad
    (box.1 ++ box.2, { c with nonce := c.nonce + 1 })

def decryptWithAd (c : NoiseCipherState) (ad ciphertext : Bytes) :
    Except NoiseError (Bytes × NoiseCipherState) :=
  match c.key with
  | none => .ok (ciphertext, c)
  | some key =>
    if ciphertext.length < tagBytes then .error (.format "Noise message too short.")
    else
      let split := ciphertext.length - tagBytes
      match p.decrypt (ciphertext.take split) (ciphertext.drop split) key (nonceBytes c.nonce)
        ad with
      | none => .error (.format "Noise message failed authentication.")
      | some plaintext => .ok (plaintext, { c with nonce := c.nonce + 1 })

/-- Encrypts with the nonce given. The state keeps the nonce after it, which nothing reads: each use
of a transport cipher sets its own first. -/
def encryptAt (c : NoiseCipherState) (nonce : ℕ) (plaintext : Bytes) : Bytes :=
  (({ c with nonce } : NoiseCipherState).encryptWithAd p [] plaintext).1

def decryptAt (c : NoiseCipherState) (nonce : ℕ) (ciphertext : Bytes) : Except NoiseError Bytes :=
  match ({ c with nonce } : NoiseCipherState).decryptWithAd p [] ciphertext with
  | .ok (plaintext, _) => .ok plaintext
  | .error e => .error e

end NoiseCipherState

/-! ### The symmetric state -/

/-- Noise's HKDF with two outputs, which is all that the handshake asks for. -/
def hkdf (chainingKey input : Bytes) : Bytes × Bytes :=
  let temp := p.calculateMac input chainingKey
  let first := p.calculateMac [1] temp
  (first, p.calculateMac (first ++ [2]) temp)

structure SymmetricState where
  h : Bytes
  ck : Bytes
  cipher : NoiseCipherState
deriving DecidableEq

/-- `Noise_XX_25519_ChaChaPoly_SHA256` in UTF-8. -/
def bitchatNoiseProtocol : Bytes := "Noise_XX_25519_ChaChaPoly_SHA256".toUTF8.toList

namespace SymmetricState

/-- A name of up to 32 bytes is used as it is, with zeros behind it. -/
def initialized (name : Bytes) : SymmetricState :=
  let h := if name.length ≤ 32 then name ++ List.replicate (32 - name.length) 0 else p.hash name
  ⟨h, h, ⟨none, 0⟩⟩

def mixHash (s : SymmetricState) (data : Bytes) : SymmetricState :=
  { s with h := p.hash (s.h ++ data) }

def mixKey (s : SymmetricState) (input : Bytes) : SymmetricState :=
  let outputs := hkdf p s.ck input
  { s with ck := outputs.1, cipher := ⟨some outputs.2, 0⟩ }

def encryptAndHash (s : SymmetricState) (plaintext : Bytes) : Bytes × SymmetricState :=
  let (ciphertext, cipher) := s.cipher.encryptWithAd p s.h plaintext
  (ciphertext, ({ s with cipher } : SymmetricState).mixHash p ciphertext)

def decryptAndHash (s : SymmetricState) (ciphertext : Bytes) :
    Except NoiseError (Bytes × SymmetricState) := do
  let (plaintext, cipher) ← s.cipher.decryptWithAd p s.h ciphertext
  return (plaintext, ({ s with cipher } : SymmetricState).mixHash p ciphertext)

def split (s : SymmetricState) : NoiseCipherState × NoiseCipherState :=
  let outputs := hkdf p s.ck []
  (⟨some outputs.1, 0⟩, ⟨some outputs.2, 0⟩)

end SymmetricState

/-! ### The handshake -/

/-- One side of a handshake. -/
structure NoiseXXHandshake where
  initiator : Bool
  static : Bytes
  symmetric : SymmetricState
  ephemeral : Option Bytes
  remoteEphemeral : Option Bytes
  remoteStatic : Option Bytes
  step : ℕ
  send : Option NoiseCipherState
  receive : Option NoiseCipherState
  transcript : List Bytes
deriving DecidableEq

namespace NoiseXXHandshake

/-- A handshake that has not begun, with an empty prologue. -/
def start (initiator : Bool) (staticSeed : Bytes) : NoiseXXHandshake where
  initiator
  static := staticSeed
  symmetric := (SymmetricState.initialized p bitchatNoiseProtocol).mixHash p []
  ephemeral := none
  remoteEphemeral := none
  remoteStatic := none
  step := 0
  send := none
  receive := none
  transcript := []

def complete (hs : NoiseXXHandshake) : Bool := hs.send.isSome

/-- Whether this side writes the next message. -/
def writesNext (hs : NoiseXXHandshake) : Bool :=
  !hs.complete && (decide (hs.step % 2 = 0) == hs.initiator)

/-- The secret of a private and a public key; a weak public key makes it zero. -/
def dh (key remote : Option Bytes) : Except NoiseError Bytes :=
  match key, remote with
  | some key, some remote =>
    let bytes := p.sharedSecretKey key remote
    if bytes.all fun byte => decide (byte = 0) then .error (.format "Weak Noise public key.")
    else .ok bytes
  | _, _ => .error .nullCheck

/-- After the third message the ciphers are ready. The initiator sends with the first. -/
def advance (hs : NoiseXXHandshake) : NoiseXXHandshake :=
  if hs.step + 1 < 3 then { hs with step := hs.step + 1 }
  else
    let (first, second) := hs.symmetric.split p
    { hs with
      step := hs.step + 1
      send := some (if hs.initiator then first else second)
      receive := some (if hs.initiator then second else first) }

/-- The tokens of the next message, with a fresh ephemeral key for those that need one. -/
def writeTokens (hs : NoiseXXHandshake) (fresh : Bytes) :
    Except NoiseError (Bytes × NoiseXXHandshake) :=
  match hs.step with
  | 0 =>
    let e := p.publicKey fresh
    .ok (e, { hs with ephemeral := some fresh, symmetric := hs.symmetric.mixHash p e })
  | 1 => do
    let e := p.publicKey fresh
    let symmetric := hs.symmetric.mixHash p e
    let symmetric := symmetric.mixKey p (← dh p (some fresh) hs.remoteEphemeral)
    let sealed := symmetric.encryptAndHash p (p.publicKey hs.static)
    let symmetric := sealed.2.mixKey p (← dh p (some hs.static) hs.remoteEphemeral)
    return (e ++ sealed.1, { hs with ephemeral := some fresh, symmetric })
  | 2 => do
    let sealed := hs.symmetric.encryptAndHash p (p.publicKey hs.static)
    let symmetric := sealed.2.mixKey p (← dh p (some hs.static) hs.remoteEphemeral)
    return (sealed.1, { hs with symmetric })
  | _ => .ok ([], hs)

/-- Writes the next message. -/
def writeMessage (hs : NoiseXXHandshake) (fresh payload : Bytes) :
    Except NoiseError (Bytes × NoiseXXHandshake) :=
  if hs.writesNext = false then .error (.state "Not this side's turn.")
  else do
    let (tokens, next) ← hs.writeTokens p fresh
    let sealed := next.symmetric.encryptAndHash p payload
    let message := tokens ++ sealed.1
    return (message, { ({ next with symmetric := sealed.2 } : NoiseXXHandshake).advance p with
      transcript := hs.transcript ++ [message] })

/-- The first bytes of a message, and the rest. -/
def take (message : Bytes) (count : ℕ) : Except NoiseError (Bytes × Bytes) :=
  if message.length < count then .error (.format "Noise handshake message too short.")
  else .ok (message.take count, message.drop count)

/-- The tokens of the other side's message; returns the rest of it. -/
def readTokens (hs : NoiseXXHandshake) (message : Bytes) :
    Except NoiseError (Bytes × NoiseXXHandshake) :=
  match hs.step with
  | 0 => do
    let (e, rest) ← take message keyBytes
    return (rest, { hs with remoteEphemeral := some e, symmetric := hs.symmetric.mixHash p e })
  | 1 => do
    let (e, rest) ← take message keyBytes
    let symmetric := hs.symmetric.mixHash p e
    let symmetric := symmetric.mixKey p (← dh p hs.ephemeral (some e))
    let (sealed, rest) ← take rest (keyBytes + tagBytes)
    let (s, symmetric) ← symmetric.decryptAndHash p sealed
    let symmetric := symmetric.mixKey p (← dh p hs.ephemeral (some s))
    return (rest, { hs with remoteEphemeral := some e, remoteStatic := some s, symmetric })
  | 2 => do
    let (sealed, rest) ← take message (keyBytes + tagBytes)
    let (s, symmetric) ← hs.symmetric.decryptAndHash p sealed
    let symmetric := symmetric.mixKey p (← dh p hs.ephemeral (some s))
    return (rest, { hs with remoteStatic := some s, symmetric })
  | _ => .ok (message, hs)

/-- Reads the other side's next message; returns its payload. -/
def readMessage (hs : NoiseXXHandshake) (message : Bytes) :
    Except NoiseError (Bytes × NoiseXXHandshake) :=
  if hs.complete ∨ hs.writesNext then .error (.state "Not the peer's turn.")
  else do
    let (rest, next) ← hs.readTokens p message
    let (payload, symmetric) ← next.symmetric.decryptAndHash p rest
    return (payload, { ({ next with symmetric } : NoiseXXHandshake).advance p with
      transcript := hs.transcript ++ [message] })

end NoiseXXHandshake

end Noise
end Conest
