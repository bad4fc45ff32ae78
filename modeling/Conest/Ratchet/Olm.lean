import Conest.Lib.Dart

/-!
# The operations on Olm pickles

`conest_native` wraps the Olm implementation of vodozemac in stateless operations: each takes the
account or session it needs and returns the updated one. vodozemac itself is a parameter here
(`Vodozemac`). Its accounts and sessions are the types `Account` and `Session`, of which the program
sees only pickles; what draws random bytes takes them as an argument.

What the proofs ask of vodozemac is stated at the end: a session keeps its identifier and never comes
back to a state that it has left (`Vodozemac.Lawful`), and it opens no message that it has consumed
(`Vodozemac.Consumes`).
-/

namespace Conest
namespace Ratchet

open Lib

/-- The random bytes that an operation may draw. -/
abbrev Entropy := ℕ → UInt8

/-- A peer's published keys. -/
structure RatchetBundle where
  identityKey : DartString
  fallbackKey : DartString
  oneTimeKey : Option DartString
deriving DecidableEq

/-- The key that opens a session: the one-time key where there is one. -/
def RatchetBundle.sessionKey (bundle : RatchetBundle) : DartString :=
  bundle.oneTimeKey.getD bundle.fallbackKey

/-- A message with its type: 0 opens a session, 1 continues one. -/
structure RatchetMessage where
  type : ℤ
  ciphertext : Bytes
deriving DecidableEq

def RatchetMessage.opensSession (message : RatchetMessage) : Bool := decide (message.type = 0)

inductive OlmMessage where
  | preKey (ciphertext : Bytes)
  | normal (ciphertext : Bytes)
deriving DecidableEq

/-- `OlmMessage::to_parts`. -/
def OlmMessage.toParts : OlmMessage → RatchetMessage
  | .preKey ciphertext => ⟨0, ciphertext⟩
  | .normal ciphertext => ⟨1, ciphertext⟩

/-- vodozemac. An inbound session comes with the account that has dropped the one-time key and with
the first plaintext. -/
structure Vodozemac (Account Session : Type) where
  newAccount : Entropy → Account
  identityKey : Account → DartString
  fallbackKey : Account → Option DartString
  generateFallbackKey : Entropy → Account → Account
  generateOneTimeKeys : Entropy → Account → Account × Option DartString
  createOutboundSession : Entropy → Account → DartString → DartString → Except String Session
  createInboundSession : Account → DartString → Bytes → Except String (Account × Session × Bytes)
  sessionId : Session → DartString
  encrypt : Entropy → Session → Bytes → Except String (Session × OlmMessage)
  decrypt : Session → OlmMessage → Except String (Session × Bytes)

/-- The most bytes of one plaintext. -/
def maxPlaintextBytes : ℕ := 2 * 1024 * 1024 - 64 * 1024

/-- The message of a request. A type that is not a natural number reads as a missing field. -/
def message (request : RatchetMessage) : Except String OlmMessage :=
  if request.type = 0 then .ok (.preKey request.ciphertext)
  else if request.type = 1 then .ok (.normal request.ciphertext)
  else if request.type < 0 then .error "missing ratchet field messageType"
  else .error "unknown message type"

namespace Vodozemac

variable {Account Session : Type} (olm : Vodozemac Account Session)

def currentFallbackKey (account : Account) : Except String DartString :=
  match olm.fallbackKey account with
  | some key => .ok key
  | none => .error "the ratchet account has no fallback key"

/-- The operation `bundle`: a fallback key is generated if there is none, and a one-time key if the
request asks for one. -/
def bundle (entropy : Entropy) (account : Account) (oneTimeKey : Bool) :
    Except String (Account × RatchetBundle) := do
  let account :=
    if (olm.fallbackKey account).isNone then olm.generateFallbackKey entropy account else account
  let fallbackKey ← olm.currentFallbackKey account
  if oneTimeKey then
    -- the bytes after those of the fallback key
    match olm.generateOneTimeKeys (fun n => entropy (n + 32)) account with
    | (account, some key) => return (account, ⟨olm.identityKey account, fallbackKey, some key⟩)
    | (_, none) => throw "no one-time key was generated"
  else return (account, ⟨olm.identityKey account, fallbackKey, none⟩)

/-- The operation `rotate_fallback`. -/
def rotateFallback (entropy : Entropy) (account : Account) :
    Except String (Account × DartString) := do
  let account := olm.generateFallbackKey entropy account
  return (account, ← olm.currentFallbackKey account)

/-- The operation `outbound`. -/
def outbound (entropy : Entropy) (account : Account) (peerIdentityKey peerOneTimeKey : DartString) :
    Except String Session :=
  olm.createOutboundSession entropy account peerIdentityKey peerOneTimeKey

/-- The operation `encrypt`. -/
def encryptWith (entropy : Entropy) (session : Session) (plaintext : Bytes) :
    Except String (Session × RatchetMessage) := do
  if plaintext.length ≤ maxPlaintextBytes then
    let (session, message) ← olm.encrypt entropy session plaintext
    return (session, message.toParts)
  else throw "ratchet plaintext is too large"

/-- The operation `decrypt`. -/
def decryptWith (session : Session) (request : RatchetMessage) :
    Except String (Session × Bytes) := do
  olm.decrypt session (← message request)

/-- The operation `inbound`. -/
def inbound (account : Account) (peerIdentityKey : DartString) (request : RatchetMessage) :
    Except String (Account × Session × Bytes) := do
  match ← message request with
  | .preKey ciphertext => olm.createInboundSession account peerIdentityKey ciphertext
  | .normal _ => throw "only a pre-key message can open a session"

/-! ### What is asked of vodozemac -/

/-- One turn of the ratchet, by an encryption or a decryption. -/
def Turn (session next : Session) : Prop :=
  (∃ entropy plaintext message, olm.encryptWith entropy session plaintext = .ok (next, message)) ∨
    ∃ request plaintext, olm.decryptWith session request = .ok (next, plaintext)

/-- A ratchet keeps its identifier and turns only forward. -/
structure Lawful : Prop where
  sessionId_turn : ∀ session next, olm.Turn session next →
    olm.sessionId next = olm.sessionId session
  forward : ∀ session, ¬ Relation.TransGen olm.Turn session session

/-- Whether a session, and whatever it turns into, cannot open a message. -/
def Refuses (session : Session) (request : RatchetMessage) : Prop :=
  ∀ next, Relation.ReflTransGen olm.Turn session next →
    ∀ result, olm.decryptWith next request ≠ .ok result

/-- A message key is used once, and a message that opens a session belongs to one session, which
`sessionOf` reads off its header. -/
structure Consumes (sessionOf : RatchetMessage → DartString) : Prop where
  decrypted : ∀ session next request plaintext,
    olm.decryptWith session request = .ok (next, plaintext) → olm.Refuses next request
  opened : ∀ account identity request updated session plaintext,
    olm.inbound account identity request = .ok (updated, session, plaintext) →
      olm.Refuses session request
  decrypted_session : ∀ session next request plaintext, request.opensSession = true →
    olm.decryptWith session request = .ok (next, plaintext) →
      sessionOf request = olm.sessionId session
  opened_session : ∀ account identity request updated session plaintext,
    olm.inbound account identity request = .ok (updated, session, plaintext) →
      sessionOf request = olm.sessionId session

theorem Refuses.turn {olm : Vodozemac Account Session} {session next : Session}
    {request : RatchetMessage} (h : olm.Refuses session request) (hturn : olm.Turn session next) :
    olm.Refuses next request :=
  fun later hlater => h later (Relation.ReflTransGen.head hturn hlater)

end Vodozemac

end Ratchet
end Conest
