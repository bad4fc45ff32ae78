import Conest.Lib.Dart

/-!
# Signed group events

A `GroupHistoryEvent` is what an author signs: its place in the author's own chain (`sequence`,
`previousEventId`), its Lamport time, the membership record under which it was written, a kind and
a JSON payload. A value of the type has passed `_validateBody` and the checks of `decode`, so the
facts they establish are fields; `payload_frozen` is that of `_freeze`, which `_canonical` applies
to the payload one level down.

Signatures are ideal: `Crypto.verifyEd25519Signature` says of an event whether its signature holds
for its own signing key, and `GroupHistoryEvent.verify` adds the comparison with what the caller
expects.
-/

namespace Conest
namespace Group

open Lib

/-- The largest integer that a JSON number carries exactly. -/
def groupEventMaxCounter : ℕ := 9007199254740991

inductive GroupEventKind where
  | message
  | edit
  | deletion
  | reaction
  | attachment
  | receipt
  | membership
deriving DecidableEq

/-- The name of a kind, as events carry it. -/
def GroupEventKind.name : GroupEventKind → DartString
  | .message => DartString.ofString "message"
  | .edit => DartString.ofString "edit"
  | .deletion => DartString.ofString "deletion"
  | .reaction => DartString.ofString "reaction"
  | .attachment => DartString.ofString "attachment"
  | .receipt => DartString.ofString "receipt"
  | .membership => DartString.ofString "membership"

/-! ### Payloads -/

/-- Put an entry at its place in a list sorted by key. -/
def insertEntry {V : Type} (key : DartString) (value : V) :
    List (DartString × V) → List (DartString × V)
  | [] => [(key, value)]
  | (k, v) :: rest =>
    if key < k then (key, value) :: (k, v) :: rest
    else if key = k then (key, value) :: rest
    else (k, v) :: insertEntry key value rest

/-- The entries in the order of their keys. -/
def sortByKey {V : Type} (entries : List (DartString × V)) : List (DartString × V) :=
  entries.foldl (fun sorted entry => insertEntry entry.1 entry.2 sorted) []

/-- The values of entries, up to the first that failed. -/
def collect : List (DartString × Except String Json) → Except String (List (DartString × Json))
  | [] => .ok []
  | (key, .ok value) :: rest => (collect rest).map ((key, value) :: ·)
  | (_, .error e) :: _ => .error e

mutual

/-- `_freeze`: bounded integers, at most 16 levels, and the keys of an object in order. -/
def freeze (value : Json) (depth : ℕ) : Except String Json :=
  if 16 < depth then .error "Group payload is too deep."
  else
    match value with
    | .null => .ok .null
    | .bool b => .ok (.bool b)
    | .str s => .ok (.str s)
    | .int n =>
      if n.natAbs ≤ groupEventMaxCounter then .ok (.int n)
      else .error "Group payload must use bounded JSON values."
    | .list elements => (freezeList elements (depth + 1)).map .list
    | .obj entries => (collect (sortByKey (freezeEntries entries (depth + 1)))).map .obj

def freezeList (elements : List Json) (depth : ℕ) : Except String (List Json) :=
  match elements with
  | [] => .ok []
  | value :: rest =>
    match freeze value depth with
    | .error e => .error e
    | .ok frozen => (freezeList rest depth).map (frozen :: ·)

def freezeEntries (entries : List (DartString × Json)) (depth : ℕ) :
    List (DartString × Except String Json) :=
  match entries with
  | [] => []
  | (key, value) :: rest => (key, freeze value depth) :: freezeEntries rest depth

end

/-! ### Events -/

/-- An identifier of a group, an account or a device, as `_validateBody` wants it. -/
def isIdentity (id : DartString) : Bool :=
  !id.isEmpty && decide (id.length ≤ 128) && id.trim == id

/-- An original author's proof. -/
structure GroupHistoryEvent where
  eventId : DartString
  groupId : DartString
  authorAccountId : DartString
  authorDeviceId : DartString
  signingPublicKeyBase64 : DartString
  sequence : ℕ
  previousEventId : Option DartString
  lamport : ℕ
  membershipId : DartString
  kind : GroupEventKind
  payload : List (DartString × Json)
  signatureBase64 : DartString
  eventId_digest : eventId.isDigest
  identities : isIdentity groupId ∧ isIdentity authorAccountId ∧ isIdentity authorDeviceId
  one_le_sequence : 1 ≤ sequence
  sequence_le_lamport : sequence ≤ lamport
  lamport_le : lamport ≤ groupEventMaxCounter
  previous : if sequence = 1 then previousEventId = none
    else (previousEventId.map DartString.isDigest) = some true
  membershipId_digest : membershipId.isDigest
  signingKey_length : (signingPublicKeyBase64.base64Decode.map List.length) = some 32
  signature_length : (signatureBase64.base64Decode.map List.length) = some 64
  payload_frozen : freeze (.obj payload) 1 = .ok (.obj payload)
deriving DecidableEq

/-- The primitives that sign and hash: the verification of an event's signature under its own
signing key, and the digest of a group identity with its owner's key. -/
structure Crypto where
  verifyEd25519Signature : GroupHistoryEvent → Bool
  rootReference : DartString → DartString → DartString

namespace GroupHistoryEvent

/-- The payload's entry for a key. -/
def payloadAt (event : GroupHistoryEvent) (key : DartString) : Option Json :=
  (event.payload.find? fun entry => entry.1 == key).map Prod.snd

/-- The payload's entry for a key, where it is a string. -/
def stringAt (event : GroupHistoryEvent) (key : String) : Option DartString :=
  (event.payloadAt (DartString.ofString key)).bind Json.asString?

/-- Whether the event is by the expected author and its signature holds. -/
def verify (crypto : Crypto) (event : GroupHistoryEvent)
    (expectedGroupId expectedAccountId expectedDeviceId expectedSigningKeyBase64 : DartString) :
    Bool :=
  if event.groupId ≠ expectedGroupId ∨ event.authorAccountId ≠ expectedAccountId ∨
      event.authorDeviceId ≠ expectedDeviceId ∨
      event.signingPublicKeyBase64 ≠ expectedSigningKeyBase64 then false
  else crypto.verifyEd25519Signature event

end GroupHistoryEvent

end Group
end Conest
