import Conest.Lib.Sorted
import Conest.Lib.Utf8
import Conest.Mail.Packets
import Conest.Mail.Signature

/-!
# OpenPGP keys

`PgpPublicKey.parse` reads the key someone sends, keeping what its own signatures vouch for: the
primary key, the user ids it certifies (`readComponent`) and the newest subkey that it binds and
that can be used (`chooseSubkey`). What it keeps is a key again, which is stored and read again.

Each signature costs a check, and a key has a budget of them. `List.sort` promises nothing about
equal elements, so the sort is a parameter. A budget that is shared by the keys of one mail is left
out.
-/

namespace Conest
namespace Mail
namespace OpenPgp

open Lib

/-- Largest OpenPGP key read. -/
def maxKeyBytes : ℕ := 64 * 1024

def maxComponents : ℕ := 8
def maxUserIdBytes : ℕ := 256
def maxSubkeysChecked : ℕ := 2
def maxSignaturesEach : ℕ := 4
def maxChecksPerKey : ℕ := 12

/-- What is read of the primary key: its packet's body, when it was made, and the key that signs. -/
structure Primary where
  body : Bytes
  created : ℕ
  signingKey : Bytes
  deriving DecidableEq

/-- The first packet has to be an Ed25519 key. -/
def Primary.read : List (ℕ × Bytes) → Except Refusal Primary
  | (6, body) :: _ =>
    match KeyMaterial.read body with
    | .error refusal => .error refusal
    | .ok material =>
      if material.algorithm ≠ eddsaLegacy then .error .notEd25519
      else material.eddsaKey.map fun signingKey => { body, created := material.created, signingKey }
  | _ => .error .notPublicKey

/-- The signatures in front, and the other packets, each with the signatures that follow it. -/
def gather : List (ℕ × Bytes) → List Bytes × List ((ℕ × Bytes) × List Bytes)
  | [] => ([], [])
  | packet :: packets =>
    let (signatures, components) := gather packets
    if packet.1 = 2 then (packet.2 :: signatures, components)
    else ([], (packet, signatures) :: components)

/-- A packet with the signatures after it, those of them that can be read. -/
structure Component where
  tag : ℕ
  body : Bytes
  signatures : List Signature

def components (packets : List (ℕ × Bytes)) : List Component :=
  (gather packets).2.map fun c =>
    { tag := c.1.1, body := c.1.2, signatures := c.2.filterMap Signature.tryRead }

/-- A subkey that is read but not checked: `own` are the signatures that may bind or revoke it. -/
structure Subkey where
  body : Bytes
  cv25519 : Bytes × UInt8
  created : ℕ
  own : List Signature

/-- A key that is being read at some moment. -/
structure Reading where
  primitives : Primitives
  sorting : Sorted.Descending
  primary : Primary
  now : ℤ

/-- The variables of the loop over the packets. `checks` is what is left of the budget. -/
structure Progress where
  checks : ℕ
  userIdCount : ℕ
  userIds : List DartString
  kept : Bytes
  preferences : Bytes
  preferenceTime : ℤ
  keyExpires : ℕ
  subkeys : List Subkey

namespace Reading

variable (r : Reading)

def fingerprint : Bytes := r.primitives.fingerprint r.primary.body

def keyMaterial : Bytes := hashedKey r.primary.body

def verify (parts : List Bytes) (signature : Signature) : Bool :=
  signature.verify r.primitives r.primary.signingKey parts r.fingerprint r.now

/-- Signatures that may be the key's own, newest first, a few at most. -/
def own (types : List UInt8) (signatures : List Signature) : List Signature :=
  (r.sorting.sort Signature.created (signatures.filter fun signature =>
    signature.type ∈ types ∧ signature.mayBeFrom r.fingerprint)).take maxSignaturesEach

/-- Check signatures until one is good. It gives that one, and what is left of the budget. -/
def firstGood (parts : List Bytes) : ℕ → List Signature → Except Refusal (Option Signature × ℕ)
  | checks, [] => .ok (none, checks)
  | 0, _ :: _ => .error .tooManySignatures
  | checks + 1, signature :: signatures =>
    if r.verify parts signature then .ok (some signature, checks)
    else firstGood parts checks signatures

/-- The signatures straight after the key: two revocations at most are checked. -/
def checkRevocations : ℕ → ℕ → List Bytes → Except Refusal ℕ
  | checks, _, [] => .ok checks
  | checks, revocationChecks, body :: bodies =>
    match Signature.tryRead body with
    | none => checkRevocations checks revocationChecks bodies
    | some signature =>
      if signature.type = 0x20 ∧ signature.mayBeFrom r.fingerprint then
        if revocationChecks + 1 ≤ 2 then
          match checks with
          | 0 => .error .tooManySignatures
          | checks + 1 =>
            if r.verify [r.keyMaterial] signature then .error .revoked
            else checkRevocations checks (revocationChecks + 1) bodies
        else checkRevocations checks (revocationChecks + 1) bodies
      else checkRevocations checks revocationChecks bodies

def certificationTypes : List UInt8 := [0x10, 0x11, 0x12, 0x13]

def bindingTypes : List UInt8 := [0x18, 0x28]

/-- What a certificate of a user id is about. -/
def userIdParts (body : Bytes) : List Bytes :=
  [r.keyMaterial, 0xb4 :: (bigEndian 4 body.length ++ body)]

end Reading

namespace Signature

variable (signature : Signature)

/-- The symmetric ciphers asked for, most preferred first. -/
def preferences : Bytes := (signature.hashed? 11).getD []

/-- How long the key lasts, in seconds; zero is for ever. -/
def keyExpires : ℕ := (signature.number? 9).getD 0

/-- Some key flags are given, and none is to encrypt. -/
def forbidsEncryption : Bool :=
  match signature.hashed? 27 with
  | some (flags :: _) => flags &&& 0x0c = 0
  | _ => false

end Signature

/-- What was made at a time and lasts so many seconds is over. -/
def isOver (created lasts : ℕ) (now : ℤ) : Prop := lasts ≠ 0 ∧ (created + lasts : ℤ) ≤ seconds now

instance (created lasts : ℕ) (now : ℤ) : Decidable (isOver created lasts now) :=
  inferInstanceAs (Decidable (_ ∧ _))

/-- A user id with the newest of its certificates that are good. -/
def Progress.certify (s : Progress) (body : Bytes) (best : Signature) : Progress :=
  { s with
    userIds := s.userIds ++ [DartString.utf8DecodeMalformed body]
    -- the kept key carries one user id: it is what gets stored
    kept := if s.userIds = [] then s.kept ++ packet 13 body ++ packet 2 best.raw else s.kept
    preferenceTime := if s.preferenceTime < best.created then best.created else s.preferenceTime
    preferences := if s.preferenceTime < best.created then best.preferences else s.preferences
    keyExpires := if s.preferenceTime < best.created then best.keyExpires else s.keyExpires }

namespace Reading

variable (r : Reading)

/-- A subkey is collected; reading one costs nothing. -/
def subkey? (component : Component) : Option Subkey :=
  match KeyMaterial.tryRead component.body with
  | none => none
  | some material =>
    if material.algorithm ≠ ecdh then none
    else material.cv25519Key.map fun cv25519 =>
      { body := component.body, cv25519, created := material.created,
        own := r.own bindingTypes component.signatures }

/-- One packet with its signatures. Attributes, trust and unknown packets are left out. -/
def readComponent (s : Progress) (component : Component) : Except Refusal Progress :=
  if component.tag = 13 then
    -- long user ids (and many) are not read: keys are stored
    if maxUserIdBytes < component.body.length then .ok s
    else
      let s := { s with userIdCount := s.userIdCount + 1 }
      if maxComponents < s.userIdCount then .ok s
      else
        match r.firstGood (r.userIdParts component.body) s.checks
            (r.own certificationTypes component.signatures) with
        | .error refusal => .error refusal
        | .ok (none, checks) => .ok { s with checks }
        | .ok (some best, checks) => .ok ({ s with checks }.certify component.body best)
  else if component.tag = 14 then
    .ok { s with subkeys := s.subkeys ++ (r.subkey? component).toList }
  else .ok s

/-- A subkey with its good binding can be used. -/
def usable (subkey : Subkey) (binding : Signature) : Bool :=
  binding.type = 0x18 ∧ binding.forbidsEncryption = false ∧
    ¬ isOver subkey.created binding.keyExpires r.now

/-- What a binding of a subkey is about. -/
def subkeyParts (subkey : Subkey) : List Bytes := [r.keyMaterial, hashedKey subkey.body]

/-- The first subkey that can be used. A revocation newer than any binding ends a subkey. -/
def chooseSubkey : ℕ → List Subkey → Except Refusal (Option (Subkey × Signature))
  | _, [] => .ok none
  | checks, subkey :: subkeys =>
    match r.firstGood (r.subkeyParts subkey) checks subkey.own with
    | .error refusal => .error refusal
    | .ok (none, checks) => chooseSubkey checks subkeys
    | .ok (some binding, checks) =>
      if r.usable subkey binding then .ok (some (subkey, binding))
      else chooseSubkey checks subkeys

end Reading

/-- `PgpEncryptionSubkey`. -/
structure EncryptionSubkey where
  body : Bytes
  fingerprint : Bytes
  publicKey : Bytes
  wrapCipher : UInt8
  deriving DecidableEq

/-- `PgpPublicKey`. -/
structure PgpPublicKey where
  bytes : Bytes
  body : Bytes
  fingerprint : Bytes
  signingKey : Bytes
  userIds : List DartString
  encryptionSubkey : EncryptionSubkey
  symmetricPreferences : Bytes
  deriving DecidableEq

/-- Where the loop over the packets begins. -/
def Progress.start (primary : Primary) (checks : ℕ) : Progress where
  checks := checks
  userIdCount := 0
  userIds := []
  kept := packet 6 primary.body
  preferences := []
  preferenceTime := -1
  keyExpires := 0
  subkeys := []

namespace Reading

variable (r : Reading)

/-- After the loop: the subkey is chosen, and the key is put together. -/
def finish (s : Progress) : Except Refusal PgpPublicKey :=
  match r.chooseSubkey s.checks
    ((r.sorting.sort Subkey.created s.subkeys).take maxSubkeysChecked) with
  | .error refusal => .error refusal
  | .ok chosen =>
    if s.userIds = [] then .error .noUserId
    else if isOver r.primary.created s.keyExpires r.now then .error .expired
    else
      match chosen with
      | none => .error .noEncryptionKey
      | some (subkey, binding) => .ok {
          bytes := s.kept ++ packet 14 subkey.body ++ packet 2 binding.raw
          body := r.primary.body
          fingerprint := r.fingerprint
          signingKey := r.primary.signingKey
          userIds := s.userIds
          encryptionSubkey := {
            body := subkey.body
            fingerprint := r.primitives.fingerprint subkey.body
            publicKey := subkey.cv25519.1
            wrapCipher := subkey.cv25519.2 }
          symmetricPreferences := s.preferences }

/-- The loops over the packets that follow the primary key. -/
def loop (packets : List (ℕ × Bytes)) : Except Refusal Progress :=
  match r.checkRevocations maxChecksPerKey 0 (gather packets).1 with
  | .error refusal => .error refusal
  | .ok checks => (components packets).foldlM r.readComponent (.start r.primary checks)

end Reading

section

variable (c : Primitives) (sorting : Sorted.Descending)

/-- `PgpPublicKey.parse`, with a budget of its own. -/
def PgpPublicKey.parse (data : Bytes) (now : ℤ) : Except Refusal PgpPublicKey :=
  if maxKeyBytes < data.length then .error .tooLarge
  else
    match readPackets data with
    | none => .error .packets
    | some packets =>
      match Primary.read packets with
      | .error refusal => .error refusal
      | .ok primary =>
        let r : Reading := { primitives := c, sorting, primary, now }
        match r.loop packets.tail with
        | .error refusal => .error refusal
        | .ok s => r.finish s

end

end OpenPgp
end Mail
end Conest
