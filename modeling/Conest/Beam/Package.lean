import Conest.Lib.Base64
import Conest.Lib.BigEndian

/-!
# Beam packages

What a Beam transfer carries: a manifest in JSON behind its length, and the payload whose size and
hash the manifest names. Reading JSON, dates and lower case, and SHA-256, are the libraries'
(`Libraries`).
-/

namespace Conest
namespace Beam

open Lib

def conestBeamMaximumPayloadBytes : ℕ := 64 * 1024 * 1024

inductive BeamMode where
  | publicMode
  | contactEncrypted
  | contactInvite
deriving DecidableEq

/-- What the code throws: a `FormatException` or an `ArgumentError` with its message, one with the
message of a library, a cast that fails, or a number that is no integer. -/
inductive BeamError where
  | format (message : String)
  | argument (message : String)
  | library
  | cast
  | unsupported
deriving DecidableEq

/-- What a member of a JSON object is, as far as a manifest asks. A number may be infinite. -/
inductive Value where
  | null
  | number (value : Option ℚ)
  | string (s : DartString)
  | other
deriving DecidableEq

/-- The libraries. `jsonDecode` reads UTF-8 and JSON: nothing where it throws, and an object by its
members, where it is one. -/
structure Libraries where
  jsonDecode : Bytes → Option (Option (DartString → Value))
  sha256 : Bytes → Bytes
  parseTime : DartString → Option ℤ
  toLowerCase : DartString → DartString

/-! ### Manifests -/

/-- A manifest; the time in microseconds. -/
structure BeamManifest where
  transferId : DartString
  mode : BeamMode
  fileName : DartString
  mimeType : DartString
  sizeBytes : ℤ
  sha256Base64 : DartString
  createdAt : ℤ
  senderFingerprint : Option DartString
  senderSigningPublicKeyBase64 : Option DartString
  signatureBase64 : Option DartString
  encryptionMetadataBase64 : Option DartString
deriving DecidableEq

/-- `as String?`. -/
def asOptionalString : Value → Except BeamError (Option DartString)
  | .null => .ok none
  | .string s => .ok (some s)
  | _ => .error .cast

/-- `as String`. -/
def asString : Value → Except BeamError DartString
  | .string s => .ok s
  | _ => .error .cast

/-- `(as num?)?.toInt()`, towards zero. -/
def asInt : Value → Except BeamError (Option ℤ)
  | .null => .ok none
  | .number (some q) => .ok (some (q.num.tdiv q.den))
  | .number none => .error .unsupported
  | _ => .error .cast

namespace BeamMode

def name : BeamMode → DartString
  | publicMode => .ofString "public"
  | contactEncrypted => .ofString "contactEncrypted"
  | contactInvite => .ofString "contactInvite"

/-- The mode of that name. -/
def named (value : Value) : Option BeamMode :=
  [publicMode, contactEncrypted, contactInvite].find? fun mode => decide (.string mode.name = value)

end BeamMode

def BeamManifest.fromJson (libs : Libraries) (json : DartString → Value) :
    Except BeamError BeamManifest := do
  let entryAt (key : String) : Value := json (.ofString key)
  if entryAt "version" ≠ .number (some 1) then
    throw (.format "Unsupported Beam manifest version.")
  let mode := BeamMode.named (entryAt "mode")
  let fileName := (← asOptionalString (entryAt "fileName")).getD []
  let mimeType := (← asOptionalString (entryAt "mimeType")).getD []
  let sizeBytes := (← asInt (entryAt "sizeBytes")).getD (-1)
  match mode with
  | none => throw (.format "Beam manifest fields are out of range.")
  | some mode =>
    if fileName = [] ∨ 255 < fileName.length ∨ mimeType = [] ∨ 160 < mimeType.length ∨
        sizeBytes < 0 ∨ (conestBeamMaximumPayloadBytes : ℤ) < sizeBytes then
      throw (.format "Beam manifest fields are out of range.")
    let transferId ← asString (entryAt "transferId")
    let sha256Base64 ← asString (entryAt "sha256Base64")
    let created ← asString (entryAt "createdAt")
    match libs.parseTime created with
    | none => throw .library
    | some createdAt =>
      return {
        transferId
        mode
        fileName
        mimeType
        sizeBytes
        sha256Base64
        createdAt
        senderFingerprint := ← asOptionalString (entryAt "senderFingerprint")
        senderSigningPublicKeyBase64 := ← asOptionalString (entryAt "senderSigningPublicKeyBase64")
        signatureBase64 := ← asOptionalString (entryAt "signatureBase64")
        encryptionMetadataBase64 := ← asOptionalString (entryAt "encryptionMetadataBase64") }

/-! ### Packages -/

structure BeamPackage where
  manifest : BeamManifest
  payload : Bytes
deriving DecidableEq

/-- The text of the hash of some bytes. -/
def hashText (libs : Libraries) (bytes : Bytes) : DartString :=
  DartString.base64Encode (libs.sha256 bytes)

/-- `BeamPackage.decode`. -/
def BeamPackage.decode (libs : Libraries) (bytes : Bytes) : Except BeamError BeamPackage :=
  if bytes.length < 4 then .error (.format "Beam package is truncated.")
  else
    let manifestLength := ofBigEndian (bytes.take 4)
    if manifestLength = 0 ∨ 64 * 1024 < manifestLength ∨ bytes.length < 4 + manifestLength then
      .error (.format "Beam manifest length is invalid.")
    else
      match libs.jsonDecode ((bytes.drop 4).take manifestLength) with
      | none => .error .library
      | some none => .error (.format "Beam manifest must be an object.")
      | some (some json) => do
        let manifest ← BeamManifest.fromJson libs json
        let payload := bytes.drop (4 + manifestLength)
        if (payload.length : ℤ) ≠ manifest.sizeBytes ∨
            hashText libs payload ≠ manifest.sha256Base64 then
          .error (.format "Beam payload failed size or hash verification.")
        else .ok ⟨manifest, payload⟩

end Beam
end Conest
