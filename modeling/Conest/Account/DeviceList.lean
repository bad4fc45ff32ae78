import Conest.Lib.DateTime
import Conest.Lib.JsonPrinting
import Conest.Lib.LinkedMap

/-!
# Account device lists

One account key certifies the devices of an account. A device list names the devices of one version
and the devices that were revoked, signed by the account key; a list replaces another of a lower
version if it keeps every revocation.

The library for Ed25519 is a parameter. Times are instants, in microseconds.
-/

namespace Conest
namespace Account

open Lib Lib.DartString

/-! ### Signing -/

def maxDeviceListVersion : ℤ := 2 ^ 30

def maxAccountDevices : ℕ := 16

def maxRevokedDevices : ℕ := 1024

/-- The account's own key pair. -/
structure AccountKeys where
  publicKeyBase64 : DartString
  privateKeyBase64 : DartString
deriving DecidableEq

/-- The signatures, which are taken from a library. -/
structure Libraries where
  signEd25519 : AccountKeys → Bytes → DartString
  verifyEd25519 : Bytes → DartString → DartString → Bool

/-- `List.sort` by date. It is not stable, so entries of one instant may come in any order. -/
structure DateSort where
  sort : List (DartString × ℤ) → List (DartString × ℤ)
  perm : ∀ entries, (sort entries).Perm entries
  sorted : ∀ entries, (sort entries).Pairwise fun a b => a.2 ≤ b.2

def sortKeys (entries : List (DartString × Json)) : List (DartString × Json) :=
  entries.mergeSort fun a b => decide (a.1 ≤ b.1)

mutual

/-- A JSON value with the keys of all its objects in order. -/
def canonical : Json → Json
  | .list elements => .list (canonicalList elements)
  | .obj entries => .obj (sortKeys (canonicalEntries entries))
  | value => value

def canonicalList : List Json → List Json
  | [] => []
  | value :: values => canonical value :: canonicalList values

def canonicalEntries : List (DartString × Json) → List (DartString × Json)
  | [] => []
  | (key, value) :: entries => (key, canonical value) :: canonicalEntries entries

end

/-- The bytes signed for a statement: domain separated and canonical. -/
def accountSigningBytes (type : DartString) (fields : List (DartString × Json)) : Bytes :=
  utf8Encode (ofString "conest/account/v1/" ++ type ++
    10 :: Json.jsonText (canonical (.obj fields)))

def field (name : String) (value : Json) : DartString × Json := (DartString.ofString name, value)

def optional (value : Option DartString) : Json := (value.map Json.str).getD .null

/-! ### Certificates -/

/-- The certificate of one device. -/
structure DeviceCert where
  accountId : DartString
  deviceId : DartString
  encryptionKeyBase64 : DartString
  signingKeyBase64 : DartString
  irohEndpointId : Option DartString
  name : DartString
  linkedAt : ℤ
  signatureBase64 : DartString
  proofSignatureBase64 : DartString
deriving DecidableEq

namespace DeviceCert

variable (libs : Libraries) (cert : DeviceCert)

def signedFields : List (DartString × Json) :=
  [field "accountId" (.str cert.accountId), field "deviceId" (.str cert.deviceId),
    field "encryptionKey" (.str cert.encryptionKeyBase64),
    field "signingKey" (.str cert.signingKeyBase64),
    field "irohEndpointId" (optional cert.irohEndpointId), field "name" (.str cert.name),
    field "linkedAt" (.str (DateTime.toIso8601String cert.linkedAt))]

def proofFields (accountKeyBase64 : DartString) : List (DartString × Json) :=
  [field "accountId" (.str cert.accountId), field "accountKey" (.str accountKeyBase64),
    field "deviceId" (.str cert.deviceId), field "encryptionKey" (.str cert.encryptionKeyBase64),
    field "signingKey" (.str cert.signingKeyBase64),
    field "irohEndpointId" (optional cert.irohEndpointId)]

/-- The bytes that the device signs to prove its keys. -/
def proofBytes (accountKeyBase64 : DartString) : Bytes :=
  accountSigningBytes (ofString "device-proof") (cert.proofFields accountKeyBase64)

/-- Whether the account key vouches for the device and the device holds its signing key. -/
def verify (accountKeyBase64 : DartString) : Bool :=
  libs.verifyEd25519 (accountSigningBytes (ofString "device") cert.signedFields)
    cert.signatureBase64 accountKeyBase64 &&
  libs.verifyEd25519 (cert.proofBytes accountKeyBase64) cert.proofSignatureBase64
    cert.signingKeyBase64

def toJson : Json :=
  .obj (cert.signedFields ++ [field "signature" (.str cert.signatureBase64),
    field "proof" (.str cert.proofSignatureBase64)])

end DeviceCert

/-! ### Lists -/

/-- The devices of an account at one version. -/
structure AccountDeviceList where
  accountId : DartString
  version : ℤ
  devices : List DeviceCert
  revoked : LinkedMap DartString ℤ
  issuedAt : ℤ
  signatureBase64 : DartString

namespace AccountDeviceList

variable (libs : Libraries)

def fields (accountId : DartString) (version : ℤ) (devices : List DeviceCert)
    (revoked : LinkedMap DartString ℤ) (issuedAt : ℤ) : List (DartString × Json) :=
  [field "accountId" (.str accountId), field "version" (.int version),
    field "devices" (.list (devices.map DeviceCert.toJson)),
    field "revoked" (.obj (revoked.entries.map fun entry =>
      (entry.1, .str (DateTime.toIso8601String entry.2)))),
    field "issuedAt" (.str (DateTime.toIso8601String issuedAt))]

/-- Sign a list. Only the newest revocations are kept. -/
def issue (byDate : DateSort) (account : AccountKeys) (accountId : DartString) (version : ℤ)
    (devices : List DeviceCert) (revoked : LinkedMap DartString ℤ) (issuedAt : ℤ) :
    Except String AccountDeviceList :=
  if maxAccountDevices < devices.length then
    .error "An account lists at most 16 devices."
  else
    let kept := LinkedMap.ofEntries ((byDate.sort revoked.entries).reverse.take maxRevokedDevices)
    .ok ⟨accountId, version, devices, kept, issuedAt,
      libs.signEd25519 account
        (accountSigningBytes (ofString "devices") (fields accountId version devices kept issuedAt))⟩

/-- The loop over the devices: each is the account's own, new and not revoked. -/
def checkDevices (accountId : DartString) (revoked : LinkedMap DartString ℤ) (seen : List DartString) :
    List DeviceCert → Bool
  | [] => true
  | device :: devices =>
    if device.accountId ≠ accountId ∨ device.deviceId ∈ seen ∨
        revoked.contains device.deviceId = true then false
    else checkDevices accountId revoked (device.deviceId :: seen) devices

/-- Whether the account key signed the list, every certificate is valid and the account's own, no
device appears twice and no revoked device is listed. -/
def verify (list : AccountDeviceList) (accountKeyBase64 : DartString) : Bool :=
  if maxAccountDevices < list.devices.length ∨ maxRevokedDevices < list.revoked.size ∨
      list.version < 1 then false
  else if checkDevices list.accountId list.revoked [] list.devices then
    libs.verifyEd25519
      (accountSigningBytes (ofString "devices")
        (fields list.accountId list.version list.devices list.revoked list.issuedAt))
      list.signatureBase64 accountKeyBase64 &&
    list.devices.all fun device => device.verify libs accountKeyBase64
  else false

/-- Whether a list may replace another: a newer version that keeps every revocation. -/
def supersedes (list : AccountDeviceList) (current : Option AccountDeviceList) : Bool :=
  match current with
  | none => true
  | some current =>
    if current.accountId ≠ list.accountId ∨ list.version ≤ current.version then false
    else current.revoked.keys.all list.revoked.contains

/-- The certificate of a device, unless it is missing or revoked. -/
def deviceFor (list : AccountDeviceList) (deviceId : DartString) : Option DeviceCert :=
  if list.revoked.contains deviceId then none
  else list.devices.find? fun device => decide (device.deviceId = deviceId)

end AccountDeviceList

end Account
end Conest
