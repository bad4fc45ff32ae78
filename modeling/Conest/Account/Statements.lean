import Conest.Account.DeviceList
import Conest.Lib.Base64

/-!
# Account statements

What an account key and the keys of its devices sign: upgrades, certificates, proofs and device
lists. The bytes of a statement begin with its type and end with its fields in canonical JSON, so
they are the bytes of no other statement (`accountSigningBytes_inj`): the newline ends the type, and
the text of a value is that of no value that differs in more than the order of its keys
(`same_of_canonical`). What is written for a statement is read back as long as it is within the
bounds that reading checks (`fromJson_toJson`, for each kind); then its signed bytes are the same.
-/

namespace Conest
namespace Account

open Lib Lib.DartString List
open Lib.Json (valueAt valueAt_getElem mapM_map_some)

/-! ### Reading -/

def maxIdLength : ℕ := 128

def maxNameLength : ℕ := 64

/-- A value after a cast to a string. -/
def text : Json → DartString
  | .str s => s
  | _ => []

def isBase64Of (maxLength count : ℕ) : Json → Bool
  | .str s => decide (s.length ≤ maxLength) &&
      (base64Decode s).any fun bytes => decide (bytes.length = count)
  | _ => false

def isKey : Json → Bool := isBase64Of 64 32

def isSignature : Json → Bool := isBase64Of 128 64

def isId : Json → Bool
  | .str s => !s.isEmpty && decide (s.length ≤ maxIdLength)
  | _ => false

/-- The instant of a date; `localTime` gives that of a date without a zone. -/
def time (localTime : ℤ → ℤ) : Json → Option ℤ
  | .str s => if s.length ≤ 40 then DateTime.tryParse localTime s else none
  | _ => none

/-! ### Upgrades -/

/-- A single-device identity joining an account key, signed by both. -/
structure AccountUpgrade where
  accountId : DartString
  deviceId : DartString
  deviceSigningKeyBase64 : DartString
  accountKeyBase64 : DartString
  issuedAt : ℤ
  deviceSignatureBase64 : DartString
  accountSignatureBase64 : DartString
deriving DecidableEq

namespace AccountUpgrade

variable (localTime : ℤ → ℤ) (upgrade : AccountUpgrade)

def fields : List (DartString × Json) :=
  [field "accountId" (.str upgrade.accountId), field "deviceId" (.str upgrade.deviceId),
    field "deviceSigningKey" (.str upgrade.deviceSigningKeyBase64),
    field "accountKey" (.str upgrade.accountKeyBase64),
    field "issuedAt" (.str (DateTime.toIso8601String upgrade.issuedAt))]

def signingBytes : Bytes := accountSigningBytes (ofString "upgrade") upgrade.fields

def toJson : Json :=
  .obj (upgrade.fields ++ [field "deviceSignature" (.str upgrade.deviceSignatureBase64),
    field "accountSignature" (.str upgrade.accountSignatureBase64)])

def fromJson : Json → Option AccountUpgrade
  | .obj json =>
    match time localTime (valueAt json "issuedAt") with
    | none => none
    | some issuedAt =>
      if isId (valueAt json "accountId") && isId (valueAt json "deviceId") &&
          isKey (valueAt json "deviceSigningKey") && isKey (valueAt json "accountKey") &&
          isSignature (valueAt json "deviceSignature") &&
          isSignature (valueAt json "accountSignature") then
        some {
          accountId := text (valueAt json "accountId")
          deviceId := text (valueAt json "deviceId")
          deviceSigningKeyBase64 := text (valueAt json "deviceSigningKey")
          accountKeyBase64 := text (valueAt json "accountKey")
          issuedAt
          deviceSignatureBase64 := text (valueAt json "deviceSignature")
          accountSignatureBase64 := text (valueAt json "accountSignature") }
      else none
  | _ => none

/-- Within the bounds that are checked on reading. -/
def Fits : Prop :=
  (isId (.str upgrade.accountId) && isId (.str upgrade.deviceId) &&
    isKey (.str upgrade.deviceSigningKeyBase64) && isKey (.str upgrade.accountKeyBase64) &&
    isSignature (.str upgrade.deviceSignatureBase64) &&
    isSignature (.str upgrade.accountSignatureBase64)) = true

end AccountUpgrade

/-! ### Certificates and lists -/

namespace DeviceCert

variable (localTime : ℤ → ℤ) (cert : DeviceCert)

/-- The bytes that the account key signs to vouch for the device. -/
def signingBytes : Bytes := accountSigningBytes (ofString "device") cert.signedFields

/-- An endpoint may be missing. -/
def isEndpoint : Json → Bool
  | .null => true
  | .str s => decide (s.length ≤ 128)
  | _ => false

def endpoint : Json → Option DartString
  | .str s => some s
  | _ => none

def isName : Json → Bool
  | .str s => decide (s.length ≤ maxNameLength)
  | _ => false

def fromJson : Json → Option DeviceCert
  | .obj json =>
    match time localTime (valueAt json "linkedAt") with
    | none => none
    | some linkedAt =>
      if isId (valueAt json "accountId") && isId (valueAt json "deviceId") &&
          isKey (valueAt json "encryptionKey") && isKey (valueAt json "signingKey") &&
          isEndpoint (valueAt json "irohEndpointId") && isName (valueAt json "name") &&
          isSignature (valueAt json "signature") && isSignature (valueAt json "proof") then
        some {
          accountId := text (valueAt json "accountId")
          deviceId := text (valueAt json "deviceId")
          encryptionKeyBase64 := text (valueAt json "encryptionKey")
          signingKeyBase64 := text (valueAt json "signingKey")
          irohEndpointId := endpoint (valueAt json "irohEndpointId")
          name := text (valueAt json "name")
          linkedAt
          signatureBase64 := text (valueAt json "signature")
          proofSignatureBase64 := text (valueAt json "proof") }
      else none
  | _ => none

def Fits : Prop :=
  (isId (.str cert.accountId) && isId (.str cert.deviceId) &&
    isKey (.str cert.encryptionKeyBase64) && isKey (.str cert.signingKeyBase64) &&
    isEndpoint (optional cert.irohEndpointId) && isName (.str cert.name) &&
    isSignature (.str cert.signatureBase64) && isSignature (.str cert.proofSignatureBase64)) = true

end DeviceCert

namespace AccountDeviceList

variable (localTime : ℤ → ℤ) (list : AccountDeviceList)

def signedFields : List (DartString × Json) :=
  fields list.accountId list.version list.devices list.revoked list.issuedAt

def signingBytes : Bytes := accountSigningBytes (ofString "devices") list.signedFields

def toJson : Json := .obj (list.signedFields ++ [field "signature" (.str list.signatureBase64)])

/-- One revocation. -/
def readRevoked (entry : DartString × Json) : Option (DartString × ℤ) :=
  match time localTime entry.2 with
  | none => none
  | some revokedAt => if isId (.str entry.1) then some (entry.1, revokedAt) else none

def fromJson : Json → Option AccountDeviceList
  | .obj json =>
    match valueAt json "version", valueAt json "devices", valueAt json "revoked",
        time localTime (valueAt json "issuedAt") with
    | .int version, .list rawDevices, .obj rawRevoked, some issuedAt =>
      if isId (valueAt json "accountId") && decide (1 ≤ version) &&
          decide (version ≤ maxDeviceListVersion) &&
          decide (rawDevices.length ≤ maxAccountDevices) &&
          decide (rawRevoked.length ≤ maxRevokedDevices) &&
          isSignature (valueAt json "signature") then do
        let devices ← rawDevices.mapM (DeviceCert.fromJson localTime)
        let revoked ← rawRevoked.mapM (readRevoked localTime)
        return {
          accountId := text (valueAt json "accountId")
          version
          devices
          revoked := LinkedMap.ofEntries revoked
          issuedAt
          signatureBase64 := text (valueAt json "signature") }
      else none
    | _, _, _, _ => none
  | _ => none

/-- Within the bounds that are checked on reading. -/
structure Fits : Prop where
  accountId : isId (.str list.accountId) = true
  version : 1 ≤ list.version ∧ list.version ≤ maxDeviceListVersion
  devices : list.devices.length ≤ maxAccountDevices
  certificates : ∀ cert ∈ list.devices, cert.Fits
  revoked : list.revoked.size ≤ maxRevokedDevices
  ids : ∀ entry ∈ list.revoked.entries, isId (.str entry.1) = true
  signature : isSignature (.str list.signatureBase64) = true

end AccountDeviceList

/-! ### What is written is read back -/

section

variable (localTime : ℤ → ℤ)

include localTime

theorem time_toIso8601String {t : ℤ} (h : DateTime.InRange t) :
    time localTime (.str (DateTime.toIso8601String t)) = some t := by
  have hlength : (DateTime.toIso8601String t).length ≤ 40 :=
    (DateTime.length_toIso8601String_le h).trans (by omega)
  change (if (DateTime.toIso8601String t).length ≤ 40 then _ else _) = _
  rw [if_pos hlength, DateTime.tryParse_toIso8601String localTime h]

theorem AccountUpgrade.fromJson_toJson {upgrade : AccountUpgrade} (hfits : upgrade.Fits)
    (htime : DateTime.InRange upgrade.issuedAt) :
    AccountUpgrade.fromJson localTime upgrade.toJson = some upgrade := by
  have hat := @valueAt_getElem (upgrade.fields ++ [field "deviceSignature"
    (.str upgrade.deviceSignatureBase64), field "accountSignature"
    (.str upgrade.accountSignatureBase64)]) (by
      change (map ofString ["accountId", "deviceId", "deviceSigningKey", "accountKey",
        "issuedAt", "deviceSignature", "accountSignature"]).Nodup
      decide)
  unfold AccountUpgrade.fromJson AccountUpgrade.toJson
  simp only
  rw [hat 0 rfl, hat 1 rfl, hat 2 rfl, hat 3 rfl, hat 4 rfl, hat 5 rfl, hat 6 rfl,
    time_toIso8601String localTime htime]
  simp only
  unfold AccountUpgrade.Fits at hfits
  rw [if_pos hfits]
  rfl

theorem DeviceCert.fromJson_toJson {cert : DeviceCert} (hfits : cert.Fits)
    (htime : DateTime.InRange cert.linkedAt) :
    DeviceCert.fromJson localTime cert.toJson = some cert := by
  have hat := @valueAt_getElem (cert.signedFields ++ [field "signature"
    (.str cert.signatureBase64), field "proof" (.str cert.proofSignatureBase64)]) (by
      change (map ofString ["accountId", "deviceId", "encryptionKey", "signingKey",
        "irohEndpointId", "name", "linkedAt", "signature", "proof"]).Nodup
      decide)
  have hendpoint : DeviceCert.endpoint (optional cert.irohEndpointId) = cert.irohEndpointId := by
    cases cert.irohEndpointId with
    | none => rfl
    | some endpoint => rfl
  unfold DeviceCert.fromJson DeviceCert.toJson
  simp only
  rw [hat 0 rfl, hat 1 rfl, hat 2 rfl, hat 3 rfl, hat 4 rfl, hat 5 rfl, hat 6 rfl, hat 7 rfl,
    hat 8 rfl, time_toIso8601String localTime htime]
  simp only
  unfold DeviceCert.Fits at hfits
  rw [if_pos hfits, hendpoint]
  rfl

theorem AccountDeviceList.readRevoked_entry {entry : DartString × ℤ}
    (hid : isId (.str entry.1) = true) (htime : DateTime.InRange entry.2) :
    readRevoked localTime (entry.1, .str (DateTime.toIso8601String entry.2)) = some entry := by
  unfold readRevoked
  rw [time_toIso8601String localTime htime]
  exact if_pos hid

theorem AccountDeviceList.fromJson_toJson {list : AccountDeviceList} (hfits : list.Fits)
    (htime : DateTime.InRange list.issuedAt)
    (htimes : ∀ cert ∈ list.devices, DateTime.InRange cert.linkedAt)
    (hrevoked : ∀ entry ∈ list.revoked.entries, DateTime.InRange entry.2) :
    AccountDeviceList.fromJson localTime list.toJson = some list := by
  have hat := @valueAt_getElem (list.signedFields ++ [field "signature"
    (.str list.signatureBase64)]) (by
      change (map ofString ["accountId", "version", "devices", "revoked", "issuedAt",
        "signature"]).Nodup
      decide)
  unfold AccountDeviceList.fromJson AccountDeviceList.toJson
  simp only
  rw [hat 0 rfl, hat 1 rfl, hat 2 rfl, hat 3 rfl, hat 4 rfl, hat 5 rfl,
    time_toIso8601String localTime htime]
  simp only
  have hdevices : (list.devices.map DeviceCert.toJson).mapM (DeviceCert.fromJson localTime) =
      some (list.devices.map id) :=
    mapM_map_some fun cert hcert =>
      DeviceCert.fromJson_toJson localTime (hfits.certificates cert hcert) (htimes cert hcert)
  have hentries : (list.revoked.entries.map fun entry =>
      (entry.1, Json.str (DateTime.toIso8601String entry.2))).mapM (readRevoked localTime) =
      some (list.revoked.entries.map id) :=
    mapM_map_some fun entry hentry =>
      readRevoked_entry localTime (hfits.ids entry hentry) (hrevoked entry hentry)
  have hmap : LinkedMap.ofEntries list.revoked.entries = list.revoked :=
    LinkedMap.ext_entries (LinkedMap.entries_ofEntries list.revoked.nodup)
  have hbounds : (isId (.str list.accountId) && decide (1 ≤ list.version) &&
      decide (list.version ≤ maxDeviceListVersion) &&
      decide ((list.devices.map DeviceCert.toJson).length ≤ maxAccountDevices) &&
      decide ((list.revoked.entries.map fun entry =>
        (entry.1, Json.str (DateTime.toIso8601String entry.2))).length ≤ maxRevokedDevices) &&
      isSignature (.str list.signatureBase64)) = true := by
    have hsize : list.revoked.entries.length ≤ maxRevokedDevices := hfits.revoked
    rw [length_map, length_map, hfits.accountId, hfits.signature,
      decide_eq_true hfits.version.1, decide_eq_true hfits.version.2, decide_eq_true hfits.devices,
      decide_eq_true hsize]
    rfl
  rw [if_pos hbounds, hdevices, hentries]
  rw [map_id, map_id]
  change some (AccountDeviceList.mk _ _ _ (LinkedMap.ofEntries list.revoked.entries) _ _) = _
  rw [hmap]
  rfl

end

/-! ### The same fields -/

mutual

/-- Two values are equal but for the order of their entries. -/
def Same : Json → Json → Prop
  | .null, .null => True
  | .bool a, .bool b => a = b
  | .int m, .int n => m = n
  | .str s, .str t => s = t
  | .list xs, .list ys => SameList xs ys
  | .obj xs, .obj ys => xs.length = ys.length ∧ SameIn xs ys
  | _, _ => False

def SameList : List Json → List Json → Prop
  | [], [] => True
  | x :: xs, y :: ys => Same x y ∧ SameList xs ys
  | _, _ => False

/-- Every entry has its equal among others. -/
def SameIn : List (DartString × Json) → List (DartString × Json) → Prop
  | [], _ => True
  | (key, x) :: xs, ys => (∃ y, (key, y) ∈ ys ∧ Same x y) ∧ SameIn xs ys

end

theorem canonicalEntries_eq_map (entries : List (DartString × Json)) :
    canonicalEntries entries = entries.map fun entry => (entry.1, canonical entry.2) := by
  induction entries with
  | nil => rfl
  | cons entry entries ih => rw [canonicalEntries, ih, map_cons]

theorem sortKeys_perm (entries : List (DartString × Json)) : (sortKeys entries).Perm entries :=
  mergeSort_perm _ _

mutual

/-- **Values with the same canonical form are equal** but for the order of their entries. -/
theorem same_of_canonical (a b : Json) (h : canonical a = canonical b) : Same a b := by
  match a, b, h with
  | .null, .null, _ => exact trivial
  | .bool x, .bool y, h => exact Json.bool.inj h
  | .int m, .int n, h => exact Json.int.inj h
  | .str s, .str t, h => exact Json.str.inj h
  | .list xs, .list ys, h => exact sameList_of_canonical xs ys (Json.list.inj h)
  | .obj xs, .obj ys, h =>
    have hsorted : sortKeys (canonicalEntries xs) = sortKeys (canonicalEntries ys) :=
      Json.obj.inj h
    have hperm : (canonicalEntries xs).Perm (canonicalEntries ys) := by
      refine (sortKeys_perm _).symm.trans ?_
      rw [hsorted]
      exact sortKeys_perm _
    refine ⟨?_, sameIn_of_canonical xs ys fun entry hentry => hperm.mem_iff.mp hentry⟩
    have hlength := hperm.length_eq
    rwa [canonicalEntries_eq_map, canonicalEntries_eq_map, length_map,
      length_map] at hlength

theorem sameList_of_canonical (xs ys : List Json) (h : canonicalList xs = canonicalList ys) :
    SameList xs ys := by
  match xs, ys, h with
  | [], [], _ => exact trivial
  | x :: xs, y :: ys, h =>
    have hcons := cons.inj h
    exact ⟨same_of_canonical x y hcons.1, sameList_of_canonical xs ys hcons.2⟩

theorem sameIn_of_canonical (xs ys : List (DartString × Json))
    (h : ∀ entry ∈ canonicalEntries xs, entry ∈ canonicalEntries ys) : SameIn xs ys := by
  match xs, h with
  | [], _ => exact trivial
  | (key, x) :: xs, h =>
    refine ⟨?_, sameIn_of_canonical xs ys fun entry hentry =>
      h entry (mem_cons_of_mem _ hentry)⟩
    have hmem : (key, canonical x) ∈ canonicalEntries ys := h _ mem_cons_self
    rw [canonicalEntries_eq_map] at hmem
    obtain ⟨⟨key', y⟩, hy, heq⟩ := mem_map.mp hmem
    obtain ⟨rfl, hcanonical⟩ := Prod.mk.inj heq
    exact ⟨y, hy, same_of_canonical x y hcanonical.symm⟩

end

/-! ### Bytes and statements -/

/-- What the bytes of a statement are the text of. -/
def statementText (type : DartString) (fields : List (DartString × Json)) : DartString :=
  ofString "conest/account/v1/" ++ type ++ 10 :: Json.jsonText (canonical (.obj fields))

theorem dropMark_statementText (type : DartString) (fields : List (DartString × Json)) :
    dropMark (statementText type fields) = statementText type fields := by
  rw [dropMark_eq_self]
  have hhead : (statementText type fields).head? = some 99 := rfl
  rw [hhead]
  decide

theorem wellFormed_statementText {type : DartString} (h : WellFormed type)
    (fields : List (DartString × Json)) : WellFormed (statementText type fields) :=
  ((wellFormed_ofChars _).append h).append
    (WellFormed.cons_small (by decide) (Json.wellFormed_jsonText _))

theorem append_newline_inj {s t r r' : DartString} (hs : 10 ∉ s) (ht : 10 ∉ t)
    (h : s ++ 10 :: r = t ++ 10 :: r') : s = t ∧ r = r' := by
  have hbefore : ∀ (u : DartString) (v : DartString), 10 ∉ u →
      (u ++ 10 :: v).takeWhile (fun x => decide (x ≠ 10)) = u := by
    intro u v hu
    have hne : ∀ x ∈ u, decide (x ≠ 10) = true := by
      rintro x hx
      exact decide_eq_true fun hten => hu (hten ▸ hx)
    rw [takeWhile_append_of_pos hne, takeWhile_cons_of_neg (by simp), append_nil]
  have hst : s = t := by rw [← hbefore s r hs, h, hbefore t r' ht]
  subst hst
  exact ⟨rfl, (cons.inj (append_cancel_left h)).2⟩

theorem accountSigningBytes_inj {type type' : DartString}
    {fields fields' : List (DartString × Json)} (hwf : WellFormed type) (hwf' : WellFormed type')
    (hline : 10 ∉ type) (hline' : 10 ∉ type')
    (h : accountSigningBytes type fields = accountSigningBytes type' fields') :
    type = type' ∧ Same (.obj fields) (.obj fields') := by
  have htext : statementText type fields = statementText type' fields' := by
    have hdecode := utf8Decode_utf8Encode (wellFormed_statementText hwf fields)
    have hdecode' := utf8Decode_utf8Encode (wellFormed_statementText hwf' fields')
    rw [dropMark_statementText] at hdecode hdecode'
    have hbytes : utf8Encode (statementText type fields) =
        utf8Encode (statementText type' fields') := h
    rw [hbytes, hdecode'] at hdecode
    exact (Option.some.inj hdecode).symm
  unfold statementText at htext
  rw [append_assoc, append_assoc] at htext
  obtain ⟨rfl, hjson⟩ := append_newline_inj hline hline' (append_cancel_left htext)
  exact ⟨rfl, same_of_canonical _ _ (Json.jsonText_injective hjson)⟩

/-- What is signed. -/
inductive Statement where
  | upgrade (upgrade : AccountUpgrade)
  | device (cert : DeviceCert)
  | deviceProof (cert : DeviceCert) (accountKeyBase64 : DartString)
  | devices (list : AccountDeviceList)

namespace Statement

def type : Statement → DartString
  | upgrade _ => ofString "upgrade"
  | device _ => ofString "device"
  | deviceProof _ _ => ofString "device-proof"
  | devices _ => ofString "devices"

def fields : Statement → List (DartString × Json)
  | upgrade u => u.fields
  | device cert => cert.signedFields
  | deviceProof cert accountKeyBase64 => cert.proofFields accountKeyBase64
  | devices list => list.signedFields

def bytes : Statement → Bytes
  | upgrade u => u.signingBytes
  | device cert => cert.signingBytes
  | deviceProof cert accountKeyBase64 => cert.proofBytes accountKeyBase64
  | devices list => list.signingBytes

theorem bytes_eq (s : Statement) : s.bytes = accountSigningBytes s.type s.fields := by
  cases s <;> rfl

theorem type_plain (s : Statement) : WellFormed s.type ∧ 10 ∉ s.type := by
  cases s with
  | upgrade => exact ⟨wellFormed_ofChars _, (by decide : 10 ∉ ofString "upgrade")⟩
  | device => exact ⟨wellFormed_ofChars _, (by decide : 10 ∉ ofString "device")⟩
  | deviceProof => exact ⟨wellFormed_ofChars _, (by decide : 10 ∉ ofString "device-proof")⟩
  | devices => exact ⟨wellFormed_ofChars _, (by decide : 10 ∉ ofString "devices")⟩

end Statement

/-- **Account statements are domain separated**, and what is written for one is read back. -/
theorem statements (localTime : ℤ → ℤ) :
    (∀ (type type' : DartString) (fields fields' : List (DartString × Json)),
      WellFormed type → WellFormed type' → 10 ∉ type → 10 ∉ type' →
      accountSigningBytes type fields = accountSigningBytes type' fields' →
      type = type' ∧ Same (.obj fields) (.obj fields')) ∧
    (∀ s t : Statement, s.bytes = t.bytes →
      s.type = t.type ∧ Same (.obj s.fields) (.obj t.fields)) ∧
    (∀ upgrade : AccountUpgrade, upgrade.Fits → DateTime.InRange upgrade.issuedAt →
      AccountUpgrade.fromJson localTime upgrade.toJson = some upgrade) ∧
    (∀ cert : DeviceCert, cert.Fits → DateTime.InRange cert.linkedAt →
      DeviceCert.fromJson localTime cert.toJson = some cert) ∧
    (∀ list : AccountDeviceList, list.Fits → DateTime.InRange list.issuedAt →
      (∀ cert ∈ list.devices, DateTime.InRange cert.linkedAt) →
      (∀ entry ∈ list.revoked.entries, DateTime.InRange entry.2) →
      AccountDeviceList.fromJson localTime list.toJson = some list) := by
  refine ⟨fun type type' fields fields' hwf hwf' hline hline' h =>
      accountSigningBytes_inj hwf hwf' hline hline' h, fun s t h => ?_,
    fun upgrade => AccountUpgrade.fromJson_toJson localTime,
    fun cert => DeviceCert.fromJson_toJson localTime,
    fun list => AccountDeviceList.fromJson_toJson localTime⟩
  rw [s.bytes_eq, t.bytes_eq] at h
  exact accountSigningBytes_inj s.type_plain.1 t.type_plain.1 s.type_plain.2 t.type_plain.2 h

/-! ### What the bounds exclude -/

namespace Sample

def nameless : AccountUpgrade := ⟨[], [], [], [], 0, [], []⟩

def zeros (count : ℕ) : DartString := base64Encode (List.replicate count 0)

def upgrade : AccountUpgrade :=
  ⟨ofString "a", ofString "d", zeros 32, zeros 32, 0, zeros 64, zeros 64⟩

theorem fits_upgrade : upgrade.Fits := by
  unfold AccountUpgrade.Fits
  decide +kernel

theorem accountSigningBytes_lone :
    accountSigningBytes [0xD800] [] = accountSigningBytes [0xFFFD] [] := by
  have hempty : Json.jsonText (canonical (.obj [])) = [123, 125] := by
    rw [canonical, canonicalEntries, sortKeys, mergeSort_nil]
    rfl
  decide +kernel

theorem not_separated : ¬ ((∀ (type type' : DartString) (fields fields' : List (DartString × Json)),
      10 ∉ type → 10 ∉ type' → accountSigningBytes type fields = accountSigningBytes type' fields' →
      type = type' ∧ Same (.obj fields) (.obj fields')) ∨
    ∀ (localTime : ℤ → ℤ) (upgrade : AccountUpgrade), DateTime.InRange upgrade.issuedAt →
      AccountUpgrade.fromJson localTime upgrade.toJson = some upgrade) := by
  rintro (h | h)
  · exact absurd (h _ _ [] [] (by decide) (by decide) accountSigningBytes_lone).1 (by decide)
  · have hread := h id nameless (by decide)
    exact absurd hread (by decide)

theorem statements_upgrade :
    AccountUpgrade.fromJson id upgrade.toJson = some upgrade :=
  (statements id).2.2.1 upgrade fits_upgrade (by decide)

end Sample

end Account
end Conest
