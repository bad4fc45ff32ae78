import Conest.Lib.Base64
import Conest.Lib.JsonText
import Conest.Relay.Queue

/-!
# What the relay answers

A request read off the wire goes through `handle_request_for` to the storage, whose answer becomes a
`RelayResponse`. A client that sent a nonce gets it signed, in one of two forms: inline, with the
echo and the signature as members of the response, or detached, the response being a string inside a
small wrapper. What is signed is the same in both, the bare concatenation of the action, the nonce
and the text of the response (`signingInput`).

A response is printed twice over: the text that is signed has its members in the order of the
struct (`toText`), while what is sent inline is a JSON value first, whose members are sorted
(`Wire.toVec`).
-/

open Lib List

namespace Conest
namespace Relay

/-! ### Encodings -/

/-- The bytes of a string. -/
def utf8 (s : String) : List UInt8 := s.toList.flatMap String.utf8EncodeChar

/-- `BASE64_STANDARD.encode`. -/
def base64Standard (bytes : List UInt8) : String :=
  String.ofList ((DartString.base64Encode bytes).map fun unit => Char.ofNat unit.val)

/-- The marks of base64 are single bytes and need no escape inside a string. -/
def PlainMark (unit : Fin 65536) : Prop :=
  JsonText.escapeChar (Char.ofNat unit.val) = [Char.ofNat unit.val] ∧
    (Char.ofNat unit.val).utf8Size = 1

theorem plainMark_base64Char {n : ℕ} (h : n < 64) : PlainMark (DartString.base64Char n) := by
  have hall : ∀ k < 64, JsonText.escapeChar (Char.ofNat (DartString.base64Char k).val) =
      [Char.ofNat (DartString.base64Char k).val] ∧
      (Char.ofNat (DartString.base64Char k).val).utf8Size = 1 := by decide
  exact hall n h

theorem plainMark_base64Encode (bytes : List UInt8) :
    ∀ unit ∈ DartString.base64Encode bytes, PlainMark unit := by
  have hbytes : ∀ b ∈ bytes.map UInt8.toNat, b < 256 := by
    intro b hb
    obtain ⟨byte, -, rfl⟩ := mem_map.mp hb
    exact byte.toNat_lt
  intro unit hunit
  rcases mem_append.mp hunit with hdigit | hpad
  · obtain ⟨n, hn, rfl⟩ := mem_map.mp hdigit
    exact plainMark_base64Char (DartString.base64Digits_lt hbytes n hn)
  · obtain rfl := eq_of_mem_replicate hpad
    exact ⟨by decide, by decide⟩

theorem escaped_base64Standard (bytes : List UInt8) :
    JsonText.escaped (base64Standard bytes) = base64Standard bytes := by
  have hall : ∀ units : List (Fin 65536), (∀ unit ∈ units, PlainMark unit) →
      (units.map fun unit => Char.ofNat unit.val).flatMap JsonText.escapeChar =
        units.map fun unit => Char.ofNat unit.val := by
    intro units h
    induction units with
    | nil => rfl
    | cons unit units ih =>
      rw [forall_mem_cons] at h
      rw [map_cons, flatMap_cons, h.1.1, ih h.2]
      rfl
  unfold JsonText.escaped base64Standard
  rw [String.toList_ofList, hall _ (plainMark_base64Encode bytes)]

theorem utf8ByteSize_base64Standard (bytes : List UInt8) :
    (base64Standard bytes).utf8ByteSize = 4 * ((bytes.length + 2) / 3) := by
  have hall : ∀ units : List (Fin 65536), (∀ unit ∈ units, PlainMark unit) →
      (String.ofList (units.map fun unit => Char.ofNat unit.val)).utf8ByteSize = units.length := by
    intro units h
    induction units with
    | nil => rfl
    | cons unit units ih =>
    rw [forall_mem_cons] at h
    rw [map_cons, length_cons, ← ih h.2, ← singleton_append, String.ofList_append,
      String.utf8ByteSize_append]
    have hone : (String.ofList [Char.ofNat unit.val]).utf8ByteSize = 1 := by
      rw [← String.singleton_eq_ofList, String.utf8ByteSize_singleton, h.1.2]
    omega
  unfold base64Standard
  rw [hall _ (plainMark_base64Encode bytes), DartString.length_base64Encode]

/-! ### The response -/

/-- `RelayStats`, with what the relay says of itself. -/
structure RelayReport where
  relayId : String
  version : String
  counts : RelayStats
  ttlSeconds : ℕ
  maxQueuePerMailbox : ℕ
  maxFetchLimit : ℕ
  identityPublicKey : String

structure RelayResponse (Value : Type) where
  ok : Bool
  stored : Bool
  messages : List Value
  error : Option String
  stats : Option RelayReport
  nonceEcho : Option String
  signature : Option String
  leaseId : Option String

namespace RelayResponse

variable {Value : Type}

/-- `RelayResponse::ok`. -/
def okWith (stats : Option RelayReport) : RelayResponse Value :=
  ⟨true, false, [], none, stats, none, none, none⟩

/-- `RelayResponse::stored`. -/
def storedOk : RelayResponse Value := ⟨true, true, [], none, none, none, none, none⟩

/-- `RelayResponse::error`. -/
def failed (message : String) : RelayResponse Value :=
  ⟨false, false, [], some message, none, none, none, none⟩

/-- `RelayResponse::leased`; `RelayResponse::messages` is this without a lease. -/
def leased (messages : List Value) (leaseId : Option String) : RelayResponse Value :=
  ⟨true, false, messages, none, none, none, none, leaseId⟩

end RelayResponse

/-! ### Printing -/

open JsonText

def boolText (b : Bool) : String := if b then "true" else "false"

/-- `None` is printed as `null`. -/
def optionText (text : Option String) : String := text.getD "null"

/-- A member that is left out when it is `None`. -/
def optionMember (key : String) (value : Option String) : List (String × String) :=
  (value.map fun v => (key, quote v)).toList

/-- How a report is printed. -/
def RelayReport.text (report : RelayReport) : String :=
  objectText
    [("relay_id", quote report.relayId),
      ("version", quote report.version),
      ("queue_count", toString report.counts.queueCount),
      ("queued_envelope_count", toString report.counts.queuedEnvelopeCount),
      ("queued_bytes", toString report.counts.queuedBytes),
      ("active_leases", toString report.counts.activeLeases),
      ("ttl_seconds", toString report.ttlSeconds),
      ("max_queue_per_mailbox", toString report.maxQueuePerMailbox),
      ("max_fetch_limit", toString report.maxFetchLimit),
      ("identity_public_key", quote report.identityPublicKey)]

namespace RelayResponse

variable {Value : Type} (serde : Serde Value) (response : RelayResponse Value)

/-- The members of a response in the order of the struct, its envelopes printed already. -/
def members (envelopes : List String) : List (String × String) :=
  [("ok", boolText response.ok),
    ("stored", boolText response.stored),
    ("messages", listText envelopes),
    ("error", optionText (response.error.map quote)),
    ("stats", optionText (response.stats.map RelayReport.text))] ++
    optionMember "nonce_echo" response.nonceEcho ++
    optionMember "signature" response.signature ++
    optionMember "lease_id" response.leaseId

/-- `serde_json::to_string(&response)`. -/
def toText : Except String String := do
  let envelopes ← response.messages.mapM serde.toVec
  pure (objectText (response.members envelopes))

end RelayResponse

/-! ### Signing -/

/-- The relay's key: what it signs with, a signature being 64 bytes, and the public half. -/
structure RelayIdentity where
  sign : List UInt8 → List UInt8
  signature_length : ∀ message, (sign message).length = 64
  publicKeyB64 : String

/-- What a signature covers: the action, the nonce and the text of the response. -/
def signingInput (action : String) (nonce : List UInt8) (body : String) : List UInt8 :=
  utf8 action ++ nonce ++ utf8 body

/-- What a request is answered with, before it is printed: the JSON values that
`handle_request_from` returns. -/
inductive Wire (Value : Type) where
  | null
  | response (r : RelayResponse Value)
  | detached (body nonceEcho signature : String)
  | cookieRequired (cookie : String)

section Finalize

variable {Value : Type} (serde : Serde Value) (identity : RelayIdentity)
  (response : RelayResponse Value) (action : String)

/-- `finalize_response`. -/
def finalizeResponse (nonce : Option (List UInt8)) : RelayResponse Value :=
  match nonce with
  | none => response
  | some nonce =>
    let bare := { response with nonceEcho := none, signature := none }
    match bare.toText serde with
    | .error _ => bare
    | .ok body =>
      { bare with
        nonceEcho := some (base64Standard nonce)
        signature := some (base64Standard (identity.sign (signingInput action nonce body))) }

/-- `finalize_detached_response`. -/
def finalizeDetachedResponse (nonce : List UInt8) : Wire Value :=
  match response.toText serde with
  | .error _ => .response (RelayResponse.failed "response encoding failed")
  | .ok body =>
    .detached body (base64Standard nonce)
      (base64Standard (identity.sign (signingInput action nonce body)))

/-- `finalize_wire`. -/
def finalizeWire (nonce : Option (List UInt8)) (detached : Bool) : Wire Value :=
  match detached, nonce with
  | true, some nonce => finalizeDetachedResponse serde identity response action nonce
  | _, nonce => .response (finalizeResponse serde identity response action nonce)

end Finalize

/-- The members of a JSON value are sorted by their keys. -/
def sortMembers (members : List (String × String)) : List (String × String) :=
  members.insertionSort fun m m' => m.1 ≤ m'.1

namespace Wire

variable {Value : Type} (serde : Serde Value)

/-- `serde_json::to_vec` on an answer. -/
def toVec : Wire Value → Except String String
  | .null => pure "null"
  | .response r => do
    let envelopes ← r.messages.mapM serde.toVec
    pure (objectText (sortMembers (r.members envelopes)))
  | .detached body nonceEcho signature =>
    pure (objectText (sortMembers [("sig_v", "2"), ("body", quote body),
      ("nonce_echo", quote nonceEcho), ("signature", quote signature)]))
  | .cookieRequired cookie =>
    pure (objectText (sortMembers [("ok", "false"), ("error", quote "udp cookie required"),
      ("cookie", quote cookie)]))

end Wire

/-! ### Requests -/

inductive RelayRequest (Value : Type) where
  | store (recipientDeviceId : String) (envelope : Value)
  | fetch (recipientDeviceId : String) (limit waitMs : Option ℕ)
  | fetchLeased (recipientDeviceId : String) (limit waitMs leaseMs : Option ℕ)
  | ackLease (recipientDeviceId leaseId : String)
  | health

/-- What a call reads from outside: its clock, and the eighteen bytes of a lease id. -/
structure Draws where
  clock : StoreClock
  lease : List UInt8
  lease_length : lease.length = 18

/-- What a relay says of itself: the fields of its report that storage does not count. -/
structure RelayFace where
  relayId : String
  version : String
  identity : RelayIdentity

section Handle

variable {Value : Type} (serde : Serde Value) (cfg : RelayConfig) (choice : HolderChoice)
  (face : RelayFace)

/-- The call of the storage that a request makes, where it does not wait. -/
def RelayRequest.toOp (source : String) (draws : Draws) : RelayRequest Value → Op Value
  | .store recipient envelope => .store draws.clock source recipient envelope
  | .fetch recipient limit _ => .fetch draws.clock.now recipient limit
  | .fetchLeased recipient limit _ leaseMs =>
    .fetchLeased draws.clock.now recipient limit leaseMs (base64Standard draws.lease)
  | .ackLease recipient leaseId => .acknowledge recipient leaseId
  | .health => .stats draws.clock.now

/-- What the storage answered, as a response. A call that hangs answers nothing. -/
def Reply.toResponse : Reply → Option (RelayResponse Value)
  | .stored => some RelayResponse.storedOk
  | .taken t => some (RelayResponse.leased (t.messages serde) t.leaseId)
  | .acknowledged => some (RelayResponse.okWith none)
  | .stats counts => some (RelayResponse.okWith (some
      { relayId := face.relayId
        version := face.version
        counts := counts
        ttlSeconds := cfg.ttlSeconds
        maxQueuePerMailbox := cfg.maxQueuePerMailbox
        maxFetchLimit := cfg.maxFetchLimit
        identityPublicKey := face.identity.publicKeyB64 }))
  | .restarted => none
  | .refused error => some (RelayResponse.failed error)
  | .hangs => none

/-- `handle_request_for`, for a request that does not wait. -/
def handleRequestFor (state : RelayState) (request : RelayRequest Value) (source : String)
    (draws : Draws) : Option RelayState × Option (RelayResponse Value) :=
  ((state.exec serde cfg choice (request.toOp source draws)).1,
    (state.exec serde cfg choice (request.toOp source draws)).2.toResponse serde cfg face)

end Handle

end Relay
end Conest
