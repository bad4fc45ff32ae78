import Conest.Group.Freezing

/-!
# Signing an event

`sign` freezes the payload of a draft, checks the draft, hashes and signs its canonical text, and
decodes the JSON of the result. What the library reads back of a text that it wrote is taken to be the
value that was written, so the decoding here is that of the value.

A signed event has the fields of the draft, and for a payload the frozen one (`fields_of_sign`).
-/

namespace Conest
namespace Group

open Lib List Option

/-- What is signed, as the source lists it. -/
def Draft.body (draft : Draft) : List (DartString × Json) :=
  [(DartString.ofString "version", .int 1),
    (DartString.ofString "groupId", .str draft.groupId),
    (DartString.ofString "authorAccountId", .str draft.authorAccountId),
    (DartString.ofString "authorDeviceId", .str draft.authorDeviceId),
    (DartString.ofString "signingPublicKeyBase64", .str draft.signingPublicKeyBase64),
    (DartString.ofString "sequence", .int draft.sequence),
    (DartString.ofString "previousEventId", (draft.previousEventId.map Json.str).getD .null),
    (DartString.ofString "lamport", .int draft.lamport),
    (DartString.ofString "membershipId", .str draft.membershipId),
    (DartString.ofString "kind", .str draft.kind.name),
    (DartString.ofString "payload", .obj draft.payload)]

/-- The body with the digest and the signature. -/
def Draft.toJson (draft : Draft) : List (DartString × Json) :=
  draft.body ++ [(DartString.ofString "eventId", Json.str draft.eventId),
    (DartString.ofString "signatureBase64", Json.str draft.signatureBase64)]

/-- `_validateBody`. -/
def Draft.validateBody (draft : Draft) : Except String Unit :=
  if ¬ (isIdentity draft.groupId ∧ isIdentity draft.authorAccountId ∧
      isIdentity draft.authorDeviceId) then
    .error "Invalid group event identity."
  else if ¬ draft.CountersValid then .error "Invalid group event counter or reference."
  else .ok ()

/-- `_canonical` of the body, behind the domain. -/
def Draft.signingBytes (codec : Codec) (draft : Draft) : Except String Bytes :=
  match freeze (.obj draft.body) 0 with
  | .error e => .error e
  | .ok canonical =>
    .ok ("conest.group-event.v1\n".toList.map (fun c => UInt8.ofNat c.toNat) ++
      codec.jsonEncode canonical)

/-- What signs: a public key, and the signatures under its private key in base64. -/
structure KeyPair where
  publicKeyBase64 : DartString
  sign : Bytes → DartString

namespace Codec

variable (codec : Codec)

/-- Hash, sign and decode a draft whose payload is frozen. -/
def signFrozen (keyPair : KeyPair) (draft : Draft) : Except String GroupHistoryEvent :=
  match draft.validateBody with
  | .error e => .error e
  | .ok () =>
    match draft.signingBytes codec with
    | .error e => .error e
    | .ok bytes =>
      if bytes.length > groupEventMaxBytes then .error "Group event is too large."
      else
        let signed : Draft :=
          { draft with eventId := codec.sha256 bytes, signatureBase64 := keyPair.sign bytes }
        if (codec.jsonEncode (.obj signed.toJson)).length > groupEventMaxBytes then
          .error "Group event is too large."
        else codec.fromJson (.obj signed.toJson)

/-- `sign`. The draft comes with its payload as the caller gives it. -/
def sign (keyPair : KeyPair) (draft : Draft) : Except String GroupHistoryEvent :=
  match freeze (.obj draft.payload) 0 with
  | .error e => .error e
  | .ok frozen =>
    match asMap frozen with
    | .error e => .error e
    | .ok payload =>
      codec.signFrozen keyPair
        { draft with signingPublicKeyBase64 := keyPair.publicKeyBase64, payload := payload }

end Codec

/-! ### The fields of a signed event -/

variable {codec : Codec} {draft : Draft} {event : GroupHistoryEvent}

theorem fields_of_check (hok : draft.check codec = .ok event) : event.draft = draft := by
  unfold Draft.check at hok
  split at hok
  swap
  · cases hok
  split at hok
  swap
  · cases hok
  next hcounters =>
  split at hok
  swap
  · cases hok
  split at hok
  swap
  · cases hok
  dsimp only at hok
  split at hok
  · cases hok
  obtain rfl := Except.ok.inj hok
  have hone := hcounters.one_le_sequence
  have hle := hcounters.sequence_le_lamport
  have hsequence : ((draft.sequence.toNat : ℕ) : ℤ) = draft.sequence :=
    Int.toNat_of_nonneg (by omega)
  have hlamport : ((draft.lamport.toNat : ℕ) : ℤ) = draft.lamport :=
    Int.toNat_of_nonneg (by omega)
  unfold GroupHistoryEvent.draft
  rw [hsequence, hlamport]

theorem readDraft_of_draft (hfrozen : freeze (.obj draft.payload) 0 = .ok (.obj draft.payload)) :
    readDraft draft.toJson = .ok draft := by
  have hnodup : (draft.toJson.map Prod.fst).Nodup := by
    unfold Draft.toJson Draft.body
    simp only [cons_append, nil_append, map_cons, map_nil]
    decide
  have hfield : ∀ (i : ℕ) (key : String) (value : Json),
      draft.toJson[i]? = some (DartString.ofString key, value) → fieldAt draft.toJson key = value :=
    fun i key value hi => fieldAt_eq_of_mem hnodup (mem_of_getElem? hi)
  have hcast : asOptionalString ((draft.previousEventId.map Json.str).getD .null) =
      .ok draft.previousEventId := by
    cases draft.previousEventId with
    | none => rfl
    | some id => rfl
  have hkind : kindByName draft.kind.name = .ok draft.kind := by
    cases draft.kind with
    | _ => rfl
  unfold readDraft
  rw [hfield 11 "eventId" _ rfl, hfield 1 "groupId" _ rfl, hfield 2 "authorAccountId" _ rfl,
    hfield 3 "authorDeviceId" _ rfl, hfield 4 "signingPublicKeyBase64" _ rfl,
    hfield 5 "sequence" _ rfl, hfield 6 "previousEventId" _ rfl, hfield 7 "lamport" _ rfl,
    hfield 8 "membershipId" _ rfl, hfield 9 "kind" _ rfl, hfield 10 "payload" _ rfl,
    hfield 12 "signatureBase64" _ rfl, hcast, hfrozen]
  simp[asString, asInt, asMap, hkind, bind, Except.bind, pure, Except.pure]

/-- **A signed event has the fields of its draft**, and the frozen payload. -/
theorem fields_of_sign {keyPair : KeyPair} (hok : codec.sign keyPair draft = .ok event) :
    event.authorDeviceId = draft.authorDeviceId ∧ event.kind = draft.kind ∧
      (event.lamport : ℤ) = draft.lamport ∧
      freeze (.obj draft.payload) 0 = .ok (.obj event.payload) := by
  unfold Codec.sign at hok
  cases hfreeze : freeze (.obj draft.payload) 0 with
  | error e => rw [hfreeze] at hok; cases hok
  | ok frozen =>
  rw [hfreeze] at hok
  cases frozen with
  | obj payload =>
    dsimp only [asMap] at hok
    unfold Codec.signFrozen at hok
    split at hok
    · cases hok
    split at hok
    · cases hok
    next bytes _ =>
    split at hok
    · cases hok
    dsimp only at hok
    split at hok
    · cases hok
    simp only [Codec.fromJson] at hok
    split at hok
    · cases hok
    have hfrozen := freeze_frozen (.obj draft.payload) 0 hfreeze
    rw [readDraft_of_draft (by exact hfrozen)] at hok
    have hfields := fields_of_check hok
    -- the draft of the event is the one that was checked
    exact ⟨congrArg Draft.authorDeviceId hfields, congrArg Draft.kind hfields,
      congrArg Draft.lamport hfields,
      congrArg (fun d => Except.ok (Json.obj (Draft.payload d))) hfields.symm⟩
  | _ => cases hok

end Group
end Conest
