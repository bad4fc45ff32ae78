import Conest.Group.Event

/-!
# The text form of events

`encode` is the canonical JSON text of an event, with sorted keys, and `decode` reads such a text:
the thirteen fields and no others, each of its type, the checks of `_validateBody`, and the digest
of what is signed. The JSON library works on UTF-8 bytes here and is a parameter, as the hash is.

An event that was decoded is decoded from its own text again, to itself (`decode_encode`), if the
library reads back what it writes.
-/

namespace Conest
namespace Group

open Lib List

variable {a b : List (DartString × Except String Json)}

def groupEventMaxBytes : ℕ := 128 * 1024

/-- What the codec takes from the libraries: JSON texts as UTF-8 bytes, and digests. -/
structure Codec where
  jsonEncode : Json → Bytes
  jsonDecode : Bytes → Except String Json
  sha256 : Bytes → DartString

/-! ### Encoding -/

namespace GroupHistoryEvent

variable (event : GroupHistoryEvent)

/-- What is signed, as the source lists it. -/
def body : List (DartString × Json) :=
  [(DartString.ofString "version", .int 1),
    (DartString.ofString "groupId", .str event.groupId),
    (DartString.ofString "authorAccountId", .str event.authorAccountId),
    (DartString.ofString "authorDeviceId", .str event.authorDeviceId),
    (DartString.ofString "signingPublicKeyBase64", .str event.signingPublicKeyBase64),
    (DartString.ofString "sequence", .int event.sequence),
    (DartString.ofString "previousEventId", (event.previousEventId.map Json.str).getD .null),
    (DartString.ofString "lamport", .int event.lamport),
    (DartString.ofString "membershipId", .str event.membershipId),
    (DartString.ofString "kind", .str event.kind.name),
    (DartString.ofString "payload", .obj event.payload)]

def toJson : List (DartString × Json) :=
  event.body ++ [(DartString.ofString "eventId", .str event.eventId),
    (DartString.ofString "signatureBase64", .str event.signatureBase64)]

/-- The object with its keys in order. -/
def canonicalJson : Json := .obj (sortByKey event.toJson)

end GroupHistoryEvent

namespace Codec

variable (codec : Codec)

def encode (event : GroupHistoryEvent) : Bytes := codec.jsonEncode event.canonicalJson

def signingBytes (event : GroupHistoryEvent) : Bytes :=
  "conest.group-event.v1\n".toList.map (fun c => UInt8.ofNat c.toNat) ++
    codec.jsonEncode (.obj (sortByKey event.body))

end Codec

/-! ### Decoding -/

/-- The names of the fields. -/
def eventFields : List DartString :=
  ["version", "groupId", "authorAccountId", "authorDeviceId", "signingPublicKeyBase64", "sequence",
    "previousEventId", "lamport", "membershipId", "kind", "payload", "eventId",
    "signatureBase64"].map DartString.ofString

/-- The value of a key, `null` where there is none. -/
def fieldAt (entries : List (DartString × Json)) (key : String) : Json :=
  ((entries.find? fun entry => entry.1 == DartString.ofString key).map Prod.snd).getD .null

/-- What a failed cast becomes. -/
def fieldsError : String := "Invalid group event fields."

def asString : Json → Except String DartString
  | .str s => .ok s
  | _ => .error fieldsError

def asOptionalString : Json → Except String (Option DartString)
  | .null => .ok none
  | .str s => .ok (some s)
  | _ => .error fieldsError

def asInt : Json → Except String ℤ
  | .int n => .ok n
  | _ => .error fieldsError

/-- `GroupEventKind.values.byName`. -/
def kindByName (name : DartString) : Except String GroupEventKind :=
  match [GroupEventKind.message, .edit, .deletion, .reaction, .attachment, .receipt,
    .membership].find? fun kind => kind.name == name with
  | some kind => .ok kind
  | none => .error fieldsError

def asMap : Json → Except String (List (DartString × Json))
  | .obj entries => .ok entries
  | _ => .error fieldsError

/-- The fields of an event before they are checked. -/
structure Draft where
  eventId : DartString
  groupId : DartString
  authorAccountId : DartString
  authorDeviceId : DartString
  signingPublicKeyBase64 : DartString
  sequence : ℤ
  previousEventId : Option DartString
  lamport : ℤ
  membershipId : DartString
  kind : GroupEventKind
  payload : List (DartString × Json)
  signatureBase64 : DartString

/-- Read the fields, in the order in which the source does. -/
def readDraft (entries : List (DartString × Json)) : Except String Draft := do
  let eventId ← asString (fieldAt entries "eventId")
  let groupId ← asString (fieldAt entries "groupId")
  let authorAccountId ← asString (fieldAt entries "authorAccountId")
  let authorDeviceId ← asString (fieldAt entries "authorDeviceId")
  let signingPublicKeyBase64 ← asString (fieldAt entries "signingPublicKeyBase64")
  let sequence ← asInt (fieldAt entries "sequence")
  let previousEventId ← asOptionalString (fieldAt entries "previousEventId")
  let lamport ← asInt (fieldAt entries "lamport")
  let membershipId ← asString (fieldAt entries "membershipId")
  let kind ← kindByName (← asString (fieldAt entries "kind"))
  let payload ← asMap (← freeze (fieldAt entries "payload") 0)
  let signatureBase64 ← asString (fieldAt entries "signatureBase64")
  return ⟨eventId, groupId, authorAccountId, authorDeviceId, signingPublicKeyBase64, sequence,
    previousEventId, lamport, membershipId, kind, payload, signatureBase64⟩

/-- The counters and references, as `_validateBody` wants them. -/
structure Draft.CountersValid (draft : Draft) : Prop where
  one_le_sequence : 1 ≤ draft.sequence
  sequence_le : draft.sequence ≤ groupEventMaxCounter
  sequence_le_lamport : draft.sequence ≤ draft.lamport
  lamport_le : draft.lamport ≤ groupEventMaxCounter
  previous : if draft.sequence = 1 then draft.previousEventId = none
    else (draft.previousEventId.map DartString.isDigest) = some true
  membershipId_digest : draft.membershipId.isDigest
  signingKey_length : (draft.signingPublicKeyBase64.base64Decode.map List.length) = some 32

instance (draft : Draft) : Decidable draft.CountersValid :=
  decidable_of_iff (1 ≤ draft.sequence ∧ draft.sequence ≤ groupEventMaxCounter ∧
      draft.sequence ≤ draft.lamport ∧ draft.lamport ≤ groupEventMaxCounter ∧
      (if draft.sequence = 1 then draft.previousEventId = none
        else (draft.previousEventId.map DartString.isDigest) = some true) ∧
      draft.membershipId.isDigest ∧
      (draft.signingPublicKeyBase64.base64Decode.map List.length) = some 32)
    ⟨fun ⟨h1, h2, h3, h4, h5, h6, h7⟩ => ⟨h1, h2, h3, h4, h5, h6, h7⟩,
      fun ⟨h1, h2, h3, h4, h5, h6, h7⟩ => ⟨h1, h2, h3, h4, h5, h6, h7⟩⟩

/-- The checks on the fields. Where `base64Decode` throws, the source's exception is that of
`dart:convert`. A payload that is frozen fails to freeze one level down only for its depth. -/
def Draft.check (codec : Codec) (draft : Draft) : Except String GroupHistoryEvent :=
  if identities : isIdentity draft.groupId ∧ isIdentity draft.authorAccountId ∧
      isIdentity draft.authorDeviceId then
    if counters : draft.CountersValid then
      if digests : draft.eventId.isDigest ∧
          (draft.signatureBase64.base64Decode.map List.length) = some 64 then
        if frozen : freeze (.obj draft.payload) 1 = .ok (.obj draft.payload) then
          let event : GroupHistoryEvent :=
            { eventId := draft.eventId
              groupId := draft.groupId
              authorAccountId := draft.authorAccountId
              authorDeviceId := draft.authorDeviceId
              signingPublicKeyBase64 := draft.signingPublicKeyBase64
              sequence := draft.sequence.toNat
              previousEventId := draft.previousEventId
              lamport := draft.lamport.toNat
              membershipId := draft.membershipId
              kind := draft.kind
              payload := draft.payload
              signatureBase64 := draft.signatureBase64
              eventId_digest := digests.1
              identities := identities
              one_le_sequence := by
                have h := counters.one_le_sequence
                omega
              sequence_le_lamport := Int.toNat_le_toNat counters.sequence_le_lamport
              lamport_le := by
                have h := counters.lamport_le
                omega
              previous := by
                have h := counters.previous
                have hone := counters.one_le_sequence
                have hiff : draft.sequence.toNat = 1 ↔ draft.sequence = 1 := by omega
                rw [if_congr hiff rfl rfl]
                exact h
              membershipId_digest := counters.membershipId_digest
              signingKey_length := counters.signingKey_length
              signature_length := digests.2
              payload_frozen := frozen }
          if codec.sha256 (codec.signingBytes event) ≠ event.eventId then
            .error "Invalid group event digest/signature."
          else .ok event
        else .error "Group payload is too deep."
      else .error "Invalid group event digest/signature."
    else .error "Invalid group event counter or reference."
  else .error "Invalid group event identity."

namespace Codec

variable (codec : Codec)

/-- The event in a JSON value. -/
def fromJson : Json → Except String GroupHistoryEvent
  | .obj entries =>
    if fieldAt entries "version" ≠ .int 1 ∨ entries.length ≠ eventFields.length ∨
        ¬ entries.all fun entry => entry.1 ∈ eventFields then
      .error "Unsupported group event format."
    else
      match readDraft entries with
      | .error e => .error e
      | .ok draft => draft.check codec
  | _ => .error "Unsupported group event format."

def decode (encoded : Bytes) : Except String GroupHistoryEvent :=
  if encoded.length > groupEventMaxBytes then .error "Group event is too large."
  else
    match codec.jsonDecode encoded with
    | .error e => .error e
    | .ok json => codec.fromJson json

end Codec

/-! ### Frozen values -/

/-- The entries of `b` are those of `a`, and what is a value there is the same value here. -/
def Improves (a b : List (DartString × Except String Json)) : Prop :=
  List.Forall₂ (fun x y => x.1 = y.1 ∧ ∀ value, x.2 = .ok value → y.2 = .ok value) a b

theorem Improves.insertEntry (h : Improves a b) (key : DartString) {x y : Except String Json}
    (hxy : ∀ value, x = .ok value → y = .ok value) :
    Improves (insertEntry key x a) (insertEntry key y b) := by
  induction h with
  | nil => exact List.Forall₂.cons ⟨rfl, hxy⟩ List.Forall₂.nil
  | @cons p q a b hpq hab ih =>
  obtain ⟨k', v'⟩ := q
  obtain ⟨hk, hv⟩ := hpq
  subst hk
  unfold Group.insertEntry
  split
  · exact List.Forall₂.cons ⟨rfl, hxy⟩ (List.Forall₂.cons ⟨rfl, hv⟩ hab)
  · split
    · exact List.Forall₂.cons ⟨rfl, hxy⟩ hab
    · exact List.Forall₂.cons ⟨rfl, hv⟩ ih

theorem Improves.sortByKey (h : Improves a b) : Improves (sortByKey a) (sortByKey b) := by
  have hfold : ∀ s t, Improves s t →
      Improves (a.foldl (fun sorted entry => Group.insertEntry entry.1 entry.2 sorted) s)
        (b.foldl (fun sorted entry => Group.insertEntry entry.1 entry.2 sorted) t) := by
    induction h with
    | nil => intro s t hst; exact hst
    | @cons x y a b hxy hab ih =>
      intro s t hst
      rw [foldl_cons, foldl_cons, ← hxy.1]
      exact ih _ _ (hst.insertEntry x.1 hxy.2)
  exact hfold [] [] List.Forall₂.nil

theorem Improves.collect (h : Improves a b) {l : List (DartString × Json)}
    (hok : collect a = .ok l) : collect b = .ok l := by
  induction h generalizing l with
  | nil => exact hok
  | @cons x y a b hxy hab ih =>
  obtain ⟨key, value⟩ := x
  obtain ⟨key', value'⟩ := y
  obtain ⟨hkey, hvalue⟩ := hxy
  dsimp only at hkey hvalue
  subst hkey
  cases value with
  | error e => cases hok
  | ok value =>
  rw [hvalue value rfl]
  simp only [Group.collect] at hok ⊢
  cases hrest : Group.collect a with
  | error e => rw [hrest] at hok; cases hok
  | ok rest =>
    rw [hrest] at hok
    rw [ih hrest]
    exact hok

mutual

theorem freeze_shallower (value : Json) (depth : ℕ) {frozen : Json}
    (hok : freeze value (depth + 1) = .ok frozen) : freeze value depth = .ok frozen := by
  unfold freeze at hok ⊢
  split at hok
  · cases hok
  next hdepth =>
  rw [if_neg (by omega)]
  match value with
  | .null | .bool b | .str s | .int n => exact hok
  | .list elements =>
    dsimp only at hok ⊢
    cases hlist : freezeList elements (depth + 1 + 1) with
    | error e => rw [hlist] at hok; cases hok
    | ok rest =>
      rw [hlist] at hok
      rw [freezeList_shallower elements (depth + 1) hlist]
      exact hok
  | .obj entries =>
    dsimp only at hok ⊢
    cases hcollect : collect (sortByKey (freezeEntries entries (depth + 1 + 1))) with
    | error e => rw [hcollect] at hok; cases hok
    | ok rest =>
      rw [hcollect] at hok
      rw [(freezeEntries_shallower entries (depth + 1)).sortByKey.collect hcollect]
      exact hok

theorem freezeList_shallower (elements : List Json) (depth : ℕ) {frozen : List Json}
    (hok : freezeList elements (depth + 1) = .ok frozen) :
    freezeList elements depth = .ok frozen := by
  match elements with
  | [] => exact hok
  | value :: rest =>
    unfold freezeList at hok ⊢
    cases hvalue : freeze value (depth + 1) with
    | error e => rw [hvalue] at hok; cases hok
    | ok v =>
    cases hrest : freezeList rest (depth + 1) with
    | error e => rw [hvalue, hrest] at hok; cases hok
    | ok vs =>
      rw [hvalue, hrest] at hok
      rw [freeze_shallower value depth hvalue, freezeList_shallower rest depth hrest]
      exact hok

theorem freezeEntries_shallower (entries : List (DartString × Json)) (depth : ℕ) :
    Improves (freezeEntries entries (depth + 1)) (freezeEntries entries depth) := by
  match entries with
  | [] => exact List.Forall₂.nil
  | (key, value) :: rest =>
    unfold freezeEntries
    refine List.Forall₂.cons ⟨rfl, ?_⟩ (freezeEntries_shallower rest depth)
    intro frozen hok
    exact freeze_shallower value depth hok

end

/-! ### Decoding what was encoded -/

/-- Entries with values that did not fail. -/
def succeeded (entries : List (DartString × Json)) : List (DartString × Except String Json) :=
  entries.map fun entry => (entry.1, .ok entry.2)

theorem collect_succeeded (entries : List (DartString × Json)) :
    collect (succeeded entries) = .ok entries := by
  induction entries with
  | nil => rfl
  | cons entry entries ih =>
    unfold succeeded at ih ⊢
    rw [map_cons, collect, ih]
    rfl

variable {event : GroupHistoryEvent} {codec : Codec}

namespace GroupHistoryEvent

theorem sortByKey_toJson (event : GroupHistoryEvent) : sortByKey event.toJson =
    [(DartString.ofString "authorAccountId", .str event.authorAccountId),
      (DartString.ofString "authorDeviceId", .str event.authorDeviceId),
      (DartString.ofString "eventId", .str event.eventId),
      (DartString.ofString "groupId", .str event.groupId),
      (DartString.ofString "kind", .str event.kind.name),
      (DartString.ofString "lamport", .int event.lamport),
      (DartString.ofString "membershipId", .str event.membershipId),
      (DartString.ofString "payload", .obj event.payload),
      (DartString.ofString "previousEventId", (event.previousEventId.map Json.str).getD .null),
      (DartString.ofString "sequence", .int event.sequence),
      (DartString.ofString "signatureBase64", .str event.signatureBase64),
      (DartString.ofString "signingPublicKeyBase64", .str event.signingPublicKeyBase64),
      (DartString.ofString "version", .int 1)] := rfl

/-- The fields of an event, as they are read. -/
def draft (event : GroupHistoryEvent) : Draft :=
  ⟨event.eventId, event.groupId, event.authorAccountId, event.authorDeviceId,
    event.signingPublicKeyBase64, event.sequence, event.previousEventId, event.lamport,
    event.membershipId, event.kind, event.payload, event.signatureBase64⟩

theorem fieldAt_of_mem {key : String} {value : Json}
    (hmem : (DartString.ofString key, value) ∈ sortByKey event.toJson) :
    fieldAt (sortByKey event.toJson) key = value := by
  have hnodup : ((sortByKey event.toJson).map Prod.fst).Nodup := by
    rw [sortByKey_toJson]
    simp only [map_cons, map_nil]
    decide
  exact Json.valueAt_of_mem hnodup hmem

theorem kindByName_name (event : GroupHistoryEvent) :
    kindByName event.kind.name = .ok event.kind := by
  cases event.kind with
  | _ => rfl

theorem readDraft_toJson (event : GroupHistoryEvent) :
    readDraft (sortByKey event.toJson) = .ok event.draft := by
  have hfield : ∀ (i : ℕ) (key : String) (value : Json),
      (sortByKey event.toJson)[i]? = some (DartString.ofString key, value) →
        fieldAt (sortByKey event.toJson) key = value :=
    fun i key value hi => fieldAt_of_mem (mem_of_getElem? hi)
  rw [sortByKey_toJson] at hfield ⊢
  have hcast : asOptionalString ((event.previousEventId.map Json.str).getD .null) =
      .ok event.previousEventId := by
    cases event.previousEventId with
    | none => rfl
    | some id => rfl
  have hpayload := freeze_shallower (.obj event.payload) 0 event.payload_frozen
  unfold readDraft
  rw [hfield 2 "eventId" _ rfl, hfield 3 "groupId" _ rfl, hfield 0 "authorAccountId" _ rfl,
    hfield 1 "authorDeviceId" _ rfl, hfield 11 "signingPublicKeyBase64" _ rfl,
    hfield 9 "sequence" _ rfl, hfield 8 "previousEventId" _ rfl, hfield 5 "lamport" _ rfl,
    hfield 6 "membershipId" _ rfl, hfield 4 "kind" _ rfl, hfield 7 "payload" _ rfl,
    hfield 10 "signatureBase64" _ rfl, hcast, hpayload]
  simp only [asString, asInt, asMap, kindByName_name, bind, Except.bind, pure, Except.pure]
  rfl

theorem check_draft (hdigest : codec.sha256 (codec.signingBytes event) = event.eventId) :
    event.draft.check codec = .ok event := by
  have hidentities : isIdentity event.draft.groupId ∧ isIdentity event.draft.authorAccountId ∧
      isIdentity event.draft.authorDeviceId := event.identities
  have hcounters : event.draft.CountersValid := by
    have hone := event.one_le_sequence
    have hle := event.sequence_le_lamport
    have hmax := event.lamport_le
    refine ⟨?_, ?_, ?_, ?_, ?_, event.membershipId_digest, event.signingKey_length⟩
    · exact Int.ofNat_le.mpr hone
    · exact Int.ofNat_le.mpr (hle.trans hmax)
    · exact Int.ofNat_le.mpr hle
    · exact Int.ofNat_le.mpr hmax
    · have hiff : event.draft.sequence = 1 ↔ event.sequence = 1 := Int.ofNat_inj
      rw [if_congr hiff rfl rfl]
      exact event.previous
  have hdigests : event.draft.eventId.isDigest ∧
      (event.draft.signatureBase64.base64Decode.map length) = some 64 :=
    ⟨event.eventId_digest, event.signature_length⟩
  have hfrozen : freeze (.obj event.draft.payload) 1 = .ok (.obj event.draft.payload) :=
    event.payload_frozen
  unfold Draft.check
  rw [dif_pos hidentities, dif_pos hcounters, dif_pos hdigests, dif_pos hfrozen]
  exact if_neg (not_not_intro hdigest)

end GroupHistoryEvent

namespace Codec

theorem digest_of_check {draft : Draft} (hok : draft.check codec = .ok event) :
    codec.sha256 (codec.signingBytes event) = event.eventId := by
  unfold Draft.check at hok
  by_cases hidentities : isIdentity draft.groupId ∧ isIdentity draft.authorAccountId ∧
      isIdentity draft.authorDeviceId
  swap
  · rw [dif_neg hidentities] at hok
    cases hok
  rw [dif_pos hidentities] at hok
  by_cases hcounters : draft.CountersValid
  swap
  · rw [dif_neg hcounters] at hok
    cases hok
  rw [dif_pos hcounters] at hok
  by_cases hdigests : draft.eventId.isDigest ∧
      (draft.signatureBase64.base64Decode.map length) = some 64
  swap
  · rw [dif_neg hdigests] at hok
    cases hok
  rw [dif_pos hdigests] at hok
  by_cases hfrozen : freeze (.obj draft.payload) 1 = .ok (.obj draft.payload)
  swap
  · rw [dif_neg hfrozen] at hok
    cases hok
  rw [dif_pos hfrozen] at hok
  dsimp only at hok
  by_contra hne
  split at hok
  · cases hok
  next hsame =>
  obtain rfl := Except.ok.inj hok
  exact hne (not_not.mp hsame)

theorem digest_of_decode {encoded : Bytes} (hok : codec.decode encoded = .ok event) :
    codec.sha256 (codec.signingBytes event) = event.eventId := by
  unfold decode at hok
  split at hok
  · cases hok
  cases hjson : codec.jsonDecode encoded with
  | error e => rw [hjson] at hok; cases hok
  | ok json =>
  rw [hjson] at hok
  cases json with
  | obj entries =>
    simp only [fromJson] at hok
    split at hok
    · cases hok
    cases hdraft : readDraft entries with
    | error e => rw [hdraft] at hok; cases hok
    | ok draft =>
      rw [hdraft] at hok
      exact digest_of_check hok
  | _ => cases hok

theorem fromJson_canonicalJson
    (hdigest : codec.sha256 (codec.signingBytes event) = event.eventId) :
    codec.fromJson event.canonicalJson = .ok event := by
  have hformat : ¬ (fieldAt (sortByKey event.toJson) "version" ≠ .int 1 ∨
      (sortByKey event.toJson).length ≠ eventFields.length ∨
      ¬ (sortByKey event.toJson).all fun entry => entry.1 ∈ eventFields) := by
    have hversion : fieldAt (sortByKey event.toJson) "version" = .int 1 := by
      refine GroupHistoryEvent.fieldAt_of_mem ?_
      rw [event.sortByKey_toJson]
      exact mem_of_getElem? (i := 12) rfl
    have hkeys : ∀ key ∈ (sortByKey event.toJson).map Prod.fst, key ∈ eventFields := by
      rw [event.sortByKey_toJson]
      simp only [map_cons, map_nil]
      decide
    rw [hversion]
    simp only [ne_eq, not_true, false_or, not_or, not_not, all_eq_true, decide_eq_true_eq]
    refine ⟨by rw [event.sortByKey_toJson]; rfl, fun entry hentry => ?_⟩
    exact hkeys entry.1 (mem_map_of_mem hentry)
  unfold GroupHistoryEvent.canonicalJson
  rw [fromJson, if_neg hformat, event.readDraft_toJson]
  exact GroupHistoryEvent.check_draft hdigest

/-- **An event that was decoded is decoded from its own text**, to itself, unless the text is too
large. -/
theorem decode_encode {encoded : Bytes} (hdecoded : codec.decode encoded = .ok event)
    (hjson : codec.jsonDecode (codec.jsonEncode event.canonicalJson) = .ok event.canonicalJson) :
    codec.decode (codec.encode event) = .ok event ∨
      codec.decode (codec.encode event) = .error "Group event is too large." := by
  unfold decode
  split
  · exact .inr rfl
  refine .inl ?_
  unfold encode
  rw [hjson]
  exact fromJson_canonicalJson (digest_of_decode hdecoded)

end Codec

end Group
end Conest
