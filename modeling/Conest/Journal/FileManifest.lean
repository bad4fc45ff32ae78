import Conest.Group.Freezing

/-!
# The manifest of a file in an attachment event

A `GroupFileManifest` describes a shared file. `toPayload` is its form in the payload of the signed
event and `fromPayload` reads it back, with the checks of the constructor. The payload is frozen when
the event is signed; its fields are found in it as they were written.

The waveform of a voice message is written as it is and clamped to bytes when it is read, so a manifest
comes back as its `clamped` form (`fromPayload_of_freeze`).
-/

namespace Conest
namespace Journal

open Lib Conest.Group List Option

/-! ### Voice messages -/

/-- What a voice message carries beside its audio. -/
structure VoiceMessageMetadata where
  durationMs : ℤ
  waveform : List ℤ
  codec : DartString
  container : DartString
deriving DecidableEq

/-- What a failed cast in a manifest becomes. -/
def manifestFieldsError : String := "Invalid group file manifest fields."

/-- `clamp(0, 255)`. -/
def clampByte (n : ℤ) : ℤ := max 0 (min 255 n)

/-- The integers of a list, as `whereType<num>` finds them. -/
def intsOf (elements : List Json) : List ℤ :=
  elements.filterMap fun value =>
    match value with
    | .int n => some n
    | _ => none

namespace VoiceMessageMetadata

def toJson (m : VoiceMessageMetadata) : List (DartString × Json) :=
  [(DartString.ofString "durationMs", .int m.durationMs),
    (DartString.ofString "waveform", .list ((m.waveform.take 256).map Json.int)),
    (DartString.ofString "codec", .str m.codec),
    (DartString.ofString "container", .str m.container)]

def fromJson (json : List (DartString × Json)) : Except String VoiceMessageMetadata := do
  let durationMs ←
    match fieldAt json "durationMs" with
    | .int n => .ok n
    | .null => .ok 0
    | _ => .error manifestFieldsError
  let waveform ←
    match fieldAt json "waveform" with
    | .list elements => .ok (((intsOf elements).map clampByte).take 256)
    | .null => .ok []
    | _ => .error manifestFieldsError
  let codec ←
    match fieldAt json "codec" with
    | .str s => .ok s
    | .null => .ok (DartString.ofString "opus")
    | _ => .error manifestFieldsError
  let container ←
    match fieldAt json "container" with
    | .str s => .ok s
    | .null => .ok (DartString.ofString "ogg")
    | _ => .error manifestFieldsError
  return ⟨durationMs, waveform, codec, container⟩

/-- The metadata as it is read back. -/
def clamped (m : VoiceMessageMetadata) : VoiceMessageMetadata :=
  { m with waveform := (m.waveform.take 256).map clampByte }

end VoiceMessageMetadata

/-! ### Manifests -/

def pieceSize : ℤ := 4 * 1024 * 1024

def maxFileSize : ℤ := 2 * 1024 * 1024 * 1024

/-- The fields of a manifest before they are checked. -/
structure FileDescription where
  fileName : DartString
  mimeType : DartString
  sizeBytes : ℤ
  fileHash : DartString
  pieceHashes : List DartString
  caption : DartString
  voiceMetadata : Option VoiceMessageMetadata
deriving DecidableEq

namespace FileDescription

/-- The checks of the constructor. `toLowerCase` is that of the strings. -/
def isValid (toLowerCase : DartString → DartString) (d : FileDescription) : Bool :=
  !d.fileName.isEmpty && decide (d.fileName.length ≤ 255) &&
    !(d.fileName.any fun u => u.val == 47 || u.val == 92 || decide (u.val < 32)) &&
    !d.mimeType.isEmpty && decide (d.mimeType.length ≤ 128) &&
    decide (d.caption.length ≤ 4096) && (d.caption.isEmpty || !d.caption.trim.isEmpty) &&
    decide (0 < d.sizeBytes) && decide (d.sizeBytes ≤ maxFileSize) &&
    decide ((d.pieceHashes.length : ℤ) = (d.sizeBytes + pieceSize - 1) / pieceSize) &&
    d.fileHash.isDigest && d.pieceHashes.all DartString.isDigest &&
    (d.voiceMetadata.all fun voice =>
      decide (0 < voice.durationMs) && decide (voice.durationMs ≤ 10 * 60 * 1000) &&
        voice.codec == DartString.ofString "opus" && voice.container == DartString.ofString "ogg" &&
        decide (DartString.ofString "ogg" <:+: toLowerCase d.mimeType))

def toPayload (d : FileDescription) : List (DartString × Json) :=
  [(DartString.ofString "version", .int (if d.caption.isEmpty then 1 else 2)),
    (DartString.ofString "fileName", .str d.fileName),
    (DartString.ofString "mimeType", .str d.mimeType)] ++
    (if d.caption.isEmpty then [] else [(DartString.ofString "caption", .str d.caption)]) ++
    [(DartString.ofString "sizeBytes", .int d.sizeBytes),
      (DartString.ofString "pieceSize", .int pieceSize),
      (DartString.ofString "fileHash", .str d.fileHash),
      (DartString.ofString "pieceHashes", .list (d.pieceHashes.map Json.str))] ++
    d.voiceMetadata.toList.map fun voice =>
      (DartString.ofString "voiceMetadata", Json.obj voice.toJson)

/-- The description as it is read back. -/
def clamped (d : FileDescription) : FileDescription :=
  { d with voiceMetadata := d.voiceMetadata.map VoiceMessageMetadata.clamped }

end FileDescription

/-- A description that passed the checks. -/
structure GroupFileManifest (toLowerCase : DartString → DartString) where
  description : FileDescription
  valid : description.isValid toLowerCase = true
deriving DecidableEq

namespace GroupFileManifest

variable (toLowerCase : DartString → DartString)

/-- The constructor. -/
def make (description : FileDescription) : Except String (GroupFileManifest toLowerCase) :=
  if valid : description.isValid toLowerCase = true then .ok ⟨description, valid⟩
  else .error "Invalid group file manifest."

/-- `as String`. -/
def castString : Json → Except String DartString
  | .str s => .ok s
  | _ => .error manifestFieldsError

/-- The elements of a list of strings. -/
def castStrings : List Json → Except String (List DartString)
  | [] => .ok []
  | .str s :: rest => (castStrings rest).map (s :: ·)
  | _ :: _ => .error manifestFieldsError

/-- The keys that a payload may have; it has all of them. -/
def allowedKeys (hasCaption hasOperationId hasVoiceMetadata : Bool) : List DartString :=
  ["version", "fileName", "mimeType", "sizeBytes", "pieceSize", "fileHash", "pieceHashes"].map
      DartString.ofString ++
    (if hasCaption then [DartString.ofString "caption"] else []) ++
    (if hasOperationId then [DartString.ofString "scheduledOperationId"] else []) ++
    if hasVoiceMetadata then [DartString.ofString "voiceMetadata"] else []

/-- The checks on the shape of a payload. -/
def supported (payload : List (DartString × Json)) : Bool :=
  let keys := allowedKeys (containsKey payload "caption")
    (containsKey payload "scheduledOperationId") (containsKey payload "voiceMetadata")
  (payload.all fun entry => entry.1 ∈ keys) && payload.length == keys.length &&
    (!containsKey payload "caption" ||
      match fieldAt payload "caption" with
      | .str caption => !caption.isEmpty && !caption.trim.isEmpty
      | _ => false) &&
    (!containsKey payload "scheduledOperationId" ||
      match fieldAt payload "scheduledOperationId" with
      | .str operationId => !operationId.isEmpty && decide (operationId.length ≤ 160)
      | _ => false) &&
    (fieldAt payload "version" = .int 1 ∨ fieldAt payload "version" = .int 2) &&
    (containsKey payload "caption" == decide (fieldAt payload "version" = .int 2)) &&
    fieldAt payload "pieceSize" = .int pieceSize

/-- `as int`. -/
def castInt : Json → Except String ℤ
  | .int n => .ok n
  | _ => .error manifestFieldsError

/-- `(… as List<Object?>).cast<String>()`. -/
def castStringList : Json → Except String (List DartString)
  | .list elements => castStrings elements
  | _ => .error manifestFieldsError

def rawVoiceMetadata (payload : List (DartString × Json)) :
    Except String (Option (List (DartString × Json))) :=
  if containsKey payload "voiceMetadata" then
    match fieldAt payload "voiceMetadata" with
    | .obj entries => .ok (some entries)
    | _ => .error "Invalid group voice metadata."
  else .ok none

def captionOf (payload : List (DartString × Json)) : Except String DartString :=
  if containsKey payload "caption" then castString (fieldAt payload "caption") else .ok []

def voiceMetadataOf : Option (List (DartString × Json)) →
    Except String (Option VoiceMessageMetadata)
  | none => .ok none
  | some entries => (VoiceMessageMetadata.fromJson entries).map some

def fromPayload (payload : List (DartString × Json)) :
    Except String (GroupFileManifest toLowerCase) := do
  let raw ← rawVoiceMetadata payload
  if !supported payload then throw "Unsupported group file manifest."
  let fileName ← castString (fieldAt payload "fileName")
  let mimeType ← castString (fieldAt payload "mimeType")
  let caption ← captionOf payload
  let sizeBytes ← castInt (fieldAt payload "sizeBytes")
  let fileHash ← castString (fieldAt payload "fileHash")
  let pieceHashes ← castStringList (fieldAt payload "pieceHashes")
  let voiceMetadata ← voiceMetadataOf raw
  make toLowerCase ⟨fileName, mimeType, sizeBytes, fileHash, pieceHashes, caption, voiceMetadata⟩

def fromEvent (event : GroupHistoryEvent) : Except String (GroupFileManifest toLowerCase) :=
  if event.kind ≠ .attachment then .error "Expected an attachment event."
  else fromPayload toLowerCase event.payload

end GroupFileManifest

/-! ### Reading the parts back -/

theorem castStrings_map (strings : List DartString) :
    GroupFileManifest.castStrings (strings.map Json.str) = .ok strings := by
  induction strings with
  | nil => rfl
  | cons s strings ih =>
    rw [map_cons, GroupFileManifest.castStrings, ih]
    rfl

theorem intsOf_map (ints : List ℤ) : intsOf (ints.map Json.int) = ints := by
  unfold intsOf
  rw [filterMap_map]
  exact filterMap_some

theorem VoiceMessageMetadata.fromJson_of_freeze (m : VoiceMessageMetadata) {depth : ℕ}
    {frozen : Json} (hok : freeze (.obj m.toJson) depth = .ok frozen) :
    ∃ entries, frozen = .obj entries ∧ fromJson entries = .ok m.clamped := by
  have hnodup : (m.toJson.map Prod.fst).Nodup := by
    unfold toJson
    simp only [map_cons, map_nil]
    decide
  obtain ⟨entries, rfl⟩ : ∃ entries, frozen = .obj entries := by
    unfold freeze at hok
    split at hok
    · cases hok
    dsimp only at hok
    cases hcollect : collect (sortByKey (freezeEntries m.toJson (depth + 1))) with
    | error e => rw [hcollect] at hok; cases hok
    | ok values =>
      rw [hcollect] at hok
      exact ⟨values, (Except.ok.inj hok).symm⟩
  have hfield : ∀ {key : String} {value : Json}, (DartString.ofString key, value) ∈ m.toJson →
      freeze value (depth + 1) = .ok (fieldAt entries key) := freeze_fieldAt hnodup hok
  have hduration : fieldAt entries "durationMs" = .int m.durationMs :=
    freeze_int_eq (hfield (mem_of_getElem? (i := 0) rfl))
  have hwaveform : fieldAt entries "waveform" = .list ((m.waveform.take 256).map Json.int) :=
    freeze_ints_eq (hfield (mem_of_getElem? (i := 1) rfl))
  have hcodec : fieldAt entries "codec" = .str m.codec :=
    freeze_str_eq (hfield (mem_of_getElem? (i := 2) rfl))
  have hcontainer : fieldAt entries "container" = .str m.container :=
    freeze_str_eq (hfield (mem_of_getElem? (i := 3) rfl))
  have hlength : ((m.waveform.take 256).map clampByte).length ≤ 256 := by
    rw [length_map]
    exact length_take_le _ _
  refine ⟨entries, rfl, ?_⟩
  unfold fromJson
  rw [hduration, hwaveform, hcodec, hcontainer]
  dsimp only
  rw [intsOf_map, take_of_length_le hlength]
  rfl

theorem FileDescription.isValid_clamped (toLowerCase : DartString → DartString)
    (d : FileDescription) : d.clamped.isValid toLowerCase = d.isValid toLowerCase := by
  unfold isValid clamped
  cases d.voiceMetadata with
  | none => rfl
  | some voice => rfl

/-- The payload that is signed for a scheduled file. -/
def FileDescription.scheduledPayload (d : FileDescription) (operationId : DartString) :
    List (DartString × Json) :=
  d.toPayload ++ [(DartString.ofString "scheduledOperationId", Json.str operationId)]

/-! ### The keys of a payload -/

theorem nodup_allowedKeys : ∀ hasCaption hasOperationId hasVoiceMetadata : Bool,
    (GroupFileManifest.allowedKeys hasCaption hasOperationId hasVoiceMetadata).Nodup := by
  decide

namespace FileDescription

variable (d : FileDescription) (operationId : DartString)

theorem keys_perm : ((d.scheduledPayload operationId).map Prod.fst).Perm
    (GroupFileManifest.allowedKeys (!d.caption.isEmpty) true d.voiceMetadata.isSome) := by
  unfold scheduledPayload toPayload
  cases d.voiceMetadata with
  | none =>
    cases d.caption.isEmpty with
    | true =>
      simp only [if_true, toList_none, map_append, map_cons, map_nil]
      decide
    | false =>
      simp only [Bool.false_eq_true, if_false, toList_none, map_append, map_cons,
        map_nil]
      decide
  | some voice =>
  rw [isSome_some]
  cases d.caption.isEmpty with
  | true =>
    simp only [if_true, toList_some, map_append, map_cons, map_nil]
    decide
  | false =>
    simp only [Bool.false_eq_true, if_false, toList_some, map_append, map_cons,
      map_nil]
    decide

theorem nodup_keys : ((d.scheduledPayload operationId).map Prod.fst).Nodup :=
  (d.keys_perm operationId).nodup_iff.mpr (nodup_allowedKeys _ _ _)

theorem containsKey_iff (key : String) :
    containsKey (d.scheduledPayload operationId) key = true ↔
      DartString.ofString key ∈
        GroupFileManifest.allowedKeys (!d.caption.isEmpty) true d.voiceMetadata.isSome := by
  rw [containsKey_eq_true, (d.keys_perm operationId).mem_iff]

end FileDescription

/-! ### Reading a manifest back -/

namespace GroupFileManifest

theorem optional_keys : ∀ hasCaption hasVoiceMetadata : Bool,
    (DartString.ofString "caption" ∈ allowedKeys hasCaption true hasVoiceMetadata ↔
        hasCaption = true) ∧
      DartString.ofString "scheduledOperationId" ∈ allowedKeys hasCaption true hasVoiceMetadata ∧
      (DartString.ofString "voiceMetadata" ∈ allowedKeys hasCaption true hasVoiceMetadata ↔
        hasVoiceMetadata = true) := by
  decide

section Reading

variable {toLowerCase : DartString → DartString} (manifest : GroupFileManifest toLowerCase)
  {operationId : DartString} {payload : List (DartString × Json)} {depth : ℕ}
  (hok : freeze (.obj (manifest.description.scheduledPayload operationId)) depth =
    .ok (.obj payload))

include hok

theorem containsKey_of_freeze :
    containsKey payload "caption" = !manifest.description.caption.isEmpty ∧
      containsKey payload "scheduledOperationId" = true ∧
      containsKey payload "voiceMetadata" = manifest.description.voiceMetadata.isSome := by
  have hkeys := optional_keys (!manifest.description.caption.isEmpty)
    manifest.description.voiceMetadata.isSome
  have hnodup := manifest.description.nodup_keys operationId
  refine ⟨?_, ?_, ?_⟩
  · rw [freeze_containsKey hnodup hok, Bool.eq_iff_iff, FileDescription.containsKey_iff]
    exact hkeys.1
  · rw [freeze_containsKey hnodup hok, FileDescription.containsKey_iff]
    exact hkeys.2.1
  · rw [freeze_containsKey hnodup hok, Bool.eq_iff_iff, FileDescription.containsKey_iff]
    exact hkeys.2.2

theorem freeze_field {key : String} {value : Json}
    (hmem : (DartString.ofString key, value) ∈
      manifest.description.scheduledPayload operationId) :
    freeze value (depth + 1) = .ok (fieldAt payload key) :=
  freeze_fieldAt (manifest.description.nodup_keys operationId) hok hmem

theorem operationId_of_freeze :
    fieldAt payload "scheduledOperationId" = .str operationId :=
  freeze_str_eq (freeze_field manifest hok
    (mem_append_right _ (mem_singleton_self _)))

theorem freeze_entry {key : String} {value : Json}
    (hmem : (DartString.ofString key, value) ∈ manifest.description.toPayload) :
    freeze value (depth + 1) = .ok (fieldAt payload key) :=
  freeze_field manifest hok (mem_append_left _ hmem)

theorem caption_of_freeze (hcaption : manifest.description.caption.isEmpty = false) :
    fieldAt payload "caption" = .str manifest.description.caption := by
  refine freeze_str_eq (freeze_entry manifest hok ?_)
  unfold FileDescription.toPayload
  simp [hcaption]

theorem version_of_freeze : fieldAt payload "version" =
    .int (if manifest.description.caption.isEmpty then 1 else 2) := by
  refine freeze_int_eq (freeze_entry manifest hok ?_)
  simp [FileDescription.toPayload]

theorem pieceSize_of_freeze : fieldAt payload "pieceSize" = .int pieceSize := by
  refine freeze_int_eq (freeze_entry manifest hok ?_)
  simp [FileDescription.toPayload]

theorem supported_of_freeze (hoperation : operationId ≠ [] ∧ operationId.length ≤ 160) :
    supported payload = true := by
  obtain ⟨hcaption, hoperationId, hvoice⟩ := containsKey_of_freeze manifest hok
  have hkeys := (freeze_keys (manifest.description.nodup_keys operationId) hok).trans
    (manifest.description.keys_perm operationId)
  have hallowed : (payload.all fun entry => decide (entry.1 ∈
      allowedKeys (!manifest.description.caption.isEmpty) true
        manifest.description.voiceMetadata.isSome)) = true := by
    rw [List.all_eq_true]
    intro entry hentry
    exact decide_eq_true (hkeys.mem_iff.mp (mem_map_of_mem hentry))
  have hlength : payload.length =
      (allowedKeys (!manifest.description.caption.isEmpty) true
        manifest.description.voiceMetadata.isSome).length := by
    rw [← hkeys.length_eq, length_map]
  have hnotEmpty : operationId.isEmpty = false := by
    rw [isEmpty_eq_false_iff]
    exact hoperation.1
  unfold supported
  dsimp only
  rw [hcaption, hoperationId, hvoice, hallowed, operationId_of_freeze manifest hok,
    version_of_freeze manifest hok, pieceSize_of_freeze manifest hok, hlength]
  cases hempty : manifest.description.caption.isEmpty with
  | true => simp [hnotEmpty, hoperation.2]
  | false =>
  have hvalid := manifest.valid
  unfold FileDescription.isValid at hvalid
  simp only [hempty, Bool.and_eq_true, Bool.or_eq_true, Bool.false_eq_true, false_or] at hvalid
  rw [caption_of_freeze manifest hok hempty]
  simp [hempty, hnotEmpty, hoperation.2, hvalid]

theorem voice_of_freeze {voice : VoiceMessageMetadata}
    (hvoice : manifest.description.voiceMetadata = some voice) :
    ∃ entries, fieldAt payload "voiceMetadata" = .obj entries ∧
      VoiceMessageMetadata.fromJson entries = .ok voice.clamped := by
  have hmem : (DartString.ofString "voiceMetadata", Json.obj voice.toJson) ∈
      manifest.description.toPayload := by
    unfold FileDescription.toPayload
    rw [hvoice]
    exact mem_append_right _ (mem_singleton_self _)
  exact voice.fromJson_of_freeze (freeze_entry manifest hok hmem)

theorem fromPayload_of_freeze (hoperation : operationId ≠ [] ∧ operationId.length ≤ 160) :
    ∃ prior, fromPayload toLowerCase payload = .ok prior ∧
      prior.description = manifest.description.clamped := by
  obtain ⟨hhasCaption, -, hhasVoice⟩ := containsKey_of_freeze manifest hok
  have hfileName : fieldAt payload "fileName" = .str manifest.description.fileName :=
    freeze_str_eq (freeze_entry manifest hok (by simp [FileDescription.toPayload]))
  have hmimeType : fieldAt payload "mimeType" = .str manifest.description.mimeType :=
    freeze_str_eq (freeze_entry manifest hok (by simp [FileDescription.toPayload]))
  have hsizeBytes : fieldAt payload "sizeBytes" = .int manifest.description.sizeBytes :=
    freeze_int_eq (freeze_entry manifest hok (by simp [FileDescription.toPayload]))
  have hfileHash : fieldAt payload "fileHash" = .str manifest.description.fileHash :=
    freeze_str_eq (freeze_entry manifest hok (by simp [FileDescription.toPayload]))
  have hpieceHashes : fieldAt payload "pieceHashes" =
      .list (manifest.description.pieceHashes.map Json.str) :=
    freeze_strings_eq (freeze_entry manifest hok (by simp [FileDescription.toPayload]))
  -- a caption that is there is no empty string
  have hcaption : captionOf payload = .ok manifest.description.caption := by
    unfold captionOf
    rw [hhasCaption]
    cases hempty : manifest.description.caption.isEmpty with
    | true =>
      rw [isEmpty_iff.mp hempty]
      rfl
    | false =>
      rw [caption_of_freeze manifest hok hempty]
      rfl
  have hpieces : castStringList (fieldAt payload "pieceHashes") =
      .ok manifest.description.pieceHashes := by
    rw [hpieceHashes]
    exact castStrings_map _
  obtain ⟨raw, hraw, hvoice⟩ : ∃ raw, rawVoiceMetadata payload = .ok raw ∧
      voiceMetadataOf raw = .ok manifest.description.clamped.voiceMetadata := by
    unfold rawVoiceMetadata
    rw [hhasVoice]
    cases hvoice : manifest.description.voiceMetadata with
    | none => exact ⟨none, rfl, by rw [FileDescription.clamped, hvoice]; rfl⟩
    | some voice =>
      obtain ⟨entries, hentries, hread⟩ := voice_of_freeze manifest hok hvoice
      refine ⟨some entries, by rw [hentries]; rfl, ?_⟩
      rw [voiceMetadataOf, hread, FileDescription.clamped, hvoice]
      rfl
  have hvalid : manifest.description.clamped.isValid toLowerCase = true := by
    rw [FileDescription.isValid_clamped]
    exact manifest.valid
  refine ⟨⟨manifest.description.clamped, hvalid⟩, ?_, rfl⟩
  have hmake : make toLowerCase manifest.description.clamped =
      .ok ⟨manifest.description.clamped, hvalid⟩ := dif_pos hvalid
  unfold fromPayload
  rw [hraw, supported_of_freeze manifest hok hoperation, hfileName, hmimeType, hcaption,
    hsizeBytes, hfileHash, hpieces]
  dsimp only [castString, castInt, bind, Except.bind]
  rw [hvoice]
  exact hmake

end Reading

end GroupFileManifest

/-! ### When a manifest is what it was -/

/-- The written part of a waveform is one of bytes. -/
def FileDescription.WaveformOfBytes (d : FileDescription) : Prop :=
  ∀ voice ∈ d.voiceMetadata, ∀ n ∈ voice.waveform.take 256, 0 ≤ n ∧ n ≤ 255

theorem clampByte_eq_iff {n : ℤ} : clampByte n = n ↔ 0 ≤ n ∧ n ≤ 255 := by
  unfold clampByte
  omega

theorem VoiceMessageMetadata.clamped_toJson_iff (m : VoiceMessageMetadata) :
    m.clamped.toJson = m.toJson ↔ ∀ n ∈ m.waveform.take 256, 0 ≤ n ∧ n ≤ 255 := by
  have hlength : ((m.waveform.take 256).map clampByte).length ≤ 256 := by
    rw [length_map]
    exact length_take_le _ _
  have hinj : Function.Injective Json.int := fun _ _ h => Json.int.inj h
  have hwaveform : m.clamped.toJson = m.toJson ↔
      (m.waveform.take 256).map clampByte = m.waveform.take 256 := by
    unfold toJson clamped
    simp only [take_of_length_le hlength, cons.injEq, Prod.mk.injEq, Json.list.injEq,
      true_and, and_true]
    exact hinj.list_map.eq_iff
  rw [hwaveform]
  nth_rewrite 2 [← map_id (m.waveform.take 256)]
  rw [map_inj_left]
  exact forall₂_congr fun n _ => clampByte_eq_iff

/-- **The clamped manifest is written as the manifest is**, if the waveform is one of bytes. -/
theorem FileDescription.clamped_toPayload_iff (d : FileDescription) :
    d.clamped.toPayload = d.toPayload ↔ d.WaveformOfBytes := by
  unfold toPayload WaveformOfBytes clamped
  rw [append_cancel_left_eq]
  cases d.voiceMetadata with
  | none => simp
  | some voice => simp [voice.clamped_toJson_iff]

end Journal
end Conest
