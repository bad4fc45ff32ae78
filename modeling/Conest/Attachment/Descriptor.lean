import Conest.Journal.FileManifest
import Conest.Lib.DateTime
import Conest.Lib.JsonFields
import Conest.Lib.Outcome

/-!
# Attachment descriptors

What is known of an attachment, and its JSON. A descriptor is read back as it was written but for
two things (`restored`): the count of the chunks is written out where it was given by their hashes only,
and the waveform of a voice message is clamped to bytes.

A date is its instant, in microseconds, and one of those that Dart's dates can be.
-/

namespace Conest
namespace Attachment

open Lib Lib.DartString Journal List Option
open Lib.Json (valueAt valueAt_getElem valueAt_present present mapM_map_pure)

/-- What reading throws: a cast that fails, a malformed value, or a name of no value. -/
inductive Thrown where
  | cast
  | format (message : String)
  | argument
deriving DecidableEq

abbrev Instant := { t : ℤ // DateTime.InRange t }

/-! ### Casts -/

/-- `as String`. -/
def asString : Json → Except Thrown DartString
  | .str s => .ok s
  | _ => .error .cast

/-- `as String?`. -/
def asOptionalString : Json → Except Thrown (Option DartString)
  | .null => .ok none
  | .str s => .ok (some s)
  | _ => .error .cast

/-- `as int`. -/
def asInt : Json → Except Thrown ℤ
  | .int n => .ok n
  | _ => .error .cast

/-- `(as num?)?.toInt()`. -/
def asOptionalInt : Json → Except Thrown (Option ℤ)
  | .null => .ok none
  | .int n => .ok (some n)
  | _ => .error .cast

/-- `as bool?`. -/
def asOptionalBool : Json → Except Thrown (Option Bool)
  | .null => .ok none
  | .bool b => .ok (some b)
  | _ => .error .cast

/-- `as List<dynamic>? ?? const []`. -/
def asElements : Json → Except Thrown (List Json)
  | .null => .ok []
  | .list elements => .ok elements
  | _ => .error .cast

/-- `DateTime.tryParse`; `localTime` gives the instant of a date without a zone. -/
def tryParseDate (localTime : ℤ → ℤ) (s : DartString) : Option Instant :=
  (DateTime.tryParse localTime s).bind fun t =>
    if h : DateTime.InRange t then some ⟨t, h⟩ else none

/-- `DateTime.parse`. -/
def parseDate (localTime : ℤ → ℤ) (s : DartString) : Except Thrown Instant :=
  match tryParseDate localTime s with
  | some t => .ok t
  | none => .error (.format "Invalid date format")

def dateText (t : Instant) : DartString := DateTime.toIso8601String t.val

theorem tryParseDate_dateText (localTime : ℤ → ℤ) (t : Instant) :
    tryParseDate localTime (dateText t) = some t := by
  rw [tryParseDate, dateText, DateTime.tryParse_toIso8601String localTime t.property,
    bind_some, dif_pos t.property]

theorem parseDate_dateText (localTime : ℤ → ℤ) (t : Instant) :
    parseDate localTime (dateText t) = .ok t := by
  rw [parseDate, tryParseDate_dateText]

/-! ### Descriptors -/

structure ChunkHash where
  index : ℤ
  hashBase64 : DartString
deriving DecidableEq

inductive AttachmentPresentation where
  | media
  | file
deriving DecidableEq

def AttachmentPresentation.name : AttachmentPresentation → DartString
  | media => ofString "media"
  | file => ofString "file"

structure AttachmentDescriptor where
  id : DartString
  fileName : DartString
  mimeType : DartString
  sizeBytes : ℤ
  chunkSize : ℤ
  chunkHashes : List ChunkHash
  encryptionKeyBase64 : DartString
  createdAt : Instant
  chunkCount : ℤ
  fileHashBase64 : DartString
  protocolVersion : ℤ
  noncePrefixBase64 : DartString
  presentation : AttachmentPresentation
  thumbnailBase64 : Option DartString
  voiceMetadata : Option VoiceMessageMetadata
deriving DecidableEq

def ChunkHash.toJson (hash : ChunkHash) : Json :=
  .obj [(ofString "index", .int hash.index), (ofString "hashBase64", .str hash.hashBase64)]

def ChunkHash.fromJson : Json → Except Thrown ChunkHash
  | .obj json => do
    let index ← asInt (valueAt json "index")
    let hashBase64 ← asString (valueAt json "hashBase64")
    return ⟨index, hashBase64⟩
  | _ => .error .cast

theorem ChunkHash.fromJson_toJson (hash : ChunkHash) :
    ChunkHash.fromJson hash.toJson = .ok hash := by
  have hnodup : (([(ofString "index", Json.int hash.index),
      (ofString "hashBase64", .str hash.hashBase64)] : List (DartString × Json)).map
        Prod.fst).Nodup := by
    change (map ofString ["index", "hashBase64"]).Nodup
    decide
  unfold ChunkHash.toJson ChunkHash.fromJson
  simp only
  rw [valueAt_getElem hnodup 1 rfl]
  rfl

namespace AttachmentDescriptor

variable (d : AttachmentDescriptor)

def effectiveChunkCount : ℤ := if 0 < d.chunkCount then d.chunkCount else d.chunkHashes.length

def fields : List (String × Option Json) :=
  [("id", some (.str d.id)),
    ("fileName", some (.str d.fileName)),
    ("mimeType", some (.str d.mimeType)),
    ("sizeBytes", some (.int d.sizeBytes)),
    ("chunkSize", some (.int d.chunkSize)),
    ("chunkHashes", some (.list (d.chunkHashes.map ChunkHash.toJson))),
    ("chunkCount", some (.int d.effectiveChunkCount)),
    ("fileHashBase64", if d.fileHashBase64 = [] then none else some (.str d.fileHashBase64)),
    ("protocolVersion", some (.int d.protocolVersion)),
    ("noncePrefixBase64",
      if d.noncePrefixBase64 = [] then none else some (.str d.noncePrefixBase64)),
    ("presentation", some (.str d.presentation.name)),
    ("thumbnailBase64", d.thumbnailBase64.map .str),
    ("voiceMetadata", d.voiceMetadata.map fun voice => .obj voice.toJson),
    ("encryptionKeyBase64", some (.str d.encryptionKeyBase64)),
    ("createdAt", some (.str (dateText d.createdAt)))]

def toJson : Json := .obj (present d.fields)

/-- The presentation of that name, `media` where there is none. -/
def parsePresentation (value : Json) : AttachmentPresentation :=
  ([AttachmentPresentation.media, .file].find? fun p =>
    decide (Json.str p.name = value)).getD .media

/-- The voice metadata, if there is an object of it. -/
def parseVoice : Json → Except Thrown (Option VoiceMessageMetadata)
  | .obj json =>
    match VoiceMessageMetadata.fromJson json with
    | .ok voice => .ok (some voice)
    | .error _ => .error .cast
  | _ => .ok none

def fromJson (localTime : ℤ → ℤ) : Json → Except Thrown AttachmentDescriptor
  | .obj json => do
    let id ← asString (valueAt json "id")
    let fileName ← asString (valueAt json "fileName")
    let mimeType ← asString (valueAt json "mimeType")
    let sizeBytes ← asInt (valueAt json "sizeBytes")
    let chunkSize ← asInt (valueAt json "chunkSize")
    let hashes ← asElements (valueAt json "chunkHashes")
    let chunkHashes ← hashes.mapM ChunkHash.fromJson
    let chunkCount ← asOptionalInt (valueAt json "chunkCount")
    let fileHashBase64 ← asOptionalString (valueAt json "fileHashBase64")
    let protocolVersion ← asOptionalInt (valueAt json "protocolVersion")
    let noncePrefixBase64 ← asOptionalString (valueAt json "noncePrefixBase64")
    let thumbnailBase64 ← asOptionalString (valueAt json "thumbnailBase64")
    let voiceMetadata ← parseVoice (valueAt json "voiceMetadata")
    let encryptionKeyBase64 ← asString (valueAt json "encryptionKeyBase64")
    let created ← asString (valueAt json "createdAt")
    let createdAt ← parseDate localTime created
    return {
      id, fileName, mimeType, sizeBytes, chunkSize, chunkHashes, encryptionKeyBase64, createdAt
      chunkCount := chunkCount.getD 0
      fileHashBase64 := fileHashBase64.getD []
      protocolVersion := protocolVersion.getD 1
      noncePrefixBase64 := noncePrefixBase64.getD []
      presentation := parsePresentation (valueAt json "presentation")
      thumbnailBase64
      voiceMetadata }
  | _ => .error .cast

/-- The descriptor as it is read back. -/
def restored : AttachmentDescriptor :=
  { d with
    chunkCount := d.effectiveChunkCount
    voiceMetadata := d.voiceMetadata.map VoiceMessageMetadata.clamped }

/-! ### What is written is read back -/

theorem asOptionalString_unless (s : DartString) :
    asOptionalString ((if s = [] then none else some (Json.str s)).getD .null) =
      .ok (if s = [] then none else some s) := by
  split <;> rfl

theorem getD_unless (s : DartString) : (if s = [] then none else some s).getD [] = s := by
  split
  case isTrue h => exact h.symm
  case isFalse => rfl

theorem asOptionalString_map (s : Option DartString) :
    asOptionalString ((s.map Json.str).getD .null) = .ok s := by
  cases s with
  | none => rfl
  | some s => rfl

theorem parsePresentation_name (p : AttachmentPresentation) :
    parsePresentation (.str p.name) = p := by
  cases p with
  | media => decide
  | file => decide

theorem voice_fromJson_toJson (voice : VoiceMessageMetadata) :
    VoiceMessageMetadata.fromJson voice.toJson = .ok voice.clamped := by
  have hnodup : (voice.toJson.map Prod.fst).Nodup := by
    change (map ofString ["durationMs", "waveform", "codec", "container"]).Nodup
    decide
  have hlength : ((voice.waveform.take 256).map clampByte).length ≤ 256 := by
    rw [length_map]
    exact length_take_le _ _
  have hfield : ∀ (i : ℕ) {name : String} {value : Json},
      voice.toJson[i]? = some (ofString name, value) →
        Group.fieldAt voice.toJson name = value :=
    fun i {_ _} h => valueAt_getElem hnodup i h
  unfold VoiceMessageMetadata.fromJson
  rw [hfield 1 rfl]
  dsimp only
  rw [intsOf_map, take_of_length_le hlength]
  rfl

theorem parseVoice_map (voice : Option VoiceMessageMetadata) :
    parseVoice ((voice.map fun v => Json.obj v.toJson).getD .null) =
      .ok (voice.map VoiceMessageMetadata.clamped) := by
  cases voice with
  | none => rfl
  | some v =>
    change parseVoice (.obj v.toJson) = _
    rw [parseVoice, voice_fromJson_toJson]
    rfl

theorem fromJson_toJson (localTime : ℤ → ℤ) (d : AttachmentDescriptor) :
    fromJson localTime d.toJson = .ok d.restored := by
  have hnodup : (d.fields.map fun field => ofString field.1).Nodup := by
    change (List.map ofString ["id", "fileName", "mimeType", "sizeBytes", "chunkSize",
      "chunkHashes", "chunkCount", "fileHashBase64", "protocolVersion", "noncePrefixBase64",
      "presentation", "thumbnailBase64", "voiceMetadata", "encryptionKeyBase64",
      "createdAt"]).Nodup
    decide
  have hat := fun (i : ℕ) {name : String} {value : Option Json}
    (h : d.fields[i]? = some (name, value)) => valueAt_present hnodup i h
  have hhashes : (d.chunkHashes.map ChunkHash.toJson).mapM ChunkHash.fromJson =
      .ok (d.chunkHashes.map fun hash => hash) :=
    mapM_map_pure fun hash _ => hash.fromJson_toJson
  unfold toJson fromJson
  simp only
  rw [hat 0 rfl, hat 1 rfl, hat 2 rfl, hat 3 rfl, hat 4 rfl, hat 5 rfl, hat 6 rfl, hat 7 rfl,
    hat 8 rfl, hat 9 rfl, hat 10 rfl, hat 11 rfl, hat 12 rfl, hat 13 rfl, hat 14 rfl,
    asOptionalString_unless, asOptionalString_unless, asOptionalString_map, parseVoice_map]
  simp only [Option.getD_some, asElements, asString, asInt, asOptionalInt, except_ok_bind, hhashes,
    parseDate_dateText, parsePresentation_name, getD_unless, List.map_id']
  rfl

/-! ### What is accepted -/

end AttachmentDescriptor

end Attachment
end Conest
