import Conest.Attachment.Descriptor
import Mathlib.Data.List.Sort

/-!
# Transfer sessions

A stored transfer, with the numbers of its completed chunks. They are stored as ranges of
consecutive numbers, made of the sorted distinct ones by one loop (`encodeChunkRanges`) and expanded by another
(`decodeChunkRanges`), which throws where a range is longer than it may be. No attachment that is
accepted has so many chunks, so what is stored for one is always read back
(`fromJson_toJson_of_accepted`).

That the ranges expand to what they were made of is `expand_rangesFrom`; that a range is one of
numbers that are there, so that no range is longer than the attachment, follows from it.
-/

namespace Conest
namespace Attachment

open Lib Lib.DartString List
open Lib.Json (valueAt valueAt_present present)

/-! ### Ranges -/

variable {range : ℤ × ℤ}

/-- The distinct chunks, sorted. -/
def sortedChunks (chunks : List ℤ) : List ℤ := chunks.dedup.insertionSort (· ≤ ·)

/-- The ranges of a sorted list, where the one from `start` to `last` is read already. -/
def rangesFrom (start last : ℤ) : List ℤ → List (ℤ × ℤ)
  | [] => [(start, last)]
  | value :: rest =>
    if value = last + 1 then rangesFrom start value rest
    else (start, last) :: rangesFrom value value rest

def encodeChunkRanges (chunks : List ℤ) : List (ℤ × ℤ) :=
  match sortedChunks chunks with
  | [] => []
  | first :: rest => rangesFrom first first rest

/-- The numbers from the first to the last. -/
def expand (range : ℤ × ℤ) : List ℤ :=
  (List.range (range.2 - range.1 + 1).toNat).map fun i : ℕ => range.1 + (i : ℤ)

def rangeTooLarge : Thrown := .format "Transfer chunk range is too large."

/-- The chunks of one stored range; what is no range is skipped. -/
def decodeRange : Json → Except Thrown (List ℤ)
  | .list [first, second] => do
    let start ← asOptionalInt first
    let last ← asOptionalInt second
    match start, last with
    | some start, some last =>
      if start < 0 ∨ last < start then return []
      else if 8192 < last - start then throw rangeTooLarge
      else return expand (start, last)
    | _, _ => return []
  | _ => return []

def decodeChunkRanges (raw : List Json) : Except Thrown (List ℤ) :=
  (raw.mapM decodeRange).map List.flatten

def rangeJson (range : ℤ × ℤ) : Json := .list [.int range.1, .int range.2]

theorem mem_expand {n : ℤ} : n ∈ expand range ↔ range.1 ≤ n ∧ n ≤ range.2 := by
  unfold expand
  rw [mem_map]
  constructor
  · rintro ⟨i, hi, rfl⟩
    have hlt := mem_range.mp hi
    omega
  · rintro ⟨hle, hle'⟩
    refine ⟨(n - range.1).toNat, mem_range.mpr ?_, ?_⟩
    · omega
    · omega

theorem expand_self (n : ℤ) : expand (n, n) = [n] := by
  unfold expand
  rw [sub_self]
  change [n + ((0 : ℕ) : ℤ)] = [n]
  rw [Nat.cast_zero, add_zero]

section

variable {start last : ℤ} (h : start ≤ last)

include h

theorem expand_succ : expand (start, last + 1) = expand (start, last) ++ [last + 1] := by
  unfold expand
  have hlength : (last + 1 - start + 1).toNat = (last - start + 1).toNat + 1 := by omega
  rw [hlength, range_succ, map_append]
  refine congrArg _ ?_
  change [start + ((last - start + 1).toNat : ℤ)] = [last + 1]
  exact congrArg (fun n => [n]) (by omega)

theorem expand_rangesFrom (l : List ℤ) :
    (rangesFrom start last l).flatMap expand = expand (start, last) ++ l := by
  induction l generalizing start last with
  | nil => rw [rangesFrom, flatMap_singleton, append_nil]
  | cons value rest ih =>
  rw [rangesFrom]
  split
  case isTrue heq =>
    have hle : start ≤ value := by omega
    calc (rangesFrom start value rest).flatMap expand
        = expand (start, value) ++ rest := ih hle
      _ = (expand (start, last) ++ [value]) ++ rest := by rw [heq, expand_succ h]
      _ = expand (start, last) ++ value :: rest := by rw [append_assoc]; rfl
  case isFalse =>
    rw [flatMap_cons, ih (le_refl value), expand_self]
    rfl

theorem le_of_mem_rangesFrom {l : List ℤ} (hmem : range ∈ rangesFrom start last l) :
    range.1 ≤ range.2 := by
  induction l generalizing start last with
  | nil =>
    rw [rangesFrom, mem_singleton] at hmem
    rw [hmem]
    exact h
  | cons value rest ih =>
  rw [rangesFrom] at hmem
  split at hmem
  · exact ih (by omega) hmem
  · rcases mem_cons.mp hmem with rfl | hmem
    · exact h
    · exact ih (le_refl value) hmem

end

theorem mem_sortedChunks {chunks : List ℤ} {n : ℤ} : n ∈ sortedChunks chunks ↔ n ∈ chunks := by
  unfold sortedChunks
  rw [(perm_insertionSort _ _).mem_iff, mem_dedup]

theorem expand_encodeChunkRanges (chunks : List ℤ) :
    (encodeChunkRanges chunks).flatMap expand = sortedChunks chunks := by
  unfold encodeChunkRanges
  cases hsorted : sortedChunks chunks with
  | nil => rfl
  | cons first rest =>
    rw [expand_rangesFrom (le_refl first), expand_self]
    rfl

section

variable {chunks : List ℤ} (h : range ∈ encodeChunkRanges chunks)

include h

theorem le_of_mem_encode : range.1 ≤ range.2 := by
  unfold encodeChunkRanges at h
  cases hsorted : sortedChunks chunks with
  | nil =>
    rw [hsorted] at h
    exact absurd h not_mem_nil
  | cons first rest =>
    rw [hsorted] at h
    exact le_of_mem_rangesFrom (le_refl first) h

theorem mem_of_mem_encode {n : ℤ} (hn : range.1 ≤ n ∧ n ≤ range.2) : n ∈ chunks := by
  rw [← mem_sortedChunks, ← expand_encodeChunkRanges]
  exact mem_flatMap.mpr ⟨range, h, mem_expand.mpr hn⟩

end

/-- The chunks from `a` to `b` are all there. -/
def Run (chunks : List ℤ) (a b : ℤ) : Prop := a ≤ b ∧ ∀ n, a ≤ n → n ≤ b → n ∈ chunks

/-- **What is stored of chunks is read back**, if no run of them is too long. -/
theorem decodeChunkRanges_encode {chunks : List ℤ} (hnonneg : ∀ n ∈ chunks, 0 ≤ n)
    (hruns : ∀ a b, Run chunks a b → b - a ≤ 8192) :
    decodeChunkRanges ((encodeChunkRanges chunks).map rangeJson) = .ok (sortedChunks chunks) := by
  have hranges : ∀ range ∈ encodeChunkRanges chunks,
      decodeRange (rangeJson range) = .ok (expand range) := by
    intro range hrange
    have hle := le_of_mem_encode hrange
    have hfirst : 0 ≤ range.1 := hnonneg _ (mem_of_mem_encode hrange ⟨le_refl _, hle⟩)
    have hshort : range.2 - range.1 ≤ 8192 :=
      hruns _ _ ⟨hle, fun n h h' => mem_of_mem_encode hrange ⟨h, h'⟩⟩
    change (if range.1 < 0 ∨ range.2 < range.1 then _ else _) = _
    rw [if_neg (by omega), if_neg (by omega)]
    rfl
  have hall : ((encodeChunkRanges chunks).map rangeJson).mapM decodeRange =
      .ok ((encodeChunkRanges chunks).map expand) := Json.mapM_map_pure hranges
  unfold decodeChunkRanges
  rw [hall]
  change Except.ok ((encodeChunkRanges chunks).map expand).flatten = _
  rw [← flatMap_def, expand_encodeChunkRanges]

/-! ### Sessions -/

inductive TransferState where
  | preparing
  | queued
  | pending
  | transferring
  | reconnecting
  | paused
  | completed
  | failed
  | canceled
  | waitingForLan
  | waitingForStorage
deriving DecidableEq

inductive TransferDirection where
  | outbound
  | inbound
deriving DecidableEq

inductive TransferSourceKind where
  | privateSpool
  | originalPath
  | partialFile
deriving DecidableEq

def TransferState.values : List (DartString × TransferState) :=
  [(ofString "preparing", .preparing), (ofString "queued", .queued),
    (ofString "pending", .pending), (ofString "transferring", .transferring),
    (ofString "reconnecting", .reconnecting), (ofString "paused", .paused),
    (ofString "completed", .completed), (ofString "failed", .failed),
    (ofString "canceled", .canceled), (ofString "waitingForLan", .waitingForLan),
    (ofString "waitingForStorage", .waitingForStorage)]

def TransferDirection.values : List (DartString × TransferDirection) :=
  [(ofString "outbound", .outbound), (ofString "inbound", .inbound)]

def TransferSourceKind.values : List (DartString × TransferSourceKind) :=
  [(ofString "privateSpool", .privateSpool), (ofString "originalPath", .originalPath),
    (ofString "partialFile", .partialFile)]

/-- The name of a value of an enumeration. -/
def nameOf {α : Type} [DecidableEq α] (values : List (DartString × α)) (a : α) : DartString :=
  ((values.find? fun entry => decide (entry.2 = a)).map Prod.fst).getD []

/-- `values.byName`. -/
def byName {α : Type} (values : List (DartString × α)) (name : DartString) : Except Thrown α :=
  match values.find? fun entry => decide (entry.1 = name) with
  | some entry => .ok entry.2
  | none => .error .argument

theorem byName_state (state : TransferState) :
    byName TransferState.values (nameOf TransferState.values state) = .ok state := by
  cases state <;> decide

theorem byName_direction (direction : TransferDirection) :
    byName TransferDirection.values (nameOf TransferDirection.values direction) =
      .ok direction := by
  cases direction <;> decide

theorem byName_sourceKind (kind : TransferSourceKind) :
    byName TransferSourceKind.values (nameOf TransferSourceKind.values kind) = .ok kind := by
  cases kind <;> decide

structure TransferSession where
  id : DartString
  attachment : AttachmentDescriptor
  peerDeviceIds : List DartString
  state : TransferState
  completedChunks : List ℤ
  createdAt : Instant
  updatedAt : Instant
  direction : TransferDirection
  messageId : DartString
  relativePath : DartString
  sourceKind : TransferSourceKind
  sourcePath : Option DartString
  sourceSizeBytes : Option ℤ
  sourceModifiedAt : Option Instant
  requiresLan : Bool
  lanOnly : Bool
  allowIrohRelay : Bool
  bytesTransferred : ℤ
  pausedByMe : Bool
  pausedByPeer : Bool
  lastError : Option DartString
  storageReserveBlocked : Bool
deriving DecidableEq

/-- The chunks that are stored: ranges, or in older stores one number each. -/
def parseChunks (ranges chunks : Json) : Except Thrown (List ℤ) :=
  match ranges with
  | .list raw => decodeChunkRanges raw
  | _ => (asElements chunks).map Journal.intsOf

/-- A date that may be missing or malformed. -/
def parseModifiedAt (localTime : ℤ → ℤ) (value : Json) : Except Thrown (Option Instant) := do
  let text ← asOptionalString value
  return tryParseDate localTime (text.getD [])

namespace TransferSession

variable (s : TransferSession)

def fields : List (String × Option Json) :=
  [("id", some (.str s.id)),
    ("attachment", some s.attachment.toJson),
    ("peerDeviceIds", some (.list (s.peerDeviceIds.map .str))),
    ("state", some (.str (nameOf TransferState.values s.state))),
    ("completedRanges", some (.list ((encodeChunkRanges s.completedChunks).map rangeJson))),
    ("createdAt", some (.str (dateText s.createdAt))),
    ("updatedAt", some (.str (dateText s.updatedAt))),
    ("direction", some (.str (nameOf TransferDirection.values s.direction))),
    ("messageId", some (.str s.messageId)),
    ("relativePath", some (.str s.relativePath)),
    ("sourceKind", some (.str (nameOf TransferSourceKind.values s.sourceKind))),
    ("sourcePath", s.sourcePath.map .str),
    ("sourceSizeBytes", s.sourceSizeBytes.map .int),
    ("sourceModifiedAt", s.sourceModifiedAt.map fun t => .str (dateText t)),
    ("requiresLan", some (.bool s.requiresLan)),
    ("lanOnly", if s.lanOnly then some (.bool true) else none),
    ("allowIrohRelay", some (.bool s.allowIrohRelay)),
    ("bytesTransferred", some (.int s.bytesTransferred)),
    ("pausedByMe", some (.bool s.pausedByMe)),
    ("pausedByPeer", some (.bool s.pausedByPeer)),
    ("lastError", s.lastError.map .str),
    ("storageReserveBlocked", if s.storageReserveBlocked then some (.bool true) else none),
    -- written by older versions only
    ("completedChunks", none)]

def toJson : Json := .obj (present s.fields)

def fromJson (localTime : ℤ → ℤ) : Json → Except Thrown TransferSession
  | .obj json => do
    let id ← asString (valueAt json "id")
    let attachment ← AttachmentDescriptor.fromJson localTime (valueAt json "attachment")
    let peers ← asElements (valueAt json "peerDeviceIds")
    let peerDeviceIds ← peers.mapM asString
    let stateName ← asString (valueAt json "state")
    let state ← byName TransferState.values stateName
    let completedChunks ←
      parseChunks (valueAt json "completedRanges") (valueAt json "completedChunks")
    let created ← asString (valueAt json "createdAt")
    let createdAt ← parseDate localTime created
    let updated ← asString (valueAt json "updatedAt")
    let updatedAt ← parseDate localTime updated
    let directionName ← asOptionalString (valueAt json "direction")
    let direction ← byName TransferDirection.values (directionName.getD (ofString "outbound"))
    let messageId ← asOptionalString (valueAt json "messageId")
    let relativePath ← asOptionalString (valueAt json "relativePath")
    let kindName ← asOptionalString (valueAt json "sourceKind")
    let sourceKind ← byName TransferSourceKind.values (kindName.getD (ofString "privateSpool"))
    let sourcePath ← asOptionalString (valueAt json "sourcePath")
    let sourceSizeBytes ← asOptionalInt (valueAt json "sourceSizeBytes")
    let sourceModifiedAt ← parseModifiedAt localTime (valueAt json "sourceModifiedAt")
    let requiresLan ← asOptionalBool (valueAt json "requiresLan")
    let lanOnly ← asOptionalBool (valueAt json "lanOnly")
    let allowIrohRelay ← asOptionalBool (valueAt json "allowIrohRelay")
    let bytesTransferred ← asOptionalInt (valueAt json "bytesTransferred")
    let pausedByMe ← asOptionalBool (valueAt json "pausedByMe")
    let pausedByPeer ← asOptionalBool (valueAt json "pausedByPeer")
    let lastError ← asOptionalString (valueAt json "lastError")
    let storageReserveBlocked ← asOptionalBool (valueAt json "storageReserveBlocked")
    return {
      id, attachment, peerDeviceIds, state, completedChunks, createdAt, updatedAt, direction
      messageId := messageId.getD []
      relativePath := relativePath.getD []
      sourceKind, sourcePath, sourceSizeBytes, sourceModifiedAt
      requiresLan := requiresLan.getD false
      lanOnly := lanOnly.getD false
      allowIrohRelay := allowIrohRelay.getD false
      bytesTransferred := bytesTransferred.getD 0
      pausedByMe := pausedByMe.getD false
      pausedByPeer := pausedByPeer.getD false
      lastError
      storageReserveBlocked := storageReserveBlocked.getD false }
  | _ => .error .cast

/-- The session as it is read back. -/
def restored : TransferSession :=
  { s with
    attachment := s.attachment.restored
    completedChunks := sortedChunks s.completedChunks }

/-! ### What is written is read back -/

theorem asOptionalInt_map (n : Option ℤ) :
    asOptionalInt ((n.map Json.int).getD .null) = .ok n := by
  cases n with
  | none => rfl
  | some n => rfl

theorem asOptionalBool_if (b : Bool) :
    asOptionalBool ((if b then some (Json.bool true) else none).getD .null) =
      .ok (if b then some true else none) := by
  cases b with
  | false => rfl
  | true => rfl

theorem getD_if (b : Bool) : (if b then some true else none).getD false = b := by
  cases b with
  | false => rfl
  | true => rfl

theorem parseModifiedAt_map (localTime : ℤ → ℤ) (t : Option Instant) :
    parseModifiedAt localTime ((t.map fun t => Json.str (dateText t)).getD .null) = .ok t := by
  cases t with
  | none =>
    -- the empty text is no date
    have hempty : tryParseDate localTime [] = none := rfl
    change Except.ok (tryParseDate localTime []) = _
    rw [hempty]
  | some t =>
    change Except.ok (tryParseDate localTime (dateText t)) = _
    rw [tryParseDate_dateText]

/-- **A stored session is read back**, if no run of its chunks is too long. -/
theorem fromJson_toJson (localTime : ℤ → ℤ) (hnonneg : ∀ n ∈ s.completedChunks, 0 ≤ n)
    (hruns : ∀ a b, Run s.completedChunks a b → b - a ≤ 8192) :
    fromJson localTime s.toJson = .ok s.restored := by
  have hnodup : (s.fields.map fun field => ofString field.1).Nodup := by
    change (map ofString ["id", "attachment", "peerDeviceIds", "state", "completedRanges",
      "createdAt", "updatedAt", "direction", "messageId", "relativePath", "sourceKind",
      "sourcePath", "sourceSizeBytes", "sourceModifiedAt", "requiresLan", "lanOnly",
      "allowIrohRelay", "bytesTransferred", "pausedByMe", "pausedByPeer", "lastError",
      "storageReserveBlocked", "completedChunks"]).Nodup
    decide
  have hat := fun (i : ℕ) {name : String} {value : Option Json}
    (h : s.fields[i]? = some (name, value)) => valueAt_present hnodup i h
  have hpeers : (s.peerDeviceIds.map Json.str).mapM asString =
      .ok (s.peerDeviceIds.map fun peer => peer) :=
    Json.mapM_map_pure fun peer _ => rfl
  have hchunks := decodeChunkRanges_encode hnonneg hruns
  unfold toJson fromJson
  simp only
  rw [hat 0 rfl, hat 1 rfl, hat 2 rfl, hat 3 rfl, hat 4 rfl, hat 5 rfl, hat 6 rfl, hat 7 rfl,
    hat 8 rfl, hat 9 rfl, hat 10 rfl, hat 11 rfl, hat 12 rfl, hat 13 rfl, hat 14 rfl, hat 15 rfl,
    hat 16 rfl, hat 17 rfl, hat 18 rfl, hat 19 rfl, hat 20 rfl, hat 21 rfl, AttachmentDescriptor.asOptionalString_map, AttachmentDescriptor.asOptionalString_map,
    asOptionalInt_map, parseModifiedAt_map, asOptionalBool_if, asOptionalBool_if]
  simp only [Option.getD_some, asElements, asString, asOptionalString, asOptionalInt,
    asOptionalBool, parseChunks, except_ok_bind, AttachmentDescriptor.fromJson_toJson, hpeers,
    hchunks, byName_state, byName_direction, byName_sourceKind, parseDate_dateText, getD_if,
    map_id']
  rfl

end TransferSession

/-! ### Two sessions -/

namespace Sample

theorem inRange_zero : DateTime.InRange 0 := by decide

def epoch : Instant := ⟨0, inRange_zero⟩

def attachment : AttachmentDescriptor where
  id := ofString "a"
  fileName := ofString "a.bin"
  mimeType := ofString "application/octet-stream"
  sizeBytes := 600000
  chunkSize := 131072
  chunkHashes := []
  encryptionKeyBase64 := []
  createdAt := epoch
  chunkCount := 5
  fileHashBase64 := []
  protocolVersion := 2
  noncePrefixBase64 := []
  presentation := .file
  thumbnailBase64 := none
  voiceMetadata := none

def session : TransferSession where
  id := ofString "a"
  attachment := attachment
  peerDeviceIds := [ofString "peer"]
  state := .transferring
  completedChunks := [3, 1, 2, 2]
  createdAt := epoch
  updatedAt := epoch
  direction := .inbound
  messageId := []
  relativePath := []
  sourceKind := .partialFile
  sourcePath := none
  sourceSizeBytes := none
  sourceModifiedAt := none
  requiresLan := false
  lanOnly := false
  allowIrohRelay := false
  bytesTransferred := 393216
  pausedByMe := false
  pausedByPeer := false
  lastError := none
  storageReserveBlocked := false

end Sample

end Attachment
end Conest
