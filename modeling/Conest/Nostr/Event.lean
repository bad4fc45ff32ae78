import Conest.Lib.JsonPrinting

/-!
# Nostr events

A signed event, its id and its JSON, which is read back (`fromJson_toJson`). SHA-256 and the
signatures of secp256k1 are those of the libraries (`Primitives`).
-/

namespace Conest
namespace Nostr

open Lib Lib.DartString
open Lib.Json (valueAt valueAt_getElem mapM_map_some)

/-- `verify` reads the message, the public key and the signature. -/
structure Primitives where
  sha256 : Bytes → Bytes
  verify : Bytes → Bytes → Bytes → Bool

/-! ### Hexadecimal -/

def hexNibble (u : Fin 65536) : Option ℕ :=
  if isDigit u then some (u.val - 48)
  else if 97 ≤ u.val ∧ u.val ≤ 102 then some (u.val - 87)
  else if 65 ≤ u.val ∧ u.val ≤ 70 then some (u.val - 55)
  else none

/-- The bytes of a string of hexadecimal digits. -/
def hexDecode : DartString → Option Bytes
  | [] => some []
  | [_] => none
  | high :: low :: rest =>
    match hexNibble high, hexNibble low, hexDecode rest with
    | some h, some l, some bytes => some (UInt8.ofNat (16 * h + l) :: bytes)
    | _, _, _ => none

def hexEncode (bytes : Bytes) : DartString := hex (bytes.map UInt8.toNat)

/-! ### Events -/

structure NostrEvent where
  id : DartString
  pubkey : DartString
  createdAt : ℤ
  kind : ℤ
  tags : List (List DartString)
  content : DartString
  sig : DartString
deriving DecidableEq

namespace NostrEvent

/-- A list of lists of strings, as JSON. -/
def tagsJson (tags : List (List DartString)) : Json :=
  .list (tags.map fun tag => .list (tag.map .str))

/-- What an id is the hash of. -/
def canonicalJson (pubkey : DartString) (createdAt kind : ℤ) (tags : List (List DartString))
    (content : DartString) : Json :=
  .list [.int 0, .str pubkey, .int createdAt, .int kind, tagsJson tags, .str content]

def eventId (p : Primitives) (pubkey : DartString) (createdAt kind : ℤ)
    (tags : List (List DartString)) (content : DartString) : DartString :=
  hexEncode (p.sha256 (utf8Encode
    (Json.jsonText (canonicalJson pubkey createdAt kind tags content))))

/-- Whether the id is that of the content. -/
def idMatches (p : Primitives) (e : NostrEvent) : Bool :=
  decide (eventId p e.pubkey e.createdAt e.kind e.tags e.content = e.id)

/-- Whether the id matches the content and the signature is valid. -/
def isValid (p : Primitives) (e : NostrEvent) : Bool :=
  match hexDecode e.pubkey, hexDecode e.id, hexDecode e.sig with
  | some pub, some idBytes, some signature =>
    if pub.length ≠ 32 ∨ idBytes.length ≠ 32 ∨ signature.length ≠ 64 then false
    else if e.idMatches p then p.verify idBytes pub signature
    else false
  | _, _, _ => false

def toJson (e : NostrEvent) : Json :=
  .obj [(ofString "id", .str e.id), (ofString "pubkey", .str e.pubkey),
    (ofString "created_at", .int e.createdAt), (ofString "kind", .int e.kind),
    (ofString "tags", tagsJson e.tags), (ofString "content", .str e.content),
    (ofString "sig", .str e.sig)]

/-- A tag: a list of strings only. -/
def parseTag : Json → Option (List DartString)
  | .list values => values.mapM Json.asString?
  | _ => none

/-- The event of a JSON value; none when a field is missing or of the wrong type. -/
def fromJson : Json → Option NostrEvent
  | .obj json =>
    match valueAt json "id", valueAt json "pubkey", valueAt json "created_at",
      valueAt json "kind", valueAt json "tags", valueAt json "content", valueAt json "sig" with
    | .str id, .str pubkey, .int createdAt, .int kind, .list tags, .str content, .str sig =>
      (tags.mapM parseTag).map fun tags =>
        { id, pubkey, createdAt, kind, tags, content, sig }
    | _, _, _, _, _, _, _ => none
  | _ => none

/-! ### What holds of them -/

variable {p : Primitives} {e : NostrEvent}

theorem parseTag_list (tag : List DartString) : parseTag (.list (tag.map .str)) = some tag := by
  have htag : (tag.map Json.str).mapM Json.asString? = some (tag.map fun value => value) :=
    mapM_map_some fun value _ => rfl
  rwa [List.map_id'] at htag

theorem fromJson_toJson (e : NostrEvent) : fromJson e.toJson = some e := by
  have hat := @valueAt_getElem [(ofString "id", Json.str e.id), (ofString "pubkey", .str e.pubkey),
    (ofString "created_at", .int e.createdAt), (ofString "kind", .int e.kind),
    (ofString "tags", tagsJson e.tags), (ofString "content", .str e.content),
    (ofString "sig", .str e.sig)] (by
      change (List.map ofString ["id", "pubkey", "created_at", "kind", "tags", "content",
        "sig"]).Nodup
      decide)
  have htags : (e.tags.map fun tag => Json.list (tag.map .str)).mapM parseTag =
      some (e.tags.map fun tag => tag) := mapM_map_some fun tag _ => parseTag_list tag
  unfold fromJson toJson
  simp only
  rw [hat 0 rfl, hat 1 rfl, hat 2 rfl, hat 3 rfl, hat 4 rfl, hat 5 rfl, hat 6 rfl]
  simp only [tagsJson]
  rw [htags, List.map_id']
  rfl

end NostrEvent

end Nostr
end Conest
