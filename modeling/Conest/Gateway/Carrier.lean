import Conest.Lib.BigEndian
import Conest.Nostr.Event

/-!
# Carriers

A Nostr event on its way over the mesh: fields with a type and a length of two bytes each, for the
direction, the cell and the event's JSON. Fields of other types are skipped and later fields replace
earlier ones. What is encoded within the bounds that decoding checks is decoded (`decode_encode`),
and an event that was put in is the one that comes out (`event_ofEvent`).

Reading JSON is the library's; `jsonDecode` gives nothing where it throws.
-/

namespace Conest
namespace Gateway

open Lib Lib.DartString Nostr List Option

inductive BitchatCarrierDirection where
  | toGateway
  | fromGateway
deriving DecidableEq

namespace BitchatCarrierDirection

def code : BitchatCarrierDirection → UInt8
  | toGateway => 0x01
  | fromGateway => 0x02

/-- The direction of a code, if Conest handles it. -/
def ofCode (code : UInt8) : Option BitchatCarrierDirection :=
  [toGateway, fromGateway].find? fun candidate => decide (candidate.code = code)

theorem ofCode_code (d : BitchatCarrierDirection) : ofCode d.code = some d := by
  cases d with
  | toGateway => decide
  | fromGateway => decide

end BitchatCarrierDirection

structure BitchatNostrCarrier where
  direction : BitchatCarrierDirection
  geohash : DartString
  eventJson : Bytes
deriving DecidableEq

def maxEventJsonBytes : ℕ := 16 * 1024

def maxGeohashLength : ℕ := 12

def geohashAlphabet : DartString := ofString "0123456789bcdefghjkmnpqrstuvwxyz"

def isValidGeohash (geohash : DartString) : Bool :=
  !geohash.isEmpty && decide (geohash.length ≤ maxGeohashLength) &&
    geohash.all geohashAlphabet.contains

/-- The fields that were found. -/
structure Fields where
  direction : Option BitchatCarrierDirection
  geohash : Option DartString
  eventJson : Option Bytes

/-- Take one field in; nothing if it is malformed. -/
def Fields.take (f : Fields) (type : UInt8) (value : Bytes) : Option Fields :=
  if type = 0x01 then
    match value with
    | [code] => (BitchatCarrierDirection.ofCode code).map fun d => { f with direction := some d }
    | _ => none
  else if type = 0x02 then (utf8Decode value).map fun s => { f with geohash := some s }
  else if type = 0x03 then some { f with eventJson := some value }
  else some f

namespace BitchatNostrCarrier

def tlv (type : UInt8) (value : Bytes) : Bytes := type :: (bigEndian 2 value.length ++ value)

def encode (c : BitchatNostrCarrier) : Bytes :=
  tlv 0x01 [c.direction.code] ++ (tlv 0x02 (utf8Encode c.geohash) ++ tlv 0x03 c.eventJson)

/-- The loop over the fields; every field takes three bytes at least. -/
def readFields : ℕ → Bytes → Fields → Option Fields
  | fuel + 1, type :: high :: low :: rest, f =>
    let length := ofBigEndian [high, low]
    if rest.length < length then none
    else (f.take type (rest.take length)).bind (readFields fuel (rest.drop length))
  | _, [], f => some f
  | _, _, _ => none

/-- The carrier of a payload; none when it is malformed, of a direction that is not handled, or too
large. -/
def decode (data : Bytes) : Option BitchatNostrCarrier :=
  match readFields data.length data ⟨none, none, none⟩ with
  | some ⟨some direction, some geohash, some eventJson⟩ =>
    if eventJson = [] ∨ maxEventJsonBytes < eventJson.length ∨ isValidGeohash geohash = false then
      none
    else some ⟨direction, geohash, eventJson⟩
  | _ => none

/-- The carried event; its signature still has to be checked. -/
def event (jsonDecode : DartString → Option Json) (c : BitchatNostrCarrier) : Option NostrEvent :=
  ((utf8Decode c.eventJson).bind jsonDecode).bind NostrEvent.fromJson

/-- An event for a cell, to be carried. -/
def ofEvent (direction : BitchatCarrierDirection) (geohash : DartString) (e : NostrEvent) :
    BitchatNostrCarrier :=
  ⟨direction, geohash, utf8Encode (Json.jsonText e.toJson)⟩

/-! ### What is encoded is decoded -/

theorem readFields_tlv {type : UInt8} {value rest : Bytes} {f g : Fields} {fuel : ℕ}
    (hlength : value.length < 65536) (htake : f.take type value = some g) :
    readFields (fuel + 1) (tlv type value ++ rest) f = readFields fuel rest g := by
  obtain ⟨high, low, hpair⟩ : ∃ high low, bigEndian 2 value.length = [high, low] := ⟨_, _, rfl⟩
  have hread : ofBigEndian [high, low] = value.length := by
    rw [← hpair, ofBigEndian_bigEndian]
    exact Nat.mod_eq_of_lt hlength
  have htlv : tlv type value ++ rest = type :: high :: low :: (value ++ rest) := by
    rw [tlv, hpair]
    rfl
  have hlong : ¬ (value ++ rest).length < value.length := by
    rw [length_append]
    omega
  rw [htlv, readFields]
  simp only [hread]
  rw [if_neg hlong, take_left, drop_left, htake]
  rfl

theorem lt_of_isValidGeohash {geohash : DartString} (h : isValidGeohash geohash = true) :
    geohash.length ≤ maxGeohashLength ∧ ∀ u ∈ geohash, u.val < 128 := by
  have hsmall : ∀ u ∈ geohashAlphabet, u.val < 128 := by
    have hchars : ∀ c ∈ "0123456789bcdefghjkmnpqrstuvwxyz".toList, c.toNat < 128 := by simp
    intro u hu
    obtain ⟨c, hc, hunits⟩ := List.mem_flatMap.mp hu
    have hlt := hchars c hc
    rw [unitsOf, if_pos (by omega), List.mem_singleton] at hunits
    rw [hunits, Fin.val_ofNat, Nat.mod_eq_of_lt (by omega)]
    exact hlt
  rw [isValidGeohash, Bool.and_eq_true, Bool.and_eq_true, List.all_eq_true] at h
  refine ⟨of_decide_eq_true h.1.2, fun u hu => hsmall u ?_⟩
  simpa using h.2 u hu

theorem utf8Decode_of_small {s : DartString} (h : ∀ u ∈ s, u.val < 128) :
    utf8Decode (utf8Encode s) = some s := by
  have hformed : WellFormed s :=
    wellFormed_of_small fun u hu => Nat.lt_of_lt_of_le (h u hu) (by omega)
  have hmark : dropMark s = s := by
    rw [dropMark_eq_self]
    intro hhead
    have := h _ (mem_of_head? hhead)
    exact absurd this (by decide)
  rw [utf8Decode_utf8Encode hformed, hmark]

theorem decode_encode {c : BitchatNostrCarrier} (hgeohash : isValidGeohash c.geohash = true)
    (hne : c.eventJson ≠ []) (hlength : c.eventJson.length ≤ maxEventJsonBytes) :
    decode c.encode = some c := by
  obtain ⟨hshort, hsmall⟩ := lt_of_isValidGeohash hgeohash
  have hcell : (utf8Encode c.geohash).length < 65536 := by
    have hle := length_utf8Encode_le c.geohash
    change c.geohash.length ≤ 12 at hshort
    omega
  have hjson : c.eventJson.length < 65536 := by
    change c.eventJson.length ≤ 16 * 1024 at hlength
    omega
  -- every field takes three bytes at least, so there is fuel for all of them
  obtain ⟨fuel, hfuel⟩ : ∃ fuel, c.encode.length = fuel + 3 + 1 := by
    have hlong : 4 ≤ c.encode.length := by
      rw [encode, length_append]
      exact Nat.le_trans (Nat.le_refl 4) (Nat.le_add_right _ _)
    exact ⟨c.encode.length - 4, by omega⟩
  have hfields : readFields c.encode.length c.encode ⟨none, none, none⟩ =
      some ⟨some c.direction, some c.geohash, some c.eventJson⟩ := by
    rw [hfuel]
    unfold encode
    have hdirection : Fields.take ⟨none, none, none⟩ 0x01 [c.direction.code] =
        some ⟨some c.direction, none, none⟩ := by
      change (BitchatCarrierDirection.ofCode c.direction.code).map _ = _
      rw [BitchatCarrierDirection.ofCode_code]
      rfl
    have hhash : Fields.take ⟨some c.direction, none, none⟩ 0x02 (utf8Encode c.geohash) =
        some ⟨some c.direction, some c.geohash, none⟩ := by
      change (utf8Decode (utf8Encode c.geohash)).map _ = _
      rw [utf8Decode_of_small hsmall]
      rfl
    have hone : [c.direction.code].length < 65536 := by
      change 1 < 65536
      omega
    rw [readFields_tlv hone hdirection, readFields_tlv hcell hhash,
      ← append_nil (tlv 0x03 c.eventJson),
      readFields_tlv hjson rfl]
    cases fuel with
    | zero => rfl
    | succ fuel => rfl
  unfold decode
  rw [hfields]
  simp only
  rw [if_neg]
  rintro (h | h | h)
  · exact hne h
  · omega
  · exact absurd (hgeohash.symm.trans h) Bool.true_eq_false_eq_False

/-- **An event that is carried** is the one that was put in, if the JSON of it is read back. -/
theorem event_ofEvent {jsonDecode : DartString → Option Json} {e : NostrEvent}
    (direction : BitchatCarrierDirection) (geohash : DartString)
    (hjson : jsonDecode (Json.jsonText e.toJson) = some e.toJson) :
    (ofEvent direction geohash e).event jsonDecode = some e := by
  -- the text begins with a brace
  have hmark : dropMark (Json.jsonText e.toJson) = Json.jsonText e.toJson := by
    rw [dropMark_eq_self]
    obtain ⟨u, t, htext, hkind⟩ := Json.jsonText_head e.toJson
    rw [htext]
    intro hu
    have hbrace : Json.kindOf u = 5 := hkind
    rw [some.inj hu] at hbrace
    exact absurd hbrace (by decide)
  change ((utf8Decode (utf8Encode (Json.jsonText e.toJson))).bind jsonDecode).bind _ = _
  rw [utf8Decode_utf8Encode (Json.wellFormed_jsonText _), hmark, bind_some, hjson,
    bind_some, NostrEvent.fromJson_toJson]

end BitchatNostrCarrier

end Gateway
end Conest
