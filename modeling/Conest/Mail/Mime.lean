import Conest.Lib.Text
import Conest.Lib.Utf8
import Conest.Mail.Address
import Conest.Mail.Armor

/-!
# Header fields and MIME entities

`MimeHeaders` is a list of fields whose names are compared without case: `raw` gives every field of
a name, and `get?` the first of them, decoded (`get?_eq`). So two lists of fields that give the same
for every name are alike to whoever looks fields up, in whatever order they stand (`SameLookups`).

The decoding of encoded words is a parameter.
-/

open Lib DartString List

namespace Conest
namespace Mail

/-! ### Lines and pieces -/

/-- `LineSplitter.split`: a line ends at a line feed, a carriage return, or both. -/
def lineSplitter (afterReturn : Bool) : DartString → List DartString
  | [] => []
  | u :: text =>
    if u = 10 then
      if afterReturn then lineSplitter false text else [] :: lineSplitter false text
    else if u = 13 then [] :: lineSplitter true text
    else consHead u (lineSplitter false text)

/-- `String.split` at a character. -/
def splitAt (separator : Fin 65536) : DartString → List DartString
  | [] => [[]]
  | u :: text =>
    if u = separator then [] :: splitAt separator text else consHead u (splitAt separator text)

/-- `_utf8OrLatin1`: raw 8-bit UTF-8 in headers reads as UTF-8. `none` where `latin1.encode` throws,
which nothing catches. -/
def utf8OrLatin1 (value : DartString) : Option DartString :=
  if value.any fun u => decide (0x7f < u.val) then
    (toLatin1 value).map fun bytes => (utf8Decode bytes).getD value
  else some value

/-! ### Header fields -/

/-- Header fields in their order: the name as written and the unfolded value. -/
structure MimeHeaders where
  fields : List (DartString × DartString)
  deriving DecidableEq

namespace MimeHeaders

def maxFields : ℕ := 256
def maxLines : ℕ := 16384
def maxBlock : ℕ := 512 * 1024

/-- The name of a field, in lower case. -/
def nameOf (field : DartString × DartString) : DartString := toLowerCase field.1

variable (headers : MimeHeaders)

/-- Every field of a name, undecoded. -/
def raw (name : DartString) : List DartString :=
  (headers.fields.filter fun field => nameOf field = toLowerCase name).map Prod.snd

/-- The first field of a name, decoded. -/
def get? (decodeMimeWords : DartString → DartString) (name : DartString) : Option DartString :=
  (headers.fields.find? fun field => nameOf field = toLowerCase name).map fun field =>
    decodeMimeWords field.2

/-- There is a field of the name. -/
def Carries (name : DartString) : Prop := toLowerCase name ∈ headers.fields.map nameOf

instance (name : DartString) : Decidable (headers.Carries name) :=
  inferInstanceAs (Decidable (_ ∈ _))

variable {headers}

theorem get?_eq (decodeMimeWords : DartString → DartString) (name : DartString) :
    headers.get? decodeMimeWords name = (headers.raw name).head?.map decodeMimeWords := by
  rw [raw, head?_map, head?_filter, Option.map_map]
  rfl

theorem raw_eq_nil {name : DartString} : headers.raw name = [] ↔ ¬ headers.Carries name := by
  rw [raw, map_eq_nil_iff, filter_eq_nil_iff]
  constructor
  · intro hnone hcarries
    obtain ⟨field, hfield, hname⟩ := mem_map.mp hcarries
    exact hnone field hfield (decide_eq_true hname)
  · intro hnot field hfield hname
    exact hnot (mem_map.mpr ⟨field, hfield, of_decide_eq_true hname⟩)

/-- Two lists of fields that give the same for every name. -/
def SameLookups (a b : MimeHeaders) : Prop := ∀ name, a.raw name = b.raw name

theorem SameLookups.get? {a b : MimeHeaders} (h : SameLookups a b)
    (decodeMimeWords : DartString → DartString) (name : DartString) :
    a.get? decodeMimeWords name = b.get? decodeMimeWords name := by
  rw [get?_eq, get?_eq, h name]

/-! ### Reading a block -/

/-- What the loop of `parse` keeps between two lines. -/
structure FieldReader where
  lines : ℕ
  fields : List (DartString × DartString)
  name : Option DartString
  value : DartString

namespace FieldReader

def flush (r : FieldReader) : Option FieldReader :=
  match r.name with
  | none => some { r with value := [] }
  | some current =>
    if maxFields ≤ r.fields.length then none
    else some { r with fields := r.fields ++ [(current, trim r.value)], name := none, value := [] }

def readLine (r : FieldReader) (line : DartString) : Option FieldReader :=
  if maxLines < r.lines + 1 then none
  else
    let r := { r with lines := r.lines + 1 }
    if line.head? = some 32 ∨ line.head? = some 9 then
      some (if r.name.isSome then { r with value := r.value ++ 32 :: trim line } else r)
    else
      r.flush.map fun r =>
        match indexOf [58] line with
        | none => r
        | some 0 => r
        | some colon =>
          { r with
            name := some (trim (line.take colon))
            value := r.value ++ line.drop (colon + 1) }

end FieldReader

/-- `MimeHeaders.parse`: `none` where it throws. -/
def parse (block : DartString) : Option MimeHeaders :=
  if maxBlock < block.length then none
  else
    ((lineSplitter false block).foldlM FieldReader.readLine ⟨0, [], none, []⟩).bind fun r =>
      r.flush.bind fun r =>
        (r.fields.mapM fun field => (utf8OrLatin1 field.2).map fun value => (field.1, value)).map
          MimeHeaders.mk

end MimeHeaders

/-! ### Entities -/

/-- `MimeEntity`: a leaf with its decoded body, or a multipart. -/
structure MimeEntity where
  headers : MimeHeaders
  mimeType : DartString
  parameters : List (DartString × DartString)
  body : Bytes
  parts : List MimeEntity

namespace MimeEntity

variable (entity : MimeEntity)

def isMultipart : Bool := decide (ofString "multipart/" <+: entity.mimeType)

def parameter? (name : String) : Option DartString := entity.parameters.lookup (ofString name)

/-- The body as text in its charset. -/
def text : DartString :=
  let charset := toLowerCase ((entity.parameter? "charset").getD (ofString "utf-8"))
  if charset ∈ [ofString "iso-8859-1", ofString "latin1", ofString "us-ascii"] then
    ofLatin1 entity.body
  else utf8DecodeMalformed entity.body

/-- The type of the disposition. -/
def disposition (decodeMimeWords : DartString → DartString) : Option DartString :=
  (entity.headers.get? decodeMimeWords (ofString "content-disposition")).map fun value =>
    toLowerCase (trim ((splitAt 59 value).head?.getD []))

/-- The name of the file. `parseMimeParameters` reads the parameters of a value. -/
def fileName (parseMimeParameters : DartString → DartString × List (DartString × DartString)) :
    Option DartString :=
  ((entity.headers.raw (ofString "content-disposition")).head?.bind fun disposition =>
    (parseMimeParameters disposition).2.lookup (ofString "filename")).orElse fun _ =>
      entity.parameter? "name"

end MimeEntity

/-! ### Addresses and keys in a value -/

/-- The loop of `splitAddressList`: commas count outside quotes and angle brackets. -/
def addressPieces (quoted : Bool) (angle : ℕ) : DartString → List DartString
  | [] => [[]]
  | u :: text =>
    if u = 92 ∧ quoted then
      match text with
      | [] => consHead u (addressPieces quoted angle [])
      | v :: text => consHead u (consHead v (addressPieces quoted angle text))
    else
      let quoted := if u = 34 then !quoted else quoted
      let angle :=
        if quoted then angle
        else if u = 60 then angle + 1
        else if u = 62 then angle - 1
        else angle
      if u = 44 ∧ !quoted ∧ angle = 0 then [] :: addressPieces quoted angle text
      else consHead u (addressPieces quoted angle text)

/-- `splitAddressList`. -/
def splitAddressList (decodeMimeWords : DartString → DartString) (value : DartString) :
    List DartString :=
  ((addressPieces false 0 value).filter fun part => trim part ≠ []).map fun part =>
    decodeMimeWords (trim part)

/-- `AutocryptHeader`. -/
structure AutocryptHeader where
  addr : DartString
  keydata : Bytes
  isMutual : Bool

namespace AutocryptHeader

/-- The variables of the loop of `parse`. -/
structure Attributes where
  addr : Option DartString
  keydata : Option DartString
  isMutual : Bool

/-- One attribute: `none` where `parse` gives up on one it does not know. -/
def readAttribute (a : Attributes) (piece : DartString) : Option Attributes :=
  match indexOf [61] piece with
  | none => some a
  | some 0 => some a
  | some equals =>
    let name := toLowerCase (trim (piece.take equals))
    let content := trim (piece.drop (equals + 1))
    if name = ofString "addr" then some { a with addr := parseMailAddress (some content) }
    else if name = ofString "keydata" then
      some { a with keydata := some (content.filter fun u => !isRegExpSpace u) }
    else if name = ofString "prefer-encrypt" then
      some { a with isMutual := toLowerCase content = ofString "mutual" }
    else if name.head? = some 95 then some a
    else none

def parse (value : DartString) : Option AutocryptHeader :=
  ((splitAt 59 value).foldlM readAttribute ⟨none, none, false⟩).bind fun a =>
    a.addr.bind fun addr =>
      a.keydata.bind fun keydata =>
        if keydata = [] then none
        else (OpenPgpArmor.base64Bytes? keydata).map fun keydata =>
          { addr, keydata, isMutual := a.isMutual }

end AutocryptHeader

end Mail
end Conest
