import Conest.Mail.Mime
import Conest.Mail.PublicKey

/-!
# Reading Delta Chat mail

`DeltaMail.read` parses a mail, decrypts it, and reads what is in it. Of an encrypted mail the
header fields are those of the decrypted content and a few routing fields from outside that the
content does not carry itself (`protectedHeaders`). Everything after that (`readContent`) reads the
merged fields, the content, and of the outer mail only its length, who it is from and whether it
says that it is a post message.

What the code calls in other files is a `Tools`, with the other arguments of `read`. A `none` stands
for `null` and for the exceptions that `read` catches.
-/

open Lib DartString

namespace Conest
namespace Mail

open OpenPgp (Primitives PgpPublicKey Signature)

namespace DeltaLimits

def fileBytes : ℕ := 21 * 1024 * 1024
def fileMailBytes : ℕ := 42 * 1024 * 1024
def attachments : ℕ := 20
def members : ℕ := 64

end DeltaLimits

/-- `PgpDecrypted`: the data, the signatures on it, and the time by which they are checked. -/
structure PgpDecrypted where
  data : Bytes
  signatures : List Signature
  now : ℤ

namespace PgpDecrypted

def signed (decrypted : PgpDecrypted) : Bool := !decrypted.signatures.isEmpty

/-- `_canonicalText` behind a byte. -/
def canonicalText (before : UInt8) : Bytes → Bytes
  | [] => []
  | byte :: data =>
    if byte = 0x0a ∧ before ≠ 0x0d then 0x0d :: byte :: canonicalText byte data
    else byte :: canonicalText byte data

/-- The fingerprints that a signature names as intended recipients. -/
def intendedRecipients (signature : Signature) : List Bytes :=
  ((Signature.all signature.hashed 35).filter fun value =>
    value.length = 21 ∧ value.head? = some 4).map fun value => value.drop 1

/-- The first of the keys that made a good signature, and the recipients that signature names. -/
def verify (c : Primitives) (decrypted : PgpDecrypted) (keys : List PgpPublicKey) :
    Option (PgpPublicKey × List Bytes) :=
  decrypted.signatures.findSome? fun signature =>
    if signature.type ≠ 0x00 ∧ signature.type ≠ 0x01 then none
    else
      let hashed :=
        if signature.type = 0x01 then canonicalText 0 decrypted.data else decrypted.data
      (keys.find? fun key => signature.mayBeFrom key.fingerprint &&
        signature.verify c key.signingKey [hashed] key.fingerprint decrypted.now).map fun key =>
          (key, intendedRecipients signature)

end PgpDecrypted

/-- `DeltaFile`. -/
structure DeltaFile where
  name : DartString
  bytes : Bytes
  mimeType : DartString
  voice : Bool
  durationMs : ℕ
  sticker : Bool
  deriving DecidableEq

/-- `DeltaIncoming`. -/
structure DeltaIncoming where
  sender : DartString
  fromName : Option DartString
  recipients : List DartString
  intendedFor : List DartString
  messageId : DartString
  date : Option ℤ
  encrypted : Bool
  signer : Option PgpPublicKey
  autocryptKey : Option PgpPublicKey
  gossip : List (DartString × PgpPublicKey)
  headers : MimeHeaders
  text : DartString
  password : Option DartString
  receiptsFor : List DartString
  attachments : List DartString
  files : List DeltaFile
  reactionText : DartString
  postMessage : Bool
  reaction : Bool
  deriving DecidableEq

/-- The arguments of `read` and the functions of other files. `decrypt` holds the key and the
limit; `parseKey` takes a budget of checks and gives what is left of it. Where they throw they are
`none`. -/
structure Tools where
  primitives : Primitives
  decodeMimeWords : DartString → DartString
  parseMimeParameters : DartString → DartString × List (DartString × DartString)
  parseEntity : ℕ → Bytes → Option MimeEntity
  decrypt : Bytes → Option PgpDecrypted
  decryptWithPasswords : Bytes → List Bytes → Option (Option (PgpDecrypted × Bytes))
  parseKey : Bytes → ℕ → Option PgpPublicKey × ℕ
  knownKeys : Option (DartString → List PgpPublicKey)
  passwords : List DartString
  parseRfc5322Date : DartString → Option (Option ℤ)
  deltaDuration : Option DartString → ℕ
  deltaReaction : DartString → DartString
  deltaMimeType : Bytes → DartString
  sanitizeAttachmentFileName : DartString → DartString

namespace DeltaMail

/-- Largest mail read as a Delta Chat message. -/
def maxBytes : ℕ := 2 * 1024 * 1024

def maxGossip : ℕ := 64
def maxKeyChecks : ℕ := 160
def maxTextBytes : ℕ := 256 * 1024
def maxTextLines : ℕ := 16384

/-! ### The protected headers -/

/-- The fields that come from outside if the content does not carry them. -/
def routingNames : List DartString :=
  ["from", "message-id", "date", "autocrypt", "chat-version"].map ofString

/-- The fields of the content that are about how it is written. -/
def contentNames : List DartString :=
  ["content-type", "content-transfer-encoding", "content-disposition", "mime-version"].map ofString

/-- A routing field that the content does not carry. -/
def IsMissing (content : MimeHeaders) (field : DartString × DartString) : Prop :=
  MimeHeaders.nameOf field ∉ content.fields.map MimeHeaders.nameOf ∧
    MimeHeaders.nameOf field ∈ routingNames

instance (content : MimeHeaders) (field : DartString × DartString) :
    Decidable (IsMissing content field) :=
  inferInstanceAs (Decidable (_ ∧ _))

/-- Protected headers replace the outer ones, and only routing fields come from outside. -/
def protectedHeaders (outer content : MimeHeaders) : MimeHeaders where
  fields := (outer.fields.filter fun field => IsMissing content field) ++
    content.fields.filter fun field => MimeHeaders.nameOf field ∉ contentNames

/-! ### Values -/

/-- `_bareMessageId`. -/
def bareMessageId (value : Option DartString) : Option DartString :=
  value.bind fun value =>
    let id := trim ((angleGroups value).head?.getD value)
    if id = [] ∨ 250 < id.length ∨
        id.any (fun u => u = 60 ∨ u = 62 ∨ isRegExpSpace u ∨ u.val ≤ 0x1f ∨ u = 0x7f) then none
    else some id

/-- `_displayName`: what stands before the last angle bracket. -/
def displayName (sender : Option DartString) : Option DartString :=
  sender.bind fun sender =>
    let front := (sender.reverse.dropWhile (· != 60)).tail.reverse
    if 60 ∉ sender ∨ front = [] then none
    else
      let name := trim front
      let name :=
        if name.head? = some 34 ∧ name.getLast? = some 34 ∧ 2 ≤ name.length then
          (name.drop 1).dropLast
        else name
      if name = [] then none else some name

/-- Upper-case hexadecimal. -/
def upperHex (bytes : Bytes) : DartString :=
  bytes.flatMap fun byte => [byte.toNat / 16, byte.toNat % 16].map fun n =>
    Fin.ofNat 65536 (if n < 10 then 48 + n else 55 + n)

/-! ### The text -/

/-- `replaceAll` of a carriage return with a line feed by a line feed. -/
def dropReturns : DartString → DartString
  | [] => []
  | u :: text =>
    if u = 13 ∧ text.head? = some 10 then dropReturns text else u :: dropReturns text

/-- One line, unflowed: without the space it is stuffed with, and whether it goes on softly. -/
def unflowLine (deleteSpace : Bool) (line : DartString) : DartString × Bool :=
  let line := if line.head? = some 32 then line.drop 1 else line
  let soft := decide (line.getLast? = some 32 ∧ line ≠ ofString "-- ")
  (if soft ∧ deleteSpace then line.dropLast else line, soft)

/-- The lines of a flowed text, put together. The last has no line feed behind it, and there is none
when the text ends in one. -/
def unflow (deleteSpace : Bool) : ℕ → List DartString → Option DartString
  | _, [] => some []
  | lines, [line] =>
    if line = [] then some []
    else if lines = 0 then none
    else some (unflowLine deleteSpace line).1
  | 0, _ :: _ :: _ => none
  | lines + 1, line :: next :: rest =>
    (unflow deleteSpace lines (next :: rest)).map fun text =>
      let (line, soft) := unflowLine deleteSpace line
      if soft then line ++ text else line ++ 10 :: text

/-- `_text` of a leaf. -/
def leafText (t : Tools) (entity : MimeEntity) : Option DartString :=
  if entity.mimeType ≠ ofString "text/plain" ∨
      entity.disposition t.decodeMimeWords = some (ofString "attachment") ∨
        entity.disposition t.decodeMimeWords = some (ofString "reaction") then some []
  else if maxTextBytes < entity.body.length then none
  else
    let text := dropReturns entity.text
    if (entity.parameter? "format").map toLowerCase = some (ofString "flowed") then
      (unflow ((entity.parameter? "delsp").map toLowerCase = some (ofString "yes")) maxTextLines
        (splitAt 10 text)).map trimRight
    else some (trimRight text)

mutual

/-- `_text`: the first text/plain part that is not an attachment, unflowed. -/
def textOf (t : Tools) : MimeEntity → Option DartString
  | entity@⟨_, _, _, _, parts⟩ =>
    if entity.isMultipart then textOfParts t parts else leafText t entity

def textOfParts (t : Tools) : List MimeEntity → Option DartString
  | [] => some []
  | part :: parts =>
    (textOf t part).bind fun text => if text ≠ [] then some text else textOfParts t parts

end

/-! ### Files and reactions -/

/-- The variables of `walk`. -/
structure Walked where
  files : List DeltaFile
  decoded : ℕ
  reaction : Bool
  reactionText : DartString
  invalidFiles : Bool

/-- What the headers say of the files: a voice message, its duration, a sticker. -/
structure Presentation where
  voice : Bool
  duration : ℕ
  sticker : Bool

def presentation (t : Tools) (headers : MimeHeaders) : Presentation where
  voice := headers.get? t.decodeMimeWords (ofString "chat-voice-message") = some (ofString "1")
  duration := t.deltaDuration (headers.get? t.decodeMimeWords (ofString "chat-duration"))
  sticker := headers.get? t.decodeMimeWords (ofString "chat-content") = some (ofString "sticker")

/-- `walk` at a leaf. -/
def walkLeaf (t : Tools) (p : Presentation) (w : Walked) (entity : MimeEntity) : Option Walked :=
  let disposition := entity.disposition t.decodeMimeWords
  if disposition = some (ofString "reaction") ∧ entity.mimeType = ofString "text/plain" then
    if maxTextBytes < entity.body.length then none
    else some { w with reaction := true, reactionText := t.deltaReaction entity.text }
  else
    let name := entity.fileName t.parseMimeParameters
    if disposition = some (ofString "attachment") ∨
        (name.isSome ∧ entity.mimeType ≠ ofString "text/plain") then
      let w := { w with decoded := w.decoded + entity.body.length }
      if DeltaLimits.attachments ≤ w.files.length ∨ DeltaLimits.fileBytes < w.decoded then
        some { w with invalidFiles := true }
      else
        let mime := t.deltaMimeType entity.body
        some { w with files := w.files ++ [{
          name := t.sanitizeAttachmentFileName (name.getD (ofString "attachment.bin"))
          bytes := entity.body
          mimeType := mime
          voice := p.voice && (decide (ofString "audio/" <+: mime) || mime = ofString "video/mp4")
          durationMs := p.duration
          sticker := p.sticker && decide (ofString "image/" <+: mime) }] }
    else some w

mutual

def walk (t : Tools) (p : Presentation) (w : Walked) : MimeEntity → Option Walked
  | entity@⟨_, _, _, _, parts⟩ =>
    if entity.isMultipart then walkParts t p w parts else walkLeaf t p w entity

def walkParts (t : Tools) (p : Presentation) (w : Walked) : List MimeEntity → Option Walked
  | [] => some w
  | part :: parts => (walk t p w part).bind fun w => walkParts t p w parts

end

/-! ### Keys -/

/-- The key in the sender's Autocrypt header: the first that can be read, and what is left of the
budget. -/
def autocryptKey (t : Tools) (sender : DartString) : ℕ → List DartString → Option PgpPublicKey × ℕ
  | checks, [] => (none, checks)
  | checks, value :: values =>
    match AutocryptHeader.parse value with
    | none => autocryptKey t sender checks values
    | some header =>
      if header.addr ≠ sender then autocryptKey t sender checks values
      else
        match t.parseKey header.keydata checks with
        | (some key, checks) => (some key, checks)
        | (none, checks) => autocryptKey t sender checks values

/-- Keys gossiped for the mail's own recipients, and not too many. -/
def gossipKeys (t : Tools) (recipients : List DartString) :
    ℕ → ℕ → List (DartString × PgpPublicKey) → List DartString → List (DartString × PgpPublicKey)
  | _, _, gossip, [] => gossip
  | parsed, checks, gossip, value :: values =>
    match AutocryptHeader.parse value with
    | none => gossipKeys t recipients parsed checks gossip values
    | some header =>
      if header.addr ∉ recipients ∨ header.addr ∈ gossip.map Prod.fst then
        gossipKeys t recipients parsed checks gossip values
      else if maxGossip < parsed + 1 then gossip
      else
        match t.parseKey header.keydata checks with
        | (some key, checks) =>
          gossipKeys t recipients (parsed + 1) checks (gossip ++ [(header.addr, key)]) values
        | (none, checks) => gossipKeys t recipients (parsed + 1) checks gossip values

/-- The addresses in the first To field. -/
def addressees (t : Tools) (headers : MimeHeaders) : List DartString :=
  (splitAddressList t.decodeMimeWords ((headers.raw (ofString "to")).head?.getD [])).filterMap
    fun address => parseMailAddress (some address)

/-- Who signed, whom the signature names, and the keys that are gossiped. -/
structure Signed where
  signer : Option PgpPublicKey
  intendedRecipients : List Bytes
  gossip : List (DartString × PgpPublicKey)

def signedBy (t : Tools) (decrypted : Option PgpDecrypted) (sender : DartString)
    (recipients : List DartString) (gossipValues : List DartString)
    (own : Option PgpPublicKey × ℕ) : Signed :=
  match decrypted with
  | none => ⟨none, [], []⟩
  | some decrypted =>
    if decrypted.signed then
      let known := (t.knownKeys.map fun knownKeys => knownKeys sender).getD []
      match decrypted.verify t.primitives (own.1.toList ++ known) with
      | none => ⟨none, [], []⟩
      | some (signer, intended) =>
        ⟨some signer, intended, gossipKeys t recipients 0 own.2 [] gossipValues⟩
    else ⟨none, [], []⟩

/-! ### Receipts -/

/-- The messages one part of a receipt is about. -/
def receiptOf (t : Tools) (part : MimeEntity) : Option (List DartString) :=
  if part.mimeType ≠ ofString "message/disposition-notification" then some []
  else
    (MimeHeaders.parse (ofLatin1 part.body)).map fun fields =>
      (bareMessageId (fields.get? t.decodeMimeWords (ofString "original-message-id"))).toList ++
        (angleGroups ((fields.get? t.decodeMimeWords
          (ofString "additional-message-ids")).getD [])).take 100

def receiptsOf (t : Tools) (content : MimeEntity) : Option (List DartString) :=
  if content.mimeType = ofString "multipart/report" ∧
      content.parameter? "report-type" = some (ofString "disposition-notification") then
    (content.parts.mapM (receiptOf t)).map List.flatten
  else some []

/-! ### Reading -/

/-- What an encrypted mail holds: the decrypted message, the shared secret it was encrypted with,
and the content. -/
structure Opened where
  decrypted : PgpDecrypted
  password : Option DartString
  content : MimeEntity

/-- The armored message among the parts. -/
def armored (parts : List MimeEntity) : Option DartString :=
  (parts.map fun part => ofLatin1 part.body).find? fun text =>
    (indexOf OpenPgpArmor.beginLine text).isSome

/-- The parts of an encrypted mail, decrypted. -/
def openParts (t : Tools) (parts : List MimeEntity) : Option Opened :=
  (armored parts).bind fun armored =>
    (OpenPgpArmor.decode armored OpenPgpArmor.maxDecodedBytes).bind fun bytes =>
      (OpenPgp.readPackets bytes).bind fun packets =>
        if packets.any fun packet => packet.1 = 3 then
          -- encrypted with a shared secret
          (t.decryptWithPasswords bytes (t.passwords.map utf8Encode)).bind fun opened =>
            opened.bind fun (decrypted, password) =>
              (utf8Decode password).bind fun password =>
                (t.parseEntity (DeltaLimits.fileBytes + maxBytes) decrypted.data).map fun content =>
                  { decrypted, password := some password, content }
        else
          (t.decrypt bytes).bind fun decrypted =>
            (t.parseEntity (DeltaLimits.fileBytes + maxBytes) decrypted.data).map fun content =>
              { decrypted, password := none, content }

/-- The rest of `_read`, once the content and the header fields are there. Of the outer mail it has
the length, the sender and whether it is a post message. -/
def readContent (t : Tools) (length : ℕ) (outerFrom : DartString) (postMessage : Bool)
    (headers : MimeHeaders) (content : MimeEntity) (decrypted : Option PgpDecrypted)
    (password : Option DartString) : Option DeltaIncoming :=
  let field := fun name : String => headers.get? t.decodeMimeWords (ofString name)
  let to' := addressees t headers
  if DeltaLimits.members < to'.length then none
  else
    (parseMailAddress (field "from")).bind fun sender =>
      if sender ≠ outerFrom then none
      else
        -- the last two at most: each is a key to read
        let own := autocryptKey t sender maxKeyChecks
          ((headers.raw (ofString "autocrypt")).reverse.take 2)
        let signed := signedBy t decrypted sender to'
          (content.headers.raw (ofString "autocrypt-gossip")) own
        (receiptsOf t content).bind fun receiptsFor =>
          (walk t (presentation t headers) ⟨[], 0, false, [], false⟩ content).bind fun walked =>
            if walked.invalidFiles ∨ (maxBytes < length ∧ walked.files = []) then none
            else
              (bareMessageId (field "message-id")).bind fun messageId =>
                (((field "date").map t.parseRfc5322Date).getD (some none)).bind fun date =>
                  (if receiptsFor = [] ∧ walked.reaction = false then textOf t content
                    else some []).map fun text => {
                      sender
                      fromName := displayName (field "from")
                      recipients := to'
                      intendedFor := signed.intendedRecipients.map upperHex
                      messageId
                      date
                      encrypted := decrypted.isSome
                      signer := signed.signer
                      autocryptKey := own.1
                      gossip := signed.gossip
                      headers
                      text
                      password
                      receiptsFor := receiptsFor.take 100
                      attachments := walked.files.map DeltaFile.name
                      files := walked.files
                      reactionText := walked.reactionText
                      postMessage
                      reaction := walked.reaction }

/-- `read`. -/
def read (t : Tools) (mail : Bytes) : Option DeltaIncoming :=
  if DeltaLimits.fileMailBytes < mail.length then none
  else
    (t.parseEntity DeltaLimits.fileMailBytes mail).bind fun outer =>
      (parseMailAddress (outer.headers.get? t.decodeMimeWords (ofString "from"))).bind
        fun outerFrom =>
          let postMessage :=
            (outer.headers.get? t.decodeMimeWords (ofString "chat-is-post-message")).isSome
          if outer.mimeType = ofString "multipart/encrypted" then
            (openParts t outer.parts).bind fun opened =>
              readContent t mail.length outerFrom postMessage
                (protectedHeaders outer.headers opened.content.headers) opened.content
                (some opened.decrypted) opened.password
          else
            readContent t mail.length outerFrom postMessage outer.headers outer none none

end DeltaMail
end Mail
end Conest
