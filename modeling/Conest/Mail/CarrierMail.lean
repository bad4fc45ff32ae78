import Conest.Lib.FMap
import Conest.Mail.Address
import Conest.Mail.Armor
import Conest.Mail.Symmetric

/-!
# The mail that carries a frame

`build` writes a PGP/MIME mail with one frame in it, `read` finds its way through a fetched mail by text
positions. Everything `build` writes is a line, and so is everything `read` looks for: the header block
ends at the first empty line (`headerEnd_build`), the first armored message is the one that was written
(`begin_build`, `end_build`), since no line before it has the two letters that the marks are told by.
-/

open Lib
open Lib.DartString

namespace Conest
namespace Mail

def carrierMailVersion : UInt8 := 1
def maxCarrierMailBytes : ℕ := 2 * 1024 * 1024

/-- A `DateTime` in UTC. -/
structure UtcDate where
  year : ℤ
  month : Fin 12
  day : ℕ
  weekday : Fin 7
  hour : ℕ
  minute : ℕ
  second : ℕ
deriving DecidableEq, Repr

/-- What `build` draws: the two tokens, and the salt and the random bytes of the message. -/
structure MailDraws where
  boundary : Vector (Fin 36) 24
  messageId : Vector (Fin 36) 20
  salt : Vector UInt8 8
  random : Vector UInt8 16

namespace CarrierMail

/-! ### Writing -/

def token {length : ℕ} (draws : Vector (Fin 36) length) : DartString :=
  draws.toList.map fun (draw : Fin 36) => (ofString "abcdefghijklmnopqrstuvwxyz0123456789").getD draw 0

/-- An integer as it is interpolated. -/
def decimal (n : ℤ) : DartString := ofString (toString n)

def two (n : ℕ) : DartString :=
  let digits := decimal n
  List.replicate (2 - digits.length) 48 ++ digits

def days : List DartString := ["Mon", "Tue", "Wed", "Thu", "Fri", "Sat", "Sun"].map ofString

def months : List DartString :=
  ["Jan", "Feb", "Mar", "Apr", "May", "Jun", "Jul", "Aug", "Sep", "Oct", "Nov", "Dec"].map ofString

/-- `_rfc5322Date`. -/
def rfc5322Date (utc : UtcDate) : DartString :=
  days.getD utc.weekday [] ++ ofString ", " ++ decimal utc.day ++ ofString " " ++
    months.getD utc.month [] ++ ofString " " ++ decimal utc.year ++ ofString " " ++ two utc.hour ++
    ofString ":" ++ two utc.minute ++ ofString ":" ++ two utc.second ++ ofString " +0000"

/-- What stands behind the last `@`. -/
def domainOf (sender : DartString) : DartString := (sender.reverse.takeWhile (· != 64)).reverse

def boundaryOf (draws : MailDraws) : DartString := ofString "cc-" ++ token draws.boundary

/-- The header lines but the last. -/
def headerLines (sender recipient : DartString) (date : UtcDate) (draws : MailDraws) : List DartString :=
  [ofString "From: <" ++ sender ++ ofString ">",
    ofString "To: <" ++ recipient ++ ofString ">",
    ofString "Subject: [...]",
    ofString "Date: " ++ rfc5322Date date,
    ofString "Message-ID: <" ++ token draws.messageId ++ ofString "@" ++ domainOf sender ++ ofString ">",
    ofString "MIME-Version: 1.0"]

/-- The last header line. -/
def contentTypeLine (draws : MailDraws) : DartString :=
  ofString "Content-Type: multipart/encrypted; protocol=\"application/pgp-encrypted\"; boundary=\"" ++
    boundaryOf draws ++ ofString "\""

/-- The lines between the headers and the armored message. -/
def partLines (draws : MailDraws) : List DartString :=
  [[],
    ofString "--" ++ boundaryOf draws,
    ofString "Content-Type: application/pgp-encrypted",
    ofString "Content-Description: PGP/MIME version identification",
    [],
    ofString "Version: 1",
    [],
    ofString "--" ++ boundaryOf draws,
    ofString "Content-Type: application/octet-stream; name=\"encrypted.asc\"",
    ofString "Content-Description: OpenPGP encrypted message",
    ofString "Content-Disposition: inline; filename=\"encrypted.asc\"",
    []]

/-- The lines behind it. -/
def closingLines (draws : MailDraws) : List DartString :=
  [[], ofString "--" ++ boundaryOf draws ++ ofString "--"]

/-- The message inside. -/
def sealed (digests : Digests) (mailboxKey frame : Bytes) (draws : MailDraws) : Bytes :=
  OpenPgpSymmetric.encrypt digests draws.salt draws.random (carrierMailVersion :: frame) mailboxKey

/-- `CarrierMail.build`. -/
def build (digests : Digests) (sender recipient : DartString) (mailboxKey frame : Bytes) (date : UtcDate)
    (draws : MailDraws) : DartString :=
  List.intercalate crlf (headerLines sender recipient date draws ++ [contentTypeLine draws] ++
    partLines draws ++
    [trimRight (OpenPgpArmor.encode (sealed digests mailboxKey frame draws))] ++
    closingLines draws ++ [[]])

/-! ### Reading -/

/-- What the loop of `_headers` keeps between two lines. -/
structure HeaderReader where
  result : FMap DartString DartString
  name : Option DartString
  value : DartString

namespace HeaderReader

def start : HeaderReader := ⟨FMap.empty, none, []⟩

/-- `flush`: the first field of a name stays. -/
def flush (r : HeaderReader) : HeaderReader :=
  match r.name with
  | none => { r with value := [] }
  | some current =>
    { r with
      result := if r.result.contains current then r.result else r.result.insert current (trim r.value)
      value := [] }

def readLine (r : HeaderReader) (line : DartString) : HeaderReader :=
  if line.head? = some 32 ∨ line.head? = some 9 then
    { r with value := r.value ++ 32 :: trim line }
  else
    let r := r.flush
    match indexOf [58] line with
    | none => { r with name := none }
    | some 0 => { r with name := none }
    | some colon =>
      { r with
        name := some (toLowerCase (trim (line.take colon)))
        value := r.value ++ line.drop (colon + 1) }

end HeaderReader

/-- `_headers`. -/
def headers (block : DartString) : FMap DartString DartString :=
  ((splitLines block).foldl HeaderReader.readLine HeaderReader.start).flush.result

/-- Where the header block ends. -/
def headerEnd (text : DartString) : Option ℕ :=
  (indexOf (crlf ++ crlf) text).orElse fun _ => indexOf [10, 10] text

/-- The frame in a text, from its armored message. -/
def openFrame (digests : Digests) (text : DartString) (mailboxKey : Bytes) : Option Bytes :=
  (indexOf OpenPgpArmor.beginLine text).bind fun first =>
    (indexOf OpenPgpArmor.endLine text).bind fun last =>
      if last < first then none
      else
        (OpenPgpArmor.decode ((text.take (last + OpenPgpArmor.endLine.length)).drop first)
          OpenPgpArmor.maxDecodedBytes).bind fun message =>
          (OpenPgpSymmetric.decrypt digests message mailboxKey).bind fun clear =>
            if clear.length < 2 ∨ clear.head? ≠ some carrierMailVersion then none
            else some (clear.drop 1)

/-- `CarrierMail.read`: the sender and the frame. -/
def read (digests : Digests) (raw mailboxKey : Bytes) : Option (DartString × Bytes) :=
  if maxCarrierMailBytes < raw.length then none
  else
    let text := ofLatin1 raw
    (headerEnd text).bind fun split =>
      let fields := headers (text.take split)
      (parseMailAddress (fields.get (ofString "from"))).bind fun sender =>
        if (ofString "multipart/encrypted") <+:
            toLowerCase ((fields.get (ofString "content-type")).getD []) then
          (openFrame digests text mailboxKey).map fun frame => (sender, frame)
        else none

end CarrierMail
end Mail
end Conest
