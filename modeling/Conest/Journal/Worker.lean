import Conest.Group.Codec
import Conest.Journal.Index

/-!
# The journal worker

One encrypted append-only file per group: a header, then frames. A frame is a size in four bytes
and a sealed event, bound to the offset at which the frame stands. `openJournal` reads the frames
back, checks them as if they were appended and cuts a torn last frame off; `append` checks an event,
writes its frame at the end and brings the indexes up to date; `execute` answers the queries, in
pages read from the file.

An operation of the file can fail. `WriteOutcome` says how a write ends: done, failed and rolled
back, or failed with the rollback failing too, which leaves some of the frame and poisons the
worker. Offsets are kept beside the entries, by event.
-/

namespace Conest
namespace Journal

open Lib Conest.Group

def magic : Bytes := "CONEST-GROUP-JOURNAL-1\n".toList.map fun c => UInt8.ofNat c.toNat

def maxFrame : ℕ := groupEventMaxBytes + 28

def pageBytes : ℕ := 1024 * 1024

/-- A number below `2 ^ 32` in four bytes, the highest first. -/
def setUint32 (n : ℕ) : Bytes :=
  [UInt8.ofNat (n / 2 ^ 24), UInt8.ofNat (n / 2 ^ 16), UInt8.ofNat (n / 2 ^ 8), UInt8.ofNat n]

def getUint32 : Bytes → ℕ
  | [a, b, c, d] => a.toNat * 2 ^ 24 + b.toNat * 2 ^ 16 + c.toNat * 2 ^ 8 + d.toNat
  | _ => 0

/-- An authenticated cipher with associated data, under one key. -/
structure Aead where
  encrypt : Bytes → DartString → Bytes → Bytes × Bytes
  decrypt : Bytes → DartString → Bytes → Bytes → Option Bytes
  cipher_length : ∀ nonce aad clear, (encrypt nonce aad clear).1.length = clear.length
  mac_length : ∀ nonce aad clear, (encrypt nonce aad clear).2.length = 16
  decrypt_encrypt : ∀ nonce aad clear,
    decrypt nonce aad (encrypt nonce aad clear).1 (encrypt nonce aad clear).2 = some clear

/-- A nonce of the cipher. -/
structure Nonce where
  bytes : Bytes
  length_eq : bytes.length = 12

/-- What a worker is given: the group, the key with its cipher, and the primitives. -/
structure Env where
  groupId : DartString
  crypto : Crypto
  aead : Aead
  codec : Codec
  text : TextFunctions

/-! ### Frames -/

section Frames

variable (env : Env)

def Env.decodeEvent (encoded : Bytes) : Except String GroupHistoryEvent := env.codec.decode encoded

/-- What a frame at an offset is bound to. -/
def Env.aad (offset : ℕ) : DartString :=
  DartString.ofString "conest.group-journal.v1|" ++ env.groupId ++ DartString.ofString "|" ++
    DartString.ofString (toString offset)

/-- The sealed form of a text at an offset. -/
def Env.sealFrame (nonce : Nonce) (offset : ℕ) (clear : Bytes) : Bytes :=
  let box := env.aead.encrypt nonce.bytes (env.aad offset) clear
  nonce.bytes ++ box.1 ++ box.2

/-- The event in a frame that stands at an offset. -/
def Env.decodeFrame (frame : Bytes) (offset : ℕ) : Except String GroupHistoryEvent :=
  match env.aead.decrypt (frame.take 12) (env.aad offset)
      ((frame.drop 12).take (frame.length - 28)) (frame.drop (frame.length - 16)) with
  | none => .error "SecretBox has wrong message authentication code (MAC)"
  | some clear =>
    match env.decodeEvent clear with
    | .error e => .error e
    | .ok event =>
      if event.groupId ≠ env.groupId then .error "Group journal contains another group."
      else .ok event

def Env.checkSignature (event : GroupHistoryEvent) : Except String Unit :=
  if event.groupId ≠ env.groupId ∨
      event.verify env.crypto env.groupId event.authorAccountId event.authorDeviceId
        event.signingPublicKeyBase64 = false then
    .error "Invalid group journal event signature."
  else .ok ()

end Frames

/-! ### Opening and appending -/

/-- How the write of a frame ends. With `poisoned` the rollback failed, and `reached` bytes of the
frame are in the file. -/
inductive WriteOutcome where
  | written
  | rolledBack
  | poisoned (reached : ℕ)

/-- The state of the worker. -/
structure Worker where
  file : Bytes
  index : Index
  offsets : FMap DartString ℕ
  endOffset : ℕ
  poisoned : Bool

namespace Worker

variable (env : Env)

/-- Index an event whose frame stands at the end. -/
def indexAtEnd (w : Worker) (event : GroupHistoryEvent) (size : ℕ) : Worker × Except String Unit :=
  if w.index.entries.contains event.eventId then (w, .ok ())
  else
    let indexed := w.index.indexEvent env.text event size
    ({ w with
        index := indexed.1
        offsets := w.offsets.insert event.eventId w.endOffset }, indexed.2)

/-- The checks on an event before it counts. -/
def checkEvent (w : Worker) (event : GroupHistoryEvent) : Except String Unit :=
  match env.checkSignature event with
  | .error e => .error e
  | .ok () => w.index.checkChain event

/-- Read the frames from the end of what is read already. Each round advances, so as much fuel as
the file has bytes is enough. -/
def scan : ℕ → Worker → Except String Worker
  | 0, w => .ok w
  | fuel + 1, w =>
    if w.file.length ≤ w.endOffset then .ok w
    else if w.file.length - w.endOffset < 4 then .ok { w with file := w.file.take w.endOffset }
    else
      let size := getUint32 ((w.file.drop w.endOffset).take 4)
      if size < 28 ∨ maxFrame < size then .error "Invalid group journal frame length."
      else if w.file.length - w.endOffset - 4 < size then
        .ok { w with file := w.file.take w.endOffset }
      else
        match env.decodeFrame ((w.file.drop (w.endOffset + 4)).take size) w.endOffset with
        | .error e => .error e
        | .ok event =>
          match w.checkEvent env event with
          | .error e => .error e
          | .ok () =>
            match w.indexAtEnd env event size with
            | (_, .error e) => .error e
            | (w', .ok ()) => scan fuel { w' with endOffset := w.endOffset + 4 + size }

/-- The worker before it has read a frame. -/
def afterHeader (file : Bytes) : Worker where
  file := file
  index := Index.empty
  offsets := FMap.empty
  endOffset := magic.length
  poisoned := false

/-- Open the journal in a file. An empty file gets a header. -/
def openJournal (file : Bytes) : Except String Worker :=
  let file := if file.length = 0 then magic else file
  if file.take magic.length ≠ magic then .error "Invalid group journal header."
  else scan env file.length (afterHeader file)

/-- Write bytes at an offset. -/
def overwrite (file : Bytes) (offset : ℕ) (bytes : Bytes) : Bytes :=
  file.take offset ++ bytes ++ file.drop (offset + bytes.length)

/-- Write the frame of an event that was admitted, and index it. -/
def writeFrame (w : Worker) (event : GroupHistoryEvent) (frame : Bytes) (io : WriteOutcome) :
    Worker × Except String Bool :=
  let bytes := setUint32 frame.length ++ frame
  match io with
  | .rolledBack => ({ w with file := w.file.take w.endOffset }, .error "FileSystemException")
  | .poisoned reached =>
    ({ w with file := overwrite w.file w.endOffset (bytes.take reached), poisoned := true },
      .error "FileSystemException")
  | .written =>
    let indexed := { w with file := overwrite w.file w.endOffset bytes }.indexAtEnd env event
      frame.length
    match indexed.2 with
    | .error e => (indexed.1, .error e)
    | .ok () => ({ indexed.1 with endOffset := w.endOffset + 4 + frame.length }, .ok true)

/-- Append an event: `true` if it was written, `false` if it was there. -/
def append (w : Worker) (event : GroupHistoryEvent) (nonce : Nonce) (io : WriteOutcome) :
    Worker × Except String Bool :=
  if w.poisoned then (w, .error "Reopen the journal after an I/O failure.")
  else
    match env.decodeEvent (env.codec.encode event) with
    | .error e => (w, .error e)
    | .ok decoded =>
      match w.checkEvent env decoded with
      | .error e => (w, .error e)
      | .ok () =>
        if w.index.entries.contains decoded.eventId then (w, .ok false)
        else
          w.writeFrame env decoded (env.sealFrame nonce w.endOffset (env.codec.encode event)) io

end Worker

/-! ### Queries -/

/-- The queries that the worker answers. -/
inductive Query where
  | messageMutations (target authorAccount authorDevice signingKey : DartString)
  | authorHead (author : DartString)
  | sourceMessage (author messageId : DartString)
  | retained (ids : List DartString)
  | events (ids : List DartString)
  | search (query : DartString) (limit : ℤ)
  | memberships (after : Option DartString) (limit : ℤ)
  | page (before : Option DartString) (limit : ℤ)
  | authors (after : Option DartString) (limit : ℤ)
  | ranges (author : DartString) (after limit : ℤ)
  | range (author : DartString) (start stop limit : ℤ)

inductive Answer where
  | events (events : List GroupHistoryEvent)
  | event (event : Option GroupHistoryEvent)
  | ids (ids : List DartString)
  | ranges (ranges : List (ℕ × ℕ))
deriving DecidableEq

/-- What a query selects: entries to read a page of, one entry, or an answer that needs no
reading. -/
inductive Selection where
  | entries (entries : List Entry) (limit : ℤ)
  | single (entry : Option Entry)
  | answer (answer : Answer)

def checkLimit (limit : ℤ) (maximum : ℤ) : Except String Unit :=
  if limit < 1 ∨ limit > maximum then .error "Invalid history page size." else .ok ()

/-- Go on if the limit is within its bounds. -/
def withLimit {α : Type} (limit maximum : ℤ) (next : Except String α) : Except String α :=
  match checkLimit limit maximum with
  | .error e => .error e
  | .ok () => next

/-- The values of a map. The source iterates in the order of insertion; whatever it does with the
values sorts them. -/
def valuesOf {K : Type} [LinearOrder K] (m : FMap K Entry) : List Entry :=
  (m.keys.sort (· ≤ ·)).filterMap m.get

def sortEntries (entries : List Entry) : List Entry :=
  entries.insertionSort fun a b => a.key ≤ b.key

/-- Join runs of consecutive sequences, up to `limit` of them. -/
def rangesOf (limit : ℕ) : List ℕ → List (ℕ × ℕ) → List (ℕ × ℕ)
  | [], ranges => ranges
  | sequence :: sequences, ranges =>
    match ranges.getLast? with
    | some (start, stop) =>
      if stop + 1 = sequence then
        rangesOf limit sequences (ranges.dropLast ++ [(start, sequence)])
      else if ranges.length = limit then ranges
      else rangesOf limit sequences (ranges ++ [(sequence, sequence)])
    | none =>
      if ranges.length = limit then ranges
      else rangesOf limit sequences (ranges ++ [(sequence, sequence)])

namespace Index

variable (index : Index)

/-- The events that some indexed word with the term in it leads to. -/
def termMatches (term : DartString) : Finset DartString :=
  (index.searchIndex.keys.filter fun word => term <:+: word).biUnion fun word =>
    (index.searchIndex.get word).getD ∅

/-- The events that all terms lead to; an empty intersection ends the loop. -/
def searchMatches : List DartString → Option (Finset DartString) → Finset DartString
  | [], found => found.getD ∅
  | term :: terms, found =>
    let next :=
      match found with
      | none => index.termMatches term
      | some found => found ∩ index.termMatches term
    if next = ∅ then next else searchMatches terms (some next)

/-- What a query selects from the indexes. -/
def select (text : TextFunctions) : Query → Except String Selection
  | .messageMutations target authorAccount authorDevice signingKey =>
    .ok (.entries (sortEntries ((valuesOf index.messageMutations).filter fun entry =>
      entry.event.stringAt "targetEventId" = some target ∧
        (entry.kind = .reaction ∨ entry.event.authorAccountId = authorAccount ∧
          entry.event.authorDeviceId = authorDevice ∧
          entry.event.signingPublicKeyBase64 = signingKey))) 128)
  | .authorHead author => .ok (.single (index.authorHeads.get author))
  | .sourceMessage author messageId =>
    .ok (.single (index.sourceMessages.get (author, messageId)))
  | .retained ids =>
    withLimit ids.length 128 (.ok (.answer (.ids (ids.filter index.entries.contains))))
  | .events ids =>
    withLimit ids.length 128 (.ok (.entries (ids.dedup.filterMap index.entries.get) 128))
  | .search query limit =>
    withLimit limit 128
      (if searchTerms text query = [] then .ok (.answer (.events []))
      else
        .ok (.entries
          ((((index.searchMatches (searchTerms text query) none).sort (· ≤ ·)).filterMap
            index.entries.get).insertionSort fun a b => b.key ≤ a.key) limit))
  | .memberships none limit =>
    .ok (.entries (index.ordered.filter fun entry => entry.kind = .membership) limit)
  | .memberships (some afterId) limit =>
    match index.entries.get afterId with
    | none => .error "Unknown membership page cursor."
    | some after =>
      .ok (.entries (index.ordered.filter fun entry =>
        entry.kind = .membership ∧ after.key < entry.key) limit)
  | .page none limit => .ok (.entries index.ordered.reverse limit)
  | .page (some beforeId) limit =>
    match index.entries.get beforeId with
    | none => .error "Unknown group history page cursor."
    | some before =>
      .ok (.entries (index.ordered.reverse.filter fun entry => entry.key < before.key) limit)
  | .authors after limit =>
    withLimit limit 128
      (.ok (.answer (.ids (((index.authors.keys.sort (· ≤ ·)).filter fun author =>
        after.all fun a => a < author).take limit.toNat))))
  | .ranges author after limit =>
    withLimit limit 64
      (if after < 0 ∨ after > groupEventMaxCounter then .error "Invalid range cursor."
      else
        let sequences : List ℕ := (((index.authors.get author).map fun sequences =>
          sequences.keys.sort (· ≤ ·)).getD []).filter fun sequence : ℕ => after < (sequence : ℤ)
        .ok (.answer (.ranges (rangesOf limit.toNat sequences []))))
  | .range author start stop limit =>
    if start < 1 ∨ stop < start ∨ stop > groupEventMaxCounter then .error "Invalid event range."
    else
      .ok (.entries (((((index.authors.get author).map valuesOf).getD []).filter fun entry =>
        start ≤ (entry.sequence : ℤ) ∧ (entry.sequence : ℤ) ≤ stop).insertionSort
          fun a b => a.sequence ≤ b.sequence) limit)

end Index

namespace Worker

variable (env : Env) (w : Worker)

def readEntry (entry : Entry) : Except String GroupHistoryEvent :=
  match w.offsets.get entry.id with
  | none => .error "Null check operator used on a null value"
  | some offset => env.decodeFrame ((w.file.drop (offset + 4)).take entry.size) offset

/-- Read entries until there are `limit` or the page is full. -/
def readEntries (limit : ℕ) : List Entry → ℕ → ℕ → Except String (List GroupHistoryEvent)
  | [], _, _ => .ok []
  | entry :: entries, count, bytes =>
    if count = limit ∨ bytes + entry.size > pageBytes then .ok []
    else
      match w.readEntry env entry with
      | .error e => .error e
      | .ok event =>
        match readEntries limit entries (count + 1) (bytes + entry.size) with
        | .error e => .error e
        | .ok events => .ok (event :: events)

def read (entries : List Entry) (limit : ℤ) : Except String (List GroupHistoryEvent) :=
  withLimit limit 128 (w.readEntries env limit.toNat entries 0 0)

/-- The answer to what a query selected. -/
def answer : Selection → Except String Answer
  | .entries entries limit =>
    match w.read env entries limit with
    | .error e => .error e
    | .ok events => .ok (.events events)
  | .single none => .ok (.event none)
  | .single (some entry) =>
    match w.read env [entry] 1 with
    | .error e => .error e
    | .ok [event] => .ok (.event (some event))
    | .ok _ => .error "Bad state: No element"
  | .answer answer => .ok answer

def execute (query : Query) : Except String Answer :=
  if w.poisoned then .error "Reopen the journal after an I/O failure."
  else
    match w.index.select env.text query with
    | .error e => .error e
    | .ok selection => w.answer env selection

end Worker

end Journal
end Conest
