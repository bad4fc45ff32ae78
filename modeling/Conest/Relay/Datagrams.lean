import Conest.Relay.Response
import Conest.Relay.Draining

/-!
# Answers that must fit in a datagram

Over UDP a request and its answer are one datagram each, and a datagram holds 65 507 bytes. The
relay reads no request longer than that. What it answers is bounded only by the number of rows a
fetch takes: the rows are deleted or leased, the transaction is committed, and then the answer is
printed and handed to the socket, which refuses it when it is too long. The answer is lost, and
after a legacy fetch the envelopes with it.

`datagram_fetches_answered_iff` says of every run when the answers to its fetches go out: at each
fetch, the envelopes that it selects must fit beside the fixed part of the answer, which depends on
whether a lease is returned, on the form of the signature and on the length of the nonce. Inside the
string of a detached answer a text takes its escapes as well.
-/

open Lib Lib.JsonText List Option

namespace Conest
namespace Relay

/-- What one datagram can carry. -/
def udpPayloadMax : ℕ := 65507

/-- `UDP_COOKIE_REQUEST_MIN_BYTES`. -/
def udpCookieRequestMinBytes : ℕ := 128

/-! ### Serving datagrams -/

/-- A datagram as `handle_request_from` reads it. There is no request where it does not parse. -/
structure Datagram (Value : Type) where
  bytesRead : ℕ
  request : Option (RelayRequest Value)
  action : String
  nonce : Option (List UInt8)
  detached : Bool

/-- What admission says to a datagram: `allow_request_banning`, `valid_udp_cookie` with the cookie
there is to send, and `allow_store`. -/
structure Gate where
  requestAllowed : Bool
  cookieValid : Bool
  cookie : String
  storeAllowed : Bool

/-- What becomes of an answer: nothing goes back, a datagram goes out, or the socket refuses it. -/
inductive Sent where
  | nothing
  | datagram (text : String)
  | encodeError (error : String)
  | sendError (text : String)
deriving DecidableEq

section Serve

variable {Value : Type} (serde : Serde Value) (cfg : RelayConfig) (choice : HolderChoice)
  (face : RelayFace)

/-- `handle_request_from` on a datagram: whatever is refused before the request is handled gets no
answer, and no request waits. -/
def handleUdpDatagram (state : RelayState) (d : Datagram Value) (gate : Gate) (source : String)
    (draws : Draws) : Option RelayState × Wire Value :=
  if cfg.maxLineBytes < d.bytesRead ∨ ¬ gate.requestAllowed then (some state, .null)
  else
    match d.request with
    | none => (some state, .null)
    | some request =>
      if ¬ gate.cookieValid then
        if d.bytesRead < udpCookieRequestMinBytes then (some state, .null)
        else (some state, .cookieRequired gate.cookie)
      else if ¬ gate.storeAllowed then (some state, .null)
      else
        match handleRequestFor serde cfg choice face state request source draws with
        | (state', some response) =>
          (state', finalizeWire serde face.identity response d.action d.nonce d.detached)
        | (state', none) => (state', .null)

/-- The end of an iteration of `serve_udp`: `send_to` fails on more than a datagram holds. -/
def Wire.send : Wire Value → Sent
  | .null => .nothing
  | wire =>
    match wire.toVec serde with
    | .error error => .encodeError error
    | .ok text => if text.utf8ByteSize ≤ udpPayloadMax then .datagram text else .sendError text

/-- What happens to a relay: a datagram, or any operation that comes another way. -/
inductive Traffic (Value : Type) where
  | datagram (d : Datagram Value) (gate : Gate) (source : String) (draws : Draws)
  | other (op : Op Value)

/-- The relay with its datagrams. -/
def udpRelay : Machine (Option RelayState) (Traffic Value) Sent where
  step state traffic :=
    match state, traffic with
    | none, _ => (none, .nothing)
    | some state, .datagram d gate source draws =>
      ((handleUdpDatagram serde cfg choice face state d gate source draws).1,
        (handleUdpDatagram serde cfg choice face state d gate source draws).2.send serde)
    | some state, .other op => ((state.exec serde cfg choice op).1, .nothing)

end Serve

/-! ### Fetches -/

/-- A fetch: its mailbox, the limit asked for, and how long the lease is to last, if there is to be
one. -/
structure Taking where
  recipient : String
  limit : Option ℕ
  leaseMillis : Option ℕ

/-- The fetch that a request is. -/
def RelayRequest.taking {Value : Type} : RelayRequest Value → Option Taking
  | .fetch recipient limit _ => some ⟨recipient, limit, none⟩
  | .fetchLeased recipient limit _ leaseMs => some ⟨recipient, limit, some (leaseMillis leaseMs)⟩
  | _ => none

/-- A fetch that admission lets through. -/
def Datagram.fetches {Value : Type} (cfg : RelayConfig) (d : Datagram Value) (gate : Gate)
    (t : Taking) : Prop :=
  d.bytesRead ≤ cfg.maxLineBytes ∧ gate.requestAllowed = true ∧ gate.cookieValid = true ∧
    gate.storeAllowed = true ∧ d.request.bind RelayRequest.taking = some t

namespace Taking

variable {Value : Type} (serde : Serde Value) (cfg : RelayConfig) (db : Database) (now : ℕ)
  (t : Taking)

/-- The rows that a fetch selects. -/
def selected : List QueueEntry :=
  (db.sweep (now - cfg.ttlMillis) now).readyRows t.recipient (fetchLimit cfg t.limit)

/-- The lease that a fetch puts its rows under. -/
def lease (leaseId : List UInt8) : Option Lease :=
  t.leaseMillis.map fun millis => { id := base64Standard leaseId, millis }

/-- What a fetch is refused with: a mailbox id that is none, or a number that SQLite cannot hold. -/
def refusal : Option String :=
  (validateMailboxId t.recipient).or
    (if i64Max < now - cfg.ttlMillis then some ("cleaning relay queue: " ++ outOfRange)
    else if i64Max < now then some ("releasing expired relay leases: " ++ outOfRange)
    else if i64Max < fetchLimit cfg t.limit then some ("querying relay fetch: " ++ outOfRange)
    else if (t.leaseMillis.any fun millis => decide (i64Max < saturatingAdd now millis)) ∧
        ∃ r ∈ t.selected cfg db now,
          (serde.fromStr r.envelopeJson).isSome = true ∧ r.isPairing = false then
      some ("leasing relay envelope: " ++ outOfRange)
    else none)

/-- The texts of the envelopes that a fetch returns: those of the selected rows, parsed and printed
again. -/
def envelopeTexts : Except String (List String) :=
  ((t.selected cfg db now).filterMap fun r => serde.fromStr r.envelopeJson).mapM serde.toVec

/-- Whether a lease is returned. -/
def returnsLease : Bool :=
  t.leaseMillis.isSome && (t.selected cfg db now).any fun r => !r.isPairing

end Taking

namespace Datagram

variable {Value : Type} (d : Datagram Value)

/-- Whether the response travels inside a string. -/
def wrapped : Bool := d.detached && d.nonce.isSome

/-- The bytes of an answer that are the same whatever it says: the members with their quotes, the
signature and the echo of the nonce, in the form that was asked for. -/
def frameBytes : ℕ :=
  match d.detached, d.nonce with
  | _, none => 58
  | false, some nonce => 177 + 4 * ((nonce.length + 2) / 3)
  | true, some nonce => 208 + 4 * ((nonce.length + 2) / 3)

/-- The bytes of a lease id as a member. -/
def leaseBytes (returned : Bool) : ℕ :=
  if returned then (if d.wrapped then 42 else 38) else 0

/-- The bytes of an answer with envelopes. -/
def messageBytes (returned : Bool) (texts : List String) : ℕ :=
  d.frameBytes + 8 + d.leaseBytes returned + (texts.map (lengthIn d.wrapped)).sum +
    (texts.length - 1)

/-- The bytes of an answer with an error. -/
def errorBytes (error : String) : ℕ := d.frameBytes + 5 + lengthIn d.wrapped (quote error)

end Datagram

/-- **When the answer to a fetch fits**, read off the table before it. -/
def Datagram.HasRoom {Value : Type} (serde : Serde Value) (cfg : RelayConfig) (db : Database)
    (now : ℕ) (d : Datagram Value) (t : Taking) : Prop :=
  match t.refusal serde cfg db now with
  | some error => d.errorBytes error ≤ udpPayloadMax
  | none => ∀ texts, t.envelopeTexts serde cfg db now = .ok texts →
      d.messageBytes (t.returnsLease cfg db now) texts ≤ udpPayloadMax

/-! ### What a fetch does -/

section Take

variable {Value : Type} {serde : Serde Value} {cfg : RelayConfig} {db : Database} {now : ℕ}

/-- A row whose taking writes the end of a lease that SQLite cannot hold. -/
def BlockedBy (serde : Serde Value) (now : ℕ) (lease : Option Lease) (r : QueueEntry) : Prop :=
  (∃ l, lease = some l ∧ i64Max < saturatingAdd now l.millis) ∧
    (serde.fromStr r.envelopeJson).isSome = true ∧ r.isPairing = false

section

variable {context : String} {n : ℕ}

theorem sqlInteger_ok (h : ¬ i64Max < n) :
    sqlInteger context n = .ok n := if_pos (Nat.le_of_not_lt h)

theorem sqlInteger_error (h : i64Max < n) :
    sqlInteger context n = .error (context ++ ": " ++ outOfRange) := if_neg (Nat.not_le.mpr h)

end

section

variable {lease : Option Lease}

theorem takeRow_error {r : QueueEntry} (h : BlockedBy serde now lease r) (db : Database) :
    takeRow serde now lease db r = .error ("leasing relay envelope: " ++ outOfRange) := by
  obtain ⟨⟨l, rfl, hl⟩, hparse, hord⟩ := h
  obtain ⟨v, hv⟩ := isSome_iff_exists.mp hparse
  unfold takeRow
  rw [hv]
  dsimp only
  rw [hord, sqlInteger_error hl]
  rfl

theorem takeRow_ok {r : QueueEntry} (h : ¬ BlockedBy serde now lease r) (db : Database) :
    ∃ db', takeRow serde now lease db r = .ok db' := by
  unfold takeRow
  cases hv : serde.fromStr r.envelopeJson with
  | none => exact ⟨_, rfl⟩
  | some v =>
  by_cases hord : r.isPairing = true
  · exact ⟨db, if_pos hord⟩
  rw [if_neg hord]
  cases lease with
  | none => exact ⟨_, rfl⟩
  | some l =>
  have hl : ¬ i64Max < saturatingAdd now l.millis := fun hl =>
    h ⟨⟨l, rfl, hl⟩, by rw [hv]; rfl, Bool.eq_false_iff.mpr hord⟩
  dsimp only
  rw [sqlInteger_ok hl]
  exact ⟨_, rfl⟩

theorem takeRows_error {rows : List QueueEntry} (h : ∃ r ∈ rows, BlockedBy serde now lease r)
    (db : Database) :
    takeRows serde now lease rows db = .error ("leasing relay envelope: " ++ outOfRange) := by
  induction rows generalizing db with
  | nil =>
    obtain ⟨r, hr, -⟩ := h
    exact absurd hr not_mem_nil
  | cons q rows ih =>
  by_cases hq : BlockedBy serde now lease q
  · rw [takeRows, takeRow_error hq db]
    rfl
  obtain ⟨db₁, hrow⟩ := takeRow_ok hq db
  rw [takeRows, hrow]
  refine ih ?_ db₁
  obtain ⟨r, hr, hblocked⟩ := h
  rcases mem_cons.mp hr with rfl | hr
  · exact absurd hblocked hq
  · exact ⟨r, hr, hblocked⟩

theorem takeRows_ok {rows : List QueueEntry} (h : ¬ ∃ r ∈ rows, BlockedBy serde now lease r)
    (db : Database) : ∃ db', takeRows serde now lease rows db = .ok db' := by
  induction rows generalizing db with
  | nil => exact ⟨db, rfl⟩
  | cons q rows ih =>
  obtain ⟨db₁, hrow⟩ := takeRow_ok (fun hq => h ⟨q, mem_cons_self, hq⟩) db
  rw [takeRows, hrow]
  refine ih ?_ db₁
  rintro ⟨r, hr, hblocked⟩
  exact h ⟨r, mem_cons_of_mem q hr, hblocked⟩

end

theorem blockedBy_iff {t : Taking} {leaseId : List UInt8} :
    (∃ r ∈ t.selected cfg db now, BlockedBy serde now (t.lease leaseId) r) ↔
      (t.leaseMillis.any fun millis => decide (i64Max < saturatingAdd now millis)) ∧
        ∃ r ∈ t.selected cfg db now,
          (serde.fromStr r.envelopeJson).isSome = true ∧ r.isPairing = false := by
  unfold BlockedBy Taking.lease
  cases t.leaseMillis with
  | none => simp
  | some millis =>
  simp only [map_some, some.injEq, exists_eq_left', any_some,
    decide_eq_true_eq]
  constructor
  · rintro ⟨r, hr, hlate, h⟩
    exact ⟨hlate, r, hr, h⟩
  · rintro ⟨hlate, r, hr, h⟩
    exact ⟨r, hr, hlate, h⟩

variable (serde cfg db now) in
theorem takeQueue_spec {t : Taking} (leaseId : List UInt8)
    (hvalid : validateMailboxId t.recipient = none) :
    match t.refusal serde cfg db now with
    | some error =>
      takeQueue serde cfg db now t.recipient (fetchLimit cfg t.limit) (t.lease leaseId) =
        .error error
    | none => ∃ db',
      takeQueue serde cfg db now t.recipient (fetchLimit cfg t.limit) (t.lease leaseId) =
        .ok (db', {
          rows := parsedRows serde (t.selected cfg db now)
          leaseId :=
            if t.returnsLease cfg db now then some (base64Standard leaseId) else none }) := by
  unfold Taking.refusal takeQueue
  rw [hvalid]
  -- the three conversions come first, in the order of the statements
  by_cases hcutoff : i64Max < now - cfg.ttlMillis
  · rw [if_pos hcutoff, sqlInteger_error hcutoff]
    rfl
  rw [if_neg hcutoff, sqlInteger_ok hcutoff]
  by_cases hnow : i64Max < now
  · rw [if_pos hnow, sqlInteger_error hnow]
    rfl
  rw [if_neg hnow, sqlInteger_ok hnow]
  by_cases hlimit : i64Max < fetchLimit cfg t.limit
  · rw [if_pos hlimit, sqlInteger_error hlimit]
    rfl
  rw [if_neg hlimit, sqlInteger_ok hlimit]
  simp only [Outcome.ok_bind]
  by_cases hblocked : ∃ r ∈ t.selected cfg db now, BlockedBy serde now (t.lease leaseId) r
  · rw [if_pos (blockedBy_iff.mp hblocked)]
    have hrows := takeRows_error hblocked (db.sweep (now - cfg.ttlMillis) now)
    unfold Taking.selected at hrows
    rw [hrows]
    rfl
  rw [if_neg fun h => hblocked (blockedBy_iff.mpr h)]
  obtain ⟨db', hrows⟩ := takeRows_ok hblocked (db.sweep (now - cfg.ttlMillis) now)
  refine ⟨db', ?_⟩
  unfold Taking.selected at hrows
  rw [hrows]
  have hlease : (if (t.selected cfg db now).any fun r => !r.isPairing then
      (t.lease leaseId).map Lease.id else none) =
      if t.returnsLease cfg db now then some (base64Standard leaseId) else none := by
    unfold Taking.returnsLease Taking.lease
    cases t.leaseMillis with
    | none => simp
    | some millis => simp
  rw [← hlease]
  rfl

end Take

/-! ### How long an answer is -/

theorem lengthIn_memberText (inString : Bool) (key value : String) :
    lengthIn inString (memberText (key, value)) =
      lengthIn inString (quote key ++ ":") + lengthIn inString value := by
  unfold memberText
  rw [lengthIn_append]

theorem lengthIn_quote_base64 (inString : Bool) (bytes : List UInt8) :
    lengthIn inString (quote (base64Standard bytes)) =
      4 * ((bytes.length + 2) / 3) + if inString then 4 else 2 := by
  have hmark : lengthIn inString "\"" = if inString then 2 else 1 := by cases inString <;> decide
  have htext : lengthIn inString (base64Standard bytes) = 4 * ((bytes.length + 2) / 3) := by
    rw [← utf8ByteSize_base64Standard]
    cases inString with
    | false => rfl
    | true => exact congrArg String.utf8ByteSize (escaped_base64Standard bytes)
  unfold quote
  rw [escaped_base64Standard, lengthIn_append, lengthIn_append, hmark]
  cases inString with
  | false => simp only [Bool.false_eq_true, if_false]; omega
  | true => simp only [if_true]; omega

section Lengths

variable {Value : Type} (inString : Bool)

theorem lengthIn_members (r : RelayResponse Value) (hstored : r.stored = false)
    (hstats : r.stats = none) (hecho : r.nonceEcho = none) (hsig : r.signature = none)
    (hlease : r.leaseId = none) (texts : List String) :
    lengthIn inString (objectText (r.members texts)) =
      (if inString then 66 else 56) + lengthIn inString (boolText r.ok) +
        lengthIn inString (optionText (r.error.map quote)) +
        lengthIn inString (listText texts) := by
  rw [lengthIn_objectText]
  simp only [RelayResponse.members, hstored, hstats, hecho, hsig, hlease, optionMember,
    map_none, toList_none, append_nil, map_cons, map_nil,
    sum_cons, sum_nil, length_cons, length_nil, lengthIn_memberText]
  have hok : lengthIn inString (quote "ok" ++ ":") = if inString then 7 else 5 := by
    cases inString <;> decide
  have hstored : lengthIn inString (quote "stored" ++ ":") + lengthIn inString (boolText false) =
      if inString then 16 else 14 := by cases inString <;> decide
  have hmessages : lengthIn inString (quote "messages" ++ ":") =
      if inString then 13 else 11 := by cases inString <;> decide
  have herror : lengthIn inString (quote "error" ++ ":") = if inString then 10 else 8 := by
    cases inString <;> decide
  have hstats : lengthIn inString (quote "stats" ++ ":") + lengthIn inString (optionText none) =
      if inString then 14 else 12 := by cases inString <;> decide
  cases inString with
  | false =>
    simp only [Bool.false_eq_true, if_false] at *
    omega
  | true =>
    simp only [if_true] at *
    omega

theorem lengthIn_leased (messages : List Value) (leaseId : Option (List UInt8))
    (hlease : ∀ bytes, leaseId = some bytes → bytes.length = 18) (texts : List String) :
    lengthIn inString (objectText
        ((RelayResponse.leased messages (leaseId.map base64Standard)).members texts)) =
      (if inString then 76 else 66) +
        (if leaseId.isSome then (if inString then 42 else 38) else 0) +
        (texts.map (lengthIn inString)).sum + (texts.length - 1) := by
  have hbare := lengthIn_members inString (RelayResponse.leased messages none) rfl rfl rfl rfl rfl
    texts
  have hok : lengthIn inString (boolText true) = 4 := by cases inString <;> decide
  have herror : lengthIn inString (optionText none) = 4 := by cases inString <;> decide
  have hplain : lengthIn inString
      (objectText ((RelayResponse.leased messages none).members texts)) =
      (if inString then 76 else 66) + (texts.map (lengthIn inString)).sum +
        (texts.length - 1) := by
    rw [hbare]
    show _ + lengthIn inString (boolText true) + lengthIn inString (optionText none) + _ = _
    rw [lengthIn_listText]
    cases inString with
    | false => simp only [Bool.false_eq_true, if_false]; omega
    | true => simp only [if_true]; omega
  cases leaseId with
  | none =>
    rw [map_none, hplain]
    rfl
  | some bytes =>
  have hkey : lengthIn inString (quote "lease_id" ++ ":") = if inString then 13 else 11 := by
    cases inString <;> decide
  have hid := lengthIn_quote_base64 inString bytes
  rw [hlease bytes rfl] at hid
  -- a lease id is one member more, the last
  have hsplit : (RelayResponse.leased messages (some (base64Standard bytes))).members texts =
      (RelayResponse.leased messages none).members texts ++
        [("lease_id", quote (base64Standard bytes))] := rfl
  have hne : (RelayResponse.leased messages none).members texts ≠ [] := cons_ne_nil _ _
  rw [map_some, hsplit, lengthIn_objectText_append _ hne, hplain,
    map_singleton, sum_singleton, lengthIn_memberText, hkey, hid, isSome_some,
    if_pos rfl]
  cases inString with
  | false => simp only [Bool.false_eq_true, if_false]; omega
  | true => simp only [if_true]; omega

theorem lengthIn_failed (error : String) :
    lengthIn inString (objectText ((RelayResponse.failed error : RelayResponse Value).members [])) =
      (if inString then 73 else 63) + lengthIn inString (quote error) := by
  have hok : lengthIn inString (boolText false) = 5 := by cases inString <;> decide
  have hlist : lengthIn inString (listText []) = 2 := by cases inString <;> decide
  rw [lengthIn_members inString _ rfl rfl rfl rfl rfl]
  show _ + lengthIn inString (boolText false) + lengthIn inString (quote error) + _ = _
  cases inString with
  | false => simp only [Bool.false_eq_true, if_false]; omega
  | true => simp only [if_true]; omega

end Lengths

section Answer

variable {Value : Type} {serde : Serde Value} {identity : RelayIdentity}

theorem members_signed (r : RelayResponse Value) (echo signature : String) (texts : List String) :
    ({ r with nonceEcho := some echo, signature := some signature }.members texts).Perm
      ({ r with nonceEcho := none, signature := none }.members texts ++
        [("nonce_echo", quote echo), ("signature", quote signature)]) := by
  unfold RelayResponse.members optionMember
  simp only [map_some, map_none, toList_some, toList_none,
    append_nil, append_assoc]
  refine List.Perm.append_left _ ?_
  rw [← append_assoc]
  exact perm_append_comm

theorem lengthIn_signed (r : RelayResponse Value) (nonce signature : List UInt8)
    (hsignature : signature.length = 64) (texts : List String) :
    lengthIn false (objectText
        ({ r with
            nonceEcho := some (base64Standard nonce)
            signature := some (base64Standard signature) }.members texts)) =
      lengthIn false (objectText
          ({ r with nonceEcho := none, signature := none }.members texts)) +
        (119 + 4 * ((nonce.length + 2) / 3)) := by
  have hecho : lengthIn false (quote "nonce_echo" ++ ":") = 13 := by decide
  have hsig : lengthIn false (quote "signature" ++ ":") = 12 := by decide
  have hne : { r with nonceEcho := none, signature := none }.members texts ≠ [] :=
    cons_ne_nil _ _
  have hnonce := lengthIn_quote_base64 false nonce
  have hsignature' := lengthIn_quote_base64 false signature
  rw [lengthIn_objectText_perm false (members_signed r _ _ texts),
    lengthIn_objectText_append false hne]
  simp only [map_cons, map_nil, sum_cons, sum_nil, lengthIn_memberText, hecho,
    hsig, hnonce, hsignature', Bool.false_eq_true, if_false]
  omega

theorem toText_eq {r : RelayResponse Value} {texts : List String}
    (htexts : r.messages.mapM serde.toVec = .ok texts) :
    r.toText serde = .ok (objectText (r.members texts)) := by
  unfold RelayResponse.toText
  rw [htexts]
  rfl

theorem sortMembers_perm (members : List (String × String)) : (sortMembers members).Perm members :=
  perm_insertionSort _ _

variable (identity) in
/-- **The printed answer**, and how long it is: the frame of the answer, around the text of the bare
response. -/
theorem toVec_finalizeWire (d : Datagram Value) {r : RelayResponse Value}
    (hecho : r.nonceEcho = none) (hsig : r.signature = none) {texts : List String}
    (htexts : r.messages.mapM serde.toVec = .ok texts) :
    ∃ text, (finalizeWire serde identity r d.action d.nonce d.detached).toVec serde = .ok text ∧
      text.utf8ByteSize + (if d.wrapped then 68 else 58) =
        d.frameBytes + lengthIn d.wrapped (objectText (r.members texts)) := by
  have hbare : { r with nonceEcho := none, signature := none } = r := by
    obtain ⟨_, _, _, _, _, _, _, _⟩ := r
    obtain rfl : _ = none := hecho
    obtain rfl : _ = none := hsig
    rfl
  have hsize : ∀ ms : List (String × String),
      (objectText (sortMembers ms)).utf8ByteSize = lengthIn false (objectText ms) := fun ms =>
    lengthIn_objectText_perm false (sortMembers_perm ms)
  unfold Datagram.wrapped Datagram.frameBytes finalizeWire
  cases hnonce : d.nonce with
  | none =>
    refine ⟨objectText (sortMembers (r.members texts)), ?_, ?_⟩
    · cases d.detached with
      | false => simp only [finalizeResponse, Wire.toVec, htexts]; rfl
      | true => simp only [finalizeResponse, Wire.toVec, htexts]; rfl
    · rw [hsize, isSome_none, Bool.and_false]
      exact Nat.add_comm _ _
  | some nonce =>
  rw [isSome_some, Bool.and_true]
  cases d.detached with
  | false =>
    refine ⟨objectText (sortMembers ({ r with
        nonceEcho := some (base64Standard nonce)
        signature := some (base64Standard (identity.sign
          (signingInput d.action nonce (objectText (r.members texts))))) }.members texts)),
      ?_, ?_⟩
    · simp only [finalizeResponse, hbare, toText_eq htexts, Wire.toVec, htexts]
      rfl
    · rw [hsize, lengthIn_signed _ _ _ (identity.signature_length _), hbare]
      simp only [Bool.false_eq_true, if_false]
      omega
  | true =>
    simp only [finalizeDetachedResponse, toText_eq htexts, Wire.toVec]
    refine ⟨_, rfl, ?_⟩
    have hbody : lengthIn false (quote (objectText (r.members texts))) =
        lengthIn true (objectText (r.members texts)) + 2 := utf8ByteSize_quote _
    have h1 : lengthIn false (quote "sig_v" ++ ":") + lengthIn false "2" = 9 := by decide
    have h2 : lengthIn false (quote "body" ++ ":") = 7 := by decide
    have h3 : lengthIn false (quote "nonce_echo" ++ ":") = 13 := by decide
    have h4 : lengthIn false (quote "signature" ++ ":") = 12 := by decide
    have hecho' := lengthIn_quote_base64 false nonce
    have hsig' := lengthIn_quote_base64 false
      (identity.sign (signingInput d.action nonce (objectText (r.members texts))))
    rw [identity.signature_length] at hsig'
    rw [hsize, lengthIn_objectText]
    simp only [map_cons, map_nil, sum_cons, sum_nil, length_cons,
      length_nil, lengthIn_memberText, h2, h3, h4, hbody, hecho', hsig', if_true,
      Bool.false_eq_true, if_false]
    omega

end Answer

/-! ### The answers to fetches -/

section Fetches

variable {Value : Type} (serde : Serde Value) (cfg : RelayConfig) (choice : HolderChoice)
  (face : RelayFace)

/-- `serde_json` prints every value. -/
def Serde.PrintsAll (serde : Serde Value) : Prop :=
  ∀ value, ∃ text, serde.toVec value = .ok text

/-- An answer goes out, in one datagram. -/
def GoesOut (sent : Sent) : Prop :=
  ∃ text, sent = .datagram text ∧ text.utf8ByteSize ≤ udpPayloadMax

variable {serde cfg choice face}

theorem send_eq {wire : Wire Value} (hne : wire ≠ .null) {text : String}
    (htext : wire.toVec serde = .ok text) :
    wire.send serde =
      if text.utf8ByteSize ≤ udpPayloadMax then .datagram text else .sendError text := by
  cases wire with
  | null => exact absurd rfl hne
  | _ => simp only [Wire.send, htext]

theorem finalizeWire_ne_null {identity : RelayIdentity} (r : RelayResponse Value) (action : String)
    (nonce : Option (List UInt8)) (detached : Bool) :
    finalizeWire serde identity r action nonce detached ≠ .null := by
  unfold finalizeWire
  split
  · unfold finalizeDetachedResponse
    split <;> simp
  · simp

theorem goesOut_iff (d : Datagram Value) {r : RelayResponse Value}
    (hecho : r.nonceEcho = none) (hsig : r.signature = none) {texts : List String}
    (htexts : r.messages.mapM serde.toVec = .ok texts) :
    GoesOut ((finalizeWire serde face.identity r d.action d.nonce d.detached).send serde) ↔
      d.frameBytes + lengthIn d.wrapped (objectText (r.members texts)) ≤
        udpPayloadMax + (if d.wrapped then 68 else 58) := by
  obtain ⟨text, htext, hsize⟩ := toVec_finalizeWire face.identity d hecho hsig htexts
  rw [send_eq (finalizeWire_ne_null r _ _ _) htext]
  constructor
  · rintro ⟨sent, hsent, hle⟩
    split at hsent
    next hfits => omega
    · simp at hsent
  · intro hle
    have hfits : text.utf8ByteSize ≤ udpPayloadMax := by omega
    rw [if_pos hfits]
    exact ⟨text, rfl, hfits⟩

variable (serde cfg choice) in
theorem exec_taking (st : RelayState) {request : RelayRequest Value} {t : Taking}
    (ht : request.taking = some t) (source : String) (draws : Draws) :
    (st.exec serde cfg choice (request.toOp source draws)).2 =
      match t.refusal serde cfg st.database draws.clock.now with
      | some error => .refused error
      | none => .taken {
          rows := parsedRows serde (t.selected cfg st.database draws.clock.now)
          leaseId := if t.returnsLease cfg st.database draws.clock.now then
            some (base64Standard draws.lease) else none } := by
  -- either request is this transaction, once the mailbox id is valid
  have hexec : (st.exec serde cfg choice (request.toOp source draws)).2 =
      (st.commit (match validateMailboxId t.recipient with
        | some error => .error error
        | none => takeQueue serde cfg st.database draws.clock.now t.recipient
            (fetchLimit cfg t.limit) (t.lease draws.lease)) Reply.taken).2 := by
    cases request with
    | fetch recipient limit waitMs =>
      obtain rfl := some.inj ht
      rfl
    | fetchLeased recipient limit waitMs leaseMs =>
      obtain rfl := some.inj ht
      rfl
    | _ => cases ht
  rw [hexec]
  cases hvalid : validateMailboxId t.recipient with
  | some error =>
    have hrefusal : t.refusal serde cfg st.database draws.clock.now = some error := by
      unfold Taking.refusal
      rw [hvalid]
      rfl
    rw [hrefusal]
    rfl
  | none =>
  have hspec := takeQueue_spec serde cfg st.database draws.clock.now draws.lease hvalid
  cases hrefusal : t.refusal serde cfg st.database draws.clock.now with
  | some error =>
    rw [hrefusal] at hspec
    rw [hspec]
    rfl
  | none =>
  rw [hrefusal] at hspec
  obtain ⟨db', hok⟩ := hspec
  rw [hok]
  rfl

theorem messages_parsedRows (rows : List QueueEntry) (leaseId : Option String) :
    ({ rows := parsedRows serde rows, leaseId } : Taken).messages serde =
      rows.filterMap fun r => serde.fromStr r.envelopeJson := by
  unfold Taken.messages parsedRows
  rw [filterMap_filter]
  refine filterMap_congr fun r _ => ?_
  cases serde.fromStr r.envelopeJson with
  | none => rfl
  | some v => rfl

theorem mapM_printsAll (hprints : serde.PrintsAll) (values : List Value) :
    ∃ texts, values.mapM serde.toVec = .ok texts := by
  induction values with
  | nil => exact ⟨[], rfl⟩
  | cons value values ih =>
  obtain ⟨text, htext⟩ := hprints value
  obtain ⟨texts, htexts⟩ := ih
  refine ⟨text :: texts, ?_⟩
  rw [mapM_cons, htext, htexts]
  rfl

variable (serde choice face) in
theorem step_datagram {d : Datagram Value} {gate : Gate} {t : Taking}
    (hd : d.fetches cfg gate t) {request : RelayRequest Value} (hrequest : d.request = some request)
    (st : RelayState) (source : String) (draws : Draws) {r : RelayResponse Value}
    (hr : (st.exec serde cfg choice (request.toOp source draws)).2.toResponse serde cfg face =
      some r) :
    (udpRelay serde cfg choice face).step (some st) (.datagram d gate source draws) =
      ((st.exec serde cfg choice (request.toOp source draws)).1,
        (finalizeWire serde face.identity r d.action d.nonce d.detached).send serde) := by
  obtain ⟨hread, hallowed, hcookie, hstore, -⟩ := hd
  have hguard : ¬ (cfg.maxLineBytes < d.bytesRead ∨ ¬ gate.requestAllowed = true) := by
    rintro (h | h)
    · omega
    · exact h hallowed
  have hhandled : handleUdpDatagram serde cfg choice face st d gate source draws =
      ((st.exec serde cfg choice (request.toOp source draws)).1,
        finalizeWire serde face.identity r d.action d.nonce d.detached) := by
    unfold handleUdpDatagram handleRequestFor
    rw [if_neg hguard, hrequest]
    dsimp only
    rw [if_neg (not_not_intro hcookie), if_neg (not_not_intro hstore), hr]
  unfold udpRelay
  dsimp only
  rw [hhandled]

theorem fetch_goesOut_iff (hprints : serde.PrintsAll) {d : Datagram Value} {gate : Gate}
    {t : Taking} (hd : d.fetches cfg gate t) (st : RelayState) (source : String) (draws : Draws) :
    GoesOut ((udpRelay serde cfg choice face).step (some st) (.datagram d gate source draws)).2 ↔
      d.HasRoom serde cfg st.database draws.clock.now t := by
  obtain ⟨request, hrequest, ht⟩ := bind_eq_some_iff.mp hd.2.2.2.2
  have hreply := exec_taking serde cfg choice st ht source draws
  unfold Datagram.HasRoom
  cases hrefusal : t.refusal serde cfg st.database draws.clock.now with
  | some error =>
    rw [hrefusal] at hreply
    have hresponse : (st.exec serde cfg choice (request.toOp source draws)).2.toResponse serde cfg
        face = some (RelayResponse.failed error) := by
      rw [hreply]
      rfl
    have hnothing : (RelayResponse.failed error : RelayResponse Value).messages.mapM serde.toVec =
        .ok [] := rfl
    rw [step_datagram serde choice face hd hrequest st source draws hresponse,
      goesOut_iff d rfl rfl hnothing, lengthIn_failed]
    unfold Datagram.errorBytes
    cases d.wrapped with
    | false => simp only [Bool.false_eq_true, if_false]; omega
    | true => simp only [if_true]; omega
  | none =>
    rw [hrefusal] at hreply
    obtain ⟨texts, htexts⟩ := mapM_printsAll hprints
      ((t.selected cfg st.database draws.clock.now).filterMap fun r => serde.fromStr r.envelopeJson)
    have hlease : ∀ bytes, (if t.returnsLease cfg st.database draws.clock.now then
        some draws.lease else none) = some bytes → bytes.length = 18 := by
      intro bytes h
      split at h
      · rw [← some.inj h]
        exact draws.lease_length
      · cases h
    have hmap : (if t.returnsLease cfg st.database draws.clock.now then
        some (base64Standard draws.lease) else none) =
        (if t.returnsLease cfg st.database draws.clock.now then
          some draws.lease else none).map base64Standard := by
      split <;> rfl
    have hresponse : (st.exec serde cfg choice (request.toOp source draws)).2.toResponse serde cfg
        face = some (RelayResponse.leased
          ((t.selected cfg st.database draws.clock.now).filterMap fun r =>
            serde.fromStr r.envelopeJson)
          ((if t.returnsLease cfg st.database draws.clock.now then
            some draws.lease else none).map base64Standard)) := by
      rw [hreply, ← hmap]
      show some (RelayResponse.leased _ _) = _
      rw [messages_parsedRows]
    rw [step_datagram serde choice face hd hrequest st source draws hresponse,
      goesOut_iff d rfl rfl htexts, lengthIn_leased _ _ _ hlease]
    have htexts' : t.envelopeTexts serde cfg st.database draws.clock.now = .ok texts := htexts
    rw [htexts']
    have hall : (∀ l, Except.ok (ε := String) texts = .ok l →
        d.messageBytes (t.returnsLease cfg st.database draws.clock.now) l ≤ udpPayloadMax) ↔
        d.messageBytes (t.returnsLease cfg st.database draws.clock.now) texts ≤ udpPayloadMax :=
      ⟨fun h => h texts rfl, fun h l hl => Except.ok.inj hl ▸ h⟩
    rw [hall]
    unfold Datagram.messageBytes Datagram.leaseBytes
    cases t.returnsLease cfg st.database draws.clock.now with
    | false =>
      cases d.wrapped with
      | false => simp only [Bool.false_eq_true, if_false, isSome_none]; omega
      | true => simp only [Bool.false_eq_true, if_false, if_true, isSome_none]; omega
    | true =>
      cases d.wrapped with
      | false => simp only [Bool.false_eq_true, if_false, if_true, isSome_some]; omega
      | true => simp only [if_true, isSome_some]; omega

variable (serde cfg choice face)

/-- The answers to all the fetches of a run go out. -/
def FetchesAnswered (traffic : List (Traffic Value)) : Prop :=
  ∀ i st d gate source draws t sent st',
    (udpRelay serde cfg choice face).StepAt (some RelayState.initial) traffic i (some st)
      (.datagram d gate source draws) sent st' →
    d.fetches cfg gate t → GoesOut sent

/-- Every fetch of a run finds room for its answer. -/
def RoomThroughout (traffic : List (Traffic Value)) : Prop :=
  ∀ i st d gate source draws t sent st',
    (udpRelay serde cfg choice face).StepAt (some RelayState.initial) traffic i (some st)
      (.datagram d gate source draws) sent st' →
    d.fetches cfg gate t → d.HasRoom serde cfg st.database draws.clock.now t

/-- **The answers to the fetches of a run go out** exactly when each of them has room. -/
theorem datagram_fetches_answered_iff (hprints : serde.PrintsAll) (traffic : List (Traffic Value)) :
    FetchesAnswered serde cfg choice face traffic ↔
      RoomThroughout serde cfg choice face traffic := by
  have hstep : ∀ {i st d gate source draws t sent st'},
      (udpRelay serde cfg choice face).StepAt (some RelayState.initial) traffic i (some st)
        (.datagram d gate source draws) sent st' →
      d.fetches cfg gate t →
      (GoesOut sent ↔ d.HasRoom serde cfg st.database draws.clock.now t) := by
    intro i st d gate source draws t sent st' hstep hd
    rw [← fetch_goesOut_iff hprints hd st source draws, hstep.step]
  constructor
  · intro h i st d gate source draws t sent st' hat hd
    exact (hstep hat hd).mp (h i st d gate source draws t sent st' hat hd)
  · intro h i st d gate source draws t sent st' hat hd
    exact (hstep hat hd).mpr (h i st d gate source draws t sent st' hat hd)

end Fetches

/-! ### An envelope longer than a datagram -/

namespace Oversized

/-- A picture in an envelope, as one long text. -/
def picture : String := "\x7b\"data\":\"" ++ String.ofList (List.replicate 70000 'x') ++ "\"\x7d"

theorem utf8ByteSize_replicate (n : ℕ) :
    (String.ofList (replicate n 'x')).utf8ByteSize = n := by
  induction n with
  | zero => rfl
  | succ n ih =>
    rw [replicate_succ, ← singleton_append, String.ofList_append,
      String.utf8ByteSize_append]
    have hone : (String.ofList ['x']).utf8ByteSize = 1 := rfl
    omega

theorem utf8ByteSize_picture : picture.utf8ByteSize = 70011 := by
  have hopen : "\x7b\"data\":\"".utf8ByteSize = 9 := rfl
  have hclose : "\"\x7d".utf8ByteSize = 2 := rfl
  unfold picture
  rw [String.utf8ByteSize_append, String.utf8ByteSize_append, utf8ByteSize_replicate, hopen, hclose]

theorem chargeMailbox_first {Value : Type} {cfg : RelayConfig} (serde : Serde Value)
    (clock : StoreClock) (recipient : String) (envelope : Value) {bytes : ℕ}
    (h : saturatingAdd 0 bytes ≤ cfg.maxBytesPerMailboxPerMinute) :
    ∃ windows, chargeMailbox serde cfg FMap.empty clock recipient envelope bytes =
      (windows, true) := by
  unfold chargeMailbox
  split
  · unfold allowMailboxBytes
    split
    · exact ⟨_, rfl⟩
    have hnone : ((FMap.empty : FMap String MailboxByteWindow).retain fun _ w =>
        decide (clock.quota - w.windowStartedMillis < 120000)).get recipient = none := by simp
    simp only [hnone, getD_none, ite_self]
    rw [if_neg (Nat.not_lt.mpr h)]
    exact ⟨_, rfl⟩
  · exact ⟨_, rfl⟩

section Store

variable {text : String} (htext : text.utf8ByteSize = 70011)

/-- `serde_json` on one envelope. -/
def oneEnvelope (text : String) : Serde Unit where
  toVec _ := .ok text
  fromStr s := if s = text then some () else none
  get _ _ := none
  asStr _ := none

def clock : StoreClock where
  quota := 1000
  now := 1000

/-- What the store of the envelope brings to its transaction. -/
def entry (text : String) : NewEntry where
  mailbox := "box"
  queuedAtMillis := 1000
  envelopeJson := text
  kind := none
  senderDeviceId := none
  dedupKey := none
  source := none

/-- The table with the envelope. -/
def stored (text : String) : Database where
  queueEntries := [(entry text).toRow 1]
  storedTotal := 0 + (entry text).encodedLen
  nextId := 2
  ids_sorted := List.pairwise_singleton _ _
  ids_lt := by
    intro r hr
    rw [List.mem_singleton.mp hr]
    exact Nat.one_lt_two

include htext

theorem encodedLen_entry : (entry text).encodedLen = 70011 := htext

theorem prepare_picture :
    ∃ windows, prepare (oneEnvelope text) RelayConfig.defaults FMap.empty clock "" "box" () =
      (windows, .ok (entry text)) := by
  have hsmall : ¬ RelayConfig.defaults.maxEnvelopeBytes < text.utf8ByteSize := by
    rw [htext]
    decide
  have hcharge : ∃ windows, chargeMailbox (oneEnvelope text) RelayConfig.defaults FMap.empty clock
      "box" () text.utf8ByteSize = (windows, true) := by
    have hfree : ¬ RelayConfig.defaults.maxBytesPerMailboxPerMinute <
        saturatingAdd 0 text.utf8ByteSize := by
      rw [htext]
      decide
    exact chargeMailbox_first _ clock "box" () (Nat.le_of_not_lt hfree)
  obtain ⟨windows, hcharge⟩ := hcharge
  have hvalid : validateMailboxId "box" = none := by decide
  have hvec : (oneEnvelope text).toVec () = .ok text := rfl
  refine ⟨windows, ?_⟩
  unfold prepare
  rw [hvec]
  dsimp only
  rw [if_neg hsmall, hcharge]
  rfl

theorem enqueue_entry :
    enqueue RelayConfig.defaults HolderChoice.first (entry text) Database.empty =
      .ok (stored text) := by
  have hlen := encodedLen_entry htext
  have hcutoff : sqlInteger "cleaning relay queue"
      ((entry text).queuedAtMillis - RelayConfig.defaults.ttlMillis) = .ok 0 := by
    have hearly : (entry text).queuedAtMillis - RelayConfig.defaults.ttlMillis = 0 := by
      show 1000 - RelayConfig.defaults.ttlMillis = 0
      decide
    rw [hearly]
    exact if_pos (Nat.zero_le i64Max)
  have hqueued : sqlInteger "persisting relay envelope" 1000 = .ok 1000 :=
    if_pos (by decide)
  have hclock : (entry text).queuedAtMillis = 1000 := rfl
  have hmailbox : mailboxLoop RelayConfig.defaults (entry text) 1 Database.empty =
      .ok Database.empty := by
    have hroom : Database.empty.countWhere (entry text).inMailbox <
          RelayConfig.defaults.maxQueuePerMailbox ∧
        saturatingAdd (Database.empty.bytesWhere (entry text).inMailbox) (entry text).encodedLen ≤
          RelayConfig.defaults.maxMailboxBytes := by
      have hcount : Database.empty.countWhere (entry text).inMailbox = 0 := rfl
      have hbytes : Database.empty.bytesWhere (entry text).inMailbox = 0 := rfl
      rw [hlen, hcount, hbytes]
      decide
    exact if_pos hroom
  have htotal : totalLoop RelayConfig.defaults HolderChoice.first (entry text) 1 Database.empty
      none = .ok Database.empty := by
    have hroom : saturatingAdd Database.empty.total (entry text).encodedLen ≤
        RelayConfig.defaults.maxTotalBytes := by
      rw [hlen]
      decide
    exact if_pos hroom
  have hmake : makeRoom RelayConfig.defaults HolderChoice.first (entry text) Database.empty =
      .ok Database.empty := by
    unfold makeRoom
    have hpairing : pairingRoom (entry text) Database.empty = .ok Database.empty := rfl
    have hshare : checkShare RelayConfig.defaults (entry text) Database.empty = .ok () := rfl
    rw [hpairing, Outcome.ok_bind]
    have hfuel : Database.empty.queueEntries.length + 1 = 1 := rfl
    rw [hfuel, hmailbox, Outcome.ok_bind, hshare, Outcome.ok_bind, hfuel, htotal]
  have hinsert : Database.empty.insertEntry (entry text) = .ok (stored text) := by
    have hfits : Database.empty.bytesStored + (entry text).encodedLen ≤ sqliteMaxBytes ∧
        Database.empty.nextId ≤ i64Max := by
      rw [hlen]
      exact ⟨by decide, by decide⟩
    unfold Database.insertEntry Outcome.require
    rw [if_pos hfits]
    rfl
  have hswept : Database.empty.deleteExpired 0 = Database.empty := rfl
  unfold enqueue
  rw [hcutoff, Outcome.ok_bind, hswept]
  have hfresh : (entry text).alreadyPresent Database.empty = false := rfl
  dsimp only
  rw [hfresh, if_neg Bool.false_ne_true, hmake, Outcome.ok_bind, hclock, hqueued, Outcome.ok_bind,
    hinsert]

end Store

/-- A legacy fetch over UDP, with a cookie and without a nonce. -/
def fetching : Datagram Unit where
  bytesRead := 90
  request := some (.fetch "box" none none)
  action := "fetch"
  nonce := none
  detached := false

/-- Admission lets it through. -/
def admitted : Gate where
  requestAllowed := true
  cookieValid := true
  cookie := ""
  storeAllowed := true

def draws : Draws where
  clock := clock
  lease := List.replicate 18 0
  lease_length := rfl

/-- A relay with some key. -/
def face : RelayFace where
  relayId := "relay"
  version := "1"
  identity :=
    { sign := fun _ => List.replicate 64 0
      signature_length := fun _ => rfl
      publicKeyB64 := "" }

/-- The envelope is stored, and a client fetches it over UDP. -/
def traffic : List (Traffic Unit) :=
  [.other (.store clock "" "box" ()), .datagram fetching admitted "udp:192.0.2.1" draws]

theorem exec_store {text : String} (htext : text.utf8ByteSize = 70011) :
    ∃ windows, (RelayState.initial.exec (oneEnvelope text) RelayConfig.defaults HolderChoice.first
        (.store clock "" "box" ())) =
      (some { database := stored text, mailboxBytes := windows }, .stored) := by
  obtain ⟨windows, hprep⟩ := prepare_picture htext
  refine ⟨windows, ?_⟩
  have hstore : storeFrom (oneEnvelope text) RelayConfig.defaults HolderChoice.first
      RelayState.initial clock "" "box" () =
      ({ database := stored text, mailboxBytes := windows }, .ok ()) := by
    have henqueue : enqueue RelayConfig.defaults HolderChoice.first (entry text)
        RelayState.initial.database = .ok (stored text) := enqueue_entry htext
    have hwindows : RelayState.initial.mailboxBytes = FMap.empty := rfl
    unfold storeFrom
    rw [hwindows, hprep]
    dsimp only
    rw [henqueue]
  unfold RelayState.exec
  dsimp only
  rw [hstore]

section

variable (text : String)

include text

theorem selected_stored :
    (Taking.mk "box" none none).selected RelayConfig.defaults (stored text) 1000 =
      [(entry text).toRow 1] := by
  unfold Taking.selected Database.readyRows
  rfl

theorem fromStr_text :
    (oneEnvelope text).fromStr ((entry text).toRow 1).envelopeJson = some () := if_pos rfl

end

theorem not_hasRoom {text : String} (htext : text.utf8ByteSize = 70011) :
    ¬ fetching.HasRoom (oneEnvelope text) RelayConfig.defaults (stored text) 1000
      ⟨"box", none, none⟩ := by
  have htexts : (Taking.mk "box" none none).envelopeTexts (oneEnvelope text) RelayConfig.defaults
      (stored text) 1000 = .ok [text] := by
    unfold Taking.envelopeTexts
    rw [selected_stored, filterMap_cons, fromStr_text]
    rfl
  have hlength : lengthIn false text = 70011 := htext
  intro hroom
  unfold Datagram.HasRoom at hroom
  have hfits := hroom [text] htexts
  unfold Datagram.messageBytes at hfits
  rw [map_singleton, sum_singleton,
    show lengthIn fetching.wrapped text = 70011 from hlength] at hfits
  exact absurd hfits (by unfold udpPayloadMax; omega)

theorem fetches_fetching :
    fetching.fetches RelayConfig.defaults admitted ⟨"box", none, none⟩ :=
  ⟨by decide, rfl, rfl, rfl, rfl⟩

theorem fetch_empties (text : String) (windows : FMap String MailboxByteWindow) :
    ∃ st', ((udpRelay (oneEnvelope text) RelayConfig.defaults HolderChoice.first face).step
        (some { database := stored text, mailboxBytes := windows })
        (.datagram fetching admitted "udp:192.0.2.1" draws)).1 = some st' ∧
      st'.database.queueEntries = [] := by
  have hvalid : validateMailboxId "box" = none := by decide
  have hspec := takeQueue_spec (oneEnvelope text) RelayConfig.defaults (stored text) 1000
    (t := ⟨"box", none, none⟩) [] hvalid
  obtain ⟨db', htake⟩ := hspec
  obtain ⟨taken, hfetch⟩ : ∃ taken, Relay.fetch (oneEnvelope text) RelayConfig.defaults
      (stored text) 1000 "box" none = .ok (db', taken) := by
    unfold Relay.fetch
    exact ⟨_, htake⟩
  refine ⟨{ database := db', mailboxBytes := windows }, ?_, ?_⟩
  · have hreply : (RelayState.exec (oneEnvelope text) RelayConfig.defaults HolderChoice.first
        { database := stored text, mailboxBytes := windows } (.fetch 1000 "box" none)) =
        (some { database := db', mailboxBytes := windows }, .taken taken) := by
      unfold RelayState.exec
      dsimp only
      rw [hfetch]
      rfl
    have hstep := step_datagram (oneEnvelope text) HolderChoice.first face fetches_fetching rfl
      { database := stored text, mailboxBytes := windows } "udp:192.0.2.1" draws
      (congrArg (fun a => a.2.toResponse (oneEnvelope text) RelayConfig.defaults face) hreply)
    exact (congrArg Prod.fst hstep).trans (congrArg Prod.fst hreply)
  · -- the only row is selected, parses, and is deleted
    have hrows := (takeQueue_eq_ok htake).1
    have hselected := selected_stored text
    unfold Taking.selected at hselected
    have hrow : takeRow (oneEnvelope text) 1000 none
        ((stored text).sweep (1000 - RelayConfig.defaults.ttlMillis) 1000) ((entry text).toRow 1) =
        .ok (((stored text).sweep (1000 - RelayConfig.defaults.ttlMillis) 1000).deleteById
          (some 1)).1 := by
      unfold takeRow
      rw [fromStr_text]
      rfl
    have htaken : takeRows (oneEnvelope text) 1000 none [(entry text).toRow 1]
        ((stored text).sweep (1000 - RelayConfig.defaults.ttlMillis) 1000) =
        .ok (((stored text).sweep (1000 - RelayConfig.defaults.ttlMillis) 1000).deleteById
          (some 1)).1 := by
      rw [takeRows, hrow]
      rfl
    have hdb' := Outcome.ok.inj (hrows.symm.trans htaken)
    rw [hdb']
    unfold Database.deleteById Database.deleteWhere
    dsimp only
    rfl

theorem lost_of_long {text : String} (htext : text.utf8ByteSize = 70011) :
    ¬ FetchesAnswered (oneEnvelope text) RelayConfig.defaults HolderChoice.first face traffic ∧
      ∃ st, (udpRelay (oneEnvelope text) RelayConfig.defaults HolderChoice.first face).run
          (some RelayState.initial) traffic = some st ∧ st.database.queueEntries = [] := by
  obtain ⟨windows, hexec⟩ := exec_store htext
  have hfirst : (udpRelay (oneEnvelope text) RelayConfig.defaults HolderChoice.first face).run
      (some RelayState.initial) (traffic.take 1) =
        some { database := stored text, mailboxBytes := windows } :=
    congrArg Prod.fst hexec
  obtain ⟨st', hstep, hempty⟩ := fetch_empties text windows
  constructor
  · intro h
    have hprints : (oneEnvelope text).PrintsAll := fun _ => ⟨text, rfl⟩
    have hout : GoesOut ((udpRelay (oneEnvelope text) RelayConfig.defaults HolderChoice.first
        face).step (some { database := stored text, mailboxBytes := windows })
        (.datagram fetching admitted "udp:192.0.2.1" draws)).2 :=
      h 1 _ fetching admitted "udp:192.0.2.1" draws ⟨"box", none, none⟩ _ _ ⟨rfl, hfirst, rfl⟩
        fetches_fetching
    have hroom := (fetch_goesOut_iff hprints fetches_fetching _ "udp:192.0.2.1" draws).mp hout
    exact not_hasRoom htext hroom
  · refine ⟨st', ?_, hempty⟩
    have hsplit : traffic =
        traffic.take 1 ++ [.datagram fetching admitted "udp:192.0.2.1" draws] := rfl
    rw [hsplit, Machine.run_append, hfirst]
    exact hstep

/-- **An envelope is lost.** It is stored, a client fetches it, it is gone from the queue, and the
answer has not gone out. -/
theorem picture_lost :
    ¬ FetchesAnswered (oneEnvelope picture) RelayConfig.defaults HolderChoice.first face traffic ∧
      ∃ st, (udpRelay (oneEnvelope picture) RelayConfig.defaults HolderChoice.first face).run
          (some RelayState.initial) traffic = some st ∧ st.database.queueEntries = [] :=
  lost_of_long utf8ByteSize_picture

theorem answered_short_iff :
    FetchesAnswered (oneEnvelope "\x7b\x7d") RelayConfig.defaults HolderChoice.first face traffic ↔
      RoomThroughout (oneEnvelope "\x7b\x7d") RelayConfig.defaults HolderChoice.first face
        traffic :=
  datagram_fetches_answered_iff _ _ _ _ (fun _ => ⟨_, rfl⟩) traffic

end Oversized
end Relay
end Conest
