import Conest.Courier.Envelope
import Conest.Lib.Machine

/-!
# The courier queue

`BoundedCourierQueue` holds envelopes for other devices. The adapter's `sendEnvelope` puts one in
and answers `storedForPeer`; `forRecipient` hands out what waits for a device; `markDelivered` and
`cancel` take out what has that message id. The clock is read at every call and may go either way.

What is found under a message id is taken for the same message: `enqueue` returns without a word
when the queue has an item of that id, whoever it is for and whatever it carries, and a delivery or
a cancellation of an id takes out the items of every recipient. `keeps_iff` says for which runs the
queue still keeps everything that was reported stored: those in which neither of the two meets an
item of another recipient, of other bytes or of an earlier expiry.
-/

open Lib Lib.DartString List Option

namespace Conest
namespace Courier

/-! ### Envelopes on their way -/

namespace DateTime

/-- `DateTime.add`, `none` where the sum is out of range. -/
def add (t : DateTime) (duration : ℤ) : Option DateTime :=
  if h : -maxMicroseconds ≤ t.micros + duration ∧ t.micros + duration ≤ maxMicroseconds then
    some ⟨t.micros + duration, h⟩
  else none

end DateTime

namespace CompactStoreForwardEnvelope

def isExpiredAt (e : CompactStoreForwardEnvelope) (now : DateTime) : Bool :=
  !e.expiresAt.isAfter now

def canForward (e : CompactStoreForwardEnvelope) : Bool := decide (e.hopCount < e.maximumHops)

/-- `forwarded`, `none` where it throws. -/
def forwarded (e : CompactStoreForwardEnvelope) : Option CompactStoreForwardEnvelope :=
  if e.canForward then some { e with hopCount := e.hopCount + 1 } else none

end CompactStoreForwardEnvelope

/-- What the application hands to a transport. -/
structure TransportEnvelope where
  id : DartString
  bytes : Bytes
  createdAt : DateTime
  expiresAt : Option DateTime

/-- The expiry of what is queued; seven days where the application names none. -/
def TransportEnvelope.expiry (e : TransportEnvelope) : Option DateTime :=
  match e.expiresAt with
  | some t => some t
  | none => e.createdAt.add (7 * 24 * 60 * 60 * 1000000)

structure CourierQueueItem where
  envelope : CompactStoreForwardEnvelope
  sourcePeerDeviceId : DartString
  queuedAt : DateTime
deriving DecidableEq

inductive CourierError where
  | state (message : String)
  | argument (message : String)
  | range
deriving DecidableEq

/-! ### The queue -/

structure BoundedCourierQueue where
  enabled : Bool
  maximumItems : ℤ
  maximumBytes : ℤ
  trustedPeerDeviceIds : Finset DartString
  items : List CourierQueueItem

namespace BoundedCourierQueue

/-- The bytes of the items, `none` where one of them cannot be encoded. -/
def bytesOf : List CourierQueueItem → Option ℕ
  | [] => some 0
  | item :: items => do
    let encoded ← item.envelope.encode
    let rest ← bytesOf items
    return encoded.length + rest

def usedBytes (q : BoundedCourierQueue) : Option ℕ := bytesOf q.items

def prune (q : BoundedCourierQueue) (now : DateTime) : BoundedCourierQueue :=
  { q with items := q.items.filter fun item => !item.envelope.isExpiredAt now }

def hasId (q : BoundedCourierQueue) (messageId : DartString) : Bool :=
  q.items.any fun item => decide (item.envelope.messageId = messageId)

/-- `enqueue`; what it throws leaves the queue pruned. -/
def enqueue (queue : BoundedCourierQueue) (envelope : CompactStoreForwardEnvelope)
    (sourcePeerDeviceId : DartString) (now : DateTime) (sourceIsLocal : Bool) :
    BoundedCourierQueue × Except CourierError Unit :=
  let q := queue.prune now
  if q.enabled = false then (q, .error (.state "Courier mode is disabled."))
  else if (sourceIsLocal = false ∧ sourcePeerDeviceId ∉ q.trustedPeerDeviceIds) ∨
      envelope.recipientDeviceId ∉ q.trustedPeerDeviceIds then
    (q, .error (.state "Courier forwarding is restricted to explicitly trusted peers."))
  else if envelope.isExpiredAt now ∨ envelope.canForward = false then
    (q, .error (.state "Envelope is expired or has reached its hop limit."))
  else if q.hasId envelope.messageId then (q, .ok ())
  else
    match envelope.encode with
    | none => (q, .error (.argument "Compact envelope fields are out of range."))
    | some encoded =>
      if q.maximumItems ≤ q.items.length then (q, .error (.state "Courier queue quota exceeded."))
      else
        match q.usedBytes with
        | none => (q, .error (.argument "Compact envelope fields are out of range."))
        | some used =>
          if q.maximumBytes < (used + encoded.length : ℕ) then
            (q, .error (.state "Courier queue quota exceeded."))
          else
            match envelope.forwarded with
            | none => (q, .error (.state "Compact envelope hop limit reached."))
            | some forwarded =>
              ({ q with items := q.items ++ [⟨forwarded, sourcePeerDeviceId, now⟩] }, .ok ())

def forRecipient (q : BoundedCourierQueue) (recipientDeviceId : DartString) (now : DateTime) :
    BoundedCourierQueue × List CourierQueueItem :=
  let q := q.prune now
  (q, q.items.filter fun item => decide (item.envelope.recipientDeviceId = recipientDeviceId))

def markDelivered (q : BoundedCourierQueue) (messageId : DartString) : BoundedCourierQueue :=
  { q with items := q.items.filter fun item => !decide (item.envelope.messageId = messageId) }

def cancel (q : BoundedCourierQueue) (messageId : DartString) : BoundedCourierQueue :=
  q.markDelivered messageId

/-- `CompactStoreForwardAdapter.sendEnvelope`; `ok` is the receipt `storedForPeer`. -/
def sendEnvelope (q : BoundedCourierQueue) (localDeviceId peer : DartString)
    (envelope : TransportEnvelope) (now : DateTime) :
    BoundedCourierQueue × Except CourierError Unit :=
  match envelope.expiry with
  | none => (q, .error .range)
  | some expiry =>
    q.enqueue
      { messageId := envelope.id
        senderDeviceId := localDeviceId
        recipientDeviceId := peer
        createdAt := envelope.createdAt
        expiresAt := expiry
        payload := envelope.bytes
        hopCount := 0
        maximumHops := 2
        receiptRequested := true }
      localDeviceId now true

end BoundedCourierQueue

/-! ### Runs -/

/-- A call. Deliveries and cancellations are of a message to a recipient; the queue is told the
message only. -/
inductive Call where
  | sendEnvelope (peer : DartString) (envelope : TransportEnvelope) (now : DateTime)
  | enqueue (envelope : CompactStoreForwardEnvelope) (sourcePeerDeviceId : DartString)
      (now : DateTime) (sourceIsLocal : Bool)
  | markDelivered (messageId recipient : DartString)
  | cancel (messageId recipient : DartString)
  | prune (now : DateTime)
  | forRecipient (recipientDeviceId : DartString) (now : DateTime)
  | configure (enabled : Bool) (trustedPeerDeviceIds : Finset DartString)

inductive Reply where
  | storedForPeer
  | thrown (error : CourierError)
  | items (items : List CourierQueueItem)
  | done

/-- The adapter of a device and its queue. -/
def courier (localDeviceId : DartString) : Machine BoundedCourierQueue Call Reply where
  step q
    | .sendEnvelope peer envelope now =>
      match q.sendEnvelope localDeviceId peer envelope now with
      | (q', .ok ()) => (q', .storedForPeer)
      | (q', .error error) => (q', .thrown error)
    | .enqueue envelope sourcePeerDeviceId now sourceIsLocal =>
      match q.enqueue envelope sourcePeerDeviceId now sourceIsLocal with
      | (q', .ok ()) => (q', .done)
      | (q', .error error) => (q', .thrown error)
    | .markDelivered messageId _ => (q.markDelivered messageId, .done)
    | .cancel messageId _ => (q.cancel messageId, .done)
    | .prune now => (q.prune now, .done)
    | .forRecipient recipientDeviceId now =>
      ((q.forRecipient recipientDeviceId now).1, .items (q.forRecipient recipientDeviceId now).2)
    | .configure enabled trustedPeerDeviceIds => ({ q with enabled, trustedPeerDeviceIds }, .done)

/-! ### What is promised -/

namespace Call

/-- The call ends what was promised of a message to a recipient: it is delivered or cancelled, or
the clock has reached its expiry. -/
def Ends (messageId recipient : DartString) (expiry : DateTime) : Call → Prop
  | .sendEnvelope _ _ now => expiry.isAfter now = false
  | .enqueue _ _ now _ => expiry.isAfter now = false
  | .markDelivered messageId' recipient' => messageId' = messageId ∧ recipient' = recipient
  | .cancel messageId' recipient' => messageId' = messageId ∧ recipient' = recipient
  | .prune now => expiry.isAfter now = false
  | .forRecipient _ now => expiry.isAfter now = false
  | .configure _ _ => False

/-- The call is a delivery or a cancellation of the message to somebody else. -/
def Elsewhere (messageId recipient : DartString) : Call → Prop
  | .markDelivered messageId' recipient' => messageId' = messageId ∧ recipient' ≠ recipient
  | .cancel messageId' recipient' => messageId' = messageId ∧ recipient' ≠ recipient
  | _ => False

end Call

namespace BoundedCourierQueue

variable {item : CourierQueueItem}

/-- Until the expiry, the recipient is handed an item of that message id with those bytes. -/
def Available (q : BoundedCourierQueue) (recipient messageId : DartString) (bytes : Bytes)
    (expiry : DateTime) : Prop :=
  ∀ t, expiry.isAfter t = true → ∃ item ∈ (q.forRecipient recipient t).2,
    item.envelope.messageId = messageId ∧ item.envelope.payload = bytes

/-- The queue has such an item, which does not expire earlier. -/
def Holding (q : BoundedCourierQueue) (recipient messageId : DartString) (bytes : Bytes)
    (expiry : DateTime) : Prop :=
  ∃ item ∈ q.items, item.envelope.recipientDeviceId = recipient ∧
    item.envelope.messageId = messageId ∧ item.envelope.payload = bytes ∧
    expiry.micros ≤ item.envelope.expiresAt.micros

/-- The quotas are kept. -/
def Within (q : BoundedCourierQueue) : Prop :=
  (q.items.length : ℤ) ≤ q.maximumItems ∧
    ∃ used : ℕ, q.usedBytes = some used ∧ used ≤ q.maximumBytes

section Runs

variable (localDeviceId : DartString) (q : BoundedCourierQueue) (calls : List Call)

/-- At this place of a run an envelope was sent and reported stored, and nothing has ended that
since. -/
structure Promised (before : List Call) (peer : DartString) (envelope : TransportEnvelope)
    (now expiry : DateTime) (since : List Call) : Prop where
  expires : envelope.expiry = some expiry
  stored : ((courier localDeviceId).step ((courier localDeviceId).run q before)
    (.sendEnvelope peer envelope now)).2 = .storedForPeer
  since : ∀ call ∈ since, ¬ call.Ends envelope.id peer expiry

/-- **The queue keeps what it reports stored**, and its quotas, in every state of a run. -/
def Keeps : Prop :=
  (∀ before peer envelope now expiry since after,
    calls = before ++ .sendEnvelope peer envelope now :: (since ++ after) →
    Promised localDeviceId q before peer envelope now expiry since →
    ((courier localDeviceId).run q (before ++ .sendEnvelope peer envelope now :: since)).Available
      peer envelope.id envelope.bytes expiry) ∧
  ∀ before after, calls = before ++ after → ((courier localDeviceId).run q before).Within

/-- What is reported stored is new to the queue or is there already, for that recipient, with those
bytes and for as long; and while it is promised, nothing of its id is delivered or cancelled for
somebody else. -/
def Apart : Prop :=
  (∀ before peer envelope now expiry after,
    calls = before ++ .sendEnvelope peer envelope now :: after →
    Promised localDeviceId q before peer envelope now expiry [] →
    (((courier localDeviceId).run q before).prune now).hasId envelope.id = false ∨
      (((courier localDeviceId).run q before).prune now).Holding peer envelope.id envelope.bytes
        expiry) ∧
  ∀ before peer envelope now expiry since call after,
    calls = before ++ .sendEnvelope peer envelope now :: (since ++ call :: after) →
    Promised localDeviceId q before peer envelope now expiry since →
    ¬ call.Elsewhere envelope.id peer

end Runs

/-! ### Items and times -/

section

variable {q : BoundedCourierQueue}

theorem mem_prune {now : DateTime} :
    item ∈ (q.prune now).items ↔ item ∈ q.items ∧ item.envelope.expiresAt.isAfter now = true := by
  unfold prune CompactStoreForwardEnvelope.isExpiredAt
  rw [mem_filter, Bool.not_not]

theorem mem_forRecipient {recipient : DartString} {now : DateTime} :
    item ∈ (q.forRecipient recipient now).2 ↔
      item ∈ q.items ∧ item.envelope.expiresAt.isAfter now = true ∧
        item.envelope.recipientDeviceId = recipient := by
  unfold forRecipient
  rw [mem_filter, mem_prune, decide_eq_true_eq, and_assoc]

theorem mem_markDelivered {messageId : DartString} : item ∈ (q.markDelivered messageId).items ↔
      item ∈ q.items ∧ item.envelope.messageId ≠ messageId := by
  unfold markDelivered
  rw [mem_filter, Bool.not_eq_true', decide_eq_false_iff_not]

end

theorem isAfter_iff {t u : DateTime} : t.isAfter u = true ↔ u.micros < t.micros := by
  unfold DateTime.isAfter
  rw [decide_eq_true_eq]

/-- **What is handed out until the expiry** is an item that does not expire earlier. -/
theorem available_iff_holding {q : BoundedCourierQueue} {recipient messageId : DartString}
    {bytes : Bytes} {now expiry : DateTime} (h : expiry.isAfter now = true) :
    q.Available recipient messageId bytes expiry ↔ q.Holding recipient messageId bytes expiry := by
  rw [isAfter_iff] at h
  constructor
  · intro havailable
    -- the last moment before the expiry decides
    have hrange := expiry.inRange
    have hrange' := now.inRange
    let last : DateTime := ⟨expiry.micros - 1, by omega, by omega⟩
    have hlast : expiry.isAfter last = true :=
      isAfter_iff.mpr (show expiry.micros - 1 < expiry.micros by omega)
    obtain ⟨item, hitem, hid, hbytes⟩ := havailable last hlast
    obtain ⟨hmem, hafter, hrecipient⟩ := mem_forRecipient.mp hitem
    have hlt : expiry.micros - 1 < item.envelope.expiresAt.micros := isAfter_iff.mp hafter
    exact ⟨item, hmem, hrecipient, hid, hbytes, by omega⟩
  · rintro ⟨item, hmem, hrecipient, hid, hbytes, hle⟩ t ht
    rw [isAfter_iff] at ht
    exact ⟨item, mem_forRecipient.mpr ⟨hmem, isAfter_iff.mpr (by omega), hrecipient⟩, hid, hbytes⟩

/-! ### What a call does -/

/-- An envelope as it is queued. -/
def itemOf (envelope : CompactStoreForwardEnvelope) (sourcePeerDeviceId : DartString)
    (now : DateTime) : CourierQueueItem :=
  ⟨{ envelope with hopCount := envelope.hopCount + 1 }, sourcePeerDeviceId, now⟩

/-- What `enqueue` does with a pruned queue: nothing, and it throws; nothing, because it knows the
message id; or it adds an item, for which there is room. -/
inductive Enqueued (q : BoundedCourierQueue) (envelope : CompactStoreForwardEnvelope)
    (sourcePeerDeviceId : DartString) (now : DateTime) :
    BoundedCourierQueue × Except CourierError Unit → Prop
  | refused (error : CourierError) : Enqueued q envelope sourcePeerDeviceId now (q, .error error)
  | known (hid : q.hasId envelope.messageId = true)
      (hafter : envelope.expiresAt.isAfter now = true) :
      Enqueued q envelope sourcePeerDeviceId now (q, .ok ())
  | added (encoded : Bytes) (used : ℕ) (hid : q.hasId envelope.messageId = false)
      (hafter : envelope.expiresAt.isAfter now = true) (hforward : envelope.canForward = true)
      (hencoded : envelope.encode = some encoded) (hused : q.usedBytes = some used)
      (hitems : (q.items.length : ℤ) < q.maximumItems)
      (hbytes : ((used + encoded.length : ℕ) : ℤ) ≤ q.maximumBytes) :
      Enqueued q envelope sourcePeerDeviceId now
        ({ q with items := q.items ++ [itemOf envelope sourcePeerDeviceId now] }, .ok ())

theorem enqueue_spec (q : BoundedCourierQueue) (envelope : CompactStoreForwardEnvelope)
    (sourcePeerDeviceId : DartString) (now : DateTime) (sourceIsLocal : Bool) :
    Enqueued (q.prune now) envelope sourcePeerDeviceId now
      (q.enqueue envelope sourcePeerDeviceId now sourceIsLocal) := by
  unfold enqueue
  dsimp only
  split
  · exact .refused _
  split
  · exact .refused _
  split
  · exact .refused _
  next hopen =>
  obtain ⟨hafter, hforward⟩ := not_or.mp hopen
  have hafter : envelope.expiresAt.isAfter now = true := by
    simpa [CompactStoreForwardEnvelope.isExpiredAt] using hafter
  have hforward := Bool.eq_true_of_not_eq_false hforward
  split
  next hid => exact .known hid hafter
  next hid =>
  cases hencoded : envelope.encode with
  | none => exact .refused _
  | some encoded =>
  dsimp only
  split
  · exact .refused _
  next hitems =>
  cases hused : (q.prune now).usedBytes with
  | none => exact .refused _
  | some used =>
  dsimp only
  split
  · exact .refused _
  next hbytes =>
  have hforwarded : envelope.forwarded =
      some { envelope with hopCount := envelope.hopCount + 1 } := if_pos hforward
  rw [hforwarded]
  exact .added encoded used (Bool.eq_false_of_not_eq_true hid) hafter hforward hencoded hused
    (Int.not_le.mp hitems) (Int.not_lt.mp hbytes)

section Steps

variable {localDeviceId : DartString} {q : BoundedCourierQueue}

theorem step_sendEnvelope_fst (peer : DartString) (envelope : TransportEnvelope) (now : DateTime) :
    ((courier localDeviceId).step q (.sendEnvelope peer envelope now)).1 =
      (q.sendEnvelope localDeviceId peer envelope now).1 := by
  unfold courier
  dsimp only
  split
  next h => rw [h]
  next h => rw [h]

theorem step_enqueue_fst (envelope : CompactStoreForwardEnvelope) (sourcePeerDeviceId : DartString)
    (now : DateTime) (sourceIsLocal : Bool) :
    ((courier localDeviceId).step q (.enqueue envelope sourcePeerDeviceId now sourceIsLocal)).1 =
      (q.enqueue envelope sourcePeerDeviceId now sourceIsLocal).1 := by
  unfold courier
  dsimp only
  split
  next h => rw [h]
  next h => rw [h]

theorem sendEnvelope_of_stored {peer : DartString} {envelope : TransportEnvelope} {now : DateTime}
    (h : ((courier localDeviceId).step q (.sendEnvelope peer envelope now)).2 = .storedForPeer) :
    (q.sendEnvelope localDeviceId peer envelope now).2 = .ok () := by
  unfold courier at h
  dsimp only at h
  split at h
  next h' => rw [h']
  · cases h

theorem Enqueued.state {envelope : CompactStoreForwardEnvelope} {source : DartString}
    {now : DateTime} {result : BoundedCourierQueue × Except CourierError Unit}
    (h : Enqueued q envelope source now result) :
    result.1 = q ∨ result.1 = { q with items := q.items ++ [itemOf envelope source now] } := by
  cases h with
  | refused error => exact .inl rfl
  | known => exact .inl rfl
  | added => exact .inr rfl

end Steps

/-! ### Holding on -/

section Holding

variable {localDeviceId : DartString} {q : BoundedCourierQueue} {recipient messageId : DartString}
  {bytes : Bytes} {expiry : DateTime}

theorem Holding.mono {q' : BoundedCourierQueue} (h : q.Holding recipient messageId bytes expiry)
    (hsub : ∀ item ∈ q.items, item.envelope.recipientDeviceId = recipient →
      item.envelope.messageId = messageId → expiry.micros ≤ item.envelope.expiresAt.micros →
      item ∈ q'.items) : q'.Holding recipient messageId bytes expiry := by
  obtain ⟨item, hmem, hrecipient, hid, hbytes, hle⟩ := h
  exact ⟨item, hsub item hmem hrecipient hid hle, hrecipient, hid, hbytes, hle⟩

section

variable (h : q.Holding recipient messageId bytes expiry)

include h

theorem Holding.prune {now : DateTime} (hnow : expiry.isAfter now = true) :
    (q.prune now).Holding recipient messageId bytes expiry := by
  rw [isAfter_iff] at hnow
  exact h.mono fun item hmem _ _ hle => mem_prune.mpr ⟨hmem, isAfter_iff.mpr (by omega)⟩

theorem Holding.enqueue (envelope : CompactStoreForwardEnvelope) (source : DartString)
    {now : DateTime} (sourceIsLocal : Bool) (hnow : expiry.isAfter now = true) :
    (q.enqueue envelope source now sourceIsLocal).1.Holding recipient messageId bytes expiry := by
  have hprune := h.prune hnow
  rcases (enqueue_spec q envelope source now sourceIsLocal).state with hstate | hstate
  · rw [hstate]
    exact hprune
  · rw [hstate]
    exact hprune.mono fun item hmem _ _ _ => mem_append_left _ hmem

theorem Holding.markDelivered {messageId' : DartString} (hid : messageId' ≠ messageId) :
    (q.markDelivered messageId').Holding recipient messageId bytes expiry :=
  h.mono fun _ hmem _ hid' _ => mem_markDelivered.mpr ⟨hmem, fun heq => hid (heq.symm.trans hid')⟩

end

theorem not_ends_now {now : DateTime} (h : ¬ expiry.isAfter now = false) :
    expiry.isAfter now = true :=
  Bool.eq_true_of_not_eq_false h

/-- **Step.** A call that neither ends the promise nor is about somebody else's copy leaves what the
queue holds. -/
theorem Holding.step (h : q.Holding recipient messageId bytes expiry) (call : Call)
    (hends : ¬ call.Ends messageId recipient expiry)
    (helsewhere : ¬ call.Elsewhere messageId recipient) :
    ((courier localDeviceId).step q call).1.Holding recipient messageId bytes expiry := by
  -- the id of a delivery or a cancellation is another one, whoever it is for
  have hother : ∀ messageId' recipient', ¬ (messageId' = messageId ∧ recipient' = recipient) →
      ¬ (messageId' = messageId ∧ recipient' ≠ recipient) → messageId' ≠ messageId := by
    intro messageId' recipient' h1 h2 hid
    exact h2 ⟨hid, fun hr => h1 ⟨hid, hr⟩⟩
  cases call with
  | sendEnvelope peer envelope now =>
    rw [step_sendEnvelope_fst]
    unfold sendEnvelope
    split
    · exact h
    · exact h.enqueue _ _ _ (not_ends_now hends)
  | enqueue envelope source now sourceIsLocal =>
    rw [step_enqueue_fst]
    exact h.enqueue _ _ _ (not_ends_now hends)
  | markDelivered messageId' recipient' => exact h.markDelivered (hother _ _ hends helsewhere)
  | cancel messageId' recipient' => exact h.markDelivered (hother _ _ hends helsewhere)
  | prune now => exact h.prune (not_ends_now hends)
  | forRecipient recipient' now => exact h.prune (not_ends_now hends)
  | configure => exact h

theorem not_holding_of_elsewhere (localDeviceId : DartString) (q : BoundedCourierQueue)
    (bytes : Bytes) (expiry : DateTime) {call : Call} (h : call.Elsewhere messageId recipient) :
    ¬ ((courier localDeviceId).step q call).1.Holding recipient messageId bytes expiry ∧
      ¬ call.Ends messageId recipient expiry := by
  have hgone : ¬ (q.markDelivered messageId).Holding recipient messageId bytes expiry := by
    rintro ⟨item, hmem, -, hid, -⟩
    exact (mem_markDelivered.mp hmem).2 hid
  cases call with
  | markDelivered messageId' recipient' =>
    obtain ⟨rfl, hne⟩ := h
    exact ⟨hgone, fun hends => hne hends.2⟩
  | cancel messageId' recipient' =>
    obtain ⟨rfl, hne⟩ := h
    exact ⟨hgone, fun hends => hne hends.2⟩
  | _ => exact absurd h (fun h => h)

/-- **After an enqueue that did not throw** the queue holds the envelope exactly when it knew no
envelope of that id, or held this one already. -/
theorem holding_after_enqueue {envelope : CompactStoreForwardEnvelope} {source : DartString}
    {now : DateTime} {sourceIsLocal : Bool}
    (hok : (q.enqueue envelope source now sourceIsLocal).2 = .ok ()) :
    envelope.expiresAt.isAfter now = true ∧
      ((q.enqueue envelope source now sourceIsLocal).1.Holding envelope.recipientDeviceId
          envelope.messageId envelope.payload envelope.expiresAt ↔
        (q.prune now).hasId envelope.messageId = false ∨
          (q.prune now).Holding envelope.recipientDeviceId envelope.messageId envelope.payload
            envelope.expiresAt) := by
  have hspec := enqueue_spec q envelope source now sourceIsLocal
  generalize q.enqueue envelope source now sourceIsLocal = result at hok hspec ⊢
  cases hspec with
  | refused error => cases hok
  | known hid hafter =>
    refine ⟨hafter, ?_⟩
    rw [hid]
    exact ⟨.inr, fun h => h.resolve_left Bool.noConfusion⟩
  | added encoded used hid hafter =>
    refine ⟨hafter, iff_of_true ?_ (.inl hid)⟩
    exact ⟨_, mem_append_right _ mem_cons_self, rfl, rfl, rfl, le_rfl⟩

theorem holding_after_send {peer : DartString} {envelope : TransportEnvelope} {now : DateTime}
    (hexpires : envelope.expiry = some expiry)
    (hstored : ((courier localDeviceId).step q (.sendEnvelope peer envelope now)).2 =
      .storedForPeer) :
    expiry.isAfter now = true ∧
      (((courier localDeviceId).step q (.sendEnvelope peer envelope now)).1.Holding peer envelope.id
          envelope.bytes expiry ↔
        (q.prune now).hasId envelope.id = false ∨
          (q.prune now).Holding peer envelope.id envelope.bytes expiry) := by
  have hok := sendEnvelope_of_stored hstored
  rw [step_sendEnvelope_fst]
  unfold sendEnvelope at hok ⊢
  rw [hexpires] at hok ⊢
  exact holding_after_enqueue hok

end Holding

/-! ### The quotas -/

theorem bytesOf_append (l l' : List CourierQueueItem) :
    bytesOf (l ++ l') = (bytesOf l).bind fun used => (bytesOf l').map fun more => used + more := by
  induction l with
  | nil =>
    rw [nil_append]
    cases bytesOf l' with
    | none => rfl
    | some more => exact congrArg some (Nat.zero_add more).symm
  | cons item l ih =>
  rw [cons_append, bytesOf, bytesOf, ih]
  cases item.envelope.encode with
  | none => rfl
  | some encoded =>
  cases bytesOf l with
  | none => rfl
  | some used =>
    cases bytesOf l' with
    | none => rfl
    | some more => exact congrArg some (Nat.add_assoc _ _ _).symm

theorem bytesOf_filter {l : List CourierQueueItem} {used : ℕ} (h : bytesOf l = some used)
    (keep : CourierQueueItem → Bool) : ∃ used' ≤ used, bytesOf (l.filter keep) = some used' := by
  induction l generalizing used with
  | nil => exact ⟨used, le_rfl, h⟩
  | cons item l ih =>
  obtain ⟨encoded, hencoded, h⟩ := bind_eq_some_iff.mp h
  obtain ⟨rest, hrest, h⟩ := bind_eq_some_iff.mp h
  obtain rfl : encoded.length + rest = used := some.inj h
  obtain ⟨used', hle, hfilter⟩ := ih hrest
  rw [filter_cons]
  split
  · refine ⟨encoded.length + used', Nat.add_le_add_left hle _, ?_⟩
    rw [bytesOf, hencoded, hfilter]
    rfl
  · exact ⟨used', by omega, hfilter⟩

theorem encode_itemOf {envelope : CompactStoreForwardEnvelope} {encoded : Bytes}
    (h : envelope.encode = some encoded) (hforward : envelope.canForward = true)
    (source : DartString) (now : DateTime) :
    ∃ bytes, (itemOf envelope source now).envelope.encode = some bytes ∧
      bytes.length = encoded.length := by
  obtain ⟨henc, -⟩ := CompactStoreForwardEnvelope.encodable_of_encode h
  have hlt : envelope.hopCount < envelope.maximumHops := of_decide_eq_true hforward
  have henc' : (itemOf envelope source now).envelope.Encodable := by
    obtain ⟨hid, hsender, hrecipient, hpayload, h0, h1, h2, h3, h4, hafter⟩ := henc
    refine ⟨hid, hsender, hrecipient, hpayload, ?_, ?_, h2, h3, ?_, hafter⟩
    · exact Int.le_add_one h0
    · exact (Int.add_one_le_of_lt hlt).trans h3
    · exact Int.add_one_le_of_lt hlt
  refine ⟨_, CompactStoreForwardEnvelope.encode_frame henc', ?_⟩
  rw [CompactStoreForwardEnvelope.length_encode h, CompactStoreForwardEnvelope.length_encode
    (CompactStoreForwardEnvelope.encode_frame henc')]
  rfl

section Quotas

variable {q : BoundedCourierQueue}

theorem Within.filter (h : q.Within) (keep : CourierQueueItem → Bool) :
    Within { q with items := q.items.filter keep } := by
  obtain ⟨hitems, used, hused, hbytes⟩ := h
  obtain ⟨used', hle, hfilter⟩ := bytesOf_filter hused keep
  refine ⟨?_, used', hfilter, (Int.ofNat_le.mpr hle).trans hbytes⟩
  exact (Int.ofNat_le.mpr (length_filter_le _ _)).trans hitems

theorem Within.enqueue (h : q.Within) (envelope : CompactStoreForwardEnvelope)
    (source : DartString) (now : DateTime) (sourceIsLocal : Bool) :
    (q.enqueue envelope source now sourceIsLocal).1.Within := by
  have hprune : (q.prune now).Within := h.filter _
  have hspec := enqueue_spec q envelope source now sourceIsLocal
  generalize q.enqueue envelope source now sourceIsLocal = result at hspec ⊢
  cases hspec with
  | refused error => exact hprune
  | known => exact hprune
  | added encoded used hid hafter hforward hencoded hused hitems hbytes =>
  obtain ⟨bytes, hbytes', hlength⟩ := encode_itemOf hencoded hforward source now
  refine ⟨?_, used + encoded.length, ?_, hbytes⟩
  · dsimp only
    rw [length_append, length_singleton]
    omega
  have hone : bytesOf [itemOf envelope source now] = some encoded.length := by
    rw [bytesOf, hbytes', ← hlength]
    rfl
  show bytesOf ((q.prune now).items ++ [itemOf envelope source now]) = _
  rw [bytesOf_append, hone, show bytesOf (q.prune now).items = some used from hused]
  rfl

theorem Within.step {localDeviceId : DartString} (h : q.Within) (call : Call) :
    ((courier localDeviceId).step q call).1.Within := by
  cases call with
  | sendEnvelope peer envelope now =>
    rw [step_sendEnvelope_fst]
    unfold sendEnvelope
    split
    · exact h
    · exact h.enqueue _ _ _ _
  | enqueue envelope source now sourceIsLocal =>
    rw [step_enqueue_fst]
    exact h.enqueue _ _ _ _
  | markDelivered => exact h.filter _
  | cancel => exact h.filter _
  | prune => exact h.filter _
  | forRecipient => exact h.filter _
  | configure => exact h

end Quotas

/-! ### Whole runs -/

section Runs

variable {localDeviceId : DartString} {q : BoundedCourierQueue} {calls : List Call}

theorem Apart.holding (h : Apart localDeviceId q calls) {before since after : List Call}
    {peer : DartString} {envelope : TransportEnvelope} {now expiry : DateTime}
    (hcalls : calls = before ++ .sendEnvelope peer envelope now :: (since ++ after))
    (hpromised : Promised localDeviceId q before peer envelope now expiry since) :
    ((courier localDeviceId).run q (before ++ .sendEnvelope peer envelope now :: since)).Holding
      peer envelope.id envelope.bytes expiry := by
  induction since using reverseRecOn generalizing after with
  | nil =>
    have hknown := h.1 before peer envelope now expiry after hcalls hpromised
    rw [Machine.run_append]
    exact (holding_after_send hpromised.expires hpromised.stored).2.mpr hknown
  | append_singleton since call ih =>
  have hcalls' : calls =
      before ++ .sendEnvelope peer envelope now :: (since ++ call :: after) := by
    rw [hcalls, append_assoc, singleton_append]
  have hsince : Promised localDeviceId q before peer envelope now expiry since :=
    ⟨hpromised.expires, hpromised.stored, fun c hc =>
      hpromised.since c (mem_append_left _ hc)⟩
  have hrun : (courier localDeviceId).run q
      (before ++ .sendEnvelope peer envelope now :: (since ++ [call])) =
      ((courier localDeviceId).step ((courier localDeviceId).run q
        (before ++ .sendEnvelope peer envelope now :: since)) call).1 := by
    rw [← cons_append, ← append_assoc, Machine.run_append]
    rfl
  rw [hrun]
  exact (ih hcalls' hsince).step call
    (hpromised.since call (mem_append_right _ mem_cons_self))
    (h.2 before peer envelope now expiry since call after hcalls' hsince)

/-- **The queue keeps what it reports stored**, and its quotas, in exactly those runs that begin
within the quotas and keep messages of one id apart. -/
theorem keeps_iff (localDeviceId : DartString) (q : BoundedCourierQueue) (calls : List Call) :
    Keeps localDeviceId q calls ↔ Apart localDeviceId q calls ∧ q.Within := by
  constructor
  · rintro ⟨havailable, hwithin⟩
    refine ⟨⟨?_, ?_⟩, hwithin [] calls rfl⟩
    · intro before peer envelope now expiry after hcalls hpromised
      have hsend := holding_after_send hpromised.expires hpromised.stored
      have h := havailable before peer envelope now expiry [] after hcalls hpromised
      rw [available_iff_holding hsend.1, Machine.run_append] at h
      exact hsend.2.mp h
    intro before peer envelope now expiry since call after hcalls hpromised helsewhere
    have hsend := holding_after_send hpromised.expires hpromised.stored
    have hgone := not_holding_of_elsewhere localDeviceId
      ((courier localDeviceId).run q (before ++ .sendEnvelope peer envelope now :: since))
      envelope.bytes expiry helsewhere
    -- the call itself ends nothing, so the promise still stands after it
    have hafter : Promised localDeviceId q before peer envelope now expiry (since ++ [call]) := by
      refine ⟨hpromised.expires, hpromised.stored, fun c hc => ?_⟩
      rcases mem_append.mp hc with hc | hc
      · exact hpromised.since c hc
      · rw [mem_singleton.mp hc]
        exact hgone.2
    have h := havailable before peer envelope now expiry (since ++ [call]) after
      (by rw [hcalls, append_assoc, singleton_append]) hafter
    rw [available_iff_holding hsend.1, ← cons_append, ← append_assoc,
      Machine.run_append] at h
    exact hgone.1 h
  · rintro ⟨hapart, hwithin⟩
    refine ⟨?_, ?_⟩
    · intro before peer envelope now expiry since after hcalls hpromised
      have hsend := holding_after_send hpromised.expires hpromised.stored
      exact (available_iff_holding hsend.1).mpr (hapart.holding hcalls hpromised)
    · intro before after _
      exact Machine.run_induction (fun s call _ hs => hs.step call) hwithin

end Runs

end BoundedCourierQueue

namespace Sample

def idle : BoundedCourierQueue where
  enabled := true
  maximumItems := 256
  maximumBytes := 8 * 1024 * 1024
  trustedPeerDeviceIds := {ofString "a", ofString "b"}
  items := []

def message : TransportEnvelope where
  id := ofString "m"
  bytes := [7]
  createdAt := moment 0
  expiresAt := some (moment 9)

def toBoth : List Call :=
  [.sendEnvelope (ofString "a") message (moment 1),
    .sendEnvelope (ofString "b") message (moment 2)]

/-- **The second copy of a message is lost**, reported stored. -/
theorem second_copy_lost : ¬ BoundedCourierQueue.Keeps (ofString "self") idle toBoth := by
  rintro ⟨h, -⟩
  obtain ⟨item, hitem, -⟩ := h [.sendEnvelope (ofString "a") message (moment 1)]
    (ofString "b") message (moment 2) (moment 9) [] [] rfl
    ⟨rfl, rfl, fun call hcall => nomatch hcall⟩ (moment 3) (by decide)
  have hnone : (((courier (ofString "self")).run idle toBoth).forRecipient (ofString "b")
      (moment 3)).2 = [] := rfl
  have hitem : item ∈ (((courier (ofString "self")).run idle toBoth).forRecipient (ofString "b")
      (moment 3)).2 := hitem
  rw [hnone] at hitem
  exact nomatch hitem

end Sample

end Courier
end Conest
