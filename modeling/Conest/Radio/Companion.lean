import Conest.Lib.Dart
import Conest.Lib.Machine

/-!
# A MeshCore companion radio

The app sends a command to the radio and waits for the answer before it sends the next one. Answers
carry no id: what arrives goes to the command in progress if it has one of the codes the command is
answered with. A push says that the radio holds messages, and starts a sync, which asks for the next
message until there are no more. While a sync runs a push starts nothing.

A radio that answers one command at a time gives no answer to another command, as long as no write
fails of a command that the radio got (`given_own`). But a push that is handled after the last
command of a sync was sent, and before the sync ends, is forgotten, and a sync ends after 256
messages whether there are more or not. In the runs in which neither happens (`Timely`) every push
is followed by a command, and a sync that ends without an error ends with the radio's answer that
there are no more (`messages_fetched`).
-/

namespace Conest
namespace Radio

open Lib List Option

namespace MeshCoreCode

def ok : UInt8 := 0
def error : UInt8 := 1
def contactsStart : UInt8 := 2
def contact : UInt8 := 3
def endOfContacts : UInt8 := 4
def selfInfo : UInt8 := 5
def sent : UInt8 := 6
def contactMessage : UInt8 := 7
def noMoreMessages : UInt8 := 10
def deviceInfo : UInt8 := 13
def contactMessageV3 : UInt8 := 16
def channelMessage : UInt8 := 8
def channelMessageV3 : UInt8 := 17
def pushMessageWaiting : UInt8 := 0x83
def pushSendConfirmed : UInt8 := 0x82

end MeshCoreCode

open MeshCoreCode

inductive MeshCoreCommand where
  | deviceQuery
  | appStart
  | getContactByKey
  | setDeviceTime
  | addUpdateContact
  | sendTextMessage
  | sendChannelTextMessage
  | getContacts
  | syncNextMessage
deriving DecidableEq

/-- The codes a command is answered with. -/
def MeshCoreCommand.answers : MeshCoreCommand → List UInt8
  | .deviceQuery => [deviceInfo]
  | .appStart => [selfInfo]
  | .getContactByKey => [contact, error]
  | .setDeviceTime => [ok, error]
  | .addUpdateContact => [ok]
  | .sendTextMessage => [sent]
  | .sendChannelTextMessage => [ok]
  | .getContacts => [contactsStart, contact, endOfContacts]
  | .syncNextMessage =>
    [contactMessageV3, contactMessage, noMoreMessages, channelMessage, channelMessageV3, 27]

/-- The codes of what goes to the command: an error is one of them. -/
def MeshCoreCommand.codes (command : MeshCoreCommand) : List UInt8 := command.answers ++ [error]

structure MeshCoreMessage where
  senderPrefix : Bytes
  textType : ℕ
  timestamp : ℕ
  text : Bytes
  channel : Option ℕ
deriving DecidableEq

/-- A number in four bytes, the lowest first. -/
def getUint32 (bytes : Bytes) (offset : ℕ) : ℕ :=
  ((bytes.drop offset).take 4).foldr (fun byte value => byte.toNat + 256 * value) 0

def parseMessage (frame : Bytes) : Option MeshCoreMessage :=
  let code := frame.getD 0 0
  let channelOffset :=
    if code = channelMessageV3 then some 4 else if code = channelMessage then some 1 else none
  let offset :=
    if code = contactMessageV3 then some 4 else if code = contactMessage then some 1 else none
  match channelOffset, offset with
  | some offset, _ =>
    if frame.length < offset + 3 + 4 then none
    else
      some
        { senderPrefix := []
          channel := some (frame.getD offset 0).toNat
          textType := (frame.getD (offset + 2) 0).toNat
          timestamp := getUint32 frame (offset + 3)
          text := frame.drop (offset + 7) }
  | none, some offset =>
    if frame.length < offset + 6 + 1 + 1 + 4 then none
    else
      some
        { senderPrefix := (frame.drop offset).take 6
          channel := none
          textType := (frame.getD (offset + 7) 0).toNat
          timestamp := getUint32 frame (offset + 8)
          text := frame.drop (offset + 12) }
  | none, none => none

/-! ### The radio's state -/

/-- A command that was asked for, with a number of its own. -/
structure Request where
  id : ℕ
  command : MeshCoreCommand
deriving DecidableEq

/-- The command in progress, and whether it has been written. -/
structure InProgress where
  request : Request
  written : Bool
deriving DecidableEq

/-- The completer of a command with one answer. -/
structure Pending where
  request : Request
  reply : Option Bytes
deriving DecidableEq

/-- What collects the answer in many frames; `done` is the frame that ends it. -/
structure Many where
  request : Request
  items : List Bytes
  done : Option Bytes
deriving DecidableEq

/-- The sync that runs: how many messages it has, and what came of its command, which is nothing
where the command failed. -/
structure Sync where
  count : ℕ
  result : Option (Option Bytes)
deriving DecidableEq

/-- How a call of `syncMessages` ended. -/
inductive SyncEnd where
  | busy
  | noMore
  | limit
  | failed
deriving DecidableEq

/-- The radio as the app has it. The last four fields are not the app's: the commands that the radio
has got and not answered, whether a push was handled since the last `syncNextMessage` was written,
the frames that went to a command, each with the number of the command it answers, and how the calls
of `syncMessages` ended. -/
structure MeshCoreRadio where
  queue : List Request
  current : Option InProgress
  pending : Option Pending
  many : Option Many
  sync : Option Sync
  messages : List MeshCoreMessage
  closed : Bool
  nextId : ℕ
  inbox : List Request
  unfollowed : Bool
  given : List (ℕ × Option ℕ)
  ended : List SyncEnd

/-- What happens on a link. A frame comes with the number of the command that the radio answers with
it, if it does. -/
inductive LinkAct where
  | syncMessages
  | command (command : MeshCoreCommand)
  | start
  | wrote
  | writeFails (reached : Bool)
  | frame (answers : Option ℕ) (frame : Bytes)
  | resumeCommand
  | resumeSync
  | close

namespace MeshCoreRadio

def initial : MeshCoreRadio := ⟨[], none, none, none, none, [], false, 0, [], false, [], []⟩

variable (r : MeshCoreRadio)

def enqueue (command : MeshCoreCommand) : MeshCoreRadio :=
  { r with queue := r.queue ++ [⟨r.nextId, command⟩], nextId := r.nextId + 1 }

/-- Asks for the first message, unless a sync runs. -/
def syncMessages : MeshCoreRadio :=
  if r.sync.isSome then { r with ended := r.ended ++ [.busy] }
  else { r.enqueue .syncNextMessage with sync := some ⟨0, none⟩ }

/-- The next command begins when there is none in progress. From here on the radio may get it. -/
def start : MeshCoreRadio :=
  match r.current, r.queue with
  | none, request :: queue =>
    let r := { r with queue, current := some ⟨request, false⟩, inbox := r.inbox ++ [request] }
    if request.command = .getContacts then { r with many := some ⟨request, [], none⟩ }
    else { r with pending := some ⟨request, none⟩ }
  | _, _ => r

def wrote : MeshCoreRadio :=
  match r.current with
  | some ⟨request, false⟩ =>
    { r with
      current := some ⟨request, true⟩
      unfollowed := if request.command = .syncNextMessage then false else r.unfollowed }
  | _ => r

/-- What a command gives to the one who asked: only a sync makes something of it. -/
def deliver (request : Request) (result : Option Bytes) : MeshCoreRadio :=
  if request.command = .syncNextMessage then
    { r with sync := r.sync.map fun sync => { sync with result := some result } }
  else r

/-- A write fails, before the radio got the command or after. The completer of a single answer stays
behind. -/
def writeFails (reached : Bool) : MeshCoreRadio :=
  match r.current with
  | some ⟨request, false⟩ =>
    let r := { r with
      current := none
      many := if request.command = MeshCoreCommand.getContacts then none else r.many
      inbox := if reached then r.inbox else r.inbox.filter fun other => decide (other ≠ request) }
    r.deliver request none
  | _ => r

/-- A frame goes to the collector of many, or completes the one that waits. -/
def complete (answers : Option ℕ) (code : UInt8) (frame : Bytes) : MeshCoreRadio :=
  let toPending : MeshCoreRadio :=
    match r.pending with
    | some ⟨request, none⟩ =>
      if code ∈ request.command.codes then
        { r with
          pending := some ⟨request, some frame⟩
          given := r.given ++ [(request.id, answers)] }
      else r
    | _ => r
  match r.many with
  | some ⟨request, items, done⟩ =>
    if code ∈ request.command.codes then
      { r with
        many := some
          { request
            items := if code = contact then items ++ [frame] else items
            done :=
              if (code = endOfContacts ∨ code = error) ∧ done = none then some frame else done }
        given := r.given ++ [(request.id, answers)] }
    else toPending
  | none => toPending

/-- Whether the frame is the last of the answer to the command. -/
def isLast (command : MeshCoreCommand) (code : UInt8) : Bool :=
  decide (command ≠ .getContacts) || decide (code = endOfContacts) || decide (code = error)

/-- The radio has answered the first command with this frame. -/
def answered (code : UInt8) : MeshCoreRadio :=
  match r.inbox with
  | request :: inbox => if isLast request.command code then { r with inbox } else r
  | [] => r

def handle (answers : Option ℕ) (frame : Bytes) : MeshCoreRadio :=
  match frame with
  | [] => r
  | code :: _ =>
    let r := if answers.isSome then r.answered code else r
    if code = pushMessageWaiting then { r.syncMessages with unfollowed := true }
    else if code = pushSendConfirmed then r
    else r.complete answers code frame

/-- The command in progress resumes with its answer. -/
def resumeCommand : MeshCoreRadio :=
  match r.current with
  | some ⟨request, true⟩ =>
    if request.command = .getContacts then
      match r.many with
      | some ⟨_, _, some _⟩ => { r with current := none, many := none }
      | _ => r
    else
      match r.pending with
      | some ⟨_, some reply⟩ =>
        let refused := reply.head? = some error ∧ error ∉ request.command.answers
        { r with current := none, pending := none }.deliver request
          (if refused then none else some reply)
      | _ => r
  | _ => r

def endSync (how : SyncEnd) : MeshCoreRadio := { r with sync := none, ended := r.ended ++ [how] }

/-- The loop of the sync goes on with what came of its command. -/
def resumeSync : MeshCoreRadio :=
  match r.sync with
  | some ⟨_, some none⟩ => r.endSync .failed
  | some ⟨count, some (some reply)⟩ =>
    if reply.head? = some noMoreMessages then r.endSync .noMore
    else
      let r := { r with messages := r.messages ++ (parseMessage reply).toList }
      if count + 1 < 256 then { r.enqueue .syncNextMessage with sync := some ⟨count + 1, none⟩ }
      else r.endSync .limit
  | _ => r

/-- One step on a link. Nothing happens after it is closed, which a command that is not answered in
time does. Only a sync asks for the next message. -/
def step (act : LinkAct) : MeshCoreRadio :=
  if r.closed then r
  else
    match act with
    | .syncMessages => r.syncMessages
    | .command command => if command = .syncNextMessage then r else r.enqueue command
    | .start => r.start
    | .wrote => r.wrote
    | .writeFails reached => r.writeFails reached
    | .frame answers frame => r.handle answers frame
    | .resumeCommand => r.resumeCommand
    | .resumeSync => r.resumeSync
    | .close => { r with closed := true }

def machine : Machine MeshCoreRadio LinkAct Unit := ⟨fun r act => (r.step act, ())⟩

/-! ### Answers go to their commands -/

/-- **A radio that answers one command at a time, in order**: each answer is for the first command
that the radio has not answered, with a code of its answers, and what the radio says by itself is a
push. A write that fails is not one of a command that the radio got. -/
def InOrder : LinkAct → Prop
  | .frame (some id) frame => ∃ request inbox code rest, r.inbox = request :: inbox ∧
      request.id = id ∧ frame = code :: rest ∧ code ∈ request.command.codes
  | .frame none frame => ∀ code ∈ frame.head?, 0x80 ≤ code
  | .writeFails reached => reached = false ∨ r.inbox = []
  | _ => True

/-- What the command in progress has, and what the radio has of it. -/
structure Answering : Prop where
  idle : r.current = none → r.many = none ∧ r.inbox = []
  many : ∀ request written, r.current = some ⟨request, written⟩ →
    request.command = .getContacts → ∃ items done, r.many = some ⟨request, items, done⟩ ∧
      (r.inbox = [] ∨ r.inbox = [request] ∧ done = none)
  single : ∀ request written, r.current = some ⟨request, written⟩ →
    request.command ≠ .getContacts → r.many = none ∧ ∃ reply, r.pending = some ⟨request, reply⟩ ∧
      (r.inbox = [] ∨ r.inbox = [request] ∧ reply = none)
  own : ∀ p ∈ r.given, p.2 = some p.1

variable {r} {act : LinkAct}

theorem code_lt {command : MeshCoreCommand} {code : UInt8} (h : code ∈ command.codes) :
    code < 0x80 := by
  have hall : ∀ command : MeshCoreCommand, ∀ code ∈ command.codes, code < 0x80 := by
    intro command
    cases command <;> decide +kernel
  exact hall command code h

theorem answering_initial : initial.Answering where
  idle _ := ⟨rfl, rfl⟩
  many _ _ h := nomatch h
  single _ _ h := nomatch h
  own _ h := nomatch h

theorem Answering.of_eq {r' : MeshCoreRadio} (h : r.Answering) (hcurrent : r'.current = r.current)
    (hmany : r'.many = r.many) (hpending : r'.pending = r.pending) (hinbox : r'.inbox = r.inbox)
    (hgiven : r'.given = r.given) : r'.Answering where
  idle := by rw [hcurrent, hmany, hinbox]; exact h.idle
  many := by rw [hcurrent, hmany, hinbox]; exact h.many
  single := by rw [hcurrent, hmany, hpending, hinbox]; exact h.single
  own := by rw [hgiven]; exact h.own

section

variable (h : r.Answering)

include h

theorem Answering.syncMessages : r.syncMessages.Answering := by
  unfold MeshCoreRadio.syncMessages
  split
  · exact h.of_eq rfl rfl rfl rfl rfl
  · exact h.of_eq rfl rfl rfl rfl rfl

theorem Answering.deliver (request : Request) (result : Option Bytes) :
    (r.deliver request result).Answering := by
  unfold MeshCoreRadio.deliver
  split
  · exact h.of_eq rfl rfl rfl rfl rfl
  · exact h

theorem Answering.start : r.start.Answering := by
  unfold MeshCoreRadio.start
  split
  swap
  · exact h
  next request queue hcurrent hqueue =>
  obtain ⟨hmany, hinbox⟩ := h.idle hcurrent
  simp only [hinbox, nil_append]
  split
  · next hcontacts =>
    refine ⟨fun hnone => (nomatch hnone), ?_, ?_, h.own⟩
    · rintro _ _ ⟨⟩ -
      exact ⟨[], none, rfl, .inr ⟨rfl, rfl⟩⟩
    · rintro _ _ ⟨⟩ hother
      exact absurd hcontacts hother
  next hother =>
  refine ⟨fun hnone => (nomatch hnone), ?_, ?_, h.own⟩
  · rintro _ _ ⟨⟩ hcontacts
    exact absurd hcontacts hother
  · rintro _ _ ⟨⟩ -
    exact ⟨hmany, none, rfl, .inr ⟨rfl, rfl⟩⟩

theorem Answering.wrote : r.wrote.Answering := by
  unfold MeshCoreRadio.wrote
  split
  swap
  · exact h
  next request hcurrent =>
  refine ⟨fun hnone => (nomatch hnone), ?_, ?_, h.own⟩
  · rintro _ _ ⟨⟩ hcontacts
    exact h.many request false hcurrent hcontacts
  · rintro _ _ ⟨⟩ hother
    exact h.single request false hcurrent hother

theorem Answering.writeFails {reached : Bool} (hreached : reached = false ∨ r.inbox = []) :
    (r.writeFails reached).Answering := by
  unfold MeshCoreRadio.writeFails
  split
  swap
  · exact h
  next request hcurrent =>
  apply Answering.deliver
  have hempty : r.inbox = [] ∨ r.inbox = [request] := by
    by_cases hcontacts : request.command = .getContacts
    · obtain ⟨_, _, -, hinbox⟩ := h.many request false hcurrent hcontacts
      exact hinbox.imp_right And.left
    · obtain ⟨-, _, -, hinbox⟩ := h.single request false hcurrent hcontacts
      exact hinbox.imp_right And.left
  refine ⟨fun _ => ⟨?_, ?_⟩, fun _ _ hsome => (nomatch hsome), fun _ _ hsome => (nomatch hsome),
    h.own⟩
  · show (if _ then _ else _ : Option Many) = none
    split
    · rfl
    next hother => exact (h.single request false hcurrent hother).1
  · show (if _ then _ else _ : List Request) = []
    rcases hreached with rfl | hnil
    · rcases hempty with hnil | hone
      · rw [hnil]
        rfl
      · rw [hone, filter_cons_of_neg (by simp)]
        rfl
    · rw [hnil]
      split <;> rfl

theorem Answering.resumeCommand : r.resumeCommand.Answering := by
  have hends : ∀ {r' : MeshCoreRadio}, r'.current = none → r'.many = none → r'.inbox = [] →
      r'.given = r.given → r'.Answering := by
    intro r' hcurrent hmany hinbox hgiven
    refine ⟨fun _ => ⟨hmany, hinbox⟩, ?_, ?_, by rw [hgiven]; exact h.own⟩
    · rw [hcurrent]
      exact fun _ _ hsome => nomatch hsome
    · rw [hcurrent]
      exact fun _ _ hsome => nomatch hsome
  unfold MeshCoreRadio.resumeCommand
  split
  swap
  · exact h
  next request hcurrent =>
  split
  · next hcontacts =>
    obtain ⟨items, done, hmany, hinbox⟩ := h.many request true hcurrent hcontacts
    split
    swap
    · exact h
    next hdone =>
    obtain ⟨-, -, rfl⟩ := Many.mk.inj (some.inj (hmany.symm.trans hdone))
    refine hends rfl rfl ?_ rfl
    exact hinbox.resolve_right fun hopen => nomatch hopen.2
  next hother =>
  obtain ⟨hmany, reply, hpending, hinbox⟩ := h.single request true hcurrent hother
  split
  swap
  · exact h
  next reply' hreply =>
  obtain ⟨-, rfl⟩ := Pending.mk.inj (some.inj (hpending.symm.trans hreply))
  apply Answering.deliver
  refine hends rfl hmany ?_ rfl
  exact hinbox.resolve_right fun hopen => nomatch hopen.2

end

theorem complete_of_push {answers : Option ℕ} {code : UInt8} {frame : Bytes} (h : 0x80 ≤ code) :
    r.complete answers code frame = r := by
  have hnot : ∀ command : MeshCoreCommand, code ∉ command.codes := fun command hmem =>
    absurd (code_lt hmem) (UInt8.not_lt.mpr h)
  have htoPending : (match r.pending with
      | some ⟨request, none⟩ =>
        if code ∈ request.command.codes then
          { r with
            pending := some ⟨request, some frame⟩
            given := r.given ++ [(request.id, answers)] }
        else r
      | _ => r) = r := by
    split
    · exact if_neg (hnot _)
    · rfl
  unfold complete
  simp only [htoPending]
  split
  · exact if_neg (hnot _)
  · rfl

theorem Answering.handle (h : r.Answering) {answers : Option ℕ} {frame : Bytes}
    (horder : r.InOrder (.frame answers frame)) : (r.handle answers frame).Answering := by
  cases answers with
  | none =>
    unfold MeshCoreRadio.handle
    split
    · exact h
    next code rest =>
    simp only [isSome_none, Bool.false_eq_true, if_false]
    split
    · exact h.syncMessages.of_eq rfl rfl rfl rfl rfl
    split
    · exact h
    · rw [complete_of_push (horder code rfl)]
      exact h
  | some id =>
    obtain ⟨request, inbox, code, rest, hinbox, rfl, rfl, hcode⟩ := horder
    have hlow := code_lt hcode
    have hwaiting : code ≠ pushMessageWaiting := by
      rintro rfl
      exact absurd hlow (by decide)
    have hconfirmed : code ≠ pushSendConfirmed := by
      rintro rfl
      exact absurd hlow (by decide)
    have hown : ∀ p ∈ r.given ++ [(request.id, some request.id)], p.2 = some p.1 := by
      intro p hp
      rcases mem_append.mp hp with hold | hnew
      · exact h.own p hold
      · rw [mem_singleton.mp hnew]
    unfold MeshCoreRadio.handle
    simp only [isSome_some, if_true, if_neg hwaiting, if_neg hconfirmed]
    cases hcurrent : r.current with
    | none =>
      rw [(h.idle hcurrent).2] at hinbox
      cases hinbox
    | some current =>
    obtain ⟨request', written⟩ := current
    by_cases hcontacts : request'.command = .getContacts
    · obtain ⟨items, done, hmany, hhas⟩ := h.many request' written hcurrent hcontacts
      rw [hinbox] at hhas
      rcases hhas with hnone | ⟨hone, rfl⟩
      · cases hnone
      obtain ⟨rfl, rfl⟩ := cons_eq_cons.mp hone
      -- the frame that ends the answer is the one that ends what is collected
      have hhas : (r.answered code).inbox = [] ∨ (r.answered code).inbox = [request] ∧
          (if (code = endOfContacts ∨ code = error) ∧ (none : Option Bytes) = none then
            some (code :: rest) else none) = none := by
        unfold answered
        simp only [hinbox]
        unfold isLast
        rw [decide_eq_false (not_not.mpr hcontacts), Bool.false_or]
        by_cases hend : code = endOfContacts ∨ code = error
        · left
          rw [if_pos (by rwa [Bool.or_eq_true, decide_eq_true_eq, decide_eq_true_eq])]
        right
        rw [if_neg (by rwa [Bool.or_eq_true, decide_eq_true_eq, decide_eq_true_eq]),
          if_neg fun hboth => hend hboth.1]
        exact ⟨hinbox, rfl⟩
      have hrest : (r.answered code).many = r.many ∧ (r.answered code).current = r.current ∧
          (r.answered code).given = r.given := by
        unfold answered
        split
        · split <;> exact ⟨rfl, rfl, rfl⟩
        · exact ⟨rfl, rfl, rfl⟩
      simp only [eq_self] at hhas
      unfold complete
      simp only [hrest.1, hmany, if_pos hcode]
      refine ⟨fun hnone => ?_, ?_, ?_, by rw [hrest.2.2]; exact hown⟩
      · rw [hrest.2.1, hcurrent] at hnone
        cases hnone
      · intro request' written' hsome _
        rw [hrest.2.1, hcurrent] at hsome
        cases hsome
        exact ⟨_, _, rfl, hhas⟩
      · intro request' written' hsome hother
        rw [hrest.2.1, hcurrent] at hsome
        cases hsome
        exact absurd hcontacts hother
    · obtain ⟨hmany, reply, hpending, hhas⟩ := h.single request' written hcurrent hcontacts
      rw [hinbox] at hhas
      rcases hhas with hnone | ⟨hone, rfl⟩
      · cases hnone
      obtain ⟨rfl, rfl⟩ := cons_eq_cons.mp hone
      have hlast : isLast request.command code = true := by
        unfold isLast
        rw [decide_eq_true hcontacts]
        rfl
      unfold complete answered
      simp only [hinbox, hlast, if_true, hmany, hpending, if_pos hcode]
      refine ⟨fun hnone => ?_, ?_, ?_, hown⟩
      · rw [hcurrent] at hnone
        cases hnone
      · intro request' written' hsome hcontacts'
        rw [hcurrent] at hsome
        cases hsome
        exact absurd hcontacts' hcontacts
      · intro request' written' hsome _
        rw [hcurrent] at hsome
        cases hsome
        exact ⟨rfl, _, rfl, .inl rfl⟩

theorem Answering.step (h : r.Answering) (act : LinkAct) (horder : r.InOrder act) :
    (r.step act).Answering := by
  unfold MeshCoreRadio.step
  split
  · exact h
  cases act with
  | syncMessages => exact h.syncMessages
  | command command =>
    simp only
    split
    · exact h
    · exact h.of_eq rfl rfl rfl rfl rfl
  | start => exact h.start
  | wrote => exact h.wrote
  | writeFails reached => exact h.writeFails horder
  | frame answers frame => exact h.handle horder
  | resumeCommand => exact h.resumeCommand
  | resumeSync =>
    simp only
    unfold MeshCoreRadio.resumeSync
    split
    · exact h.of_eq rfl rfl rfl rfl rfl
    · split
      · exact h.of_eq rfl rfl rfl rfl rfl
      · split
        · exact h.of_eq rfl rfl rfl rfl rfl
        · exact h.of_eq rfl rfl rfl rfl rfl
    · exact h
  | close => exact h.of_eq rfl rfl rfl rfl rfl

/-- **Answers go to their commands**, in every run with a radio that answers in order. -/
theorem given_own {acts : List LinkAct} (h : machine.Along InOrder initial acts) :
    ∀ p ∈ (machine.run initial acts).given, p.2 = some p.1 := by
  have hafter : (machine.run initial acts).Answering :=
    Machine.run_induction_along (fun r act hr horder => hr.step act horder) answering_initial h
  exact hafter.own

/-! ### No push is forgotten -/

/-- A frame of this code ends a sync. -/
def IsFinal (code : UInt8) : Prop := code = noMoreMessages ∨ code = error

instance (code : UInt8) : Decidable (IsFinal code) :=
  inferInstanceAs (Decidable (code = noMoreMessages ∨ code = error))

/-- What came of a command of a sync ends it. -/
def EndsSync : Option Bytes → Prop
  | none => True
  | some reply => reply.head? = some noMoreMessages

variable (r)

/-- The command in progress is one of a sync, and has no answer yet. -/
def Awaits : Prop :=
  ∃ request written, r.current = some ⟨request, written⟩ ∧ request.command = .syncNextMessage ∧
    r.pending = some ⟨request, none⟩

/-- The command in progress is one of a sync, and has this answer. -/
def Answered (reply : Bytes) : Prop :=
  ∃ request written, r.current = some ⟨request, written⟩ ∧ request.command = .syncNextMessage ∧
    r.pending = some ⟨request, some reply⟩

/-- That the sync ends is settled, but it has not ended. -/
def Ending : Prop :=
  (∃ code rest, r.Answered (code :: rest) ∧ IsFinal code) ∨
    ∃ sync result, r.sync = some sync ∧ sync.result = some result ∧ EndsSync result

/-- **Pushes come in time**: not while a sync is ending, and not between the command of a sync and
what ends it. And the 256th command of a sync is not answered with a message. -/
def Timely : LinkAct → Prop
  | .frame _ frame => ∀ code ∈ frame.head?,
      (code = pushMessageWaiting → ¬ r.Ending) ∧
      (r.Awaits → code ∈ MeshCoreCommand.syncNextMessage.codes →
        (IsFinal code → r.unfollowed = false) ∧
        ∀ sync ∈ r.sync, 255 ≤ sync.count → IsFinal code)
  | .writeFails _ => (∃ request, r.current = some ⟨request, false⟩ ∧
      request.command = .syncNextMessage) → r.unfollowed = false
  | _ => True

/-- How many commands of a sync are to come, or in progress. -/
def outstanding : ℕ :=
  (r.queue.filter fun request => decide (request.command = .syncNextMessage)).length +
    match r.current with
    | some current => if current.request.command = .syncNextMessage then 1 else 0
    | none => 0

/-- **The invariant of timely runs.** A sync without a result has one command. A push that no
command followed has a sync that goes on. And a sync with its last message is ending. -/
structure Following : Prop where
  outstanding : r.outstanding =
    match r.sync with
    | some ⟨_, none⟩ => 1
    | _ => 0
  pending : ∀ request written, r.current = some ⟨request, written⟩ →
    request.command = .syncNextMessage → ∃ reply, r.pending = some ⟨request, reply⟩
  unfollowed : r.unfollowed = true → r.sync.isSome ∧ ¬ r.Ending
  answered : ∀ reply, r.Answered reply → ∀ sync ∈ r.sync, 255 ≤ sync.count →
    ∃ code ∈ reply.head?, IsFinal code
  last : ∀ sync ∈ r.sync, 255 ≤ sync.count → ∀ result, sync.result = some result → EndsSync result
  ended : .limit ∉ r.ended

variable {r}

theorem following_initial : initial.Following where
  outstanding := rfl
  pending _ _ h := nomatch h
  unfollowed h := nomatch h
  answered _ h := by
    obtain ⟨_, _, hcurrent, -⟩ := h
    cases hcurrent
  last _ h := nomatch h
  ended h := nomatch h

namespace Following

variable {r' : MeshCoreRadio}

theorem not_answered (h : r.outstanding = 0) (reply : Bytes) : ¬ r.Answered reply := by
  rintro ⟨request, written, hcurrent, hcommand, -⟩
  unfold MeshCoreRadio.outstanding at h
  rw [hcurrent] at h
  simp only [if_pos hcommand] at h
  omega

theorem outstanding_eq_zero (h : r.Following) (hsync : ∀ count, r.sync ≠ some ⟨count, none⟩) :
    r.outstanding = 0 := by
  have hout := h.outstanding
  split at hout
  next count heq => exact absurd heq (hsync count)
  · exact hout

theorem of_eq (h : r.Following) (hout : r'.outstanding = r.outstanding)
    (hcurrent : r'.current = r.current) (hpending : r'.pending = r.pending)
    (hsync : r'.sync = r.sync) (hunfollowed : r'.unfollowed = r.unfollowed)
    (hended : .limit ∉ r'.ended) : r'.Following := by
  have hanswered : ∀ reply, r'.Answered reply ↔ r.Answered reply := by
    intro reply
    unfold Answered
    rw [hcurrent, hpending]
  have hending : r'.Ending ↔ r.Ending := by
    unfold Ending
    simp only [hanswered, hsync]
  refine ⟨by rw [hout, hsync]; exact h.outstanding, by rw [hcurrent, hpending]; exact h.pending,
    ?_, fun reply hreply => ?_, by rw [hsync]; exact h.last, hended⟩
  · rw [hunfollowed, hsync, hending]
    exact h.unfollowed
  · rw [hsync]
    exact h.answered reply ((hanswered reply).mp hreply)

theorem not_mem_append {ended : List SyncEnd} {how : SyncEnd} (h : .limit ∉ ended)
    (hhow : how ≠ .limit) : .limit ∉ ended ++ [how] := by
  rw [mem_append, mem_singleton, not_or]
  exact ⟨h, Ne.symm hhow⟩

theorem outstanding_enqueue (r : MeshCoreRadio) (command : MeshCoreCommand) :
    (r.enqueue command).outstanding =
      r.outstanding + if command = .syncNextMessage then 1 else 0 := by
  unfold MeshCoreRadio.outstanding enqueue
  simp only [filter_append, length_append]
  by_cases hsync : command = .syncNextMessage
  · rw [if_pos hsync, filter_cons_of_pos (by simpa using hsync)]
    simp only [filter_nil, length_singleton]
    omega
  · rw [if_neg hsync, filter_cons_of_neg (by simpa using hsync)]
    simp only [filter_nil, length_nil]
    omega

theorem asks {count : ℕ} (h : r.Following) (hsync : ∀ count, r.sync ≠ some ⟨count, none⟩)
    (hcurrent : r'.current = r.current) (hpending : r'.pending = r.pending)
    (hout : r'.outstanding = r.outstanding + 1) (hsync' : r'.sync = some ⟨count, none⟩)
    (hended : r'.ended = r.ended) : r'.Following := by
  have hzero := h.outstanding_eq_zero hsync
  have hanswered : ∀ reply, ¬ r'.Answered reply := by
    intro reply hreply
    apply not_answered hzero reply
    unfold Answered at hreply ⊢
    rwa [hcurrent, hpending] at hreply
  have hending : ¬ r'.Ending := by
    rintro (⟨code, rest, hreply, -⟩ | ⟨sync, result, hsome, hresult, -⟩)
    · exact hanswered _ hreply
    · rw [hsync'] at hsome
      cases hsome
      cases hresult
  refine ⟨?_, by rw [hcurrent, hpending]; exact h.pending, fun _ => ⟨?_, hending⟩,
    fun reply hreply => absurd hreply (hanswered reply), ?_, by rw [hended]; exact h.ended⟩
  · rw [hout, hsync', hzero]
  · rw [hsync']
    rfl
  · rw [hsync']
    rintro _ ⟨⟩ - result hresult
    cases hresult

theorem ends {how : SyncEnd} {sync : Sync} {result : Option Bytes} (h : r.Following)
    (hsync : r.sync = some sync) (hresult : sync.result = some result) (hends : EndsSync result)
    (hhow : how ≠ .limit) : (r.endSync how).Following := by
  have hnone : ∀ count, r.sync ≠ some ⟨count, none⟩ := by
    rintro count heq
    rw [hsync] at heq
    cases heq
    cases hresult
  have hzero := h.outstanding_eq_zero hnone
  refine ⟨hzero, h.pending, fun hunfollowed => ?_, fun _ _ _ hsome => (nomatch hsome),
    fun _ hsome => (nomatch hsome), not_mem_append h.ended hhow⟩
  -- a push would have come while the sync was ending
  exact absurd (.inr ⟨sync, result, hsync, hresult, hends⟩) (h.unfollowed hunfollowed).2

section

variable (h : r.Following)

include h

theorem syncMessages : r.syncMessages.Following := by
  unfold MeshCoreRadio.syncMessages
  split
  · exact h.of_eq rfl rfl rfl rfl rfl (not_mem_append h.ended fun heq => nomatch heq)
  next hnone =>
  have hsync : r.sync = none := not_isSome_iff_eq_none.mp hnone
  refine @asks r _ 0 h ?_ rfl rfl ?_ rfl rfl
  · rw [hsync]
    exact fun _ heq => nomatch heq
  · exact outstanding_enqueue r .syncNextMessage

theorem push (hending : ¬ r.Ending) : Following { r.syncMessages with unfollowed := true } := by
  unfold MeshCoreRadio.syncMessages
  split
  · next hsome =>
    refine ⟨h.outstanding, h.pending, fun _ => ⟨hsome, hending⟩, h.answered, h.last,
      not_mem_append h.ended fun heq => nomatch heq⟩
  next hnone =>
  have hsync : r.sync = none := not_isSome_iff_eq_none.mp hnone
  refine @asks r _ 0 h ?_ rfl rfl ?_ rfl rfl
  · rw [hsync]
    exact fun _ heq => nomatch heq
  · exact outstanding_enqueue r .syncNextMessage

theorem start : r.start.Following := by
  unfold MeshCoreRadio.start
  split
  swap
  · exact h
  next request queue hcurrent hqueue =>
  have hsame : (queue.filter fun request => decide (request.command = .syncNextMessage)).length +
      (if request.command = .syncNextMessage then 1 else 0) = r.outstanding := by
    unfold MeshCoreRadio.outstanding
    rw [hcurrent, hqueue]
    split
    next hcommand =>
      rw [filter_cons_of_pos (by simpa using hcommand)]
      rfl
    next hcommand =>
      rw [filter_cons_of_neg (by simpa using hcommand)]
  -- no answer is there yet
  have hbegins : ∀ {r' : MeshCoreRadio}, r'.queue = queue → r'.current = some ⟨request, false⟩ →
      r'.sync = r.sync → r'.unfollowed = r.unfollowed → r'.ended = r.ended →
      (request.command = .syncNextMessage → r'.pending = some ⟨request, none⟩) →
      r'.Following := by
    intro r' hqueue' hcurrent' hsync hunfollowed hended hpending
    have hanswered : ∀ reply, ¬ r'.Answered reply := by
      rintro reply ⟨request', written, hsome, hcommand, hreply⟩
      rw [hcurrent'] at hsome
      cases hsome
      rw [hpending hcommand] at hreply
      cases hreply
    refine ⟨?_, fun request' written hsome hcommand => ?_, fun htrue => ?_,
      fun reply hreply => absurd hreply (hanswered reply), by rw [hsync]; exact h.last,
      by rw [hended]; exact h.ended⟩
    · rw [hsync, ← h.outstanding, ← hsame]
      unfold MeshCoreRadio.outstanding
      rw [hqueue', hcurrent']
    · rw [hcurrent'] at hsome
      cases hsome
      exact ⟨none, hpending hcommand⟩
    · rw [hunfollowed] at htrue
      obtain ⟨hsome, hending⟩ := h.unfollowed htrue
      rw [hsync]
      refine ⟨hsome, ?_⟩
      rintro (⟨code, rest, hreply, -⟩ | hresult)
      · exact hanswered _ hreply
      · rw [hsync] at hresult
        exact hending (.inr hresult)
  split
  · next hcontacts =>
    refine hbegins rfl rfl rfl rfl rfl fun hcommand => ?_
    rw [hcontacts] at hcommand
    cases hcommand
  · exact hbegins rfl rfl rfl rfl rfl fun _ => rfl

theorem wrote : r.wrote.Following := by
  unfold MeshCoreRadio.wrote
  split
  swap
  · exact h
  next request hcurrent =>
  set r' : MeshCoreRadio := { r with
    current := some ⟨request, true⟩
    unfollowed := if request.command = MeshCoreCommand.syncNextMessage then false
      else r.unfollowed } with hr'
  have hanswered : ∀ reply, r'.Answered reply → r.Answered reply := by
    rintro reply ⟨request', written, ⟨⟩, hcommand, hreply⟩
    exact ⟨request, false, hcurrent, hcommand, hreply⟩
  refine ⟨?_, ?_, fun htrue => ?_, fun reply hreply => h.answered reply (hanswered reply hreply),
    h.last, h.ended⟩
  · rw [← h.outstanding]
    unfold MeshCoreRadio.outstanding
    rw [hcurrent]
  · rintro _ _ ⟨⟩ hcommand
    exact h.pending request false hcurrent hcommand
  · have hbefore : r.unfollowed = true := by
      rw [hr'] at htrue
      split at htrue
      · cases htrue
      · exact htrue
    obtain ⟨hsome, hending⟩ := h.unfollowed hbefore
    refine ⟨hsome, ?_⟩
    rintro (⟨code, rest, hreply, hfinal⟩ | hresult)
    · exact hending (.inl ⟨code, rest, hanswered _ hreply, hfinal⟩)
    · exact hending (.inr hresult)

end

theorem gives {request : Request} {written : Bool} {result : Option Bytes} (h : r.Following)
    (hcurrent : r.current = some ⟨request, written⟩)
    (hends : request.command = .syncNextMessage → r.unfollowed = true → ¬ EndsSync result)
    (hlast : request.command = .syncNextMessage → ∀ sync ∈ r.sync, 255 ≤ sync.count →
      EndsSync result) (hqueue : r'.queue = r.queue) (hcurrent' : r'.current = none)
    (hunfollowed : r'.unfollowed = r.unfollowed) (hsync : r'.sync = r.sync)
    (hended : r'.ended = r.ended) : (r'.deliver request result).Following := by
  have hanswered : ∀ {r'' : MeshCoreRadio} reply, r''.current = none → ¬ r''.Answered reply := by
    rintro r'' reply hnone ⟨_, _, hsome, -⟩
    rw [hnone] at hsome
    cases hsome
  have hout := h.outstanding
  unfold MeshCoreRadio.outstanding at hout
  simp only [hcurrent] at hout
  unfold deliver
  split
  · next hcommand =>
    -- the sync has one command, which is this
    rw [if_pos hcommand] at hout
    split at hout
    swap
    · omega
    next count hcount =>
    have hsync' : r'.sync.map (fun sync => { sync with result := some result }) =
        some ⟨count, some result⟩ := by
      rw [hsync, hcount]
      rfl
    refine ⟨?_, fun _ _ hsome => ?_, fun htrue => ⟨?_, ?_⟩,
      fun reply hreply => absurd hreply (hanswered reply hcurrent'), ?_, by
        show .limit ∉ r'.ended
        rw [hended]
        exact h.ended⟩
    · unfold MeshCoreRadio.outstanding
      simp only [hsync', hqueue, hcurrent']
      omega
    · rw [hcurrent'] at hsome
      cases hsome
    · simp[hsync', isSome_some]
    · rintro (⟨code, rest, hreply, -⟩ | ⟨sync, result', hsome, hresult, hend⟩)
      · exact hanswered _ hcurrent' hreply
      · obtain rfl := some.inj (hsync'.symm.trans hsome)
        cases hresult
        exact hends hcommand (hunfollowed.symm.trans htrue) hend
    · intro sync hsome hle result' hresult
      obtain rfl := some.inj (hsync'.symm.trans hsome)
      cases hresult
      exact hlast hcommand ⟨count, none⟩ hcount hle
  next hother =>
  rw [if_neg hother] at hout
  refine ⟨?_, fun _ _ hsome => ?_, fun htrue => ?_,
    fun reply hreply => absurd hreply (hanswered reply hcurrent'), by rw [hsync]; exact h.last,
    by rw [hended]; exact h.ended⟩
  · rw [hsync, ← hout]
    unfold MeshCoreRadio.outstanding
    rw [hqueue, hcurrent']
  · rw [hcurrent'] at hsome
    cases hsome
  · obtain ⟨hsome, hending⟩ := h.unfollowed (hunfollowed.symm.trans htrue)
    rw [hsync]
    refine ⟨hsome, ?_⟩
    rintro (⟨code, rest, hreply, -⟩ | hresult)
    · exact hanswered _ hcurrent' hreply
    · rw [hsync] at hresult
      exact hending (.inr hresult)

theorem writeFails (h : r.Following) {reached : Bool} (htimely : r.Timely (.writeFails reached)) :
    (r.writeFails reached).Following := by
  unfold MeshCoreRadio.writeFails
  split
  swap
  · exact h
  next request hcurrent =>
  refine h.gives hcurrent (fun hcommand hunfollowed => ?_) (fun _ _ _ _ => trivial) rfl rfl rfl rfl
    rfl
  rw [htimely ⟨request, hcurrent, hcommand⟩] at hunfollowed
  cases hunfollowed

theorem endsSync_iff {request : Request} (hcommand : request.command = .syncNextMessage)
    (reply : Bytes) :
    EndsSync (if reply.head? = some error ∧ error ∉ request.command.answers then none
      else some reply) ↔ ∃ code ∈ reply.head?, IsFinal code := by
  have herror : error ∉ MeshCoreCommand.syncNextMessage.answers := by decide
  rw [hcommand]
  cases reply with
  | nil =>
    exact ⟨fun hends => (nomatch hends), fun ⟨_, hcode, _⟩ => nomatch hcode⟩
  | cons code rest =>
  by_cases hcode : code = error
  · subst hcode
    exact ⟨fun _ => ⟨error, rfl, .inr rfl⟩, fun _ => trivial⟩
  rw [if_neg fun hrefused => hcode (some.inj hrefused.1)]
  constructor
  · intro hends
    exact ⟨code, rfl, .inl (some.inj hends)⟩
  · rintro ⟨_, ⟨⟩, hnoMore | hrefused⟩
    · exact congrArg some hnoMore
    · exact absurd hrefused hcode

theorem resumeCommand (h : r.Following) : r.resumeCommand.Following := by
  unfold MeshCoreRadio.resumeCommand
  split
  swap
  · exact h
  next request hcurrent =>
  split
  · next hcontacts =>
    split
    swap
    · exact h
    have hother : request.command ≠ .syncNextMessage := by
      rw [hcontacts]
      exact fun heq => nomatch heq
    have hgives : (deliver { r with current := none, many := none } request none).Following :=
      h.gives hcurrent (fun hcommand => absurd hcommand hother)
        (fun hcommand => absurd hcommand hother) rfl rfl rfl rfl rfl
    unfold deliver at hgives
    rwa [if_neg hother] at hgives
  · split
    swap
    · exact h
    next other reply hreply =>
    have hanswered : request.command = .syncNextMessage → r.Answered reply := by
      intro hcommand
      obtain ⟨reply', hpending⟩ := h.pending request true hcurrent hcommand
      obtain ⟨rfl, -⟩ := Pending.mk.inj (some.inj (hreply.symm.trans hpending))
      exact ⟨other, true, hcurrent, hcommand, hreply⟩
    refine h.gives hcurrent (fun hcommand hunfollowed hends => ?_)
      (fun hcommand sync hsync hle => ?_) rfl rfl rfl rfl rfl
    · obtain ⟨code, hcode, hfinal⟩ := (endsSync_iff hcommand reply).mp hends
      obtain ⟨rest, rfl⟩ := head?_eq_some_iff.mp hcode
      exact (h.unfollowed hunfollowed).2 (.inl ⟨code, rest, hanswered hcommand, hfinal⟩)
    · exact (endsSync_iff hcommand reply).mpr (h.answered reply (hanswered hcommand) sync hsync hle)

theorem resumeSync (h : r.Following) : r.resumeSync.Following := by
  unfold MeshCoreRadio.resumeSync
  split
  next count hsync => exact h.ends hsync rfl trivial fun heq => nomatch heq
  · next count reply hsync =>
    have hnone : ∀ count', r.sync ≠ some ⟨count', none⟩ := by
      rintro count' heq
      rw [hsync] at heq
      cases heq
    split
    next hnoMore => exact h.ends hsync rfl hnoMore fun heq => nomatch heq
    next hmessage =>
    split
    · exact h.asks hnone rfl rfl (outstanding_enqueue r .syncNextMessage) rfl rfl
    next hlimit =>
    -- the last command of a sync is not answered with a message
    exact absurd (h.last _ hsync (by simp only; omega) (some reply) rfl) hmessage
  · exact h

/-- **An answer** to the command in progress, or a late one that nobody waits for. -/
theorem replies {request : Request} {code : UInt8} {rest : Bytes} (h : r.Following)
    (hpending : r.pending = some ⟨request, none⟩) (hcode : code ∈ request.command.codes)
    (htimely : r.Awaits → code ∈ MeshCoreCommand.syncNextMessage.codes →
      (IsFinal code → r.unfollowed = false) ∧ ∀ sync ∈ r.sync, 255 ≤ sync.count → IsFinal code)
    (hqueue : r'.queue = r.queue) (hcurrent : r'.current = r.current)
    (hpending' : r'.pending = some ⟨request, some (code :: rest)⟩) (hsync : r'.sync = r.sync)
    (hunfollowed : r'.unfollowed = r.unfollowed) (hended : r'.ended = r.ended) : r'.Following := by
  have hanswered : ∀ reply, r'.Answered reply → reply = code :: rest ∧
      (IsFinal code → r.unfollowed = false) ∧ ∀ sync ∈ r.sync, 255 ≤ sync.count → IsFinal code := by
    rintro reply ⟨request', written, hsome, hcommand, hreply⟩
    rw [hcurrent] at hsome
    obtain ⟨rfl, hsame⟩ := Pending.mk.inj (some.inj (hpending'.symm.trans hreply))
    rw [hcommand] at hcode
    exact ⟨(some.inj hsame).symm,
      htimely ⟨request, written, hsome, hcommand, hpending⟩ hcode⟩
  refine ⟨?_, fun request' written hsome hcommand => ?_, fun htrue => ?_,
    fun reply hreply sync hsome hle => ?_, by rw [hsync]; exact h.last,
    by rw [hended]; exact h.ended⟩
  · rw [hsync, ← h.outstanding]
    unfold MeshCoreRadio.outstanding
    rw [hqueue, hcurrent]
  · rw [hcurrent] at hsome
    obtain ⟨reply, hreply⟩ := h.pending request' written hsome hcommand
    obtain ⟨rfl, -⟩ := Pending.mk.inj (some.inj (hpending.symm.trans hreply))
    exact ⟨_, hpending'⟩
  · rw [hunfollowed] at htrue
    obtain ⟨hsome, hending⟩ := h.unfollowed htrue
    rw [hsync]
    refine ⟨hsome, ?_⟩
    rintro (⟨code', rest', hreply, hfinal⟩ | hresult)
    · obtain ⟨heq, hfollowed, -⟩ := hanswered _ hreply
      obtain ⟨rfl, -⟩ := cons_eq_cons.mp heq
      rw [hfollowed hfinal] at htrue
      cases htrue
    · rw [hsync] at hresult
      exact hending (.inr hresult)
  · obtain ⟨rfl, -, hfinal⟩ := hanswered reply hreply
    rw [hsync] at hsome
    exact ⟨code, rfl, hfinal sync hsome hle⟩

section

variable (h : r.Following) {answers : Option ℕ}

include h

theorem complete {code : UInt8} {rest : Bytes}
    (htimely : r.Awaits → code ∈ MeshCoreCommand.syncNextMessage.codes →
      (IsFinal code → r.unfollowed = false) ∧ ∀ sync ∈ r.sync, 255 ≤ sync.count → IsFinal code) :
    (r.complete answers code (code :: rest)).Following := by
  have htoPending : (match r.pending with
      | some ⟨request, none⟩ =>
        if code ∈ request.command.codes then
          { r with
            pending := some ⟨request, some (code :: rest)⟩
            given := r.given ++ [(request.id, answers)] }
        else r
      | _ => r).Following := by
    split
    · next request hpending =>
      split
      next hcode => exact h.replies hpending hcode htimely rfl rfl rfl rfl rfl rfl
      · exact h
    · exact h
  unfold MeshCoreRadio.complete
  simp only
  split
  · split
    · exact h.of_eq rfl rfl rfl rfl rfl h.ended
    · exact htoPending
  · exact htoPending

theorem handle {frame : Bytes} (htimely : r.Timely (.frame answers frame)) :
    (r.handle answers frame).Following := by
  cases frame with
  | nil => exact h
  | cons code rest =>
  obtain ⟨hpush, hreply⟩ := htimely code rfl
  -- what the radio has not answered makes no difference
  obtain ⟨inbox, hinbox⟩ : ∃ inbox, (if answers.isSome then r.answered code else r) =
      { r with inbox } := by
    unfold MeshCoreRadio.answered
    split
    · split
      · split
        · exact ⟨_, rfl⟩
        · exact ⟨r.inbox, rfl⟩
      · exact ⟨r.inbox, rfl⟩
    · exact ⟨r.inbox, rfl⟩
  have hsame : Following { r with inbox } := h.of_eq rfl rfl rfl rfl rfl h.ended
  unfold MeshCoreRadio.handle
  simp only [hinbox]
  split
  next hcode => exact hsame.push (hpush hcode)
  · split
    · exact hsame
    · exact hsame.complete hreply

end

theorem step (h : r.Following) (act : LinkAct) (htimely : r.Timely act) :
    (r.step act).Following := by
  unfold MeshCoreRadio.step
  split
  · exact h
  cases act with
  | syncMessages => exact h.syncMessages
  | command command =>
    simp only
    split
    · exact h
    next hother =>
    refine h.of_eq ?_ rfl rfl rfl rfl h.ended
    rw [outstanding_enqueue, if_neg hother, Nat.add_zero]
  | start => exact h.start
  | wrote => exact h.wrote
  | writeFails reached => exact h.writeFails htimely
  | frame answers frame => exact h.handle htimely
  | resumeCommand => exact h.resumeCommand
  | resumeSync => exact h.resumeSync
  | close => exact h.of_eq rfl rfl rfl rfl rfl h.ended

end Following

end MeshCoreRadio

/-- **Messages are fetched.** In a timely run every push was followed by a command of a sync
whenever no sync runs, and a sync that ends without an error was busy or ends with the answer that
there are no more messages. With a radio that answers in order, answers go to their commands. -/
theorem messages_fetched (acts : List LinkAct) :
    let after := MeshCoreRadio.machine.run MeshCoreRadio.initial acts
    (MeshCoreRadio.machine.Along MeshCoreRadio.Timely MeshCoreRadio.initial acts →
      (after.sync = none → after.unfollowed = false) ∧
      ∀ how ∈ after.ended, how = .busy ∨ how = .noMore ∨ how = .failed) ∧
    (MeshCoreRadio.machine.Along MeshCoreRadio.InOrder MeshCoreRadio.initial acts →
      ∀ p ∈ after.given, p.2 = some p.1) := by
  intro after
  refine ⟨fun h => ?_, MeshCoreRadio.given_own⟩
  have hafter : after.Following := Machine.run_induction_along
    (fun r act hr htimely => hr.step act htimely) MeshCoreRadio.following_initial h
  refine ⟨fun hsync => ?_, fun how hhow => ?_⟩
  · by_contra htrue
    obtain ⟨hsome, -⟩ := hafter.unfollowed (by simpa using htrue)
    rw [hsync] at hsome
    cases hsome
  · cases how with
    | busy => exact .inl rfl
    | noMore => exact .inr (.inl rfl)
    | limit => exact absurd hhow hafter.ended
    | failed => exact .inr (.inr rfl)

namespace Sample

def pushed : List LinkAct :=
  [.frame none [pushMessageWaiting], .start, .wrote, .frame (some 0) [noMoreMessages],
    .frame none [pushMessageWaiting], .resumeCommand, .resumeSync]

def full : List LinkAct :=
  .syncMessages :: (List.range 256).flatMap fun i =>
    [.start, .wrote, .frame (some i) [contactMessage], .resumeCommand, .resumeSync]

def unclear : List LinkAct :=
  [.command .setDeviceTime, .command .addUpdateContact, .start, .writeFails true, .start, .wrote,
    .frame (some 0) [MeshCoreCode.ok]]

def afterLink (acts : List LinkAct) : MeshCoreRadio :=
  MeshCoreRadio.machine.run MeshCoreRadio.initial acts

/-- **A push is forgotten**: no sync runs, no command is in progress, and none was sent after the
push. A sync ends without an error at its limit, and the answer to one command goes to another. -/
theorem push_forgotten :
    ((afterLink pushed).sync = none ∧ (afterLink pushed).current = none ∧
      (afterLink pushed).queue = [] ∧ (afterLink pushed).closed = false ∧
      (afterLink pushed).unfollowed = true) ∧
    (afterLink full).ended = [.limit] ∧ (afterLink unclear).given = [(1, some 0)] := by
  decide +kernel

def fetched : List LinkAct :=
  [.frame none [pushMessageWaiting], .start, .wrote, .frame (some 0) [noMoreMessages],
    .resumeCommand, .resumeSync]

theorem timely_fetched :
    MeshCoreRadio.machine.Along MeshCoreRadio.Timely MeshCoreRadio.initial fetched := by
  refine ⟨?_, trivial, trivial, ?_, trivial, trivial, trivial⟩
  · rintro _ ⟨⟩
    refine ⟨fun _ => ?_, fun _ hcode => absurd hcode (by decide +kernel)⟩
    rintro (⟨_, _, ⟨_, _, hcurrent, -⟩, -⟩ | ⟨_, _, hsync, -⟩)
    · cases hcurrent
    · cases hsync
  · rintro _ ⟨⟩
    refine ⟨fun hcode => absurd hcode (by decide), fun _ _ => ⟨fun _ => rfl, ?_⟩⟩
    exact fun _ _ _ => .inl rfl

theorem inOrder_fetched :
    MeshCoreRadio.machine.Along MeshCoreRadio.InOrder MeshCoreRadio.initial fetched := by
  refine ⟨?_, trivial, trivial, ?_, trivial, trivial, trivial⟩
  · rintro _ ⟨⟩
    decide
  · exact ⟨⟨0, .syncNextMessage⟩, [], noMoreMessages, [], rfl, rfl, rfl, by decide +kernel⟩

theorem messages_fetched_fetched :
    (afterLink fetched).unfollowed = false ∧ ∀ p ∈ (afterLink fetched).given, p.2 = some p.1 :=
  ⟨((messages_fetched fetched).1 timely_fetched).1 rfl,
   (messages_fetched fetched).2 inOrder_fetched⟩

end Sample

end Radio
end Conest
