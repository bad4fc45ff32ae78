import Conest.Call.Service
import Conest.Lib.Outcome
import Conest.Lib.Steps

/-!
# Live rooms

A cipher is closed when its room ends or makes place for another, or when the room adopts another
authority, with a cipher of its own. So the cipher of a room that goes on is open
(`Reachable.sound`): what a piece of work does to a room keeps an open cipher open (`Follows`), and
only such rooms, or rooms that end, are put back.
-/

namespace Conest
namespace Call

open Lib Lib.DartString Option

/-- The same room, later: it keeps its group, and an open cipher stays open. -/
structure Follows (room later : GroupCallRoom) : Prop where
  groupId : later.groupId = room.groupId
  ended : later.ended = room.ended
  cipher : room.cipher.closed = false → later.cipher.closed = false

namespace Follows

variable {room later : GroupCallRoom}

theorem refl (room : GroupCallRoom) : Follows room room := ⟨rfl, rfl, id⟩

theorem trans {last : GroupCallRoom} (h : Follows room later) (h' : Follows later last) :
    Follows room last :=
  ⟨h'.groupId.trans h.groupId, h'.ended.trans h.ended, fun hopen => h'.cipher (h.cipher hopen)⟩

theorem of_eq (hgroup : later.groupId = room.groupId) (hended : later.ended = room.ended)
    (hcipher : later.cipher = room.cipher) : Follows room later :=
  ⟨hgroup, hended, fun hopen => hcipher ▸ hopen⟩

end Follows

theorem GroupCallCipher.closed_install {cipher cipher' : GroupCallCipher} {now number : ℤ}
    {key : Bytes} {roster : List GroupCallParticipant}
    (h : cipher.install now number key roster = some cipher') : cipher'.closed = cipher.closed := by
  unfold GroupCallCipher.install at h
  split at h
  case isTrue => exact nomatch h
  case isFalse =>
    obtain rfl := some.inj h
    rfl

theorem GroupCallCipher.closed_expire (cipher : GroupCallCipher) (now : ℤ) :
    (cipher.expire now).closed = cipher.closed := by
  unfold GroupCallCipher.expire
  split <;> rfl

namespace GroupCallRoom

variable (device : Device) (m : Moment) (room : GroupCallRoom)

variable {signal : GroupCallSignal}

theorem follows_adoptAuthority (term : ℤ) (coordinator : DartString) :
    Follows room (room.adoptAuthority device term coordinator) :=
  ⟨rfl, rfl, fun _ => rfl⟩

theorem follows_sendKey (recipient : DartString) : Follows room (room.sendKey recipient) := by
  unfold sendKey
  split
  case h_1 =>
    split
    · exact .of_eq rfl rfl rfl
    · exact .refl room
  case h_2 => exact .refl room

theorem follows_sendKeys : Follows room (room.sendKeys device m) := by
  unfold sendKeys
  -- over the participants, of which the list stays as it was at the beginning
  generalize room.participants = participants
  induction participants generalizing room with
  | nil => exact .refl room
  | cons p participants ih =>
  rw [List.foldl_cons]
  refine Follows.trans ?_ (ih _)
  split
  · exact .refl room
  · exact room.follows_sendKey p.deviceId

theorem follows_rotate (key : Bytes) : Follows room (room.rotate device m key).1 := by
  unfold rotate
  split
  · exact .refl room
  simp only
  split
  case h_1 => exact .of_eq rfl rfl rfl
  case h_2 cipher hinstall =>
    refine Follows.trans ?_ (follows_sendKeys device m _)
    exact ⟨rfl, rfl, fun hopen => (GroupCallCipher.closed_install hinstall).trans hopen⟩

theorem follows_updateTopology : Follows room (room.updateTopology device m) := by
  unfold updateTopology
  split
  · exact .refl room
  · split
    · exact .of_eq rfl rfl rfl
    · exact .refl room

section

variable {later : GroupCallRoom} (h : room.considerAuthority device m signal = .ok (some later))

include h

/-- A signal is considered under the authority that the room has, or under its own, for which its
roster is valid. -/
theorem considerAuthority_eq_some :
    (later = room ∧ GroupCallSignal.term signal.payload = .int room.term ∧
      signal.senderDeviceId = room.coordinator) ∨
    ∃ term, later = room.adoptAuthority device term signal.senderDeviceId ∧
      room.validRoster m signal.payload signal.senderDeviceId = .ok true := by
  unfold considerAuthority at h
  split at h
  case h_1 term hterm =>
    split at h
    · exact nomatch Except.ok.inj h
    simp only at h
    split at h
    case isTrue hsame =>
      obtain rfl := some.inj (Except.ok.inj h)
      exact .inl ⟨rfl, hsame.1 ▸ hterm, hsame.2⟩
    split at h
    · exact nomatch Except.ok.inj h
    cases hvalid : room.validRoster m signal.payload signal.senderDeviceId with
    | error what =>
      rw [hvalid] at h
      exact nomatch h
    | ok valid =>
    rw [hvalid] at h
    cases valid with
    | false => exact nomatch Except.ok.inj h
    | true =>
      obtain rfl := some.inj (Except.ok.inj h)
      exact .inr ⟨term, rfl, rfl⟩
  case h_2 => exact nomatch Except.ok.inj h

theorem follows_considerAuthority : Follows room later := by
  rcases room.considerAuthority_eq_some device m h with ⟨rfl, -, -⟩ | ⟨term, rfl, -⟩
  · exact .refl _
  · exact room.follows_adoptAuthority device term _

end

theorem validRoster_eq_true {payload : List (DartString × Json)} {coordinator : DartString}
    (h : room.validRoster m payload coordinator = .ok true) :
    ∃ version epoch roster, Json.valueAt payload "version" = .int version ∧
      Json.valueAt payload "epoch" = .int epoch ∧ 1 ≤ version ∧ 1 ≤ epoch ∧
      epoch ≤ GroupCallCipher.maxEpoch ∧
      GroupCallParticipant.parse (Json.valueAt payload "participants") = some roster := by
  unfold validRoster at h
  split at h
  case h_1 version epoch hversion hepoch =>
    split at h
    case isTrue => exact absurd (Except.ok.inj h) Bool.false_ne_true
    case isFalse hbounds =>
      simp only [not_or, not_lt] at hbounds
      split at h
      case h_1 => exact nomatch h
      case h_2 roster hroster =>
        exact ⟨version, epoch, roster, hversion, hepoch, hbounds.1, hbounds.2.2.1, hbounds.2.2.2.1,
          hroster⟩
  case h_2 => exact absurd (Except.ok.inj h) Bool.false_ne_true

section

variable {payload : List (DartString × Json)} {allowSame : Bool} {later : GroupCallRoom}
  (h : room.applyRoster m payload allowSame = .ok (some later))

include h

theorem applyRoster_eq_some :
    ∃ version epoch roster, Json.valueAt payload "version" = .int version ∧
      Json.valueAt payload "epoch" = .int epoch ∧ epoch ≤ GroupCallCipher.maxEpoch ∧
      GroupCallParticipant.parse (Json.valueAt payload "participants") = some roster ∧
      later = room.withRoster m version epoch roster := by
  unfold applyRoster at h
  cases hvalid : room.validRoster m payload room.coordinator with
  | error what =>
    rw [hvalid] at h
    exact nomatch h
  | ok valid =>
  rw [hvalid] at h
  cases valid with
  | false => exact nomatch Except.ok.inj h
  | true =>
  obtain ⟨version, epoch, roster, hversion, hepoch, -, -, hmax, hroster⟩ :=
    room.validRoster_eq_true m hvalid
  refine ⟨version, epoch, roster, hversion, hepoch, hmax, hroster, ?_⟩
  rw [except_ok_bind, if_pos rfl, hversion, hepoch, hroster] at h
  simp only at h
  split at h
  · exact nomatch Except.ok.inj h
  split at h
  · exact nomatch Except.ok.inj h
  split at h
  case isTrue => exact nomatch Except.ok.inj h
  case isFalse => exact (some.inj (Except.ok.inj h)).symm

theorem follows_applyRoster : Follows room later := by
  obtain ⟨version, epoch, roster, -, -, -, -, rfl⟩ := room.applyRoster_eq_some m h
  exact .of_eq rfl rfl rfl

end

end GroupCallRoom

/-! ### What the service does -/

namespace GroupCallService

variable (device : Device) (m : Moment)

variable {s' : GroupCallService}

/-- Every room is kept under its group, and unless it ended its cipher is open. -/
def Sound (s : GroupCallService) : Prop :=
  ∀ groupId room, s.rooms.get groupId = some room →
    room.groupId = groupId ∧ (room.ended = false → room.cipher.closed = false)

variable {s : GroupCallService}

section

variable (h : s.Sound)

include h

theorem Sound.of_rooms (hrooms : s'.rooms = s.rooms) :
    s'.Sound := fun groupId room hget => h groupId room (hrooms ▸ hget)

theorem Sound.put {room : GroupCallRoom} (hroom : room.ended = false → room.cipher.closed = false) :
    (s.put room).Sound := by
  intro groupId found hget
  change (s.rooms.put room.groupId room).get groupId = some found at hget
  rw [LinkedMap.get_put] at hget
  split at hget
  case isTrue hgroup =>
    obtain rfl := some.inj hget
    exact ⟨hgroup.symm, hroom⟩
  case isFalse => exact h groupId found hget

theorem Sound.of_put {room : GroupCallRoom} (hrooms : s'.rooms = s.rooms.put room.groupId room)
    (hroom : room.ended = false → room.cipher.closed = false) : s'.Sound :=
  (h.put hroom).of_rooms hrooms

theorem Sound.put_follows {room later : GroupCallRoom} (hroom : room.cipher.closed = false)
    (hfollows : Follows room later) : (s.put later).Sound :=
  h.put fun _ => hfollows.cipher hroom

theorem Sound.filter (p : DartString → GroupCallRoom → Bool)
    (hrooms : s'.rooms = s.rooms.filter p) : s'.Sound := by
  intro groupId room hget
  rw [hrooms, LinkedMap.get_filter] at hget
  exact h groupId room (filter_eq_some_iff.mp hget).1

theorem Sound.roomFor {groupId : DartString} {room : GroupCallRoom}
    (hroom : s.roomFor groupId = some room) :
    room.groupId = groupId ∧ room.cipher.closed = false ∧ s.rooms.get groupId = some room := by
  obtain ⟨hget, hlive⟩ := filter_eq_some_iff.mp hroom
  obtain ⟨hgroup, hopen⟩ := h groupId room hget
  rw [Bool.not_eq_true'] at hlive
  exact ⟨hgroup, hopen hlive, hget⟩

theorem Sound.finish (room : GroupCallRoom) (terminal : Bool) : (s.finish room terminal).Sound := by
  unfold GroupCallService.finish
  split
  · exact h
  refine Sound.of_rooms (h.put fun hended => ?_) rfl
  exact absurd hended.symm Bool.false_ne_true

end

section

variable (h : s.Sound) {room : GroupCallRoom} (hroom : room.cipher.closed = false)

include h hroom

theorem Sound.lead : (s.lead device m room).1.Sound := by
  have hrotate := room.follows_rotate device m (s.key device)
  unfold GroupCallService.lead
  split
  case isTrue =>
    simp only
    split
    case h_1 =>
      exact Sound.put_follows (h.of_rooms rfl) hroom
        (hrotate.trans (GroupCallRoom.follows_updateTopology device m _))
    case h_2 => exact Sound.put_follows (h.of_rooms rfl) hroom hrotate
  case isFalse => exact h.put fun _ => hroom

theorem Sound.remove (sender : DartString) : (s.remove device m room sender).1.Sound := by
  unfold GroupCallService.remove
  simp only
  split
  · exact h.finish _ _
  split
  case isTrue =>
    split
    case isTrue => exact h.finish _ _
    case isFalse => exact h.lead device m rfl
  case isFalse => exact h.lead device m hroom

theorem Sound.reserveRoom (hreserve : s.reserveRoom room = some s') : s'.Sound := by
  have hlive : Sound { s with rooms := s.rooms.filter fun _ room => !room.ended } :=
    h.filter (fun _ room => !room.ended) rfl
  unfold GroupCallService.reserveRoom at hreserve
  simp only at hreserve
  split at hreserve
  case isTrue =>
    split at hreserve
    case h_1 => exact nomatch hreserve
    case h_2 idle hidle =>
      obtain rfl := some.inj hreserve
      have hless : Sound { s with
          rooms := (s.rooms.filter fun _ room => !room.ended).remove idle.1 } :=
        hlive.filter (fun id _ => decide (id ≠ idle.1)) rfl
      exact Sound.put hless fun _ => hroom
  case isFalse =>
    obtain rfl := some.inj hreserve
    exact Sound.put hlive fun _ => hroom

end

/-! ### The handler -/

theorem Sound.conclude (h : s.Sound) (verdict : Verdict) : (s.conclude verdict).1.Sound := by
  unfold GroupCallService.conclude
  split <;> exact h.of_rooms rfl

section

variable (h : s.Sound) {room : GroupCallRoom} (hroom : room.cipher.closed = false)

include h hroom

theorem Sound.receiveNew (payload : List (DartString × Json)) :
    (s.receiveNew m room payload).1.Sound := by
  unfold GroupCallService.receiveNew
  split
  · exact h
  split
  · exact h
  split
  case h_1 => exact h
  case h_2 => exact h
  case h_3 room' happly =>
    have hroom' := (room.follows_applyRoster m happly).cipher hroom
    split
    case h_1 => exact h.filter (fun _ room => !room.ended) rfl
    case h_2 reserved hreserve =>
      exact (h.reserveRoom hroom' hreserve).put_follows hroom' (.of_eq rfl rfl rfl)

theorem Sound.receiveAgain (signal : GroupCallSignal) :
    (s.receiveAgain device m room signal).1.Sound := by
  unfold GroupCallService.receiveAgain
  split
  case h_1 => exact h
  case h_2 => exact h
  case h_3 room' hauthority =>
    have hroom' := (room.follows_considerAuthority device m hauthority).cipher hroom
    split
    case h_1 => exact h.put fun _ => hroom'
    case h_2 => exact h.put fun _ => hroom'
    case h_3 room'' happly =>
      exact h.put fun _ => (room'.follows_applyRoster m happly).cipher hroom'

end

theorem Sound.receiveStart (h : s.Sound) (signal : GroupCallSignal) :
    (s.receiveStart device m signal).1.Sound := by
  have hrated : Sound { s with startRate := (s.startRate.accept m.now 8).1 } := h.of_rooms rfl
  unfold GroupCallService.receiveStart
  simp only
  split
  · exact hrated
  split
  · exact hrated
  split
  · exact hrated
  split
  case h_2 => exact hrated
  split
  · exact hrated
  split
  case h_1 => exact hrated.receiveNew m rfl signal.payload
  case h_2 room hknown =>
    exact hrated.receiveAgain device m (hrated.roomFor hknown).2.1 signal

theorem follows_intend (room : GroupCallRoom) (sender admission : DartString) (issuedAt : ℤ) :
    Follows room (intend device room sender admission issuedAt) := .of_eq rfl rfl rfl

section

variable (h : s.Sound) {room : GroupCallRoom} (hroom : room.cipher.closed = false)

include h hroom

theorem Sound.admitInto (sender : DartString) : (s.admitInto device m room sender).1.Sound := by
  unfold GroupCallService.admitInto
  split
  case h_1 => exact h.put fun _ => hroom
  case h_2 participants _ =>
    refine Sound.put (h.of_rooms rfl) fun _ => ?_
    exact (GroupCallRoom.follows_rotate device m _ _).cipher hroom

theorem Sound.receiveJoin (signal : GroupCallSignal) :
    (s.receiveJoin device m room signal).1.Sound := by
  unfold GroupCallService.receiveJoin
  simp only
  split
  case h_2 => exact h
  case h_1 admission term _ _ =>
    have hintend := follows_intend device room signal.senderDeviceId admission signal.issuedAt
    split
    · exact h
    split
    · exact h
    split
    · exact h.put_follows hroom hintend
    split
    case isTrue =>
      refine h.put_follows hroom (hintend.trans ?_)
      split
      · exact .refl _
      · exact GroupCallRoom.follows_sendKey _ _
    case isFalse => exact h.admitInto device m (hintend.cipher hroom) _

theorem Sound.receiveLeave (signal : GroupCallSignal) :
    (s.receiveLeave device m room signal).1.Sound := by
  unfold GroupCallService.receiveLeave
  split
  · exact h
  · split
    · exact h
    · exact h.remove device m hroom _

end

section

variable (room : GroupCallRoom) (signal : GroupCallSignal)

include room signal

theorem follows_receiveRoster : Follows room (receiveRoster device m room signal).1 := by
  unfold receiveRoster
  split
  case h_1 => exact .refl room
  case h_2 => exact .refl room
  case h_3 room' hauthority =>
    have hroom' := room.follows_considerAuthority device m hauthority
    split
    case h_1 => exact hroom'
    case h_2 => exact hroom'
    case h_3 room'' happly =>
      refine hroom'.trans ((room'.follows_applyRoster m happly).trans ?_)
      split
      · exact .of_eq rfl rfl rfl
      · exact .refl room''

theorem follows_installKey (key : List ℕ) :
    Follows room (installKey device m room signal key).1 := by
  unfold installKey
  split
  case h_1 => exact .refl room
  case h_2 => exact .refl room
  case h_3 room' hauthority =>
    have hroom' := room.follows_considerAuthority device m hauthority
    split
    case h_1 => exact hroom'
    case h_2 => exact hroom'
    case h_3 room'' happly =>
      have hroom'' := hroom'.trans (room'.follows_applyRoster m happly)
      split
      case h_1 => exact hroom''
      case h_2 cipher hinstall =>
        refine hroom''.trans ⟨rfl, rfl, fun hopen => ?_⟩
        exact (GroupCallCipher.closed_install hinstall).trans hopen

theorem follows_receiveKey : Follows room (receiveKey device m room signal).1 := by
  unfold receiveKey
  split
  · exact .refl room
  split
  · exact .refl room
  split
  case h_1 => exact .refl room
  case h_2 => exact .refl room
  case h_3 => exact follows_installKey device m room signal _

theorem follows_receiveTopology : Follows room (receiveTopology device m room signal).1 := by
  unfold receiveTopology
  split
  · exact .refl room
  split
  · split
    · exact .refl room
    · split
      · exact .refl room
      · split
        · split
          · exact .refl room
          · exact .of_eq rfl rfl rfl
        · exact .of_eq rfl rfl rfl
        · exact .refl room
  · exact .refl room

end

theorem Sound.receiveIn (h : s.Sound) {room : GroupCallRoom} (hroom : room.cipher.closed = false)
    (signal : GroupCallSignal) : (s.receiveIn device m room signal).1.Sound := by
  unfold GroupCallService.receiveIn
  split
  case h_1 => exact h
  case h_2 => exact h.receiveJoin device m hroom signal
  case h_3 => exact h.receiveLeave device m hroom signal
  case h_4 => exact h.put_follows hroom (follows_receiveRoster device m room signal)
  case h_5 => exact h.put_follows hroom (follows_receiveKey device m room signal)
  case h_6 => exact h
  case h_7 => exact h.put_follows hroom (follows_receiveTopology device m room signal)

theorem follows_note (room : GroupCallRoom) (sender : DartString) :
    Follows room (note m room sender) := by
  unfold note
  split
  · exact .of_eq rfl rfl rfl
  · exact .refl room

theorem Sound.receiveSignal (h : s.Sound) (signal : GroupCallSignal)
    (authenticatedSender : DartString) :
    (s.receiveSignal device m signal authenticatedSender).1.Sound := by
  unfold GroupCallService.receiveSignal
  split
  · exact h.of_rooms rfl
  split
  · exact (h.receiveStart device m signal).conclude _
  split
  case h_1 => exact h.of_rooms rfl
  case h_2 room hknown =>
    have hopen := (h.roomFor (filter_eq_some_iff.mp hknown).1).2.1
    have hrated : Follows room (rate m room authenticatedSender).1 := .of_eq rfl rfl rfl
    have hnoted := hrated.trans (follows_note m _ authenticatedSender)
    simp only
    split
    · exact (h.put_follows hopen hrated).of_rooms rfl
    split
    case isTrue => exact (h.put_follows hopen hrated).of_rooms rfl
    case isFalse =>
      exact ((h.put_follows hopen hnoted).receiveIn device m (hnoted.cipher hopen)
        signal).conclude _

/-! ### The user and the clock -/

section

variable (h : s.Sound)

include h

theorem Sound.openRoom {room : GroupCallRoom} (hroom : room.cipher.closed = false) :
    (s.openRoom device m room).1.Sound ∧ Follows room (s.openRoom device m room).2.1 := by
  unfold GroupCallService.openRoom
  split
  · exact ⟨h, .refl room⟩
  split
  · exact ⟨h.of_put rfl fun _ => hroom, .of_eq rfl rfl rfl⟩
  · exact ⟨h.of_put rfl fun _ => hroom, .of_eq rfl rfl rfl⟩
  · exact ⟨h.of_put rfl fun _ => hroom, .of_eq rfl rfl rfl⟩

theorem Sound.join (groupId : DartString) : (s.join device m groupId).Sound := by
  unfold GroupCallService.join
  split
  case h_1 => exact h
  case h_2 room hknown =>
    have hopen := (h.roomFor hknown).2.1
    obtain ⟨hopened, hfollows⟩ := h.openRoom device m hopen
    split
    · exact h
    simp only
    split
    · exact hopened.put fun _ => hfollows.cipher hopen
    · exact hopened

theorem Sound.begin_ {room : GroupCallRoom} (hroom : room.cipher.closed = false) :
    (s.begin_ device m room).Sound := by
  have hdrawn : Sound { s with draws := s.draws + 1 } := h.of_rooms rfl
  unfold GroupCallService.begin_
  simp only
  split
  · exact hdrawn.finish _ _
  have hrotated := (GroupCallRoom.follows_rotate device m (alone device m room)
    (s.key device)).cipher hroom
  refine hdrawn.put fun _ => ?_
  split <;> exact hrotated

theorem Sound.start (groupId : DartString) : (s.start device m groupId).Sound := by
  have hdrawn : Sound { s with draws := s.draws + 1 } := h.of_rooms rfl
  unfold GroupCallService.start
  split
  · exact h
  split
  · exact h.join device m groupId
  simp only
  split
  case h_1 => exact h.filter (fun _ room => !room.ended) rfl
  case h_2 reserved hreserve =>
    have hown : (s.ownRoom device m groupId).cipher.closed = false := rfl
    have hreserved := hdrawn.reserveRoom hown hreserve
    obtain ⟨hopened, hfollows⟩ := hreserved.openRoom device m hown
    split
    · exact hopened.begin_ device m (hfollows.cipher hown)
    · exact hopened.finish _ _

theorem Sound.leave (room : GroupCallRoom) : (s.leave device room).Sound := by
  unfold GroupCallService.leave
  simp only
  split
  · exact h.finish _ _
  · exact (h.finish _ _).put fun _ => rfl

theorem Sound.forget (room : GroupCallRoom) : (s.forget device m room).Sound := by
  unfold GroupCallService.forget
  split
  · exact h.finish _ _
  · split
    · exact h.finish _ _
    · exact h

end

theorem follows_ask (room : GroupCallRoom) : Follows room (ask m room) := by
  unfold ask
  split
  · exact .of_eq rfl rfl rfl
  · exact .refl room

theorem Sound.upkeep (h : s.Sound) {room : GroupCallRoom} (hroom : room.cipher.closed = false) :
    (s.upkeep device m room).Sound := by
  have hled := (GroupCallRoom.follows_updateTopology device m { ask m room with
    seen := (ask m room).seen.put device.localDeviceId m.now }).cipher
      ((follows_ask m room).cipher hroom)
  unfold GroupCallService.upkeep
  refine h.put fun _ => ?_
  split <;> exact hled

/-! ### Whatever can be reached -/

theorem Step.sound (hstep : Step device s s') (h : s.Sound) : s'.Sound := by
  cases hstep with
  | signal m signal sender => exact h.receiveSignal device m signal sender
  | start m groupId => exact h.start device m groupId
  | join m groupId => exact h.join device m groupId
  | leaving hroom => exact h.put_follows (h.roomFor hroom).2.1 (.of_eq rfl rfl rfl)
  | leave hroom => exact h.leave device _
  | forget m hroom => exact h.forget device m _
  | drop m hroom hjoined hp => exact h.remove device m (h.roomFor hroom).2.1 _
  | upkeep m hroom hjoined => exact h.upkeep device m (h.roomFor hroom).2.1
  | sent hroom => exact h.put_follows (h.roomFor hroom).2.1 ⟨rfl, rfl, id⟩
  | heard m hroom sender =>
    exact h.put_follows (h.roomFor hroom).2.1
      ⟨rfl, rfl, fun hopen => (GroupCallCipher.closed_expire _ _).trans hopen⟩
  | dispose => exact fun groupId room hget => nomatch hget

end GroupCallService

theorem Reachable.sound {device : Device} {s : GroupCallService} (h : Reachable device s) :
    s.Sound := by
  obtain ⟨terminal, hrun⟩ := h
  exact Steps.invariant (fun _ _ hstep hs => GroupCallService.Step.sound device hstep hs) hrun
    fun groupId room hget => nomatch hget

end Call
end Conest
