import Conest.Call.Live

/-!
# Refused call signals

A roster or key signal may make a room adopt the authority of its sender before the roster itself is
applied and the key installed. Nothing is refused after that: the roster that was found valid for
the authority is taken under it, since the counters began again at 0 (`applyRoster_adopt`), and the
key is taken by a cipher that is new, or whose epoch was compared before (`receiveKey_refused`). So a
signal that is refused leaves the room as it was, but for the count of signals and the time at which
the sender was last seen (`refused_unchanged`).
-/

namespace Conest
namespace Call

open Lib Lib.DartString List Option
open Lib.Json (valueAt)

namespace GroupCallRoom

variable (device : Device) (m : Moment) (room : GroupCallRoom)

/-- **A valid roster is taken under the authority it makes the room adopt.** -/
theorem applyRoster_adopt {payload : List (DartString × Json)} {coordinator : DartString}
    (hvalid : room.validRoster m payload coordinator = .ok true) (term : ℤ) (allowSame : Bool) :
    ∃ later, (room.adoptAuthority device term coordinator).applyRoster m payload allowSame =
      .ok (some later) := by
  obtain ⟨version, epoch, roster, hversion, hepoch, hversion1, hepoch1, -, hroster⟩ :=
    room.validRoster_eq_true m hvalid
  have hadopted : (room.adoptAuthority device term coordinator).validRoster m payload
      (room.adoptAuthority device term coordinator).coordinator = .ok true := hvalid
  have hversion0 : (room.adoptAuthority device term coordinator).version = 0 := rfl
  have hepoch0 : (room.adoptAuthority device term coordinator).epoch = 0 := rfl
  unfold applyRoster
  rw [hadopted, except_ok_bind, if_pos rfl, hversion, hepoch, hroster]
  simp only
  -- none of the three refusals applies to counters that are above 0
  rw [if_neg, if_neg, if_neg]
  · exact ⟨_, rfl⟩
  · rintro ⟨-, h⟩
    omega
  · rintro ⟨h, -⟩
    omega
  · rintro (h | h | ⟨-, h⟩)
    · omega
    · omega
    · omega

end GroupCallRoom

namespace GroupCallService

variable (device : Device) (m : Moment)

variable {signal : GroupCallSignal}

theorem receiveRoster_refused {room : GroupCallRoom}
    (h : (receiveRoster device m room signal).2 ≠ .taken) :
    (receiveRoster device m room signal).1 = room := by
  unfold receiveRoster at h ⊢
  cases hauthority : room.considerAuthority device m signal with
  | error what => rfl
  | ok found =>
  cases found with
  | none => rfl
  | some room' =>
  simp only [hauthority] at h ⊢
  rcases room.considerAuthority_eq_some device m hauthority with
    ⟨rfl, -, -⟩ | ⟨term, rfl, hvalid⟩
  · cases happly : room'.applyRoster m signal.payload false with
    | error what => rfl
    | ok found =>
      cases found with
      | none => rfl
      | some later =>
        simp only [happly] at h
        exact absurd (by split <;> rfl) h
  · -- an authority was adopted, so the roster is taken
    obtain ⟨later, hlater⟩ := room.applyRoster_adopt device m hvalid term false
    simp only [hlater] at h
    exact absurd (by split <;> rfl) h

theorem install_isSome {cipher : GroupCallCipher} {now number : ℤ} {key : Bytes}
    {roster : List GroupCallParticipant} (hopen : cipher.closed = false)
    (hlater : cipher.epoch < number) (hmax : number ≤ GroupCallCipher.maxEpoch)
    (hkey : key.length = 32)
    (hroster : 0 < roster.length ∧ roster.length ≤ groupCallMaxParticipants) :
    ∃ later, cipher.install now number key roster = some later := by
  unfold GroupCallCipher.install
  rw [if_neg]
  · exact ⟨_, rfl⟩
  rw [hopen, List.isEmpty_iff]
  rintro (h | h | h | h | h | h)
  · exact absurd h Bool.false_ne_true
  · omega
  · omega
  · exact h hkey
  · rw [h] at hroster
    exact absurd hroster.1 (Nat.lt_irrefl 0)
  · omega

theorem keyAllowed_eq_true {room : GroupCallRoom} {key : List ℕ}
    (h : keyAllowed device m room signal key = .ok true) :
    key.length = 32 ∧ room.validRoster m signal.payload signal.senderDeviceId = .ok true ∧
      isPast room signal = false := by
  unfold keyAllowed at h
  split at h
  case isTrue => exact absurd (Except.ok.inj h) Bool.false_ne_true
  case isFalse hlength =>
    rw [not_not] at hlength
    cases hvalid : room.validRoster m signal.payload signal.senderDeviceId with
    | error what =>
      rw [hvalid] at h
      exact nomatch h
    | ok valid =>
    rw [hvalid, except_ok_bind] at h
    cases valid with
    | false => exact absurd (Except.ok.inj h) Bool.false_ne_true
    | true =>
    rw [if_pos rfl] at h
    split at h
    case h_1 => exact nomatch h
    case h_2 =>
      have hcurrent := (Bool.and_eq_true_iff.mp (Except.ok.inj h)).1
      exact ⟨hlength, rfl, Bool.not_eq_true' _ ▸ hcurrent⟩

theorem install_of_applyRoster {before later : GroupCallRoom} {payload : List (DartString × Json)}
    {key : List ℕ} (hopen : before.cipher.closed = false) (hkey : key.length = 32)
    (hpast : ∀ epoch, valueAt payload "epoch" = .int epoch → before.cipher.epoch < epoch)
    (happly : before.applyRoster m payload true = .ok (some later)) :
    ∃ cipher, later.cipher.install m.now later.epoch (key.map UInt8.ofNat) later.participants =
      some cipher := by
  obtain ⟨version, epoch, roster, -, hepoch, hmax, hroster, rfl⟩ :=
    before.applyRoster_eq_some m happly
  refine install_isSome hopen (hpast epoch hepoch) hmax ?_
    (GroupCallParticipant.length_parse hroster)
  rw [length_map, hkey]

/-- **A key that is allowed is installed or leaves the room as it is**, if the cipher is open. -/
theorem installKey_refused {room : GroupCallRoom} {key : List ℕ}
    (hopen : room.cipher.closed = false)
    (hallowed : keyAllowed device m room signal key = .ok true)
    (h : (installKey device m room signal key).2 ≠ .taken) :
    (installKey device m room signal key).1 = room := by
  obtain ⟨hlength, hvalid, hcurrent⟩ := keyAllowed_eq_true device m hallowed
  unfold installKey at h ⊢
  cases hauthority : room.considerAuthority device m signal with
  | error what => rfl
  | ok found =>
  cases found with
  | none => rfl
  | some room' =>
  simp only [hauthority] at h ⊢
  rcases room.considerAuthority_eq_some device m hauthority with
    ⟨rfl, hterm, hsender⟩ | ⟨term, rfl, -⟩
  · cases happly : room'.applyRoster m signal.payload true with
    | error what => rfl
    | ok found =>
      cases found with
      | none => rfl
      | some later =>
      -- the epoch was compared with the one of the cipher
      have hpast : ∀ epoch, valueAt signal.payload "epoch" = .int epoch →
          room'.cipher.epoch < epoch := by
        intro epoch hepoch
        by_contra hle
        unfold isPast at hcurrent
        rw [hepoch] at hcurrent
        exact of_decide_eq_false hcurrent ⟨hterm, hsender, not_lt.mp hle⟩
      obtain ⟨cipher, hcipher⟩ := install_of_applyRoster m hopen hlength hpast happly
      simp only [happly, hcipher] at h
      exact absurd rfl h
  · -- the cipher is new, and its epoch 0
    obtain ⟨later, happly⟩ := room.applyRoster_adopt device m hvalid term true
    have hpast : ∀ epoch, valueAt signal.payload "epoch" = .int epoch →
        (room.adoptAuthority device term signal.senderDeviceId).cipher.epoch < epoch := by
      intro epoch hepoch
      obtain ⟨_, epoch', _, -, hepoch', -, hpos, -⟩ := room.validRoster_eq_true m hvalid
      obtain rfl := Json.int.inj (hepoch.symm.trans hepoch')
      have hzero : (room.adoptAuthority device term signal.senderDeviceId).cipher.epoch = 0 :=
        rfl
      omega
    obtain ⟨cipher, hcipher⟩ := install_of_applyRoster m rfl hlength hpast happly
    simp only [happly, hcipher] at h
    exact absurd rfl h

/-- **A key signal is taken or leaves the room as it is**, if the cipher is open. -/
theorem receiveKey_refused {room : GroupCallRoom} (hopen : room.cipher.closed = false)
    (h : (receiveKey device m room signal).2 ≠ .taken) :
    (receiveKey device m room signal).1 = room := by
  unfold receiveKey at h ⊢
  cases htext : keyText device room signal.payload with
  | none => rfl
  | some text =>
  simp only [htext] at h ⊢
  cases hkey : base64Decode text with
  | none => rfl
  | some key =>
  simp only [hkey] at h ⊢
  cases hallowed : keyAllowed device m room signal key with
  | error what => rfl
  | ok allowed =>
  cases allowed with
  | false => rfl
  | true =>
    simp only [hallowed] at h
    exact installKey_refused device m hopen hallowed h

/-! ### What matters -/

end GroupCallService

/-- What decides who leads a call, who takes part and what is heard. -/
structure Standing where
  term : ℤ
  coordinator : DartString
  participants : List GroupCallParticipant
  version : ℤ
  epoch : ℤ
  topologyVersion : ℤ
  cipher : GroupCallCipher
deriving DecidableEq

def GroupCallRoom.standing (room : GroupCallRoom) : Standing where
  term := room.term
  coordinator := room.coordinator
  participants := room.participants
  version := room.version
  epoch := room.epoch
  topologyVersion := room.topologyVersion
  cipher := room.cipher

namespace GroupCallService

variable (device : Device) (m : Moment)

theorem standing_put {s : GroupCallService} {room later : GroupCallRoom}
    (hget : s.rooms.get later.groupId = some room) (hstanding : later.standing = room.standing)
    (groupId : DartString) :
    ((s.put later).rooms.get groupId).map GroupCallRoom.standing =
      (s.rooms.get groupId).map GroupCallRoom.standing := by
  change ((s.rooms.put later.groupId later).get groupId).map _ = _
  rw [LinkedMap.get_put]
  split
  case isTrue hgroup => rw [hgroup, hget, map_some, map_some, hstanding]
  case isFalse => rfl

theorem standing_note (room : GroupCallRoom) (sender : DartString) :
    (note m room sender).standing = room.standing ∧
      (note m room sender).groupId = room.groupId := by
  unfold note
  split <;> exact ⟨rfl, rfl⟩

theorem conclude_eq_false {s : GroupCallService} {verdict : Verdict}
    (h : (s.conclude verdict).2 = false) :
    verdict ≠ .taken ∧ (s.conclude verdict).1.rooms = s.rooms := by
  cases verdict with
  | taken => exact absurd h.symm Bool.false_ne_true
  | refused why => exact ⟨nofun, rfl⟩
  | thrown what => cases what <;> exact ⟨nofun, rfl⟩

end GroupCallService

open GroupCallService

/-- **A refused roster or key signal leaves every room with the standing that it had.** -/
theorem refused_unchanged (device : Device) {s : GroupCallService} (hreach : Reachable device s)
    (m : Moment) {signal : GroupCallSignal} (authenticatedSender : DartString)
    (haction : signal.action = .roster ∨ signal.action = .key)
    (hrefused : (s.receiveSignal device m signal authenticatedSender).2 = false)
    (groupId : DartString) :
    (((s.receiveSignal device m signal authenticatedSender).1.rooms.get groupId).map
      GroupCallRoom.standing) = (s.rooms.get groupId).map GroupCallRoom.standing := by
  unfold GroupCallService.receiveSignal at hrefused ⊢
  cases hrefusal : s.refusal device m signal authenticatedSender with
  | some why => rfl
  | none =>
  have hstart : signal.action ≠ .start := by
    rcases haction with h | h <;> rw [h] <;> exact nofun
  simp only [hrefusal] at hrefused ⊢
  rw [if_neg hstart] at hrefused ⊢
  cases hknown : (s.roomFor signal.groupId).filter
      fun room => decide (room.callId = signal.callId) with
  | none => rfl
  | some room =>
    simp only [hknown] at hrefused ⊢
    obtain ⟨hgroup, hopen, hget⟩ :=
      hreach.sound.roomFor (filter_eq_some_iff.mp hknown).1
    -- the count of signals and the time of the last one do not matter
    obtain ⟨rated, hrated⟩ : ∃ rated, rated = rate m room authenticatedSender := ⟨_, rfl⟩
    have hratedGet : s.rooms.get rated.1.groupId = some room := by
      rw [hrated]
      exact hgroup ▸ hget
    have hratedStanding : rated.1.standing = room.standing := by rw [hrated]; rfl
    rw [← hrated] at hrefused ⊢
    split
    case isTrue => exact standing_put hratedGet hratedStanding groupId
    case isFalse hcount =>
      rw [if_neg hcount] at hrefused
      split
      case isTrue => exact standing_put hratedGet hratedStanding groupId
      case isFalse hterm =>
        rw [if_neg hterm] at hrefused
        obtain ⟨noted, hnoted⟩ : ∃ noted, noted = note m rated.1 authenticatedSender := ⟨_, rfl⟩
        obtain ⟨hnotedStanding, hnotedGroup⟩ := standing_note m rated.1 authenticatedSender
        rw [← hnoted] at hnotedStanding hnotedGroup hrefused ⊢
        have hnotedGet : s.rooms.get noted.groupId = some room := hnotedGroup ▸ hratedGet
        have hnotedOpen : noted.cipher.closed = false := by
          have hcipher := congrArg Standing.cipher (hnotedStanding.trans hratedStanding)
          exact (congrArg GroupCallCipher.closed hcipher).trans hopen
        obtain ⟨hverdict, hrooms⟩ := conclude_eq_false hrefused
        have hsame : ((s.put noted).receiveIn device m noted signal).1.rooms =
            ((s.put noted).put noted).rooms := by
          rcases haction with h | h
          · unfold GroupCallService.receiveIn at hverdict ⊢
            rw [h] at hverdict ⊢
            exact congrArg (fun r => ((s.put noted).put r).rooms)
              (receiveRoster_refused device m hverdict)
          · unfold GroupCallService.receiveIn at hverdict ⊢
            rw [h] at hverdict ⊢
            exact congrArg (fun r => ((s.put noted).put r).rooms)
              (receiveKey_refused device m hnotedOpen hverdict)
        rw [hrooms, hsame]
        have hagain : (s.put noted).rooms.get noted.groupId = some noted := by
          change (s.rooms.put noted.groupId noted).get noted.groupId = some noted
          rw [LinkedMap.get_put, if_pos rfl]
        calc (((s.put noted).put noted).rooms.get groupId).map GroupCallRoom.standing
            = ((s.put noted).rooms.get groupId).map GroupCallRoom.standing :=
              standing_put hagain rfl groupId
          _ = (s.rooms.get groupId).map GroupCallRoom.standing :=
              standing_put hnotedGet (hnotedStanding.trans hratedStanding) groupId

namespace Sample

def device : Device where
  localDeviceId := ofString "a"
  localTime := id
  meshLimit := groupCallMeshLimit
  randomKey _ := List.replicate 32 7
  length_randomKey _ := List.length_replicate

def moment : Moment where
  now := 0
  members _ := [⟨ofString "a", [], true, true⟩, ⟨ofString "b", [], true, true⟩]
  verified := true
  measured := true
  selected := none
  opening := .opened
  signature := []

def calling : GroupCallService := initial.start device moment (ofString "g")

theorem reachable_calling : Reachable device calling :=
  ⟨[], Relation.ReflTransGen.single (Step.start moment (ofString "g"))⟩

def roster : GroupCallSignal where
  groupId := ofString "g"
  callId := ((calling.rooms.get (ofString "g")).map GroupCallRoom.callId).getD []
  senderDeviceId := ofString "b"
  action := .roster
  issuedAt := 0
  payload := [(ofString "term", .int 1), (ofString "version", .int 1), (ofString "epoch", .int 1),
    (ofString "coordinator", .str (ofString "b")),
    (ofString "participants", .list [.obj [(ofString "deviceId", .str (ofString "b")),
      (ofString "index", .int 0)]])]

theorem refused_roster :
    (calling.receiveSignal device moment roster (ofString "b")).2 = false ∧
      (calling.receiveSignal device moment roster (ofString "b")).1.lastRefusal = some "L796" := by
  decide

theorem refused_unchanged_roster :
    ((calling.receiveSignal device moment roster (ofString "b")).1.rooms.get (ofString "g")).map
      GroupCallRoom.standing = (calling.rooms.get (ofString "g")).map GroupCallRoom.standing :=
  refused_unchanged device reachable_calling moment (ofString "b") (.inl rfl) refused_roster.1 _

end Sample

end Call
end Conest
