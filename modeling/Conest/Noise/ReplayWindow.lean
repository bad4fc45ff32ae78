import Conest.Noise.Conversation

/-!
# No packet twice

A transport packet names its counter, and the network may repeat, reorder and forge packets. Each
session keeps the counters it has accepted, as far down as 1023 below the highest. `Tracks` says
what the window knows of them, which is everything that decides about the next packet
(`Tracks.accept_iff`).

A conversation has a current session and, while a handshake is under way, the working one that it
replaces. Only one of the two receives at any time (`Sound`), so what a packet does is said of one
session. `replay_window` puts it together for every run of a conversation: its sends, its
handshakes, its evictions and the packets of anybody.
-/

namespace Conest
namespace Noise

open Lib Mesh List Option

/-! ### What a window knows -/

namespace ReplayWindow

/-- The window of a session that has accepted these counters. -/
structure Tracks (w : ReplayWindow) (accepted : Finset ℕ) : Prop where
  le_highest : ∀ n ∈ accepted, (n : ℤ) ≤ w.highest
  highest : w.highest = -1 ∨ ∃ n ∈ accepted, w.highest = (n : ℤ)
  mem_seen : ∀ n, n ∈ w.seen ↔ n ∈ accepted ∧ w.highest - size < n

variable {w : ReplayWindow} {accepted : Finset ℕ} {counter : ℕ}

theorem tracks_initial : initial.Tracks ∅ where
  le_highest n h := absurd h (Finset.notMem_empty n)
  highest := .inl rfl
  mem_seen n := iff_of_false (Finset.notMem_empty n) fun h => absurd h.1 (Finset.notMem_empty n)

/-- **What is accepted** is what has not been and is no more than 1023 below any that was. -/
theorem Tracks.accept_iff (h : w.Tracks accepted) :
    w.accept counter = true ↔
      counter ∉ accepted ∧ ∀ n ∈ accepted, (n : ℤ) - size < counter := by
  unfold accept
  rw [decide_eq_true_eq, h.mem_seen]
  constructor
  · rintro ⟨hhigh, hseen⟩
    refine ⟨fun hmem => hseen ⟨hmem, hhigh⟩, fun n hn => ?_⟩
    have hle := h.le_highest n hn
    exact (Int.sub_le_sub_right hle size).trans_lt hhigh
  rintro ⟨hnew, hall⟩
  refine ⟨?_, fun hmem => hnew hmem.1⟩
  rcases h.highest with hnone | ⟨n, hn, htop⟩
  · unfold size
    omega
  · rw [htop]
    exact hall n hn

theorem Tracks.mark (h : w.Tracks accepted) (haccept : w.accept counter = true) :
    (w.mark counter).Tracks (insert counter accepted) := by
  have hwithin := (of_decide_eq_true haccept).1
  unfold ReplayWindow.mark
  split
  case isTrue hhigher =>
    refine ⟨fun n hn => ?_, .inr ⟨counter, Finset.mem_insert_self _ _, rfl⟩, fun n => ?_⟩
    · rcases Finset.mem_insert.mp hn with rfl | hn
      · rfl
      · exact (h.le_highest n hn).trans hhigher.le
    -- what falls out of the window is below the new bound, and the new bound is above the old one
    · rw [Finset.mem_filter, Finset.mem_insert, Finset.mem_insert, h.mem_seen]
      constructor
      · rintro ⟨rfl | ⟨hn, -⟩, hbound⟩
        · exact ⟨.inl rfl, hbound⟩
        · exact ⟨.inr hn, hbound⟩
      · rintro ⟨rfl | hn, hbound⟩
        · exact ⟨.inl rfl, hbound⟩
        · exact ⟨.inr ⟨hn, (Int.sub_lt_sub_right hhigher size).trans hbound⟩, hbound⟩
  case isFalse hhigher =>
    have hle : (counter : ℤ) ≤ w.highest := Int.not_lt.mp hhigher
    refine ⟨fun n hn => ?_, ?_, fun n => ?_⟩
    · rcases Finset.mem_insert.mp hn with rfl | hn
      · exact hle
      · exact h.le_highest n hn
    · rcases h.highest with hnone | ⟨n, hn, htop⟩
      · exact .inl hnone
      · exact .inr ⟨n, Finset.mem_insert_of_mem hn, htop⟩
    rw [Finset.mem_insert, Finset.mem_insert, h.mem_seen]
    constructor
    · rintro (rfl | ⟨hn, hbound⟩)
      · exact ⟨.inl rfl, hwithin⟩
      · exact ⟨.inr hn, hbound⟩
    · rintro ⟨rfl | hn, hbound⟩
      · exact .inl rfl
      · exact .inr ⟨hn, hbound⟩

end ReplayWindow

/-! ### Conversations whose windows are right -/

/-- The counters that a session has delivered. -/
def countersOf (delivered : List Delivery) (session : ℕ) : Finset ℕ :=
  ((delivered.filter fun d => decide (d.session = session)).map Delivery.counter).toFinset

variable {delivered : List Delivery}

theorem mem_countersOf {session counter : ℕ} :
    counter ∈ countersOf delivered session ↔
      ∃ d ∈ delivered, d.session = session ∧ d.counter = counter := by
  unfold countersOf
  rw [List.mem_toFinset, List.mem_map]
  constructor
  · rintro ⟨d, hmem, rfl⟩
    rw [mem_filter, decide_eq_true_eq] at hmem
    exact ⟨d, hmem.1, hmem.2, rfl⟩
  · rintro ⟨d, hmem, hsession, rfl⟩
    exact ⟨d, mem_filter.mpr ⟨hmem, decide_eq_true hsession⟩, rfl⟩

theorem countersOf_append_same (d : Delivery) :
    countersOf (delivered ++ [d]) d.session =
      insert d.counter (countersOf delivered d.session) := by
  ext n
  rw [Finset.mem_insert, mem_countersOf, mem_countersOf]
  constructor
  · rintro ⟨e, hmem, hsession, rfl⟩
    rcases mem_append.mp hmem with hmem | hmem
    · exact .inr ⟨e, hmem, hsession, rfl⟩
    · rw [mem_singleton.mp hmem]
      exact .inl rfl
  · rintro (rfl | ⟨e, hmem, hsession, rfl⟩)
    · exact ⟨d, mem_append_right _ mem_cons_self, rfl, rfl⟩
    · exact ⟨e, mem_append_left _ hmem, hsession, rfl⟩

theorem countersOf_append_other (d : Delivery) {session : ℕ} (h : d.session ≠ session) :
    countersOf (delivered ++ [d]) session = countersOf delivered session := by
  ext n
  rw [mem_countersOf, mem_countersOf]
  constructor
  · rintro ⟨e, hmem, hsession, hcounter⟩
    rcases mem_append.mp hmem with hmem | hmem
    · exact ⟨e, hmem, hsession, hcounter⟩
    · rw [mem_singleton.mp hmem] at hsession
      exact absurd hsession h
  · rintro ⟨e, hmem, hrest⟩
    exact ⟨e, mem_append_left _ hmem, hrest⟩

/-- The window of a session knows what the session has delivered. -/
def Session.Right (s : Session) (delivered : List Delivery) : Prop :=
  s.window.Tracks (countersOf delivered s.number)

/-- A session that a handshake may replace: it works, and replaces none itself. -/
structure Session.Settled (s : Session) (delivered : List Delivery) : Prop where
  ready : s.ready = true
  previous : s.previous = none
  right : s.Right delivered

namespace Conversation

/-- **The state of a conversation** after these deliveries. -/
structure Sound (c : Conversation) (delivered : List Delivery) : Prop where
  numbered : ∀ d ∈ delivered, d.session < c.sessions
  once : (delivered.map fun d => (d.session, d.counter)).Nodup
  number : ∀ s, c.session = some s → s.number < c.sessions
  right : ∀ s, c.session = some s → s.Right delivered
  alone : ∀ s, c.session = some s → s.ready = true → s.previous = none
  previous : ∀ s, c.session = some s → ∀ q, s.previous = some q →
    q.number < s.number ∧ q.Settled delivered

theorem sound_initial : initial.Sound [] where
  numbered _ h := absurd h not_mem_nil
  once := nodup_nil
  number _ h := nomatch h
  right _ h := nomatch h
  alone _ h := nomatch h
  previous _ h := nomatch h

/-! ### Work that delivers nothing -/

/-- Nothing that receiving depends on has changed, but that sessions may be gone. -/
structure Keeps (c c' : Conversation) : Prop where
  sessions : c'.sessions = c.sessions
  session : ∀ s', c'.session = some s' → ∃ s, c.session = some s ∧ s'.number = s.number ∧
    s'.ready = s.ready ∧ s'.window = s.window ∧
    ∀ q', s'.previous = some q' → ∃ q, s.previous = some q ∧ q'.number = q.number ∧
      q'.ready = q.ready ∧ q'.window = q.window ∧ q'.previous = q.previous

variable {parties : Parties} {c c' : Conversation} {s : Session} {m : Moment}

theorem Keeps.of_session (hsession : c'.session = c.session)
    (hsessions : c'.sessions = c.sessions) : c.Keeps c' where
  sessions := hsessions
  session s h := ⟨s, hsession ▸ h, rfl, rfl, rfl, fun q hq => ⟨q, hq, rfl, rfl, rfl, rfl⟩⟩

theorem Keeps.refl (c : Conversation) : c.Keeps c := .of_session rfl rfl

theorem Keeps.update (h : c.session = some s) (s' : Session) (hnumber : s'.number = s.number)
    (hready : s'.ready = s.ready) (hwindow : s'.window = s.window)
    (hprevious : s'.previous = s.previous) (waiting : List Bytes) :
    c.Keeps { c with session := some s', waiting } where
  sessions := rfl
  session t ht := by
    obtain rfl : s' = t := some.inj ht
    exact ⟨s, h, hnumber, hready, hwindow, fun q hq => ⟨q, hprevious ▸ hq, rfl, rfl, rfl, rfl⟩⟩

section

variable (h : c.Sound delivered)

include h

theorem Sound.keeps (hkeeps : c.Keeps c') : c'.Sound delivered where
  numbered d hd := hkeeps.sessions ▸ h.numbered d hd
  once := h.once
  number s' hs' := by
    obtain ⟨s, hs, hnumber, -⟩ := hkeeps.session s' hs'
    rw [hnumber, hkeeps.sessions]
    exact h.number s hs
  right s' hs' := by
    obtain ⟨s, hs, hnumber, -, hwindow, -⟩ := hkeeps.session s' hs'
    unfold Session.Right
    rw [hnumber, hwindow]
    exact h.right s hs
  alone s' hs' hready' := by
    obtain ⟨s, hs, -, hready, -, hprevious⟩ := hkeeps.session s' hs'
    cases hprevious' : s'.previous with
    | none => rfl
    | some q' =>
      obtain ⟨q, hq, -⟩ := hprevious q' hprevious'
      rw [h.alone s hs (hready ▸ hready')] at hq
      cases hq
  previous s' hs' q' hq' := by
    obtain ⟨s, hs, hnumber, -, -, hprevious⟩ := hkeeps.session s' hs'
    obtain ⟨q, hq, hn, hr, hw, hp⟩ := hprevious q' hq'
    obtain ⟨hlt, hsettled⟩ := h.previous s hs q hq
    refine ⟨by rw [hn, hnumber]; exact hlt, hr.trans hsettled.ready, hp.trans hsettled.previous, ?_⟩
    unfold Session.Right
    rw [hn, hw]
    exact hsettled.right

theorem Sound.install (handshake : NoiseXXHandshake) (startedAt : ℤ) :
    (c.install (.begin c.sessions handshake startedAt)).Sound delivered where
  numbered d hd := Nat.lt_succ_of_lt (h.numbered d hd)
  once := h.once
  number s hs := by
    obtain rfl := some.inj hs
    exact Nat.lt_succ_self _
  right s hs := by
    obtain rfl := some.inj hs
    have hnothing : countersOf delivered c.sessions = ∅ := by
      refine Finset.eq_empty_of_forall_notMem fun n hn => ?_
      obtain ⟨d, hd, hsession, -⟩ := mem_countersOf.mp hn
      exact absurd (h.numbered d hd) (hsession ▸ lt_irrefl _)
    change ReplayWindow.initial.Tracks (countersOf delivered c.sessions)
    rw [hnothing]
    exact ReplayWindow.tracks_initial
  alone s hs hready := by
    obtain rfl := some.inj hs
    cases hready
  previous s hs q hq := by
    obtain rfl := some.inj hs
    obtain ⟨current, hcurrent, hq⟩ := bind_eq_some_iff.mp hq
    have hnumber := h.number current hcurrent
    split at hq
    case isTrue hready =>
      obtain rfl := some.inj hq
      exact ⟨hnumber, hready, h.alone _ hcurrent hready, h.right _ hcurrent⟩
    case isFalse =>
      obtain ⟨hlt, hsettled⟩ := h.previous current hcurrent q hq
      exact ⟨hlt.trans hnumber, hsettled⟩

theorem Sound.abandon : c.abandon.Sound delivered := by
  unfold Conversation.abandon
  cases hsession : c.session with
  | none => exact h
  | some s =>
  dsimp only
  split
  · exact h
  refine ⟨h.numbered, h.once, fun q hq => ?_, fun q hq => ?_, fun q hq _ => ?_,
    fun q hq r hr => ?_⟩
  all_goals obtain ⟨hlt, hsettled⟩ := h.previous s hsession q hq
  · exact hlt.trans (h.number s hsession)
  · exact hsettled.right
  · exact hsettled.previous
  · rw [hsettled.previous] at hr
    cases hr

theorem Sound.complete (hs : c.session = some s) (handshake : NoiseXXHandshake) :
    Sound { c with session := some { s with handshake, ready := true, previous := none } }
      delivered where
  numbered := h.numbered
  once := h.once
  number t ht := by
    obtain rfl := some.inj ht
    exact h.number s hs
  right t ht := by
    obtain rfl := some.inj ht
    exact h.right s hs
  alone t ht _ := by
    obtain rfl := some.inj ht
    rfl
  previous t ht q hq := by
    obtain rfl := some.inj ht
    cases hq

end

/-! ### The pieces of work -/

theorem keeps_wait (c : Conversation) (plaintext : Bytes) : c.Keeps (c.wait plaintext) :=
  .of_session rfl rfl

theorem Sound.startHandshake (h : c.Sound delivered) (m : Moment) :
    (c.startHandshake parties m).1.Sound delivered := by
  unfold Conversation.startHandshake
  dsimp only
  split
  · exact h.install _ _
  · exact h.install _ _

theorem Sound.send (h : c.Sound delivered) (m : Moment) (type : UInt8) (body : Bytes) :
    (c.send parties m type body).1.Sound delivered := by
  have hwait := h.keeps (c.keeps_wait (type :: body))
  unfold Conversation.send
  cases hsession : c.session with
  | none => exact hwait.startHandshake m
  | some s =>
  dsimp only
  split
  · exact h.keeps (.update hsession (s.encrypt parties m.now (type :: body)).2 rfl rfl rfl rfl _)
  · split
    · exact hwait
    · exact hwait.startHandshake m

end Conversation

theorem Session.encryptAll_keeps {parties : Parties} (s : Session) (now : ℤ)
    (plaintexts : List Bytes) :
    (s.encryptAll parties now plaintexts).2.number = s.number ∧
      (s.encryptAll parties now plaintexts).2.ready = s.ready ∧
      (s.encryptAll parties now plaintexts).2.window = s.window ∧
      (s.encryptAll parties now plaintexts).2.previous = s.previous := by
  induction plaintexts generalizing s with
  | nil => exact ⟨rfl, rfl, rfl, rfl⟩
  | cons plaintext more ih => exact ih _

namespace Conversation

variable {parties : Parties} {c c' : Conversation} {s : Session} {m : Moment}

theorem keeps_flush (c : Conversation) (m : Moment) : c.Keeps (c.flush parties m).1 := by
  unfold flush
  cases hsession : c.session with
  | none => exact .refl c
  | some s =>
  dsimp only
  split
  · obtain ⟨hnumber, hready, hwindow, hprevious⟩ :=
      @Session.encryptAll_keeps parties s m.now c.waiting
    exact .update hsession _ hnumber hready hwindow hprevious []
  · exact .refl c

section

variable (h : c.Sound delivered)

include h

theorem Sound.tick (m : Moment) : (c.tick parties m).1.Sound delivered := by
  unfold Conversation.tick
  cases hsession : c.session with
  | none => exact h
  | some s =>
  dsimp only
  split
  · split
    · exact h.abandon
    · split
      · exact h.abandon.keeps (keeps_flush _ m)
      · exact h.abandon.startHandshake m
  · exact h

theorem Sound.respond (m : Moment) (message : Bytes) :
    (c.respond parties m message).1.Sound delivered := by
  unfold Conversation.respond
  dsimp only
  split
  · exact h
  · split
    · exact h.install _ _
    · exact h.install _ _

theorem Sound.proceed (hs : c.session = some s) (m : Moment) (message : Bytes) :
    (c.proceed parties m s message).1.Sound delivered := by
  unfold Conversation.proceed
  split
  · exact h
  split
  · exact h
  case h_2 handshake answers _ =>
    have hupdate := h.keeps (.update hs { s with handshake } rfl rfl rfl rfl c.waiting)
    split
    · split
      · exact hupdate.abandon
      · split
        · refine h.keeps ⟨rfl, fun t ht => ?_⟩
          cases ht
        · exact (h.complete hs handshake).keeps (keeps_flush _ m)
    · exact hupdate

theorem Sound.handleHandshake (m : Moment) (message : Bytes) :
    (c.handleHandshake parties m message).1.Sound delivered := by
  unfold Conversation.handleHandshake
  split
  · dsimp only
    split
    · exact h
    · split
      · exact h
      · exact h.respond m message
  cases hsession : c.session with
  | none => exact h
  | some s =>
    dsimp only
    split
    · exact h
    · exact h.proceed hsession m message

end

theorem keeps_deliver (c : Conversation) (m : Moment) (usePrevious : Bool) (plaintext : Bytes) :
    c.Keeps (c.deliver parties m usePrevious plaintext).1 := by
  unfold deliver
  cases plaintext with
  | nil => exact .refl c
  | cons type body =>
  dsimp only
  split
  · split
    · exact .refl c
    case h_2 messageId text _ =>
      cases hsession : c.session with
      | none => exact .refl c
      | some current =>
      dsimp only
      split
      · exact .update hsession (current.encrypt parties m.now _).2 rfl rfl rfl rfl c.waiting
      cases hprevious : current.previous with
      | none => exact .refl c
      | some previous =>
      dsimp only
      split
      · refine ⟨rfl, fun t ht => ?_⟩
        obtain rfl := some.inj ht
        refine ⟨current, hsession, rfl, rfl, rfl, fun q hq => ?_⟩
        obtain rfl := some.inj hq
        exact ⟨previous, hprevious, rfl, rfl, rfl, rfl⟩
      · exact .refl c
  · split
    · exact .refl c
    · exact .refl c

end Conversation

/-! ### Packets -/

/-- A packet from the peer to this identity, which is another. -/
structure Parties.Addressed (parties : Parties) (packet : BitchatPacket) : Prop where
  recipient : packet.recipientId = some parties.peerId
  sender : packet.senderId = parties.peer
  other : parties.peer ≠ parties.peerId

theorem Parties.Addressed.not_or {parties : Parties} {packet : BitchatPacket}
    (h : parties.Addressed packet) :
    ¬ (packet.recipientId ≠ some parties.peerId ∨ packet.senderId ≠ parties.peer ∨
      parties.peer = parties.peerId) := by
  rintro (hrecipient | hsender | hother)
  · exact hrecipient h.recipient
  · exact hsender h.sender
  · exact h.other hother

/-- The counter that a transport packet names. -/
def counterOf (payload : Bytes) : ℕ := ofBigEndian (payload.take 4)

/-- A transport packet that is authentic for a session. -/
def Session.Authentic (parties : Parties) (s : Session) (payload plaintext : Bytes) : Prop :=
  4 + 16 ≤ payload.length ∧
    (Session.cipher s.handshake.receive).decryptAt parties.primitives (counterOf payload)
      (payload.drop 4) = .ok plaintext

/-- A session that has accepted a counter. -/
def Session.marked (s : Session) (counter : ℕ) : Session :=
  { s with window := s.window.mark counter }

theorem Session.receive_eq_some {parties : Parties} {s s' : Session} {counter : ℕ}
    {ciphertext plaintext : Bytes} :
    s.receive parties counter ciphertext = some (plaintext, s') ↔
      s.window.accept counter = true ∧
        (Session.cipher s.handshake.receive).decryptAt parties.primitives counter ciphertext =
          .ok plaintext ∧
        s' = s.marked counter := by
  unfold Session.receive
  split
  case isTrue haccept =>
    split
    case h_1 found hfound =>
      constructor
      · intro h
        obtain ⟨rfl, rfl⟩ := Prod.mk.inj (some.inj h)
        exact ⟨haccept, hfound, rfl⟩
      · rintro ⟨-, hdecrypt, rfl⟩
        rw [hfound] at hdecrypt
        rw [Except.ok.inj hdecrypt]
        rfl
    case h_2 hfound =>
      constructor
      · intro h
        cases h
      · rintro ⟨-, hdecrypt, -⟩
        rw [hfound] at hdecrypt
        cases hdecrypt
  case isFalse haccept =>
    constructor
    · intro h
      cases h
    · rintro ⟨h, -⟩
      exact absurd h haccept

namespace Conversation

variable {parties : Parties} {c c' : Conversation} {s : Session} {m : Moment}

/-- The sessions that receive packets: the current one once it works, and the one it replaces. -/
def Receives (c : Conversation) (s : Session) : Prop :=
  ∃ current, c.session = some current ∧
    (s = current ∧ current.ready = true ∨ current.previous = some s)

theorem Sound.once_append (h : c.Sound delivered) (hs : s.Right delivered) {counter : ℕ}
    (haccept : s.window.accept counter = true) (plaintext : Bytes) :
    ((delivered ++ [(⟨s.number, counter, plaintext⟩ : Delivery)]).map
      fun d => (d.session, d.counter)).Nodup := by
  rw [map_append, nodup_append]
  refine ⟨h.once, nodup_singleton _, ?_⟩
  rintro pair hpair _ hlast rfl
  obtain ⟨d, hd, rfl⟩ := mem_map.mp hpair
  obtain ⟨hsession, hcounter⟩ := Prod.mk.inj (mem_singleton.mp hlast)
  exact ((hs.accept_iff).mp haccept).1 (mem_countersOf.mpr ⟨d, hd, hsession, hcounter⟩)

theorem right_mark (hs : s.Right delivered) {counter : ℕ} (haccept : s.window.accept counter = true)
    (plaintext : Bytes) :
    (s.marked counter).Right (delivered ++ [⟨s.number, counter, plaintext⟩]) := by
  change (s.window.mark counter).Tracks
    (countersOf (delivered ++ [⟨s.number, counter, plaintext⟩]) s.number)
  rw [countersOf_append_same]
  exact hs.mark haccept

theorem right_append (hs : s.Right delivered) {d : Delivery} (hne : d.session ≠ s.number) :
    s.Right (delivered ++ [d]) := by
  unfold Session.Right
  rw [countersOf_append_other d hne]
  exact hs

section

variable (h : c.Sound delivered)

include h

theorem numbered_append {d : Delivery} (hd : d.session < c.sessions) :
    ∀ e ∈ delivered ++ [d], e.session < c.sessions := by
  intro e he
  rcases mem_append.mp he with he | he
  · exact h.numbered e he
  · rw [mem_singleton.mp he]
    exact hd

theorem Sound.mark_current (hs : c.session = some s) (hready : s.ready = true) {counter : ℕ}
    (haccept : s.window.accept counter = true) (plaintext : Bytes) :
    Sound { c with session := some (s.marked counter) }
      (delivered ++ [⟨s.number, counter, plaintext⟩]) where
  numbered := numbered_append h (h.number s hs)
  once := h.once_append (h.right s hs) haccept plaintext
  number t ht := by
    obtain rfl := some.inj ht
    exact h.number s hs
  right t ht := by
    obtain rfl := some.inj ht
    exact right_mark (h.right s hs) haccept plaintext
  alone t ht _ := by
    obtain rfl := some.inj ht
    exact h.alone s hs hready
  previous t ht q hq := by
    obtain rfl := some.inj ht
    have hnone : s.previous = some q := hq
    rw [h.alone s hs hready] at hnone
    cases hnone

theorem Sound.mark_previous (hs : c.session = some s) {q : Session} (hq : s.previous = some q)
    {counter : ℕ} (haccept : q.window.accept counter = true) (plaintext : Bytes) :
    Sound { c with session := some { s with previous := some (q.marked counter) } }
      (delivered ++ [⟨q.number, counter, plaintext⟩]) where
  numbered := numbered_append h ((h.previous s hs q hq).1.trans (h.number s hs))
  once := h.once_append (h.previous s hs q hq).2.right haccept plaintext
  number t ht := by
    obtain rfl := some.inj ht
    exact h.number s hs
  right t ht := by
    obtain rfl := some.inj ht
    exact right_append (h.right s hs) (h.previous s hs q hq).1.ne
  alone t ht hready := by
    obtain rfl := some.inj ht
    rw [h.alone s hs hready] at hq
    cases hq
  previous t ht r hr := by
    obtain rfl := some.inj ht
    obtain rfl := some.inj hr
    obtain ⟨hlt, hsettled⟩ := h.previous s hs q hq
    exact ⟨hlt, hsettled.ready, hsettled.previous, right_mark hsettled.right haccept plaintext⟩

/-- **What a conversation accepts**: a receiving session decrypts it and has not had its counter. -/
theorem Sound.of_receive {counter : ℕ} {ciphertext : Bytes} {usePrevious : Bool} {d : Delivery}
    (hreceive : c.receive parties counter ciphertext = some (c', usePrevious, d)) :
    c'.Sound (delivered ++ [d]) ∧ ∃ s, c.Receives s ∧
      (Session.cipher s.handshake.receive).decryptAt parties.primitives counter ciphertext =
        .ok d.plaintext := by
  obtain ⟨current, hcurrent, hreceive⟩ := bind_eq_some_iff.mp hreceive
  cases hfound : (if current.ready then current.receive parties counter ciphertext else none) with
  | some found =>
    rw [hfound] at hreceive
    obtain ⟨plaintext, received⟩ := found
    obtain ⟨rfl, -, rfl⟩ : _ ∧ _ ∧ _ := by simpa using hreceive
    split at hfound
    case isTrue hready =>
      obtain ⟨haccept, hdecrypt, rfl⟩ := Session.receive_eq_some.mp hfound
      exact ⟨h.mark_current hcurrent hready haccept plaintext, current,
        ⟨current, hcurrent, .inl ⟨rfl, hready⟩⟩, hdecrypt⟩
    case isFalse => cases hfound
  | none =>
  rw [hfound] at hreceive
  obtain ⟨previous, hprevious, hreceive⟩ := bind_eq_some_iff.mp hreceive
  obtain ⟨⟨plaintext, received⟩, hfound, hreceive⟩ := bind_eq_some_iff.mp hreceive
  obtain ⟨rfl, -, rfl⟩ : _ ∧ _ ∧ _ := by simpa using hreceive
  obtain ⟨haccept, hdecrypt, rfl⟩ := Session.receive_eq_some.mp hfound
  exact ⟨h.mark_previous hcurrent hprevious haccept plaintext, previous,
    ⟨current, hcurrent, .inr hprevious⟩, hdecrypt⟩

theorem Sound.receive_of_session (hs : c.Receives s) {counter : ℕ} {ciphertext plaintext : Bytes}
    (haccept : s.window.accept counter = true)
    (hdecrypt : (Session.cipher s.handshake.receive).decryptAt parties.primitives counter
      ciphertext = .ok plaintext) : ∃ c' usePrevious, c.receive parties counter ciphertext =
      some (c', usePrevious, ⟨s.number, counter, plaintext⟩) := by
  have hfound := Session.receive_eq_some.mpr ⟨haccept, hdecrypt, rfl⟩
  obtain ⟨current, hcurrent, ⟨rfl, hready⟩ | hprevious⟩ := hs
  · unfold receive
    rw [hcurrent, bind_eq_bind, bind_some, if_pos hready, hfound]
    exact ⟨_, _, rfl⟩
  have hnot : ¬ current.ready = true := by
    intro hready
    rw [h.alone current hcurrent hready] at hprevious
    cases hprevious
  unfold receive
  rw [hcurrent, bind_eq_bind, bind_some, if_neg hnot, hprevious]
  simp only [bind_eq_bind, bind_some, hfound]
  exact ⟨_, _, rfl⟩

theorem Sound.handleTransport (m : Moment) (payload : Bytes) :
    (c.handleTransport parties m payload).1.Sound
      (delivered ++ (c.handleTransport parties m payload).2.delivered.toList) := by
  unfold Conversation.handleTransport
  split
  · exact (append_nil delivered).symm ▸ h
  split
  · exact (append_nil delivered).symm ▸ h
  case h_2 hreceive =>
    obtain ⟨hsound, -⟩ := h.of_receive hreceive
    exact hsound.keeps (keeps_deliver _ m _ _)

end

/-! ### Runs -/

theorem Sound.handleNoise (h : c.Sound delivered) (m : Moment) (packet : BitchatPacket) :
    (c.handleNoise parties m packet).1.Sound
      (delivered ++ (c.handleNoise parties m packet).2.delivered.toList) := by
  unfold Conversation.handleNoise
  split
  · exact (append_nil delivered).symm ▸ h
  split
  · have hsound : (c.handleHandshake parties m packet.payload).1.Sound delivered :=
      h.handleHandshake m packet.payload
    split
    all_goals
      rename_i heq
      rw [heq] at hsound
    · exact (append_nil delivered).symm ▸ hsound
    · exact (append_nil delivered).symm ▸ hsound
    · exact (append_nil delivered).symm ▸ hsound.abandon
  · exact h.handleTransport m packet.payload

theorem Sound.step (h : c.Sound delivered) (m : Moment) (act : Act) :
    (c.step parties m act).1.Sound (delivered ++ (c.step parties m act).2.delivered.toList) := by
  cases act with
  | sendText messageId text =>
    exact (append_nil delivered).symm ▸ h.send m _ _
  | sendReadReceipt messageId =>
    exact (append_nil delivered).symm ▸ h.send m _ _
  | handleNoise packet => exact h.handleNoise m packet
  | tick => exact (append_nil delivered).symm ▸ h.tick m
  | evicted =>
    refine (append_nil delivered).symm ▸ h.keeps ⟨rfl, fun s hs => ?_⟩
    cases hs

end Conversation

/-- What a run delivers. -/
def deliveries (parties : Parties) (c : Conversation) (acts : List (Moment × Act)) :
    List Delivery :=
  ((conversation parties).outputs c acts).filterMap Answer.delivered

namespace Conversation

variable {parties : Parties} {c : Conversation} {s : Session}

theorem Sound.run (h : c.Sound delivered)
    (acts : List (Moment × Act)) :
    ((conversation parties).run c acts).Sound (delivered ++ deliveries parties c acts) := by
  induction acts generalizing c delivered with
  | nil => exact (append_nil delivered).symm ▸ h
  | cons act acts ih =>
  have hstep : (c.step parties act.1 act.2).1.Sound
      (delivered ++ (c.step parties act.1 act.2).2.delivered.toList) := h.step act.1 act.2
  have hrest := ih hstep
  rw [append_assoc] at hrest
  have hdeliveries : deliveries parties c (act :: acts) =
      (c.step parties act.1 act.2).2.delivered.toList ++
        deliveries parties (c.step parties act.1 act.2).1 acts := by
    unfold deliveries
    rw [Machine.outputs_cons, filterMap_cons]
    have houtput : ((conversation parties).step c act).2.delivered =
        (c.step parties act.1 act.2).2.delivered := rfl
    rw [houtput]
    cases (c.step parties act.1 act.2).2.delivered with
    | none => rfl
    | some d => rfl
  rw [hdeliveries]
  exact hrest

section

variable (h : c.Sound delivered) {packet : BitchatPacket}
  (htype : packet.type ≠ BitchatType.noiseHandshake)

include h htype

theorem Sound.handleNoise_forged
    (hforged : ∀ s plaintext, c.Receives s → ¬ s.Authentic parties packet.payload plaintext)
    (m : Moment) : c.handleNoise parties m packet = (c, .none) := by
  unfold Conversation.handleNoise
  split
  · rfl
  unfold Conversation.handleTransport
  split
  · rfl
  case isFalse hlong =>
    split
    · rfl
    case h_2 hreceive =>
      obtain ⟨-, s, hs, hdecrypt⟩ := h.of_receive hreceive
      exact absurd ⟨Nat.not_lt.mp hlong, hdecrypt⟩ (hforged s _ hs)

theorem Sound.handleNoise_authentic (haddressed : parties.Addressed packet) (hs : c.Receives s)
    {plaintext : Bytes} (hauthentic : s.Authentic parties packet.payload plaintext)
    (hnew : ∀ d ∈ delivered, d.session = s.number → d.counter ≠ counterOf packet.payload ∧
      (d.counter : ℤ) - ReplayWindow.size < counterOf packet.payload) (m : Moment) :
    (c.handleNoise parties m packet).2.delivered =
      some ⟨s.number, counterOf packet.payload, plaintext⟩ := by
  have hright : s.Right delivered := by
    obtain ⟨current, hcurrent, ⟨rfl, -⟩ | hprevious⟩ := hs
    · exact h.right _ hcurrent
    · exact (h.previous current hcurrent s hprevious).2.right
  have haccept : s.window.accept (counterOf packet.payload) = true := by
    refine hright.accept_iff.mpr ⟨fun hmem => ?_, fun n hn => ?_⟩
    · obtain ⟨d, hd, hsession, hcounter⟩ := mem_countersOf.mp hmem
      exact (hnew d hd hsession).1 hcounter
    · obtain ⟨d, hd, hsession, rfl⟩ := mem_countersOf.mp hn
      exact (hnew d hd hsession).2
  obtain ⟨c', usePrevious, hreceive⟩ := h.receive_of_session hs haccept hauthentic.2
  unfold counterOf at hreceive
  unfold Conversation.handleNoise
  rw [if_neg haddressed.not_or, if_neg htype]
  unfold Conversation.handleTransport
  rw [if_neg (Nat.not_lt.mpr hauthentic.1), hreceive]
  rfl

end

end Conversation

/-- **The replay window.** In every run of a conversation each session delivers each counter at most
once. After it, a transport packet that no receiving session can decrypt changes nothing at all, and
one that a receiving session can decrypt is delivered, if its counter was not and is no more than
1023 below every counter that was. -/
theorem replay_window (parties : Parties) (acts : List (Moment × Act)) :
    ((deliveries parties .initial acts).map fun d => (d.session, d.counter)).Nodup ∧
    ∀ packet : BitchatPacket, packet.type ≠ BitchatType.noiseHandshake → ∀ m : Moment,
      ((∀ s plaintext, ((conversation parties).run .initial acts).Receives s →
          ¬ s.Authentic parties packet.payload plaintext) →
        (conversation parties).step ((conversation parties).run .initial acts)
          (m, .handleNoise packet) = ((conversation parties).run .initial acts, .none)) ∧
      (parties.Addressed packet →
        ∀ s plaintext, ((conversation parties).run .initial acts).Receives s →
        s.Authentic parties packet.payload plaintext →
        (∀ d ∈ deliveries parties .initial acts, d.session = s.number →
          d.counter ≠ counterOf packet.payload ∧
            (d.counter : ℤ) - ReplayWindow.size < counterOf packet.payload) →
        ((conversation parties).step ((conversation parties).run .initial acts)
            (m, .handleNoise packet)).2.delivered =
          some ⟨s.number, counterOf packet.payload, plaintext⟩) := by
  have hsound : ((conversation parties).run Conversation.initial acts).Sound
      ([] ++ deliveries parties Conversation.initial acts) := Conversation.sound_initial.run acts
  refine ⟨hsound.once, fun packet htype m => ⟨fun hforged => ?_, ?_⟩⟩
  · exact hsound.handleNoise_forged htype hforged m
  · intro haddressed s plaintext hs hauthentic hnew
    exact hsound.handleNoise_authentic htype haddressed hs hauthentic hnew m

end Noise
end Conest
