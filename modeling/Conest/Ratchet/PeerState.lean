import Conest.Ratchet.Contract

/-!
# The state of a peer over a run

Every operation rebuilds the whole record of a peer from parts of the one before it. `Rebuilds` says
which parts each of them carries over: the session just used comes first and the others follow in
their order, the time of the first confirmation stays, and the ring of bulk keys is touched by the
operations on bulk keys alone. What drops the record is `PeerCall.Resets`: the peer is forgotten, or
a known identity key is replaced by another.

`rebuilds_holds` checks the operations one by one, each run alone; `Contract.Holds.happens` carries it
to the steps of a run.
-/

namespace Conest
namespace Ratchet

open Lib List

section Rebuilds

variable {Session : Type}

def identityOf (state : Option (RatchetPeerState Session)) : Option DartString :=
  state.bind RatchetPeerState.peerIdentityKey

def confirmedAtOf (state : Option (RatchetPeerState Session)) : Option ℤ :=
  state.bind RatchetPeerState.confirmedAtMs

def bulkKeysOf (state : Option (RatchetPeerState Session)) : Option DartString :=
  state.bind RatchetPeerState.bulkKeys

/-- The calls that end with a session in use. -/
def PeerCall.UsesSession : PeerCall → Prop
  | .encrypt _ => True
  | .decrypt _ _ => True
  | .startSession _ => True
  | _ => False

/-- The calls that write the ring of bulk keys. -/
def PeerCall.WritesRing : PeerCall → Prop
  | .sendBulkKey => True
  | .rememberReceivedBulkKey _ => True
  | _ => False

/-- The calls that drop the record of a peer: it is forgotten, or its known identity key changes. -/
def PeerCall.Resets (before : Option (RatchetPeerState Session)) : PeerCall → Prop
  | .forget => True
  | .rememberPeerIdentity identityKey =>
    ∃ known, identityOf before = some known ∧ known ≠ identityKey
  | _ => False

/-- At most four sessions, with distinct ids. -/
structure Bounded (state : Option (RatchetPeerState Session)) : Prop where
  length_le : (sessionsOf state).length ≤ maxSessionsPerPeer
  nodup : ((sessionsOf state).map RatchetSessionState.sessionId).Nodup

/-- The session that a call uses, as it leaves it: the first one, turned by an encryption, the one
that opened a message, or a new one. -/
inductive Uses {Account : Type} (olm : Vodozemac Account Session)
    (before : Option (RatchetPeerState Session)) :
    PeerCall → RatchetSessionState Session → Prop where
  | encrypted {plaintext entropy session rest next message nowMs}
      (hfirst : sessionsOf before = session :: rest)
      (hnext : olm.encryptWith entropy session.pickle plaintext = .ok (next, message)) :
      Uses olm before (.encrypt plaintext) (session.used next nowMs)
  | decrypted {message identity session next plaintext nowMs} (hmem : session ∈ sessionsOf before)
      (hnext : olm.decryptWith session.pickle message = .ok (next, plaintext)) :
      Uses olm before (.decrypt message identity) (session.used next nowMs)
  | opened {message identity account peerIdentityKey updated session plaintext nowMs}
      (hopen : olm.inbound account peerIdentityKey message = .ok (updated, session, plaintext))
      (hnew : ∀ known ∈ sessionsOf before, known.sessionId ≠ olm.sessionId session) :
      Uses olm before (.decrypt message identity) ⟨olm.sessionId session, session, nowMs, nowMs⟩
  | started {bundle entropy account session nowMs}
      (houtbound :
        olm.outbound entropy account bundle.identityKey bundle.sessionKey = .ok session) :
      Uses olm before (.startSession bundle) ⟨olm.sessionId session, session, nowMs, nowMs⟩

/-- The session that the call has used is first. The others follow as they stood, without those that
no longer fit. -/
def UsedFirst {Account : Type} (olm : Vodozemac Account Session) (call : PeerCall)
    (before after : Option (RatchetPeerState Session)) : Prop :=
  ∃ session, Uses olm before call session ∧
    sessionsOf after = session :: ((sessionsOf before).filter fun other =>
      decide (other.sessionId ≠ session.sessionId)).take (maxSessionsPerPeer - 1)

/-- What a call writes in the place of the record `before`. -/
structure Rebuilds {Account : Type} (olm : Vodozemac Account Session) (call : PeerCall)
    (before after : Option (RatchetPeerState Session)) : Prop where
  bounded : Bounded before → Bounded after
  usedFirst : call.UsesSession → UsedFirst olm call before after
  confirmed : ¬ call.Resets before → ∀ ms, confirmedAtOf before = some ms →
    confirmedAtOf after = some ms
  ring : ¬ call.Resets before → ¬ call.WritesRing → bulkKeysOf after = bulkKeysOf before

/-- The contract of the calls: a state is written by `Rebuilds`, only `forget` deletes one, and a
call that uses a session does not return without its write. -/
def rebuildsContract {Account : Type} (olm : Vodozemac Account Session) : Contract Session :=
  fun _ call before ending =>
    match ending with
    | .returns _ => ¬ call.UsesSession
    | .writes state _ _ => Rebuilds olm call before (some state)
    | .deletes => call = .forget

end Rebuilds

/-! ### The operations, one by one -/

section Operations

variable {Account Session : Type} {olm : Vodozemac Account Session}
  {before : Option (RatchetPeerState Session)} {call : PeerCall}

theorem Bounded.nil {state : Option (RatchetPeerState Session)} (h : sessionsOf state = []) :
    Bounded state := by
  constructor
  · rw [h]
    exact Nat.zero_le _
  · rw [h]
    exact nodup_nil

theorem Bounded.withSession (h : Bounded before) (session : RatchetSessionState Session)
    (peerIdentityKey : Option DartString) (confirmed : Bool) :
    Bounded (some (withSession before session peerIdentityKey confirmed)) := by
  refine ⟨length_take_le _ _, ?_⟩
  have hothers : (((sessionsOf before).filter fun existing =>
      decide (existing.sessionId ≠ session.sessionId)).map
        RatchetSessionState.sessionId).Nodup :=
    h.nodup.sublist (filter_sublist.map _)
  have hall : ((session :: (sessionsOf before).filter fun existing =>
      decide (existing.sessionId ≠ session.sessionId)).map
        RatchetSessionState.sessionId).Nodup := by
    refine nodup_cons.mpr ⟨fun hmem => ?_, hothers⟩
    obtain ⟨other, hother, hid⟩ := mem_map.mp hmem
    exact of_decide_eq_true (mem_filter.mp hother).2 hid
  exact hall.sublist ((take_sublist _ _).map _)

theorem rebuilds_withSession {session : RatchetSessionState Session}
    (huses : Uses olm before call session) (peerIdentityKey : Option DartString)
    (confirmed : Bool) :
    Rebuilds olm call before (some (withSession before session peerIdentityKey confirmed)) where
  bounded h := h.withSession session peerIdentityKey confirmed
  usedFirst _ := ⟨session, huses, rfl⟩
  confirmed _ ms hms := by
    show (before.bind RatchetPeerState.confirmedAtMs).or _ = some ms
    rw [show before.bind RatchetPeerState.confirmedAtMs = some ms from hms, Option.some_or]
  ring _ _ := rfl

theorem rebuilds_dropped {identityKey : DartString}
    (h : PeerCall.Resets before (.rememberPeerIdentity identityKey) ∨ before = none) :
    Rebuilds olm (.rememberPeerIdentity identityKey) before
      (some ⟨some identityKey, [], none, none⟩) where
  bounded _ := Bounded.nil rfl
  usedFirst huses := huses.elim
  confirmed hkeeps ms hms := by
    rcases h with hresets | rfl
    · exact absurd hresets hkeeps
    · cases hms
  ring hkeeps _ := by
    rcases h with hresets | rfl
    · exact absurd hresets hkeeps
    · rfl

theorem rebuilds_first_identity (state : RatchetPeerState Session) (identityKey : DartString) :
    Rebuilds olm (.rememberPeerIdentity identityKey) (some state)
      (some { state with peerIdentityKey := some identityKey }) where
  bounded h := ⟨h.length_le, h.nodup⟩
  usedFirst huses := huses.elim
  confirmed _ _ hms := hms
  ring _ _ := rfl

theorem ensures_writeBulkRing {cipher : BulkCipher} {peer : DartString}
    (hwrites : call.WritesRing) (hidle : ¬ call.UsesSession) (ring : BulkRing)
    (result : Value Session) :
    (writeBulkRing cipher peer before ring result : Prog Account Session).Ensures
      (rebuildsContract olm peer call before) before := by
  refine Prog.Ensures.ambient _ fun env => Prog.Ensures.pause _ (Prog.Ensures.writePeer ?_)
  exact {
    bounded := fun h => ⟨h.length_le, h.nodup⟩
    usedFirst := fun huses => absurd huses hidle
    confirmed := fun _ _ hms => hms
    ring := fun _ hring => absurd hwrites hring }

theorem ensures_encrypt (peer : DartString) (plaintext : Bytes) :
    (encrypt olm peer plaintext).Ensures (rebuildsContract olm peer (.encrypt plaintext) before)
      before := by
  refine Prog.Ensures.readPeer _ ?_
  split
  · exact Prog.Ensures.failed _
  next session rest hsessions =>
  refine Prog.Ensures.ambient _ fun env => ?_
  split
  · exact Prog.Ensures.failed _
  next next message hnext =>
  exact Prog.Ensures.writePeer (rebuilds_withSession (Uses.encrypted hsessions hnext) _ _)

theorem ensures_decrypt (peer : DartString) (message : RatchetMessage)
    (peerIdentityKey : Option DartString) :
    (decrypt olm message peerIdentityKey).Ensures
      (rebuildsContract olm peer (.decrypt message peerIdentityKey) before) before := by
  refine Prog.Ensures.readPeer _ ?_
  split
  · next session next plaintext hfound =>
    obtain ⟨hmem, hnext⟩ := mem_of_tryDecrypt hfound
    refine Prog.Ensures.ambient _ fun env => ?_
    exact Prog.Ensures.writePeer (rebuilds_withSession (Uses.decrypted hmem hnext) _ _)
  split
  · next identity _ _ =>
    refine Prog.Ensures.withAccount _ fun env account updated prog hopen => ?_
    unfold openInbound at hopen
    split at hopen
    · cases hopen
    next updated' session plaintext hinbound =>
    split at hopen
    · cases hopen
    next hreplayed =>
    cases hopen
    -- the check for a replayed opening: no stored session has the new id
    have hnew : ∀ known ∈ sessionsOf before, known.sessionId ≠ olm.sessionId session :=
      fun known hknown hid =>
        hreplayed (any_eq_true.mpr ⟨known, hknown, decide_eq_true hid⟩)
    exact Prog.Ensures.writePeer (rebuilds_withSession (Uses.opened hinbound hnew) _ _)
  · exact Prog.Ensures.failed _

theorem ensures_startSession (peer : DartString) (bundle : RatchetBundle) :
    (startSession olm bundle).Ensures (rebuildsContract olm peer (.startSession bundle) before)
      before := by
  refine Prog.Ensures.withAccount _ fun _ account updated prog hact => ?_
  cases hact
  refine Prog.Ensures.ambient _ fun env => ?_
  split
  · exact Prog.Ensures.failed _
  next session houtbound =>
  refine Prog.Ensures.readPeer _ (Prog.Ensures.ambient _ fun env => ?_)
  exact Prog.Ensures.writePeer (rebuilds_withSession (Uses.started houtbound) _ _)

theorem ensures_rememberPeerIdentity (peer identityKey : DartString) :
    (rememberPeerIdentity identityKey : Prog Account Session).Ensures
      (rebuildsContract olm peer (.rememberPeerIdentity identityKey) before) before := by
  refine Prog.Ensures.readPeer _ ?_
  split
  · next known hknown =>
    split
    · exact Prog.Ensures.done fun huses => huses
    next hother =>
    exact Prog.Ensures.writePeer (rebuilds_dropped (.inl ⟨known, hknown, hother⟩))
  · exact Prog.Ensures.writePeer (rebuilds_first_identity _ _)
  · exact Prog.Ensures.writePeer (rebuilds_dropped (.inr rfl))

variable (olm) (cipher : BulkCipher)

theorem rebuilds_holds : (rebuildsContract olm).Holds olm cipher := by
  intro peer call before
  cases call with
  | encrypt plaintext => exact ensures_encrypt peer plaintext
  | decrypt message peerIdentityKey => exact ensures_decrypt peer message peerIdentityKey
  | startSession bundle => exact ensures_startSession peer bundle
  | rememberPeerIdentity identityKey => exact ensures_rememberPeerIdentity peer identityKey
  | hasSession => exact Prog.Ensures.readPeer _ (Prog.Ensures.done fun huses => huses)
  | confirmedAt => exact Prog.Ensures.readPeer _ (Prog.Ensures.done fun huses => huses)
  | sendBulkKey =>
    refine Prog.Ensures.readPeer _ (ensures_readBulkRing fun ring =>
      Prog.Ensures.ambient _ fun env => ?_)
    split
    · exact Prog.Ensures.done fun huses => huses
    · apply ensures_writeBulkRing
      · exact trivial
      · exact fun huses => huses
  | rememberReceivedBulkKey key =>
    refine Prog.Ensures.readPeer _ (ensures_readBulkRing fun ring =>
      Prog.Ensures.ambient _ fun env => ?_)
    apply ensures_writeBulkRing
    · exact trivial
    · exact fun huses => huses
  | receivedBulkKey id =>
    refine Prog.Ensures.readPeer _ (ensures_readBulkRing fun ring =>
      Prog.Ensures.ambient _ fun env => ?_)
    exact Prog.Ensures.done fun huses => huses
  | forget => exact Prog.Ensures.deletePeer rfl

end Operations

/-! ### Along a run -/

section Run

variable {Account Session : Type} [DecidableEq Account] (olm : Vodozemac Account Session)
  (cipher : BulkCipher)

/-- No call on the peer that satisfies `P` on its stored state ends with this step. -/
def Quiet (P : Option (RatchetPeerState Session) → PeerCall → Prop) (peer : DartString)
    (w : World Account Session) (input : Input) : Prop :=
  ∀ call result, ((machine olm cipher).step w input).2 = some (.peer peer call result) →
    ¬ P (w.stored peer) call

variable {olm cipher}

omit [DecidableEq Account] in
theorem bounded_step {w w' : World Account Session} {out : Option (Output Session)}
    {peer : DartString} (h : Happens (rebuildsContract olm) w w' out peer)
    (hw : Bounded (w.stored peer)) : Bounded (w'.stored peer) := by
  cases h with
  | rests hstored => rw [hstored]; exact hw
  | returned hstored => rw [hstored]; exact hw
  | wrote hstored _ hrebuilds =>
    rw [hstored]
    exact hrebuilds.bounded hw
  | deleted hstored =>
    rw [hstored]
    exact Bounded.nil rfl

omit [DecidableEq Account] in
theorem usedFirst_step {w w' : World Account Session} {peer : DartString} {call : PeerCall}
    {result : Except Failure (Value Session)}
    (h : Happens (rebuildsContract olm) w w' (some (.peer peer call result)) peer)
    (huses : call.UsesSession) :
    UsedFirst olm call (w.stored peer) (w'.stored peer) ∨
      w'.stored peer = w.stored peer ∧ ∀ value, result ≠ .ok value := by
  cases h with
  | rests _ hout => exact absurd rfl (hout call result)
  | returned hstored hout hreturns =>
    cases hout
    exact .inr ⟨hstored, fun value hok => hreturns value hok huses⟩
  | wrote hstored hout hrebuilds =>
    cases hout
    rw [hstored]
    exact .inl (hrebuilds.usedFirst huses)
  | deleted _ hout hforget =>
    cases hout
    cases hforget
    exact huses.elim

section

variable {w : World Account Session} {input : Input} {peer : DartString}
  (h : Happens (rebuildsContract olm) w ((machine olm cipher).step w input).1
    ((machine olm cipher).step w input).2 peer)

include h

theorem confirmed_step (hquiet : Quiet olm cipher PeerCall.Resets peer w input) {ms : ℤ}
    (hms : confirmedAtOf (w.stored peer) = some ms) :
    confirmedAtOf (((machine olm cipher).step w input).1.stored peer) = some ms := by
  cases h with
  | rests hstored => rw [hstored, hms]
  | returned hstored => rw [hstored, hms]
  | wrote hstored hout hrebuilds =>
    rw [hstored]
    exact hrebuilds.confirmed (hquiet _ _ hout) ms hms
  | deleted _ hout hforget =>
    cases hforget
    exact absurd trivial (hquiet _ _ hout)

theorem bulkKeys_step
    (hquiet : Quiet olm cipher (fun before call => call.Resets before ∨ call.WritesRing) peer w
      input) : bulkKeysOf (((machine olm cipher).step w input).1.stored peer) =
      bulkKeysOf (w.stored peer) := by
  cases h with
  | rests hstored => rw [hstored]
  | returned hstored => rw [hstored]
  | wrote hstored hout hrebuilds =>
    rw [hstored]
    have hcall := hquiet _ _ hout
    exact hrebuilds.ring (fun hresets => hcall (.inl hresets)) fun hring => hcall (.inr hring)
  | deleted _ hout hforget =>
    cases hforget
    exact absurd (.inl trivial) (hquiet _ _ hout)

end

/-- A fact that each step of a run keeps, under a condition on the step, is kept along a run that
continues another. -/
theorem kept_along {C : World Account Session → Input → Prop} {I : World Account Session → Prop}
    (hstep : ∀ inputs input, C ((machine olm cipher).run World.initial inputs) input →
      I ((machine olm cipher).run World.initial inputs) →
        I ((machine olm cipher).run World.initial (inputs ++ [input])))
    (inputs later : List Input)
    (hC : (machine olm cipher).Along C ((machine olm cipher).run World.initial inputs) later)
    (hI : I ((machine olm cipher).run World.initial inputs)) :
    I ((machine olm cipher).run ((machine olm cipher).run World.initial inputs) later) := by
  induction later generalizing inputs with
  | nil => exact hI
  | cons input later ih =>
  have hsnoc : (machine olm cipher).run World.initial (inputs ++ [input]) =
      ((machine olm cipher).step ((machine olm cipher).run World.initial inputs) input).1 := by
    rw [Machine.run_append, Machine.run_cons, Machine.run_nil]
  have hnext := ih (inputs ++ [input])
  rw [hsnoc] at hnext
  refine hnext hC.2 ?_
  rw [← hsnoc]
  exact hstep inputs input hC.1 hI

variable (olm cipher)

/-- **The state of a peer over every run.** At most four sessions with distinct ids are stored. A call
that uses a session leaves it first and the others in their order, or fails and leaves the state as
it was. The time of the first confirmation stays until the record is dropped, and so does the ring of
bulk keys, which only the calls that write it change. -/
theorem peer_state_kept (inputs : List Input) (peer : DartString) :
    Bounded (((machine olm cipher).run World.initial inputs).stored peer) ∧
    (∀ input call result, call.UsesSession →
      ((machine olm cipher).step ((machine olm cipher).run World.initial inputs) input).2 =
        some (.peer peer call result) →
      UsedFirst olm call (((machine olm cipher).run World.initial inputs).stored peer)
        (((machine olm cipher).run World.initial (inputs ++ [input])).stored peer) ∨
      ((machine olm cipher).run World.initial (inputs ++ [input])).stored peer =
          ((machine olm cipher).run World.initial inputs).stored peer ∧
        ∀ value, result ≠ .ok value) ∧
    (∀ later ms,
      confirmedAtOf (((machine olm cipher).run World.initial inputs).stored peer) = some ms →
      (machine olm cipher).Along (Quiet olm cipher PeerCall.Resets peer)
        ((machine olm cipher).run World.initial inputs) later →
      confirmedAtOf (((machine olm cipher).run World.initial (inputs ++ later)).stored peer) =
        some ms) ∧
    ∀ later,
      (machine olm cipher).Along
        (Quiet olm cipher (fun before call => call.Resets before ∨ call.WritesRing) peer)
        ((machine olm cipher).run World.initial inputs) later →
      bulkKeysOf (((machine olm cipher).run World.initial (inputs ++ later)).stored peer) =
        bulkKeysOf (((machine olm cipher).run World.initial inputs).stored peer) := by
  have hhappens := fun inputs input =>
    (rebuilds_holds olm cipher).happens inputs input peer
  have hsnoc : ∀ inputs input, (machine olm cipher).run World.initial (inputs ++ [input]) =
      ((machine olm cipher).step ((machine olm cipher).run World.initial inputs) input).1 := by
    intro inputs input
    rw [Machine.run_append, Machine.run_cons, Machine.run_nil]
  refine ⟨?_, fun input call result huses hout => ?_, fun later ms hms hquiet => ?_,
    fun later hquiet => ?_⟩
  · refine kept_along
      (I := fun w => Bounded (w.stored peer)) (fun inputs input _ hI => ?_) [] inputs
      (Machine.along_of_forall _ (fun _ _ => trivial) _ _) (Bounded.nil rfl)
    rw [hsnoc]
    exact bounded_step (hhappens inputs input) hI
  · rw [hsnoc]
    have hstep := hhappens inputs input
    rw [hout] at hstep
    exact usedFirst_step hstep huses
  · rw [Machine.run_append]
    refine kept_along (I := fun w => confirmedAtOf (w.stored peer) = some ms)
      (fun inputs input hC hI => ?_) inputs later hquiet hms
    rw [hsnoc]
    exact confirmed_step (hhappens inputs input) hC hI
  · rw [Machine.run_append]
    refine kept_along (I := fun w => bulkKeysOf (w.stored peer) =
        bulkKeysOf (((machine olm cipher).run World.initial inputs).stored peer))
      (fun inputs input hC hI => ?_) inputs later hquiet rfl
    rw [hsnoc]
    exact (bulkKeys_step (hhappens inputs input) hC).trans hI

end Run

end Ratchet
end Conest
