import Conest.Ratchet.Effects

/-!
# No step of the ratchet is used twice

Two things are to be told apart. What an encryption or a decryption returns is always stored first
(`returned_is_stored`): that holds of every run. That no two ciphertexts come from one pickle needs
more, since a session that left the store can come back: the check for a replayed opening looks only
at the sessions that are still stored for the same peer, and an opening with a fallback key can be
repeated. `OpensOnce` is the condition that this does not happen.

Under it, each session has one line of pickles, kept at one peer (`home`), and the pickles that were
used lie behind the one that is stored. `Tracking` states the argument once for anything that is
recorded when a call returns and stays related to the later pickles of its session; the pickles that
were encrypted with are one instance.
-/

namespace Conest
namespace Ratchet

open Lib List Option

section OpensOnce

variable {Account Session : Type}

/-- Whether some peer's stored state has a session. -/
def RatchetStore.Holds (store : RatchetStore Account Session) (sessionId : DartString) : Prop :=
  ∃ peer ∈ store.peers.keys, ∃ session ∈ sessionsOf (store.peers.get peer),
    session.sessionId = sessionId

instance RatchetStore.instDecidableHolds (store : RatchetStore Account Session)
    (sessionId : DartString) : Decidable (store.Holds sessionId) :=
  inferInstanceAs (Decidable (∃ peer ∈ store.peers.keys,
    ∃ session ∈ sessionsOf (store.peers.get peer), session.sessionId = sessionId))

theorem RatchetStore.holds_of_mem {store : RatchetStore Account Session} {peer : DartString}
    {session : RatchetSessionState Session}
    (hmem : session ∈ sessionsOf (store.peers.get peer)) : store.Holds session.sessionId := by
  refine ⟨peer, ?_, session, hmem, rfl⟩
  rw [FMap.mem_keys]
  cases hget : store.peers.get peer with
  | some state => rfl
  | none =>
    rw [hget] at hmem
    cases hmem

variable [DecidableEq Account] (olm : Vodozemac Account Session) (cipher : BulkCipher)

/-- **No session comes back.** Every session that a step of the run opens in the store was never
stored before, for any peer. `past` are the stores before `w`. -/
def OpensOnce (past : List (RatchetStore Account Session)) (w : World Account Session) :
    List Input → Prop
  | [] => True
  | input :: inputs =>
    (∀ sessionId ∈ w.opening input, ∀ store ∈ w.store :: past, ¬ store.Holds sessionId) ∧
      OpensOnce (w.store :: past) ((machine olm cipher).step w input).1 inputs

instance instDecidableOpensOnce : (past : List (RatchetStore Account Session)) →
    (w : World Account Session) → (inputs : List Input) →
    Decidable (OpensOnce olm cipher past w inputs)
  | _, _, [] => isTrue trivial
  | past, w, input :: inputs =>
    have : Decidable (OpensOnce olm cipher (w.store :: past)
        ((machine olm cipher).step w input).1 inputs) :=
      instDecidableOpensOnce (w.store :: past) _ inputs
    inferInstanceAs (Decidable
      ((∀ sessionId ∈ w.opening input, ∀ store ∈ w.store :: past, ¬ store.Holds sessionId) ∧
        OpensOnce olm cipher (w.store :: past) ((machine olm cipher).step w input).1 inputs))

end OpensOnce

/-! ### What a write brings -/

section Writes

variable {Account Session : Type} {olm : Vodozemac Account Session}
  {view : Option (RatchetPeerState Session)} {state : RatchetPeerState Session} {call : PeerCall}
  {opened : Option DartString} {value : Value Session}

/-- Where the written sessions come from: they were read, they follow one that was read, or they are
opened by this write. -/
theorem Writes.session_cases (h : Writes olm view state call opened value)
    {session : RatchetSessionState Session} (hsession : session ∈ state.sessions) :
    session ∈ sessionsOf view ∨
    (∃ before ∈ sessionsOf view, before.sessionId = session.sessionId ∧
      olm.Turn before.pickle session.pickle) ∨
    (opened = some session.sessionId ∧ olm.sessionId session.pickle = session.sessionId) := by
  -- every write but the first kind puts one session before others that were read
  have hputs : ∀ {sessionId pickle}, Puts view state sessionId pickle →
      session ∈ sessionsOf view ∨ session.sessionId = sessionId ∧ session.pickle = pickle := by
    rintro sessionId pickle ⟨first, others, hstate, rfl, rfl, hothers⟩
    rw [hstate] at hsession
    rcases mem_cons.mp hsession with rfl | hother
    · exact .inr ⟨rfl, rfl⟩
    · exact .inl (hothers session hother).1
  cases h with
  | keeps _ hsessions => exact .inl (hsessions session hsession)
  | encrypted hmem hnext hshape =>
    rcases hputs hshape with hold | ⟨hid, hpickle⟩
    · exact .inl hold
    · exact .inr (.inl ⟨_, hmem, hid.symm, .inl ⟨_, _, _, hpickle ▸ hnext⟩⟩)
  | decrypted hmem hnext hshape =>
    rcases hputs hshape with hold | ⟨hid, hpickle⟩
    · exact .inl hold
    · exact .inr (.inl ⟨_, hmem, hid.symm, .inr ⟨_, _, hpickle ▸ hnext⟩⟩)
  | started hshape =>
    rcases hputs hshape with hold | ⟨hid, hpickle⟩
    · exact .inl hold
    · exact .inr (.inr ⟨congrArg some hid.symm, hpickle ▸ hid.symm⟩)
  | opened hopen hshape =>
    rcases hputs hshape with hold | ⟨hid, hpickle⟩
    · exact .inl hold
    · exact .inr (.inr ⟨congrArg some hid.symm, hpickle ▸ hid.symm⟩)

theorem Writes.stepped (h : Writes olm view state call opened value) (hcall : ¬ call.Idle) :
    ∃ step, value.step = some step ∧ Puts view state step.sessionId step.next ∧
      (∀ source, step.source = some source → ∃ session ∈ sessionsOf view,
        session.sessionId = step.sessionId ∧ session.pickle = source) ∧
      (step.source = none → opened = some step.sessionId) := by
  cases h with
  | keeps hidle => exact absurd hidle hcall
  | started => exact absurd trivial hcall
  | encrypted hmem _ hshape =>
    refine ⟨_, rfl, hshape, fun source hsource => ⟨_, hmem, rfl, ?_⟩, fun hnone => nomatch hnone⟩
    exact some.inj hsource
  | decrypted hmem _ hshape =>
    refine ⟨_, rfl, hshape, fun source hsource => ⟨_, hmem, rfl, ?_⟩, fun hnone => nomatch hnone⟩
    exact some.inj hsource
  | opened _ hshape =>
    exact ⟨_, rfl, hshape, fun source hsource => (nomatch hsource), fun _ => rfl⟩

end Writes

/-! ### Returned steps are stored -/

section Returned

variable {Account Session : Type} (olm : Vodozemac Account Session)

/-- The successor of a step is what the store holds for the peer and the session. -/
def StoresStep (w : World Account Session) (peer : DartString) (step : RatchetStep Session) :
    Prop :=
  ((sessionsOf (w.stored peer)).find? fun session =>
    decide (session.sessionId = step.sessionId)).map RatchetSessionState.pickle = some step.next

/-- What an output promises: a returned ciphertext is that of its step, and so is a plaintext, and the
successor is stored. -/
def Output.Kept (w : World Account Session) : Output Session → Prop
  | .peer peerDeviceId (.encrypt plaintext) (.ok value) => ∃ message step entropy source,
      value = .message message step ∧ step.source = some source ∧
      olm.encryptWith entropy source plaintext = .ok (step.next, message) ∧
      StoresStep w peerDeviceId step
  | .peer peerDeviceId (.decrypt message _) (.ok value) => ∃ plaintext step,
      value = .plaintext plaintext step ∧ StoresStep w peerDeviceId step ∧
      ((∃ source, step.source = some source ∧
        olm.decryptWith source message = .ok (step.next, plaintext)) ∨
      ∃ account identity updated, step.source = none ∧
        olm.inbound account identity message = .ok (updated, step.next, plaintext))
  | _ => True

variable {olm}

theorem Puts.storesStep {w : World Account Session} {peer : DartString}
    {view : Option (RatchetPeerState Session)} {state : RatchetPeerState Session}
    {step : RatchetStep Session} (hputs : Puts view state step.sessionId step.next)
    (hstored : w.stored peer = some state) : StoresStep w peer step := by
  obtain ⟨first, others, hsessions, hid, hpickle, -⟩ := hputs
  unfold StoresStep
  rw [hstored]
  show ((state.sessions.find? _).map _) = _
  rw [hsessions, find?_cons_of_pos (by rw [hid, decide_eq_true_eq]), map_some, hpickle]

theorem Effect.kept {w w' : World Account Session} {input : Input}
    {view view' : DartString → Option (RatchetPeerState Session)} {out : Output Session}
    (h : Effect olm w w' input view view' (some out)) : out.Kept olm w' := by
  cases h with
  | drops hout =>
    cases out with
    | account call result => trivial
    | peer peer call result =>
    cases result with
    | error failure => cases call <;> trivial
    | ok value =>
      have hidle := hout peer call value rfl
      cases call <;> trivial
  | @writes peer call state opened value result hwrites _ hstored _ hresult =>
  have hpeer : w'.stored peer = some state := by rw [hstored, if_pos rfl]
  rcases hresult with rfl | rfl
  · cases hwrites with
    | keeps hidle => cases call <;> trivial
    | started => trivial
    | encrypted _ hnext hputs => exact ⟨_, _, _, _, rfl, rfl, hnext, hputs.storesStep hpeer⟩
    | decrypted _ hnext hputs =>
      exact ⟨_, _, rfl, hputs.storesStep hpeer, .inl ⟨_, rfl, hnext⟩⟩
    | opened hopen hputs =>
      exact ⟨_, _, rfl, hputs.storesStep hpeer, .inr ⟨_, _, _, rfl, hopen⟩⟩
  · cases call <;> trivial

/-- **What is returned is stored.** After every run, a step that returns a ciphertext or a plaintext
leaves the successor of its pickle in the store. -/
theorem returned_is_stored [DecidableEq Account] (cipher : BulkCipher) (inputs : List Input) (input : Input)
    {out : Output Session}
    (hout : ((machine olm cipher).step ((machine olm cipher).run World.initial inputs) input).2 =
      some out) :
    out.Kept olm
      ((machine olm cipher).step ((machine olm cipher).run World.initial inputs) input).1 := by
  obtain ⟨view, hview⟩ : ∃ view, Coherent olm ((machine olm cipher).run World.initial inputs) view :=
    Machine.run_induction (I := fun w => ∃ view, Coherent olm w view)
      (fun w input _ h => h.elim fun view hview =>
        (step_effect hview cipher input).imp fun _ heffect => heffect.1)
      ⟨_, Coherent.initial⟩
  obtain ⟨view', -, heffect⟩ := step_effect hview cipher input
  rw [hout] at heffect
  exact heffect.kept

end Returned

/-! ### Lines of pickles -/

/-- Something recorded when a call returns: it belongs to a session, and it stays related to the
pickles that follow. A step that is recorded again would start from a pickle that is already
related. -/
structure Tracking {Account Session : Type} (olm : Vodozemac Account Session) (Item : Type) where
  item : PeerCall → Value Session → Option Item
  sessionOf : Item → DartString
  rel : Item → Session → Prop
  item_idle : ∀ call value, call.Idle → item call value = none
  rel_turn : ∀ x session next, rel x session → olm.Turn session next → rel x next
  stepped : ∀ view state call opened value x step, Writes olm view state call opened value →
    (∀ session ∈ sessionsOf view, olm.sessionId session.pickle = session.sessionId) →
    item call value = some x → value.step = some step →
      sessionOf x = step.sessionId ∧ rel x step.next ∧
        ∀ source, step.source = some source → ¬ rel x source

namespace Tracking

variable {Account Session Item : Type} {olm : Vodozemac Account Session} (T : Tracking olm Item)

/-- What an output records. -/
def recorded : Option (Output Session) → Option Item
  | some (.peer _ call (.ok value)) => T.item call value
  | _ => none

/-- Some store of the list held the session. -/
def Seen (stores : List (RatchetStore Account Session)) (sessionId : DartString) : Prop :=
  ∃ store ∈ stores, store.Holds sessionId

/-- A session at its home: everything recorded of it lies behind its pickle. -/
structure Settled (stores : List (RatchetStore Account Session)) (items : List Item)
    (home : DartString → DartString) (peer : DartString) (session : RatchetSessionState Session) :
    Prop where
  seen : Seen stores session.sessionId
  at_home : home session.sessionId = peer
  named : olm.sessionId session.pickle = session.sessionId
  behind : ∀ x ∈ items, T.sessionOf x = session.sessionId → T.rel x session.pickle

/-- All sessions that are stored or worked on are settled. -/
structure Line (stores : List (RatchetStore Account Session)) (items : List Item)
    (home : DartString → DartString) (w : World Account Session)
    (view : DartString → Option (RatchetPeerState Session)) : Prop where
  stored : ∀ peer, ∀ session ∈ sessionsOf (w.stored peer),
    T.Settled stores items home peer session
  viewed : ∀ peer, ∀ session ∈ sessionsOf (view peer), T.Settled stores items home peer session
  known : ∀ x ∈ items, Seen stores (T.sessionOf x)

variable {T} {stores : List (RatchetStore Account Session)} {items : List Item}
  {home : DartString → DartString} {w w' : World Account Session} {input : Input}
  {view view' : DartString → Option (RatchetPeerState Session)} {out : Option (Output Session)}

theorem Seen.cons {sessionId : DartString} (store : RatchetStore Account Session)
    (h : Seen stores sessionId) : Seen (store :: stores) sessionId :=
  h.imp fun _ hmem => ⟨mem_cons_of_mem store hmem.1, hmem.2⟩

theorem Settled.cons {peer : DartString} {session : RatchetSessionState Session}
    (store : RatchetStore Account Session) (h : T.Settled stores items home peer session) :
    T.Settled (store :: stores) items home peer session :=
  ⟨h.seen.cons store, h.at_home, h.named, h.behind⟩

theorem Settled.rehome {home' : DartString → DartString}
    (hsame : ∀ sessionId, Seen stores sessionId → home' sessionId = home sessionId)
    {peer : DartString} {session : RatchetSessionState Session}
    (h : T.Settled stores items home peer session) :
    T.Settled stores items home' peer session :=
  ⟨h.seen, (hsame _ h.seen).trans h.at_home, h.named, h.behind⟩

/-- **A write keeps the lines.** A session that it opens was never seen, so its home is chosen now. -/
theorem Line.written (h : T.Line stores items home w view) (hlaw : olm.Lawful) {peer : DartString}
    {call : PeerCall} {state : RatchetPeerState Session} {opened : Option DartString}
    {value : Value Session} (hwrites : Writes olm (view peer) state call opened value)
    (hfresh : ∀ sessionId ∈ opened, ¬ Seen stores sessionId)
    {store : RatchetStore Account Session} (hstore : store.peers.get peer = some state) :
    ∃ home', (∀ sessionId, Seen stores sessionId → home' sessionId = home sessionId) ∧
      ∀ session ∈ state.sessions, T.Settled (store :: stores) items home' peer session := by
  have hseen : ∀ session ∈ state.sessions, Seen (store :: stores) session.sessionId := by
    intro session hsession
    have hmem : session ∈ sessionsOf (store.peers.get peer) := by
      rw [hstore]
      exact hsession
    exact ⟨store, mem_cons_self, RatchetStore.holds_of_mem hmem⟩
  refine ⟨fun sessionId => if opened = some sessionId then peer else home sessionId, ?_, ?_⟩
  · intro sessionId hknown
    exact if_neg fun hopened => hfresh sessionId hopened hknown
  intro session hsession
  have hsame : ∀ {before : RatchetSessionState Session}, before ∈ sessionsOf (view peer) →
      ¬ opened = some before.sessionId := fun hmem hopened =>
    hfresh _ hopened (h.viewed peer _ hmem).seen
  rcases hwrites.session_cases hsession with hold | ⟨before, hmem, hid, hturn⟩ | ⟨hopened, hnamed⟩
  · have hsettled := h.viewed peer session hold
    refine ⟨hseen session hsession, ?_, hsettled.named, hsettled.behind⟩
    exact (if_neg (hsame hold)).trans hsettled.at_home
  · have hsettled := h.viewed peer before hmem
    refine ⟨hseen session hsession, ?_, ?_, fun x hx hx' => ?_⟩
    · rw [← hid]
      exact (if_neg (hsame hmem)).trans hsettled.at_home
    · rw [hlaw.sessionId_turn _ _ hturn, hsettled.named, hid]
    · exact T.rel_turn x _ _ (hsettled.behind x hx (hx'.trans hid.symm)) hturn
  · refine ⟨hseen session hsession, if_pos hopened, hnamed, fun x hx hx' => ?_⟩
    -- nothing is recorded of a session that was never seen
    exact absurd (hx' ▸ h.known x hx) (hfresh _ hopened)

theorem Line.step (h : T.Line stores items home w view) (hlaw : olm.Lawful)
    (heffect : Effect olm w w' input view view' out)
    (hfresh : ∀ sessionId ∈ w.opening input, ¬ Seen stores sessionId) :
    (∀ x ∈ T.recorded out, x ∉ items) ∧
      ∃ home', T.Line (w'.store :: stores) (items ++ (T.recorded out).toList) home' w' view' := by
  cases heffect with
  | drops hout hstored hview =>
    have hnone : T.recorded out = none := by
      unfold recorded
      split
      next peer call value => exact T.item_idle call value (hout peer call value rfl)
      · rfl
    have hkept : ∀ peer, ∀ session ∈ sessionsOf (w'.stored peer),
        T.Settled (w'.store :: stores) items home peer session := by
      intro peer session hsession
      rcases hstored peer with hsame | hgone
      · exact (h.stored peer session (hsame ▸ hsession)).cons _
      · rw [hgone] at hsession
        cases hsession
    rw [hnone]
    refine ⟨fun x hx => (nomatch hx), home, ?_⟩
    rw [toList_none, append_nil]
    refine ⟨hkept, fun peer session hsession => ?_, fun x hx => (h.known x hx).cons _⟩
    rcases hview peer with hsame | hstored'
    · exact (h.viewed peer session (hsame ▸ hsession)).cons _
    · exact hkept peer session (hstored' ▸ hsession)
  | @writes peer call state opened value result hwrites hopening hstored hview hresult =>
    rw [hopening] at hfresh
    have hstore : w'.store.peers.get peer = some state := (hstored peer).trans (if_pos rfl)
    obtain ⟨home', hsame, hstate⟩ := h.written hlaw hwrites hfresh hstore
    have hline : T.Line (w'.store :: stores) items home' w' view' := by
      refine ⟨fun p session hsession => ?_, fun p session hsession => ?_,
        fun x hx => (h.known x hx).cons _⟩
      · rw [hstored] at hsession
        by_cases hp : p = peer
        · rw [if_pos hp] at hsession
          exact hp ▸ hstate session hsession
        · rw [if_neg hp] at hsession
          exact ((h.stored p session hsession).rehome hsame).cons _
      · rw [hview] at hsession
        by_cases hp : p = peer
        · rw [if_pos hp] at hsession
          exact hp ▸ hstate session hsession
        · rw [if_neg hp] at hsession
          exact ((h.viewed p session hsession).rehome hsame).cons _
    rcases hresult with rfl | rfl
    swap
    · refine ⟨fun x hx => (nomatch hx), home', ?_⟩
      show T.Line _ (items ++ []) home' w' view'
      rw [append_nil]
      exact hline
    show (∀ x ∈ T.item call value, x ∉ items) ∧ ∃ home', T.Line _
      (items ++ (T.item call value).toList) home' w' view'
    cases hitem : T.item call value with
    | none =>
      refine ⟨fun x hx => (nomatch hx), home', ?_⟩
      rw [toList_none, append_nil]
      exact hline
    | some x =>
    have hcall : ¬ call.Idle := fun hidle => nomatch (T.item_idle call value hidle).symm.trans hitem
    obtain ⟨step, hstep, ⟨first, others, hsessions, hid, hpickle, hothers⟩, hsource, hopen⟩ :=
      hwrites.stepped hcall
    obtain ⟨hx, hrel, hnew⟩ := T.stepped _ _ _ _ _ _ _ hwrites
      (fun session hsession => (h.viewed peer session hsession).named) hitem hstep
    refine ⟨?_, home', ?_⟩
    · -- recorded before, it would be related to the pickle that this step starts from
      rintro x' hx' hmem
      cases hx'
      cases hsrc : step.source with
      | some source =>
        obtain ⟨session, hsession, hsid, rfl⟩ := hsource source hsrc
        exact hnew _ hsrc ((h.viewed peer session hsession).behind x hmem (hx.trans hsid.symm))
      | none => exact hfresh _ (hopen hsrc) (hx ▸ h.known x hmem)
    have hfirst := hstate first (hsessions ▸ mem_cons_self)
    have hbehind : ∀ {p : DartString} {session : RatchetSessionState Session},
        T.Settled (w'.store :: stores) items home' p session →
        (p = peer → session ∈ state.sessions) →
        T.Settled (w'.store :: stores) (items ++ [x]) home' p session := by
      intro p session hsettled hpeer
      refine ⟨hsettled.seen, hsettled.at_home, hsettled.named, fun y hy hy' => ?_⟩
      rcases mem_append.mp hy with hold | hlast
      · exact hsettled.behind y hold hy'
      rw [mem_singleton] at hlast
      subst hlast
      -- the session of the step has its home here, and the written state has it first
      have hsid : session.sessionId = step.sessionId := hy'.symm.trans hx
      have hp : p = peer := by
        rw [← hsettled.at_home, hsid, ← hid]
        exact hfirst.at_home
      have hmem := hpeer hp
      rw [hsessions] at hmem
      rcases mem_cons.mp hmem with rfl | hother
      · rw [hpickle]
        exact hrel
      · exact absurd hsid (hothers session hother).2
    refine ⟨fun p session hsession => hbehind (hline.stored p session hsession) ?_,
      fun p session hsession => hbehind (hline.viewed p session hsession) ?_, fun y hy => ?_⟩
    · rintro rfl
      rw [hstored, if_pos rfl] at hsession
      exact hsession
    · rintro rfl
      rw [hview, if_pos rfl] at hsession
      exact hsession
    · rcases mem_append.mp hy with hold | hlast
      · exact hline.known y hold
      · rw [mem_singleton.mp hlast, hx, ← hid]
        exact hfirst.seen

variable [DecidableEq Account]

/-- **Nothing is recorded twice** in a run in which no session comes back. -/
theorem recorded_nodup (T : Tracking olm Item) (hlaw : olm.Lawful) (cipher : BulkCipher)
    {inputs : List Input} {past : List (RatchetStore Account Session)}
    (hcoherent : Coherent olm w view) (hline : T.Line (w.store :: past) items home w view)
    (honce : OpensOnce olm cipher past w inputs) (hnodup : items.Nodup) :
    (items ++ ((machine olm cipher).outputs w inputs).filterMap T.recorded).Nodup := by
  induction inputs generalizing w past items home view with
  | nil => simpa using hnodup
  | cons input inputs ih =>
  obtain ⟨hfresh, hrest⟩ := honce
  obtain ⟨view', hcoherent', heffect⟩ := step_effect hcoherent cipher input
  have hunseen : ∀ sessionId ∈ w.opening input, ¬ Seen (w.store :: past) sessionId :=
    fun sessionId hopening ⟨store, hstore, hholds⟩ =>
      hfresh sessionId hopening store hstore hholds
  obtain ⟨hnew, home', hline'⟩ := hline.step hlaw heffect hunseen
  have hnodup' : (items ++ (T.recorded ((machine olm cipher).step w input).2).toList).Nodup := by
    cases hx : T.recorded ((machine olm cipher).step w input).2 with
    | none => simpa using hnodup
    | some x =>
    have hfresh' : x ∉ items := hnew x hx
    rw [nodup_append]
    refine ⟨hnodup, nodup_singleton x, fun y hy z hz => ?_⟩
    rw [mem_singleton.mp hz]
    exact fun heq => hfresh' (heq ▸ hy)
  have hnext := ih hcoherent' hline' hrest hnodup'
  rw [Machine.outputs_cons, filterMap_cons]
  cases hx : T.recorded ((machine olm cipher).step w input).2 with
  | none =>
    rw [hx, toList_none, append_nil] at hnext
    exact hnext
  | some x =>
    rw [hx, append_assoc] at hnext
    exact hnext

end Tracking

/-! ### Pickles of encryptions -/

section Encryptions

variable {Account Session : Type} {olm : Vodozemac Account Session}

/-- The pickle that a returned ciphertext was made from. -/
def usedPickle : PeerCall → Value Session → Option Session
  | .encrypt _, .message _ step => step.source
  | _, _ => none

/-- The used pickles lie strictly behind the stored one. -/
def encryptions (hlaw : olm.Lawful) : Tracking olm Session where
  item := usedPickle
  sessionOf := olm.sessionId
  rel := Relation.TransGen olm.Turn
  item_idle call value hidle := by
    cases call with
    | encrypt plaintext => exact absurd hidle id
    | _ => rfl
  rel_turn _ _ _ hrel hturn := hrel.tail hturn
  stepped view state call opened value x step hwrites hnamed hitem hstep := by
    cases hwrites with
    | @encrypted plaintext entropy session next message hmem hnext hputs =>
      cases hitem
      cases hstep
      refine ⟨hnamed session hmem, Relation.TransGen.single (Or.inl ⟨_, _, _, hnext⟩), ?_⟩
      intro source hsource
      cases hsource
      exact hlaw.forward session.pickle
    | keeps hidle =>
      cases call with
      | encrypt plaintext => exact absurd hidle id
      | _ => cases hitem
    | decrypted => cases hitem
    | started => cases hitem
    | opened => cases hitem

/-- The pickles that the returned ciphertexts of a run were made from, in order. -/
def usedPickles (outputs : List (Option (Output Session))) : List Session :=
  outputs.filterMap fun
    | some (.peer _ call (.ok value)) => usedPickle call value
    | _ => none

/-- **No step of the ratchet is used twice.** In every run, interleaved and with failures and crashes,
a returned ciphertext or plaintext comes from a step whose successor is stored. And as long as no
session comes back to the store after it was there, no two returned ciphertexts come from one
pickle. -/
theorem no_step_used_twice [DecidableEq Account] (hlaw : olm.Lawful) (cipher : BulkCipher)
    (inputs : List Input) :
    (∀ before input after out, inputs = before ++ input :: after →
      ((machine olm cipher).step ((machine olm cipher).run World.initial before) input).2 =
        some out →
      out.Kept olm
        ((machine olm cipher).step ((machine olm cipher).run World.initial before) input).1) ∧
    (OpensOnce olm cipher [] World.initial inputs →
      (usedPickles ((machine olm cipher).outputs World.initial inputs)).Nodup) := by
  refine ⟨fun before input after out _ hout => returned_is_stored cipher before input hout, ?_⟩
  intro honce
  have hline : (encryptions hlaw).Line [World.initial.store] [] (fun _ => []) World.initial
      fun _ => none :=
    ⟨fun _ _ hsession => (nomatch hsession), fun _ _ hsession => (nomatch hsession),
      fun _ hx => nomatch hx⟩
  have hnodup := (encryptions hlaw).recorded_nodup hlaw cipher Coherent.initial hline honce
    nodup_nil
  exact hnodup

end Encryptions

/-! ### A stand-in for vodozemac

It has Olm's observable rules, as the engine of the tests: messages open a session until a reply
arrives, a message number is used once, and a one-time key is consumed. Keys and identifiers are
one code unit, and a ciphertext is its session, sender, key and number before the plaintext. -/

namespace Sample

variable {plaintext : Bytes}

structure Account where
  identity : UInt8
  oneTimeKeys : List UInt8
  fallback : Option UInt8
  previous : Option UInt8
deriving DecidableEq

structure Session where
  id : UInt8
  me : UInt8
  key : UInt8
  next : ℕ
  received : Bool
  seen : List UInt8
deriving DecidableEq

def text (byte : UInt8) : DartString := [Fin.ofNat 65536 byte.toNat]

def encrypt (session : Session) (plaintext : Bytes) : Session × OlmMessage :=
  let ciphertext := session.id :: session.me :: session.key :: UInt8.ofNat session.next :: plaintext
  ({ session with next := session.next + 1 },
    if session.received then .normal ciphertext else .preKey ciphertext)

def decrypt (session : Session) (ciphertext : Bytes) : Except String (Session × Bytes) :=
  match ciphertext with
  | id :: _ :: _ :: number :: plaintext =>
    if id = session.id ∧ number ∉ session.seen then
      .ok ({ session with seen := number :: session.seen, received := true }, plaintext)
    else .error "bad mac"
  | _ => .error "undecodable message"

def Account.holds (account : Account) (key : UInt8) : Bool :=
  account.oneTimeKeys.contains key || account.fallback == some key || account.previous == some key

def createInboundSession (account : Account) (peerIdentityKey : DartString) (ciphertext : Bytes) :
    Except String (Account × Session × Bytes) :=
  match ciphertext with
  | id :: sender :: key :: number :: plaintext =>
    if text sender = peerIdentityKey ∧ account.holds key = true then
      .ok ({ account with oneTimeKeys := account.oneTimeKeys.filter fun k => decide (k ≠ key) },
        ⟨id, account.identity, 0, 0, true, [number]⟩, plaintext)
    else .error "cannot open session"
  | _ => .error "undecodable message"

def olm : Vodozemac Account Session where
  newAccount entropy := ⟨entropy 0, [], none, none⟩
  identityKey account := text account.identity
  fallbackKey account := account.fallback.map text
  generateFallbackKey entropy account :=
    { account with fallback := some (entropy 0), previous := account.fallback }
  generateOneTimeKeys entropy account :=
    ({ account with oneTimeKeys := account.oneTimeKeys ++ [entropy 0] }, some (text (entropy 0)))
  createOutboundSession entropy account _ peerOneTimeKey :=
    match peerOneTimeKey with
    | [key] => .ok ⟨entropy 0, account.identity, UInt8.ofNat key.val, 0, false, []⟩
    | _ => .error "invalid key"
  createInboundSession := createInboundSession
  sessionId session := text session.id
  encrypt _ session plaintext := .ok (encrypt session plaintext)
  decrypt session
    | .preKey ciphertext => decrypt session ciphertext
    | .normal ciphertext => decrypt session ciphertext

def Session.turns (session : Session) : ℕ := session.next + session.seen.length

theorem decrypt_ok {session next : Session} {ciphertext : Bytes}
    (h : decrypt session ciphertext = .ok (next, plaintext)) : ∃ number, number ∉ session.seen ∧
      next = { session with seen := number :: session.seen, received := true } ∧
      ciphertext[3]? = some number ∧ ciphertext[0]? = some session.id := by
  unfold decrypt at h
  split at h
  · next id _ _ number _ =>
    split at h
    · next hnew =>
      cases h
      exact ⟨number, hnew.2, rfl, rfl, congrArg some hnew.1⟩
    · cases h
  · cases h

theorem decryptWith_ok {session next : Session} {request : RatchetMessage}
    (h : olm.decryptWith session request = .ok (next, plaintext)) :
    decrypt session request.ciphertext = .ok (next, plaintext) := by
  unfold Vodozemac.decryptWith message at h
  split at h
  · exact h
  · split at h
    · exact h
    · split at h <;> cases h

theorem encryptWith_ok {entropy : Entropy} {session next : Session} {request : RatchetMessage}
    (h : olm.encryptWith entropy session plaintext = .ok (next, request)) :
    next = { session with next := session.next + 1 } := by
  unfold Vodozemac.encryptWith at h
  split at h
  · cases h
    rfl
  · cases h

theorem turn_cases {session next : Session} (h : olm.Turn session next) :
    next = { session with next := session.next + 1 } ∨ ∃ number,
      next = { session with seen := number :: session.seen, received := true } := by
  rcases h with ⟨_, _, _, hencrypt⟩ | ⟨_, _, hdecrypt⟩
  · exact .inl (encryptWith_ok hencrypt)
  · obtain ⟨number, -, hnext, -⟩ := decrypt_ok (decryptWith_ok hdecrypt)
    exact .inr ⟨number, hnext⟩

theorem olm_lawful : olm.Lawful where
  sessionId_turn session next hturn := by
    rcases turn_cases hturn with rfl | ⟨number, rfl⟩
    · rfl
    · rfl
  forward session hloop := by
    have hforward : ∀ {a b : Session}, Relation.TransGen olm.Turn a b → a.turns < b.turns := by
      intro a b hab
      have hstep : ∀ {c d : Session}, olm.Turn c d → c.turns < d.turns := by
        intro c d hturn
        unfold Session.turns
        rcases turn_cases hturn with rfl | ⟨number, rfl⟩
        · dsimp only
          omega
        · dsimp only [length_cons]
          omega
      induction hab with
      | single hturn => exact hstep hturn
      | tail _ hturn ih => exact Nat.lt_trans ih (hstep hturn)
    exact Nat.lt_irrefl _ (hforward hloop)

def cipher : BulkCipher where
  encryptRing _ _ _ := []
  decryptRing _ _ := .ok ⟨[], []⟩

def alice : DartString := DartString.ofString "alice"

def env (byte : UInt8) : Ambient := ⟨byte.toNat, fun _ => byte⟩

def opener : RatchetMessage := ⟨0, [7, 2, 5, 0, 104]⟩

def goesOn (count : ℕ) (byte : UInt8) : List Input :=
  List.replicate count (.resume alice (env byte) .succeeds)

def accountGoesOn (count : ℕ) (byte : UInt8) : List Input :=
  List.replicate count (.resumeAccount (env byte) .succeeds)

def publishes : List Input := .callAccount (.createBundle false) :: accountGoesOn 3 5

def receives : List Input :=
  .call alice (.decrypt opener (some (text 2))) ::
    (goesOn 3 0 ++ accountGoesOn 1 0 ++ goesOn 2 0)

def replies : List Input := .call alice (.encrypt [111]) :: goesOn 4 0

def starts (byte : UInt8) : List Input :=
  .call alice (.startSession ⟨text 2, text 6, none⟩) ::
    (goesOn 1 byte ++ accountGoesOn 1 byte ++ goesOn 5 byte)

def replayed : List Input :=
  publishes ++ receives ++ replies ++ starts 11 ++ starts 12 ++ starts 13 ++ starts 14 ++
    (.call alice (.decrypt opener (some (text 2))) ::
      (goesOn 2 0 ++ accountGoesOn 1 0 ++ goesOn 2 0)) ++ replies

theorem pickle_used_twice : olm.Lawful ∧
    ¬ (usedPickles ((machine olm cipher).outputs World.initial replayed)).Nodup :=
  ⟨olm_lawful, by decide⟩

theorem no_step_used_twice_replies :
    OpensOnce olm cipher [] World.initial (publishes ++ receives ++ replies ++ replies) ∧
    (usedPickles ((machine olm cipher).outputs World.initial
      (publishes ++ receives ++ replies ++ replies))).length = 2 ∧
    (usedPickles ((machine olm cipher).outputs World.initial
      (publishes ++ receives ++ replies ++ replies))).Nodup := by
  have honce : OpensOnce olm cipher [] World.initial
      (publishes ++ receives ++ replies ++ replies) := by decide
  exact ⟨honce, by decide, (no_step_used_twice olm_lawful cipher _).2 honce⟩

end Sample

end Ratchet
end Conest
