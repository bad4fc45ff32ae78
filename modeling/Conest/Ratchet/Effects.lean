import Conest.Ratchet.Interleaving

/-!
# What a step does to the stored states

`step_effect` says once what a step of the system can do: it leaves the stored states alone or drops
some, or it completes the write of one call. What a call may write is said by `Writes`, one
constructor for each kind of write, and `safe_prog` checks the operations against it.

The step lemma rests on `Coherent`: what the running call of a peer has read is what the store holds,
and the cache holds nothing else. A write takes its peer out of the cache before it starts, so a
failure leaves nothing behind that a later call could read in place of the store.
-/

namespace Conest
namespace Ratchet

open Lib List Option

/-! ### What the operations write -/

section Safe

variable {Account Session : Type} (olm : Vodozemac Account Session)

/-- Neither an encryption nor a decryption. -/
def PeerCall.Idle : PeerCall → Prop
  | .encrypt _ => False
  | .decrypt _ _ => False
  | _ => True

/-- A state holds a session first, and besides it only other sessions of the view. -/
def Puts (view : Option (RatchetPeerState Session)) (state : RatchetPeerState Session)
    (sessionId : DartString) (pickle : Session) : Prop :=
  ∃ first others, state.sessions = first :: others ∧ first.sessionId = sessionId ∧
    first.pickle = pickle ∧
    ∀ session ∈ others, session ∈ sessionsOf view ∧ session.sessionId ≠ sessionId

/-- The writes of a call that has read `view`, with the session they open and their result. -/
inductive Writes (view : Option (RatchetPeerState Session)) (state : RatchetPeerState Session) :
    PeerCall → Option DartString → Value Session → Prop where
  | keeps {call result} (hidle : call.Idle)
      (hsessions : ∀ session ∈ state.sessions, session ∈ sessionsOf view) :
      Writes view state call none result
  | encrypted {plaintext entropy session next message} (hmem : session ∈ sessionsOf view)
      (hnext : olm.encryptWith entropy session.pickle plaintext = .ok (next, message))
      (hputs : Puts view state session.sessionId next) :
      Writes view state (.encrypt plaintext) none
        (.message message ⟨session.sessionId, some session.pickle, next⟩)
  | decrypted {message identity session next plaintext} (hmem : session ∈ sessionsOf view)
      (hnext : olm.decryptWith session.pickle message = .ok (next, plaintext))
      (hputs : Puts view state session.sessionId next) :
      Writes view state (.decrypt message identity) none
        (.plaintext plaintext ⟨session.sessionId, some session.pickle, next⟩)
  | started {bundle session} (hputs : Puts view state (olm.sessionId session) session) :
      Writes view state (.startSession bundle) (some (olm.sessionId session)) .nothing
  | opened {message identity account peerIdentityKey updated session plaintext}
      (hopen : olm.inbound account peerIdentityKey message = .ok (updated, session, plaintext))
      (hputs : Puts view state (olm.sessionId session) session) :
      Writes view state (.decrypt message identity) (some (olm.sessionId session))
        (.plaintext plaintext ⟨olm.sessionId session, none, session⟩)

/-- Run where the peer's state is `view`, a program writes what its call may write, and returns a
step of the ratchet only with its write. -/
inductive Safe (call : PeerCall) (view : Option (RatchetPeerState Session)) :
    Prog Account Session → Prop where
  | failed (failure) : Safe call view (.done (.error failure))
  | done (value) (hidle : call.Idle) : Safe call view (.done (.ok value))
  | ambient (k) (h : ∀ env, Safe call view (k env)) : Safe call view (.ambient k)
  | pause (k) (h : Safe call view k) : Safe call view (.pause k)
  | readPeer (k) (h : Safe call view (k view)) : Safe call view (.readPeer k)
  | withAccount (act) (h : ∀ env account updated prog,
      act env account = .ok (updated, prog) → Safe call view prog) :
      Safe call view (.withAccount act)
  | writePeer {state opened result} (h : Writes olm view state call opened result) :
      Safe call view (.writePeer state opened result)
  | deletePeer (hidle : call.Idle) : Safe call view .deletePeer

variable {olm} {call : PeerCall} {view : Option (RatchetPeerState Session)}

theorem puts_withSession (session : RatchetSessionState Session)
    (peerIdentityKey : Option DartString) (confirmed : Bool) :
    Puts view (withSession view session peerIdentityKey confirmed) session.sessionId
      session.pickle := by
  refine ⟨session, _, rfl, rfl, rfl, fun other hother => ?_⟩
  have hfilter := mem_of_mem_take hother
  rw [mem_filter, decide_eq_true_eq] at hfilter
  exact hfilter

theorem safe_readBulkRing {cipher : BulkCipher} {peer : DartString}
    {state : Option (RatchetPeerState Session)} {k : BulkRing → Prog Account Session}
    (hk : ∀ ring, Safe olm call view (k ring)) :
    Safe olm call view (readBulkRing cipher peer state k) := by
  unfold readBulkRing
  split
  · exact hk _
  refine Safe.pause _ ?_
  split
  · exact Safe.failed _
  · exact hk _

theorem safe_writeBulkRing {cipher : BulkCipher} {peer : DartString} (hidle : call.Idle)
    (ring : BulkRing) (result : Value Session) :
    @Safe Account Session olm call view (writeBulkRing cipher peer view ring result) := by
  refine Safe.ambient _ fun env => Safe.pause _ (Safe.writePeer ?_)
  exact Writes.keeps hidle fun session hsession => hsession

theorem mem_of_tryDecrypt {message : RatchetMessage} {sessions : List (RatchetSessionState Session)}
    {session : RatchetSessionState Session} {next : Session} {plaintext : Bytes}
    (h : tryDecrypt olm message sessions = some (session, next, plaintext)) :
    session ∈ sessions ∧ olm.decryptWith session.pickle message = .ok (next, plaintext) := by
  induction sessions with
  | nil => cases h
  | cons first rest ih =>
  unfold tryDecrypt at h
  split at h
  · next hfirst =>
    cases h
    exact ⟨mem_cons_self, hfirst⟩
  · obtain ⟨hmem, hnext⟩ := ih h
    exact ⟨mem_cons_of_mem first hmem, hnext⟩

theorem safe_encrypt (peer : DartString) (plaintext : Bytes) :
    Safe olm (.encrypt plaintext) view (encrypt olm peer plaintext) := by
  refine Safe.readPeer _ ?_
  split
  · exact Safe.failed _
  next session rest hsessions =>
  refine Safe.ambient _ fun env => ?_
  split
  · exact Safe.failed _
  next next message hnext =>
  have hmem : session ∈ sessionsOf view := hsessions ▸ mem_cons_self
  exact Safe.writePeer (Writes.encrypted hmem hnext (puts_withSession _ _ _))

theorem safe_decrypt (message : RatchetMessage) (peerIdentityKey : Option DartString) :
    Safe olm (.decrypt message peerIdentityKey) view (decrypt olm message peerIdentityKey) := by
  refine Safe.readPeer _ ?_
  split
  · next session next plaintext hfound =>
    obtain ⟨hmem, hnext⟩ := mem_of_tryDecrypt hfound
    refine Safe.ambient _ fun env => ?_
    exact Safe.writePeer (Writes.decrypted hmem hnext (puts_withSession _ _ _))
  split
  · next identity _ _ =>
    refine Safe.withAccount _ fun env account updated prog hopen => ?_
    unfold openInbound at hopen
    split at hopen
    · cases hopen
    next hinbound =>
    split at hopen
    · cases hopen
    · cases hopen
      exact Safe.writePeer (Writes.opened hinbound (puts_withSession _ _ _))
  · exact Safe.failed _

theorem safe_startSession (bundle : RatchetBundle) :
    Safe olm (.startSession bundle) view (startSession olm bundle) := by
  refine Safe.withAccount _ fun _ account updated prog hact => ?_
  cases hact
  refine Safe.ambient _ fun env => ?_
  split
  · exact Safe.failed _
  · refine Safe.readPeer _ (Safe.ambient _ fun env => ?_)
    exact Safe.writePeer (Writes.started (puts_withSession _ _ _))

theorem safe_rememberPeerIdentity (identityKey : DartString) :
    @Safe Account Session olm (.rememberPeerIdentity identityKey) view
      (rememberPeerIdentity identityKey) := by
  have hnew : @Safe Account Session olm (.rememberPeerIdentity identityKey) view
      (.writePeer ⟨some identityKey, [], none, none⟩ none .nothing) :=
    Safe.writePeer (Writes.keeps trivial fun _ hsession => nomatch hsession)
  refine Safe.readPeer _ ?_
  split
  · split
    · exact Safe.done _ trivial
    · exact hnew
  · exact Safe.writePeer (Writes.keeps trivial fun session hsession => hsession)
  · exact hnew

/-- **Every call is safe**, whatever the state of its peer is when it starts. -/
theorem safe_prog (cipher : BulkCipher) (peer : DartString) :
    Safe olm call view (call.prog olm cipher peer) := by
  cases call with
  | encrypt plaintext => exact safe_encrypt peer plaintext
  | decrypt message peerIdentityKey => exact safe_decrypt message peerIdentityKey
  | startSession bundle => exact safe_startSession bundle
  | rememberPeerIdentity identityKey => exact safe_rememberPeerIdentity identityKey
  | hasSession => exact Safe.readPeer _ (Safe.done _ trivial)
  | confirmedAt => exact Safe.readPeer _ (Safe.done _ trivial)
  | sendBulkKey =>
    refine Safe.readPeer _ (safe_readBulkRing fun ring => Safe.ambient _ fun env => ?_)
    split
    · exact Safe.done _ trivial
    · apply safe_writeBulkRing
      trivial
  | rememberReceivedBulkKey key =>
    refine Safe.readPeer _ (safe_readBulkRing fun ring => Safe.ambient _ fun env => ?_)
    apply safe_writeBulkRing
    trivial
  | receivedBulkKey id =>
    refine Safe.readPeer _ (safe_readBulkRing fun ring => Safe.ambient _ fun env => ?_)
    exact Safe.done _ trivial
  | forget => exact Safe.deletePeer trivial

end Safe

/-! ### What a step does to the stored states -/

namespace World

variable {Account Session : Type} (w : World Account Session)

/-- What the store holds for a peer. -/
def stored (peer : DartString) : Option (RatchetPeerState Session) := w.store.peers.get peer

@[simp] theorem stored_setTail (peer : DartString) (tasks : List (Task Account Session)) :
    (w.setTail peer tasks).stored = w.stored := rfl

@[simp] theorem stored_setCache (peer : DartString)
    (entry : Option (Option (RatchetPeerState Session))) :
    (w.setCache peer entry).stored = w.stored := rfl

theorem stored_setStored (peer : DartString) (state : Option (RatchetPeerState Session))
    (p : DartString) :
    (w.setStored peer state).stored p = if p = peer then state else w.stored p := by
  unfold stored setStored
  cases state with
  | some state => rfl
  | none =>
  rw [FMap.get_retain]
  split
  next hp =>
    cases w.store.peers.get p with
    | none => rfl
    | some _ => simp [hp]
  next hp =>
    cases w.store.peers.get p with
    | none => rfl
    | some _ => simp [hp]

/-- The session that the write in flight of a peer opens. -/
def pendingOpening (peer : DartString) : Option DartString :=
  match w.peerTails peer with
  | ⟨_, .writing _ opened _⟩ :: _ => opened
  | _ => none

/-- The session that an input opens in the store: it lets the write that does so through. -/
def opening : Input → Option DartString
  | .resume peer _ completion =>
    if completion = .fails then none else w.pendingOpening peer
  | _ => none

end World

section Coherent

variable {Account Session : Type} (olm : Vodozemac Account Session)

/-- What a running call may await, where it works on `view`, the store holds `stored` and the cache
`cached`. -/
inductive InFlight (call : PeerCall) (view stored : Option (RatchetPeerState Session))
    (cached : Option (Option (RatchetPeerState Session))) : Running Account Session → Prop where
  | at {prog} (hstored : stored = view) (hcached : ∀ c, cached = some c → c = view)
      (h : Safe olm call view prog) : InFlight call view stored cached (.at prog)
  | reading {k} (hstored : stored = view) (hcached : ∀ c, cached = some c → c = view)
      (h : Safe olm call view (k view)) : InFlight call view stored cached (.reading k)
  | onAccount {act phase} (hstored : stored = view) (hcached : ∀ c, cached = some c → c = view)
      (hact : ∀ env account updated prog,
        act env account = .ok (updated, prog) → Safe olm call view prog)
      (hphase : ∀ account prog, phase = .updating account prog → Safe olm call view prog) :
      InFlight call view stored cached (.onAccount act phase)
  | writing {state opened result} (hstored : stored = view) (hcached : cached = none) (h : Writes olm view state call opened result) :
      InFlight call view stored cached (.writing state opened result)
  | deleting (hstored : stored = view) (hcached : cached = none) (hidle : call.Idle) : InFlight call view stored cached .deleting

/-- The calls that wait have not started. -/
def Waiting (tasks : List (Task Account Session)) : Prop :=
  ∀ task ∈ tasks, ∃ prog, task.running = .at prog ∧ ∀ view, Safe olm task.call view prog

/-- One peer: its running call, the calls that wait, its stored state and its cache entry. -/
def Lane (view stored : Option (RatchetPeerState Session))
    (cached : Option (Option (RatchetPeerState Session))) : List (Task Account Session) → Prop
  | [] => stored = view ∧ ∀ c, cached = some c → c = view
  | task :: rest => InFlight olm task.call view stored cached task.running ∧ Waiting olm rest

/-- **Every peer is in order**: `view` is the state that its running call works on. -/
def Coherent (w : World Account Session) (view : DartString → Option (RatchetPeerState Session)) :
    Prop :=
  ∀ peer, Lane olm (view peer) (w.stored peer) (w.peerCache peer) (w.peerTails peer)

variable {olm}

theorem Waiting.lane {stored : Option (RatchetPeerState Session)}
    {cached : Option (Option (RatchetPeerState Session))} {rest : List (Task Account Session)}
    (hrest : Waiting olm rest) (hcached : ∀ c, cached = some c → c = stored) :
    Lane olm stored stored cached rest := by
  cases rest with
  | nil => exact ⟨rfl, hcached⟩
  | cons task rest =>
    obtain ⟨prog, hrunning, hsafe⟩ := hrest task mem_cons_self
    refine ⟨?_, fun other hother => hrest other (mem_cons_of_mem task hother)⟩
    rw [hrunning]
    exact InFlight.at rfl hcached (hsafe stored)

theorem Coherent.initial : Coherent olm World.initial fun _ => none :=
  fun _ => ⟨rfl, fun _ hc => nomatch hc⟩

variable (olm) in
/-- What a step can do: drop states, or complete a write, whose call returns or fails. -/
inductive Effect (w w' : World Account Session) (input : Input)
    (view view' : DartString → Option (RatchetPeerState Session)) :
    Option (Output Session) → Prop where
  | drops {out} (hout : ∀ peer call value, out = some (.peer peer call (.ok value)) → call.Idle)
      (hstored : ∀ peer, w'.stored peer = w.stored peer ∨ w'.stored peer = none)
      (hview : ∀ peer, view' peer = view peer ∨ view' peer = w'.stored peer) :
      Effect w w' input view view' out
  | writes {peer call state opened value result}
      (hwrites : Writes olm (view peer) state call opened value)
      (hopening : w.opening input = opened)
      (hstored : ∀ p, w'.stored p = if p = peer then some state else w.stored p)
      (hview : ∀ p, view' p = if p = peer then some state else view p)
      (hresult : result = .ok value ∨ result = .error .store) :
      Effect w w' input view view' (some (.peer peer call result))

section Steps

variable {w w' : World Account Session} {view : DartString → Option (RatchetPeerState Session)}
  {input : Input} {out : Option (Output Session)} {peer : DartString}

theorem Coherent.quiet (h : Coherent olm w view) (peer : DartString)
    (next : Option (RatchetPeerState Session)) (hstored : w'.stored = w.stored)
    (hcache : ∀ p, p ≠ peer → w'.peerCache p = w.peerCache p)
    (htails : ∀ p, p ≠ peer → w'.peerTails p = w.peerTails p)
    (hlane : Lane olm next (w.stored peer) (w'.peerCache peer) (w'.peerTails peer))
    (hnext : next = view peer ∨ next = w.stored peer)
    (hout : ∀ peer call value, out = some (.peer peer call (.ok value)) → call.Idle) :
    ∃ view', Coherent olm w' view' ∧ Effect olm w w' input view view' out := by
  refine ⟨fun p => if p = peer then next else view p, fun p => ?_, Effect.drops hout ?_ ?_⟩
  · show Lane olm (if p = peer then next else view p) _ _ _
    by_cases hp : p = peer
    · subst hp
      rw [if_pos rfl, hstored]
      exact hlane
    · rw [if_neg hp, hstored, hcache p hp, htails p hp]
      exact h p
  · exact fun p => .inl (congrFun hstored p)
  intro p
  show (if p = peer then next else view p) = view p ∨ _
  by_cases hp : p = peer
  · subst hp
    rw [if_pos rfl, hstored]
    exact hnext
  · exact .inl (if_neg hp)

variable {task : Task Account Session} {rest : List (Task Account Session)}

/-- `w₁` is `w` with another cache entry for one peer, or another account or queue for it. -/
structure Beside (w w₁ : World Account Session) (peer : DartString) : Prop where
  stored : w₁.stored = w.stored
  cache : ∀ p, p ≠ peer → w₁.peerCache p = w.peerCache p
  tails : w₁.peerTails = w.peerTails

theorem Beside.refl (w : World Account Session) (peer : DartString) : Beside w w peer :=
  ⟨rfl, fun _ _ => rfl, rfl⟩

theorem Beside.setCache (w : World Account Session) (peer : DartString)
    (entry : Option (Option (RatchetPeerState Session))) : Beside w (w.setCache peer entry) peer :=
  ⟨rfl, fun _ hp => if_neg hp, rfl⟩

theorem Beside.account (w : World Account Session) (peer : DartString) (account : Option Account)
    (sections : List (Section Account)) :
    Beside w { w with store := { w.store with account := account }, accountTail := sections } peer :=
  ⟨rfl, fun _ _ => rfl, rfl⟩

theorem Coherent.goOn (h : Coherent olm w view) (hrest : Waiting olm rest)
    {w₁ : World Account Session} (hw₁ : Beside w w₁ peer) {running : Running Account Session}
    (hrunning : InFlight olm task.call (view peer) (w.stored peer) (w₁.peerCache peer) running) :
    ∃ view', Coherent olm (w₁.goOn peer task rest running).1 view' ∧
      Effect olm w (w₁.goOn peer task rest running).1 input view view' none := by
  refine h.quiet peer (view peer) hw₁.stored hw₁.cache (fun p hp => ?_) ?_ (.inl rfl)
    fun _ _ _ hout => nomatch hout
  · exact (if_neg hp).trans (congrFun hw₁.tails p)
  · show Lane olm (view peer) _ (w₁.peerCache peer) (if peer = peer then _ else _)
    rw [if_pos rfl]
    exact ⟨hrunning, hrest⟩

theorem Coherent.finish (h : Coherent olm w view) (hrest : Waiting olm rest)
    {w₁ : World Account Session} (hw₁ : Beside w w₁ peer)
    (hcached : ∀ c, w₁.peerCache peer = some c → c = w.stored peer)
    {result : Except Failure (Value Session)} (hidle : ∀ value, result = .ok value → task.call.Idle) :
    ∃ view', Coherent olm (w₁.finish peer task rest result).1 view' ∧
      Effect olm w (w₁.finish peer task rest result).1 input view view'
        (w₁.finish peer task rest result).2 := by
  refine h.quiet peer (w.stored peer) hw₁.stored hw₁.cache (fun p hp => ?_) ?_ (.inr rfl) ?_
  · exact (if_neg hp).trans (congrFun hw₁.tails p)
  · show Lane olm _ _ (w₁.peerCache peer) (if peer = peer then _ else _)
    rw [if_pos rfl]
    exact hrest.lane hcached
  · intro p call value hout
    cases hout
    exact hidle value rfl

theorem start_effect (h : Coherent olm w view) (env : Ambient) {prog : Prog Account Session}
    (htail : w.peerTails peer = task :: rest) (hrunning : task.running = .at prog) :
    ∃ view', Coherent olm (w.start peer task rest env prog).1 view' ∧
      Effect olm w (w.start peer task rest env prog).1 input view view'
        (w.start peer task rest env prog).2 := by
  have hlane := h peer
  rw [htail] at hlane
  obtain ⟨hin, hrest⟩ := hlane
  rw [hrunning] at hin
  cases hin with
  | «at» hstored hcached hsafe =>
  cases hsafe with
  | failed failure =>
    exact h.finish hrest (Beside.refl w peer) (hstored ▸ hcached) fun _ hok => nomatch hok
  | done value hidle =>
    exact h.finish hrest (Beside.refl w peer) (hstored ▸ hcached) fun _ _ => hidle
  | ambient k hk =>
    exact h.goOn hrest (Beside.refl w peer) (InFlight.at hstored hcached (hk env))
  | pause k hk => exact h.goOn hrest (Beside.refl w peer) (InFlight.at hstored hcached hk)
  | readPeer k hk =>
    -- a cached state is the one that the call works on
    simp only [World.start]
    split
    · next state hstate =>
      rw [hcached state hstate]
      exact h.goOn hrest (Beside.refl w peer) (InFlight.at hstored hcached hk)
    · exact h.goOn hrest (Beside.refl w peer) (InFlight.reading hstored hcached hk)
  | withAccount act hact =>
    refine h.goOn hrest (Beside.account w peer w.store.account (w.accountTail ++ [.peer peer]))
      (InFlight.onAccount hstored hcached hact ?_)
    intro account prog hphase
    cases hphase
  | writePeer hwrites =>
    exact h.goOn hrest (Beside.setCache w peer none)
      (InFlight.writing hstored (if_pos rfl) hwrites)
  | deletePeer hidle =>
    exact h.goOn hrest (Beside.setCache w peer none)
      (InFlight.deleting hstored (if_pos rfl) hidle)

theorem Coherent.unnoticed (h : Coherent olm w view) (hstored : w'.stored = w.stored)
    (hcache : w'.peerCache = w.peerCache) (htails : w'.peerTails = w.peerTails)
    (hout : ∀ peer call value, out = some (.peer peer call (.ok value)) → call.Idle) :
    ∃ view', Coherent olm w' view' ∧ Effect olm w w' input view view' out := by
  refine ⟨view, fun p => ?_, Effect.drops hout (fun p => .inl (congrFun hstored p))
    fun p => .inl rfl⟩
  rw [hstored, hcache, htails]
  exact h p

theorem deleted_effect (h : Coherent olm w view) (hrest : Waiting olm rest) (hidle : task.call.Idle)
    {w₁ : World Account Session} (hstored : ∀ p, w₁.stored p = if p = peer then none else w.stored p)
    (hcached : ∀ c, w₁.peerCache peer = some c → c = none)
    (hcache : ∀ p, p ≠ peer → w₁.peerCache p = w.peerCache p)
    (htails : w₁.peerTails = w.peerTails) (result : Except Failure (Value Session)) :
    ∃ view', Coherent olm (w₁.finish peer task rest result).1 view' ∧
      Effect olm w (w₁.finish peer task rest result).1 input view view'
        (w₁.finish peer task rest result).2 := by
  refine ⟨fun p => if p = peer then none else view p, fun p => ?_, Effect.drops ?_ ?_ ?_⟩
  · show Lane olm (if p = peer then none else view p) (w₁.stored p) (w₁.peerCache p)
      (if p = peer then rest else w₁.peerTails p)
    rw [hstored, htails]
    split
    next hp =>
      exact hrest.lane (hp ▸ hcached)
    next hp =>
      rw [hcache p hp]
      exact h p
  · intro p call value hout
    cases hout
    exact hidle
  · intro p
    show w₁.stored p = _ ∨ w₁.stored p = _
    rw [hstored]
    by_cases hp : p = peer
    · exact .inr (if_pos hp)
    · exact .inl (if_neg hp)
  · intro p
    show (if p = peer then none else view p) = _ ∨ _ = w₁.stored p
    rw [hstored]
    by_cases hp : p = peer
    · simp[if_pos hp, or_true]
    · exact .inl (if_neg hp)

theorem written_effect (h : Coherent olm w view) (hrest : Waiting olm rest)
    {state : RatchetPeerState Session} {opened : Option DartString} {value : Value Session}
    (hwrites : Writes olm (view peer) state task.call opened value)
    (hopening : w.opening input = opened) {w₁ : World Account Session}
    (hstored : ∀ p, w₁.stored p = if p = peer then some state else w.stored p)
    (hcached : ∀ c, w₁.peerCache peer = some c → c = some state)
    (hcache : ∀ p, p ≠ peer → w₁.peerCache p = w.peerCache p)
    (htails : w₁.peerTails = w.peerTails) {result : Except Failure (Value Session)}
    (hresult : result = .ok value ∨ result = .error .store) :
    ∃ view', Coherent olm (w₁.finish peer task rest result).1 view' ∧
      Effect olm w (w₁.finish peer task rest result).1 input view view'
        (w₁.finish peer task rest result).2 := by
  refine ⟨fun p => if p = peer then some state else view p, fun p => ?_,
    Effect.writes hwrites hopening hstored (fun _ => rfl) hresult⟩
  show Lane olm (if p = peer then some state else view p) (w₁.stored p) (w₁.peerCache p)
    (if p = peer then rest else w₁.peerTails p)
  rw [hstored, htails]
  split
  next hp =>
    exact hrest.lane (hp ▸ hcached)
  next hp =>
    rw [hcache p hp]
    exact h p

theorem Completion.succeeds_ne_fails : Completion.succeeds ≠ .fails := by decide

theorem Completion.failsLate_ne_fails : Completion.failsLate ≠ .fails := by decide

theorem opening_resume {call : PeerCall} {state : RatchetPeerState Session}
    {opened : Option DartString} {value : Value Session} (env : Ambient) {completion : Completion}
    (htail : w.peerTails peer = ⟨call, .writing state opened value⟩ :: rest)
    (hlands : completion ≠ .fails) : w.opening (.resume peer env completion) = opened := by
  show (if completion = .fails then none else w.pendingOpening peer) = opened
  rw [if_neg hlands]
  unfold World.pendingOpening
  rw [htail]

theorem resume_effect (h : Coherent olm w view) (peer : DartString) (env : Ambient)
    (completion : Completion) :
    ∃ view', Coherent olm (w.resume peer env completion).1 view' ∧
      Effect olm w (w.resume peer env completion).1 (.resume peer env completion) view view'
        (w.resume peer env completion).2 := by
  have hlane := h peer
  unfold World.resume
  split
  · exact h.unnoticed rfl rfl rfl fun _ _ _ hout => nomatch hout
  next task rest htail =>
  rw [htail] at hlane
  obtain ⟨hin, hrest⟩ := hlane
  -- a failure without effect leaves the store to the next call
  have hfailed : (∀ c, w.peerCache peer = some c → c = w.stored peer) →
      ∃ view', Coherent olm (w.finish peer task rest (.error .store)).1 view' ∧
        Effect olm w (w.finish peer task rest (.error .store)).1 (.resume peer env completion) view
          view' (w.finish peer task rest (.error .store)).2 :=
    fun hcached => h.finish hrest (Beside.refl w peer) hcached fun _ hok => nomatch hok
  obtain ⟨call, running⟩ := task
  cases hin with
  | «at» hstored hcached hsafe => exact start_effect h env htail rfl
  | onAccount hstored hcached hact hphase =>
    exact h.unnoticed rfl rfl rfl fun _ _ _ hout => nomatch hout
  | @reading k hstored hcached hsafe =>
    cases completion with
    | succeeds =>
      refine h.goOn hrest (Beside.setCache w peer _) (InFlight.at hstored ?_ ?_)
      · intro c hc
        rw [← hstored]
        exact (some.inj ((if_pos rfl).symm.trans hc)).symm
      · show Safe olm call (view peer) (k (w.stored peer))
        rw [hstored]
        exact hsafe
    | fails => exact hfailed (hstored ▸ hcached)
    | failsLate => exact hfailed (hstored ▸ hcached)
  | @writing state opened value hstored hcached hwrites =>
    have hempty : ∀ {st : Option (RatchetPeerState Session)} (c), w.peerCache peer = some c →
        c = st := fun c hc => nomatch hcached.symm.trans hc
    cases completion with
    | succeeds =>
      have hwritten : ∀ p, ((w.setStored peer (some state)).setCache peer
          (some (some state))).stored p = if p = peer then some state else w.stored p :=
        World.stored_setStored w peer (some state)
      refine written_effect h hrest hwrites
        (opening_resume env htail Completion.succeeds_ne_fails) hwritten ?_
        (fun p hp => if_neg hp) rfl (.inl rfl)
      intro c hc
      exact (some.inj ((if_pos rfl).symm.trans hc)).symm
    | fails => exact hfailed hempty
    | failsLate =>
      exact written_effect h hrest hwrites
        (opening_resume env htail Completion.failsLate_ne_fails)
        (World.stored_setStored w peer (some state)) hempty (fun _ _ => rfl) rfl (.inr rfl)
  | deleting hstored hcached hidle =>
    have hempty : ∀ {st : Option (RatchetPeerState Session)} (c), w.peerCache peer = some c →
        c = st := fun c hc => nomatch hcached.symm.trans hc
    cases completion with
    | succeeds =>
      have hdeleted : ∀ p, ((w.setStored peer none).setCache peer (some none)).stored p =
          if p = peer then none else w.stored p := World.stored_setStored w peer none
      refine deleted_effect h hrest hidle hdeleted ?_ (fun p hp => if_neg hp) rfl _
      intro c hc
      exact (some.inj ((if_pos rfl).symm.trans hc)).symm
    | fails => exact hfailed hempty
    | failsLate =>
      exact deleted_effect h hrest hidle (World.stored_setStored w peer none) hempty
        (fun _ _ => rfl) rfl _

variable [DecidableEq Account]

theorem proceed_from_action {P : Prog Account Session → Prop}
    {act : Ambient → Account → Except Failure (Account × Prog Account Session)}
    {phase : Phase Account (Prog Account Session)} (env : Ambient) (completion : Completion)
    (stored : Option Account)
    (hact : ∀ env account updated prog, act env account = .ok (updated, prog) → P prog)
    (hphase : ∀ account prog, phase = .updating account prog → P prog) :
    (∀ prog, (proceed olm act env completion stored phase).1 = .passes prog → P prog) ∧
      ∀ account prog, (proceed olm act env completion stored phase).1 =
        .waits (.updating account prog) → P prog := by
  have hrun : ∀ account, (∀ prog, runAction act env account = .passes prog → P prog) ∧
      ∀ updated prog, runAction act env account = .waits (.updating updated prog) → P prog := by
    intro account
    unfold runAction
    cases hresult : act env account with
    | error failure => exact ⟨fun _ h => (nomatch h), fun _ _ h => nomatch h⟩
    | ok result =>
      obtain ⟨updated, prog⟩ := result
      have hprog := hact env account updated prog hresult
      dsimp only
      split <;> exact ⟨fun _ h => by cases h <;> exact hprog, fun _ _ h => by cases h <;> exact hprog⟩
  unfold proceed
  split
  · cases stored with
    | some account => exact hrun account
    | none => exact ⟨fun _ h => (nomatch h), fun _ _ h => nomatch h⟩
  · exact hrun _
  · exact ⟨fun _ h => (nomatch h), fun _ _ h => nomatch h⟩
  · refine ⟨fun prog hpasses => ?_, fun _ _ h => nomatch h⟩
    cases hpasses
    exact hphase _ _ rfl
  · exact ⟨fun _ h => (nomatch h), fun _ _ h => nomatch h⟩
  · exact ⟨fun _ h => (nomatch h), fun _ _ h => nomatch h⟩

theorem resumeAccount_effect (h : Coherent olm w view) (env : Ambient)
    (completion : Completion) :
    ∃ view', Coherent olm (w.resumeAccount olm env completion).1 view' ∧
      Effect olm w (w.resumeAccount olm env completion).1 input view view'
        (w.resumeAccount olm env completion).2 := by
  unfold World.resumeAccount
  split
  · exact h.unnoticed rfl rfl rfl fun _ _ _ hout => nomatch hout
  · dsimp only
    split
    · exact h.unnoticed rfl rfl rfl fun _ _ _ hout => nomatch hout
    · exact h.unnoticed rfl rfl rfl fun _ _ _ hout => nomatch hout
    · exact h.unnoticed rfl rfl rfl fun _ _ _ hout => nomatch hout
  next peer waiting _ =>
  have hlane := h peer
  split
  · next call act phase rest htail =>
    rw [htail] at hlane
    obtain ⟨hin, hrest⟩ := hlane
    cases hin with
    | onAccount hstored hcached hact hphase =>
    obtain ⟨hpasses, hwaits⟩ := proceed_from_action env completion w.store.account hact hphase
    dsimp only
    split
    · next phase' hprogress =>
      refine h.goOn hrest (Beside.account w peer _ _)
        (InFlight.onAccount hstored hcached hact ?_)
      intro account prog hupdating
      exact hwaits account prog (hupdating ▸ hprogress)
    · refine h.finish hrest (Beside.account w peer _ _) (hstored ▸ hcached) ?_
      intro value hok
      cases hok
    next prog hprogress =>
    exact h.goOn hrest (Beside.account w peer _ _)
      (InFlight.at hstored hcached (hpasses prog hprogress))
  · exact h.unnoticed rfl rfl rfl fun _ _ _ hout => nomatch hout

theorem step_effect (h : Coherent olm w view) (cipher : BulkCipher) (input : Input) :
    ∃ view', Coherent olm ((machine olm cipher).step w input).1 view' ∧
      Effect olm w ((machine olm cipher).step w input).1 input view view'
        ((machine olm cipher).step w input).2 := by
  cases input with
  | call peer call =>
    -- the new call waits behind the others, or starts on what is stored
    refine h.quiet peer (view peer) rfl (fun _ _ => rfl) (fun p hp => if_neg hp) ?_ (.inl rfl)
      fun _ _ _ hout => nomatch hout
    show Lane olm _ _ (w.peerCache peer) (if peer = peer then _ else _)
    rw [if_pos rfl]
    have hnew : ∀ view, Safe olm call view (call.prog olm cipher peer) :=
      fun _ => safe_prog cipher peer
    have hlane := h peer
    cases htail : w.peerTails peer with
    | nil =>
      rw [htail] at hlane
      exact ⟨InFlight.at hlane.1 hlane.2 (hnew _), fun _ hmem => nomatch hmem⟩
    | cons task rest =>
    rw [htail] at hlane
    refine ⟨hlane.1, fun other hother => ?_⟩
    rcases mem_append.mp hother with hrest | hlast
    · exact hlane.2 other hrest
    · rw [mem_singleton.mp hlast]
      exact ⟨_, rfl, hnew⟩
  | callAccount call => exact h.unnoticed rfl rfl rfl fun _ _ _ hout => nomatch hout
  | resume peer env completion => exact resume_effect h peer env completion
  | resumeAccount env completion => exact resumeAccount_effect h env completion
  | crash =>
    refine ⟨w.stored, fun p => ⟨rfl, fun _ hc => nomatch hc⟩,
      Effect.drops (fun _ _ _ hout => nomatch hout) (fun _ => .inl rfl) fun _ => .inr rfl⟩

end Steps

end Coherent

end Ratchet
end Conest
