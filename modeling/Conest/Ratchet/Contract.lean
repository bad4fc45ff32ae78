import Conest.Ratchet.Effects

/-!
# Calls on a peer act as if they were alone

What an operation does can be said of it alone: run on one state of its peer, it may return, write a
successor or delete the state, and each of these endings meets a contract (`Prog.Ensures`). Among
other calls, failing stores and crashes this stays true with the stored state in the place of the
one it was run on (`Contract.Holds.step`): a peer's calls wait for each other, so nothing changes what
the running one has read.

The step lemma needs of `Coherent` only that a cached state is the stored one.
-/

namespace Conest
namespace Ratchet

open Lib List

/-! ### The contract of a call -/

/-- How an operation ends, unless it throws. -/
inductive Ending (Session : Type) where
  | returns (value : Value Session)
  | writes (state : RatchetPeerState Session) (opened : Option DartString) (result : Value Session)
  | deletes

/-- What the endings of a call on a peer may be, by the state of the peer before it. -/
abbrev Contract (Session : Type) :=
  DartString → PeerCall → Option (RatchetPeerState Session) → Ending Session → Prop

section Ensures

variable {Account Session : Type}

/-- Every ending of a program, run where the peer's state is `view`, meets `post`. -/
inductive Prog.Ensures (post : Ending Session → Prop) (view : Option (RatchetPeerState Session)) :
    Prog Account Session → Prop where
  | failed (failure) : Ensures post view (.done (.error failure))
  | done {value} (h : post (.returns value)) : Ensures post view (.done (.ok value))
  | ambient (k) (h : ∀ env, Ensures post view (k env)) : Ensures post view (.ambient k)
  | pause (k) (h : Ensures post view k) : Ensures post view (.pause k)
  | readPeer (k) (h : Ensures post view (k view)) : Ensures post view (.readPeer k)
  | withAccount (act) (h : ∀ env account updated prog,
      act env account = .ok (updated, prog) → Ensures post view prog) :
      Ensures post view (.withAccount act)
  | writePeer {state opened result} (h : post (.writes state opened result)) :
      Ensures post view (.writePeer state opened result)
  | deletePeer (h : post .deletes) : Ensures post view .deletePeer

variable {post : Ending Session → Prop} {view : Option (RatchetPeerState Session)}

theorem ensures_readBulkRing {cipher : BulkCipher} {peer : DartString}
    {state : Option (RatchetPeerState Session)} {k : BulkRing → Prog Account Session}
    (hk : ∀ ring, (k ring).Ensures post view) :
    (readBulkRing cipher peer state k).Ensures post view := by
  unfold readBulkRing
  split
  · exact hk _
  refine Prog.Ensures.pause _ ?_
  split
  · exact Prog.Ensures.failed _
  · exact hk _

variable (olm : Vodozemac Account Session) (cipher : BulkCipher)

/-- Every call, run alone, meets the contract. -/
def Contract.Holds (contract : Contract Session) : Prop :=
  ∀ peer (call : PeerCall) view,
    (call.prog olm cipher peer : Prog Account Session).Ensures (contract peer call view) view

end Ensures

/-! ### The calls of one peer in a run -/

section Underway

variable {Account Session : Type} (contract : Contract Session)

/-- What the running call of a peer awaits, where its peer's state is `view`. -/
inductive Awaits (post : Ending Session → Prop) (view : Option (RatchetPeerState Session)) :
    Running Account Session → Prop where
  | at {prog} (h : prog.Ensures post view) : Awaits post view (.at prog)
  | reading {k} (h : (k view).Ensures post view) : Awaits post view (.reading k)
  | onAccount {act phase}
      (hact : ∀ env account updated prog,
        act env account = .ok (updated, prog) → prog.Ensures post view)
      (hphase : ∀ account prog, phase = .updating account prog → prog.Ensures post view) :
      Awaits post view (.onAccount act phase)
  | writing {state opened result} (h : post (.writes state opened result)) :
      Awaits post view (.writing state opened result)
  | deleting (h : post .deletes) : Awaits post view .deleting

/-- The calls of a peer that wait. -/
def Queued (peer : DartString) (rest : List (Task Account Session)) : Prop :=
  ∀ task ∈ rest, ∃ prog, task.running = .at prog ∧
    ∀ view, prog.Ensures (contract peer task.call view) view

/-- The calls of a peer whose stored state is `stored`. -/
def Underway (peer : DartString) (stored : Option (RatchetPeerState Session)) :
    List (Task Account Session) → Prop
  | [] => True
  | task :: rest =>
    Awaits (contract peer task.call stored) stored task.running ∧ Queued contract peer rest

/-- What a step does to a peer: it leaves the stored state alone, or it completes the write or the
deletion of a call that has run on that state. -/
inductive Happens (w w' : World Account Session) (out : Option (Output Session))
    (peer : DartString) : Prop where
  | rests (hstored : w'.stored peer = w.stored peer)
      (hout : ∀ call result, out ≠ some (.peer peer call result))
  | returned {call result} (hstored : w'.stored peer = w.stored peer)
      (hout : out = some (.peer peer call result))
      (h : ∀ value, result = .ok value → contract peer call (w.stored peer) (.returns value))
  | wrote {call state opened value result} (hstored : w'.stored peer = some state)
      (hout : out = some (.peer peer call result))
      (h : contract peer call (w.stored peer) (.writes state opened value))
      (hresult : result = .ok value ∨ result = .error .store)
  | deleted {call result} (hstored : w'.stored peer = none)
      (hout : out = some (.peer peer call result))
      (h : contract peer call (w.stored peer) .deletes)

/-- A step keeps every peer's calls in order. -/
def Moves (w w' : World Account Session) (out : Option (Output Session)) : Prop :=
  ∀ peer, Underway contract peer (w'.stored peer) (w'.peerTails peer) ∧
    Happens contract w w' out peer

variable {contract} {peer : DartString} {task : Task Account Session}
  {rest : List (Task Account Session)} {w w' : World Account Session}
  {out : Option (Output Session)}

theorem Queued.underway (hrest : Queued contract peer rest)
    (stored : Option (RatchetPeerState Session)) : Underway contract peer stored rest := by
  cases rest with
  | nil => trivial
  | cons task rest =>
    obtain ⟨prog, hrunning, hprog⟩ := hrest task mem_cons_self
    refine ⟨?_, fun other hother => hrest other (mem_cons_of_mem task hother)⟩
    rw [hrunning]
    exact Awaits.at (hprog stored)

section

variable (hw : ∀ p, Underway contract p (w.stored p) (w.peerTails p))

include hw

theorem moves_of_peer (hstored : ∀ p, p ≠ peer → w'.stored p = w.stored p)
    (htails : ∀ p, p ≠ peer → w'.peerTails p = w.peerTails p)
    (hout : ∀ p, p ≠ peer → ∀ call result, out ≠ some (.peer p call result))
    (hpeer : Underway contract peer (w'.stored peer) (w'.peerTails peer))
    (hhappens : Happens contract w w' out peer) : Moves contract w w' out := by
  intro p
  by_cases hp : p = peer
  · subst hp
    exact ⟨hpeer, hhappens⟩
  · refine ⟨?_, Happens.rests (hstored p hp) (hout p hp)⟩
    rw [hstored p hp, htails p hp]
    exact hw p

theorem moves_of_unnoticed (hstored : w'.stored = w.stored) (htails : w'.peerTails = w.peerTails)
    (hout : ∀ p call result, out ≠ some (.peer p call result)) : Moves contract w w' out := by
  intro p
  rw [hstored, htails]
  exact ⟨hw p, Happens.rests (congrFun hstored p) (hout p)⟩

theorem moves_goOn (hrest : Queued contract peer rest) {w₁ : World Account Session}
    (hw₁ : Beside w w₁ peer) {running : Running Account Session}
    (h : Awaits (contract peer task.call (w.stored peer)) (w.stored peer) running) :
    Moves contract w (w₁.goOn peer task rest running).1 (w₁.goOn peer task rest running).2 := by
  refine moves_of_peer hw (fun p _ => congrFun hw₁.stored p) (fun p hp => ?_)
    (fun _ _ _ _ hnone => nomatch hnone) ?_
    (Happens.rests (congrFun hw₁.stored peer) fun _ _ hnone => nomatch hnone)
  · exact (if_neg hp).trans (congrFun hw₁.tails p)
  · show Underway contract peer (w₁.stored peer) (if peer = peer then _ else _)
    rw [if_pos rfl, hw₁.stored]
    exact ⟨h, hrest⟩

theorem moves_finish (hrest : Queued contract peer rest) {w₁ : World Account Session}
    (hstored : ∀ p, p ≠ peer → w₁.stored p = w.stored p) (htails : w₁.peerTails = w.peerTails)
    {result : Except Failure (Value Session)}
    (hhappens : Happens contract w (w₁.finish peer task rest result).1
      (w₁.finish peer task rest result).2 peer) :
    Moves contract w (w₁.finish peer task rest result).1 (w₁.finish peer task rest result).2 := by
  refine moves_of_peer hw hstored (fun p hp => ?_) (fun p hp call result hsome => ?_) ?_ hhappens
  · exact (if_neg hp).trans (congrFun htails p)
  · cases hsome
    exact hp rfl
  · show Underway contract peer (w₁.stored peer) (if peer = peer then _ else _)
    rw [if_pos rfl]
    exact hrest.underway _

theorem moves_return (hrest : Queued contract peer rest) {w₁ : World Account Session}
    (hw₁ : Beside w w₁ peer) {result : Except Failure (Value Session)}
    (h : ∀ value, result = .ok value → contract peer task.call (w.stored peer) (.returns value)) :
    Moves contract w (w₁.finish peer task rest result).1 (w₁.finish peer task rest result).2 :=
  moves_finish hw hrest (fun p _ => congrFun hw₁.stored p) hw₁.tails
    (Happens.returned (congrFun hw₁.stored peer) rfl h)

theorem moves_start (hcached : ∀ c, w.peerCache peer = some c → c = w.stored peer)
    (hrest : Queued contract peer rest) (env : Ambient) {prog : Prog Account Session}
    (h : prog.Ensures (contract peer task.call (w.stored peer)) (w.stored peer)) :
    Moves contract w (w.start peer task rest env prog).1 (w.start peer task rest env prog).2 := by
  cases h with
  | failed failure => exact moves_return hw hrest (Beside.refl w peer) fun _ hok => nomatch hok
  | done hpost =>
    refine moves_return hw hrest (Beside.refl w peer) fun value hok => ?_
    cases hok
    exact hpost
  | ambient k hk => exact moves_goOn hw hrest (Beside.refl w peer) (Awaits.at (hk env))
  | pause k hk => exact moves_goOn hw hrest (Beside.refl w peer) (Awaits.at hk)
  | readPeer k hk =>
    simp only [World.start]
    split
    · next state hstate =>
      -- the cache holds what is stored
      rw [hcached state hstate]
      exact moves_goOn hw hrest (Beside.refl w peer) (Awaits.at hk)
    · exact moves_goOn hw hrest (Beside.refl w peer) (Awaits.reading hk)
  | withAccount act hact =>
    refine moves_goOn hw hrest
      (Beside.account w peer w.store.account (w.accountTail ++ [.peer peer]))
      (Awaits.onAccount hact fun account prog hphase => ?_)
    cases hphase
  | writePeer hpost =>
    exact moves_goOn hw hrest (Beside.setCache w peer none) (Awaits.writing hpost)
  | deletePeer hpost =>
    exact moves_goOn hw hrest (Beside.setCache w peer none) (Awaits.deleting hpost)

theorem moves_resume (hcached : ∀ p c, w.peerCache p = some c → c = w.stored p)
    (peer : DartString) (env : Ambient) (completion : Completion) :
    Moves contract w (w.resume peer env completion).1 (w.resume peer env completion).2 := by
  have hpeer := hw peer
  unfold World.resume
  split
  · exact moves_of_unnoticed hw rfl rfl fun _ _ _ hnone => nomatch hnone
  next task rest htail =>
  rw [htail] at hpeer
  obtain ⟨hawaits, hrest⟩ := hpeer
  have hfailed : Moves contract w (w.finish peer task rest (.error .store)).1
      (w.finish peer task rest (.error .store)).2 :=
    moves_return hw hrest (Beside.refl w peer) fun _ hok => nomatch hok
  obtain ⟨call, running⟩ := task
  have hother : ∀ state p, p ≠ peer → (w.setStored peer state).stored p = w.stored p :=
    fun state p hp => (World.stored_setStored w peer state p).trans (if_neg hp)
  have hself : ∀ state, (w.setStored peer state).stored peer = state :=
    fun state => (World.stored_setStored w peer state peer).trans (if_pos rfl)
  cases hawaits with
  | «at» hprog => exact moves_start hw (hcached peer) hrest env hprog
  | onAccount hact hphase => exact moves_of_unnoticed hw rfl rfl fun _ _ _ hnone => nomatch hnone
  | @reading k hprog =>
    cases completion with
    | succeeds => exact moves_goOn hw hrest (Beside.setCache w peer _) (Awaits.at hprog)
    | fails => exact hfailed
    | failsLate => exact hfailed
  | @writing state opened value hpost =>
    cases completion with
    | succeeds =>
      have hwritten : ∀ p, p ≠ peer → ((w.setStored peer (some state)).setCache peer
          (some (some state))).stored p = w.stored p := hother (some state)
      exact moves_finish hw hrest hwritten rfl
        (Happens.wrote (hself (some state)) rfl hpost (.inl rfl))
    | fails => exact hfailed
    | failsLate =>
      exact moves_finish hw hrest (hother (some state)) rfl
        (Happens.wrote (hself (some state)) rfl hpost (.inr rfl))
  | deleting hpost =>
    cases completion with
    | succeeds =>
      have hdeleted : ∀ p, p ≠ peer → ((w.setStored peer none).setCache peer
          (some none)).stored p = w.stored p := hother none
      exact moves_finish hw hrest hdeleted rfl (Happens.deleted (hself none) rfl hpost)
    | fails => exact hfailed
    | failsLate =>
      exact moves_finish hw hrest (hother none) rfl (Happens.deleted (hself none) rfl hpost)

end

variable [DecidableEq Account] {olm : Vodozemac Account Session}

theorem moves_resumeAccount (hw : ∀ p, Underway contract p (w.stored p) (w.peerTails p))
    (env : Ambient) (completion : Completion) :
    Moves contract w (w.resumeAccount olm env completion).1
      (w.resumeAccount olm env completion).2 := by
  unfold World.resumeAccount
  split
  · exact moves_of_unnoticed hw rfl rfl fun _ _ _ hnone => nomatch hnone
  · dsimp only
    split
    · exact moves_of_unnoticed hw rfl rfl fun _ _ _ hnone => nomatch hnone
    · exact moves_of_unnoticed hw rfl rfl fun _ _ _ hnone => nomatch hnone
    · exact moves_of_unnoticed hw rfl rfl fun _ _ _ hnone => nomatch hnone
  next peer waiting _ =>
  have hpeer := hw peer
  split
  · next call act phase rest htail =>
    rw [htail] at hpeer
    obtain ⟨hawaits, hrest⟩ := hpeer
    cases hawaits with
    | onAccount hact hphase =>
    obtain ⟨hpasses, hwaits⟩ := proceed_from_action env completion w.store.account hact
      hphase
    dsimp only
    split
    · next phase' hprogress =>
      refine moves_goOn hw hrest (Beside.account w peer _ _)
        (Awaits.onAccount hact fun account prog hupdating => ?_)
      exact hwaits account prog (hupdating ▸ hprogress)
    · exact moves_return hw hrest (Beside.account w peer _ _) fun _ hok => nomatch hok
    next prog hprogress =>
    exact moves_goOn hw hrest (Beside.account w peer _ _)
      (Awaits.at (hpasses prog hprogress))
  · exact moves_of_unnoticed hw rfl rfl fun _ _ _ hnone => nomatch hnone

variable {cipher : BulkCipher}

theorem Contract.Holds.moves (hcontract : contract.Holds olm cipher)
    (hw : ∀ p, Underway contract p (w.stored p) (w.peerTails p))
    (hcached : ∀ p c, w.peerCache p = some c → c = w.stored p) (input : Input) :
    Moves contract w ((machine olm cipher).step w input).1 ((machine olm cipher).step w input).2 := by
  cases input with
  | call peer call =>
    refine moves_of_peer hw (fun _ _ => rfl) (fun p hp => if_neg hp)
      (fun _ _ _ _ hnone => nomatch hnone) ?_ (Happens.rests rfl fun _ _ hnone => nomatch hnone)
    show Underway contract peer (w.stored peer) (if peer = peer then _ else _)
    rw [if_pos rfl]
    have hpeer := hw peer
    cases htail : w.peerTails peer with
    | nil => exact ⟨Awaits.at (hcontract peer call _), fun _ hmem => nomatch hmem⟩
    | cons task rest =>
    rw [htail] at hpeer
    refine ⟨hpeer.1, fun other hother => ?_⟩
    rcases mem_append.mp hother with hrest | hlast
    · exact hpeer.2 other hrest
    · rw [mem_singleton.mp hlast]
      exact ⟨_, rfl, hcontract peer call⟩
  | callAccount call => exact moves_of_unnoticed hw rfl rfl fun _ _ _ hnone => nomatch hnone
  | resume peer env completion => exact moves_resume hw hcached peer env completion
  | resumeAccount env completion => exact moves_resumeAccount hw env completion
  | crash => exact fun p => ⟨trivial, Happens.rests rfl fun _ _ hnone => nomatch hnone⟩

omit [DecidableEq Account] in
theorem Coherent.cached {view : DartString → Option (RatchetPeerState Session)}
    (h : Coherent olm w view) (peer : DartString) (c : Option (RatchetPeerState Session))
    (hc : w.peerCache peer = some c) : c = w.stored peer := by
  have hlane := h peer
  cases htail : w.peerTails peer with
  | nil =>
    rw [htail] at hlane
    exact (hlane.2 c hc).trans hlane.1.symm
  | cons task rest =>
  rw [htail] at hlane
  have hin := hlane.1
  generalize task.running = running at hin
  cases hin with
  | «at» hstored hcached => exact (hcached c hc).trans hstored.symm
  | reading hstored hcached => exact (hcached c hc).trans hstored.symm
  | onAccount hstored hcached => exact (hcached c hc).trans hstored.symm
  | writing _ hcached => cases hcached.symm.trans hc
  | deleting _ hcached => cases hcached.symm.trans hc

/-- **Calls act as if alone.** A contract that every call meets alone is met at every step of every
run, on the states that are stored. -/
theorem Contract.Holds.happens (hcontract : contract.Holds olm cipher) (inputs : List Input)
    (input : Input) (peer : DartString) :
    Happens contract ((machine olm cipher).run World.initial inputs)
      ((machine olm cipher).step ((machine olm cipher).run World.initial inputs) input).1
      ((machine olm cipher).step ((machine olm cipher).run World.initial inputs) input).2 peer := by
  -- along the run the calls stay in order and the cache agrees with the store
  have hstep : ∀ w, ∀ input ∈ inputs,
      (∀ p, Underway contract p (w.stored p) (w.peerTails p)) ∧ (∃ view, Coherent olm w view) →
      (∀ p, Underway contract p (((machine olm cipher).step w input).1.stored p)
        (((machine olm cipher).step w input).1.peerTails p)) ∧
      ∃ view, Coherent olm ((machine olm cipher).step w input).1 view := by
    rintro w input _ ⟨hw, view, hview⟩
    exact ⟨fun p => (hcontract.moves hw hview.cached input p).1,
      (step_effect hview cipher input).imp fun _ heffect => heffect.1⟩
  obtain ⟨hw, view, hview⟩ := Machine.run_induction hstep (s := World.initial)
    ⟨fun _ => trivial, _, Coherent.initial⟩
  exact (hcontract.moves hw hview.cached input peer).2

end Underway

end Ratchet
end Conest
