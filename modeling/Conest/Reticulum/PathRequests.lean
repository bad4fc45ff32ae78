import Conest.Lib.Machine
import Conest.Reticulum.Endpoint

/-!
# Path requests

A call of `requestPath` sends a request and waits for an announce of its destination. The calls for
one destination wait on one completer, which the endpoint keeps until an announce completes it. But
a call that gives up, for its own timeout or a request that cannot be sent, takes the completer
away, also from the others: they do not hear of the announce that comes after. Where no call gives
up while another waits on the same completer (`Orderly`), the completer of each call is kept or
completed, and a call during whose wait an announce is learned returns `true`
(`answered_of_orderly`).

A call returns `true` only for a destination whose path was learned, and the announces of a path
that is kept are never older, in every run. `Sample.announce_missed` is the run in which a call
misses the announce.
-/

namespace Conest
namespace Reticulum

open Lib List Option

/-- How far a call is. While it sends and waits it holds a completer. -/
inductive Phase where
  | sending (completer : ℕ)
  | waiting (completer : ℕ)
  | returned (found : Bool)
  | failed
deriving DecidableEq

/-- A call of `requestPath`. -/
structure Call where
  destination : Bytes
  phase : Phase
deriving DecidableEq

/-- An endpoint with the calls on it and the announces whose signatures are being checked. A
completer is known by its destination and a number. `learned` is the destinations of all announces
that were learned; it is only for what is said about the endpoint. -/
structure RnsEndpoint (c : Primitives) where
  acceptAllAnnounces : Bool
  routes : Routes c
  pathWaiters : LinkedMap Bytes ℕ
  nextCompleter : ℕ
  completed : Finset (Bytes × ℕ)
  calls : List Call
  checking : List RnsPacket
  learned : Finset Bytes

/-- What happens at an endpoint. The numbers are positions of calls, and of announces that are being
checked. -/
inductive Act where
  | watch (destination : Bytes)
  | requestPath (destination : Bytes)
  | sent (call : ℕ) (ok : Bool)
  | timeout (call : ℕ)
  | resume (call : ℕ)
  | receive (raw : Bytes)
  | checked (announce : ℕ)

namespace RnsEndpoint

variable {c : Primitives}

def initial (acceptAllAnnounces : Bool) : RnsEndpoint c :=
  ⟨acceptAllAnnounces, ⟨LinkedMap.empty, RecentSet.empty⟩, LinkedMap.empty, 0, ∅, [], [], ∅⟩

variable (e : RnsEndpoint c)

/-- A call begins. It returns at once where there is a path. -/
def requestPath (destination : Bytes) : RnsEndpoint c :=
  if (e.routes.pathTo destination).isSome then
    { e with calls := e.calls ++ [⟨destination, .returned true⟩] }
  else
    let routes := e.routes.watch destination
    match e.pathWaiters.get destination with
    | some completer =>
      { e with routes, calls := e.calls ++ [⟨destination, .sending completer⟩] }
    | none =>
      { e with
        routes
        pathWaiters := e.pathWaiters.put destination e.nextCompleter
        nextCompleter := e.nextCompleter + 1
        calls := e.calls ++ [⟨destination, .sending e.nextCompleter⟩] }

/-- A call ends, and takes its completer away if it is still kept. -/
def finish (call : ℕ) (destination : Bytes) (completer : ℕ) (phase : Phase) : RnsEndpoint c :=
  { e with
    calls := e.calls.set call ⟨destination, phase⟩
    pathWaiters :=
      if e.pathWaiters.get destination = some completer then e.pathWaiters.remove destination
      else e.pathWaiters }

/-- Announces of others than the watched destinations are not even checked. -/
def receive (raw : Bytes) : RnsEndpoint c :=
  match RnsPacket.unpack raw with
  | none => e
  | some packet =>
    if packet.packetType ≠ RnsPacketType.announce then e
    else if !e.acceptAllAnnounces && !e.routes.watched.contains packet.destinationHash &&
        !e.pathWaiters.contains packet.destinationHash then e
    else { e with checking := e.checking ++ [packet] }

/-- A valid announce that is not outdated is learned, and completes what waits for it. -/
def learn (announce : RnsAnnounce c) : RnsEndpoint c :=
  if e.routes.outdated announce then e
  else
    { e with
      routes := e.routes.learn announce
      pathWaiters := e.pathWaiters.remove announce.destinationHash
      completed :=
        match e.pathWaiters.get announce.destinationHash with
        | some completer => insert (announce.destinationHash, completer) e.completed
        | none => e.completed
      learned := insert announce.destinationHash e.learned }

def step : Act → RnsEndpoint c
  | .watch destination => { e with routes := e.routes.watch destination }
  | .requestPath destination => e.requestPath destination
  | .sent call ok =>
    match e.calls[call]? with
    | some ⟨destination, .sending completer⟩ =>
      if ok then { e with calls := e.calls.set call ⟨destination, .waiting completer⟩ }
      else e.finish call destination completer .failed
    | _ => e
  | .timeout call =>
    match e.calls[call]? with
    | some ⟨destination, .waiting completer⟩ =>
      -- a completed completer has cancelled the timer
      if (destination, completer) ∈ e.completed then e
      else e.finish call destination completer (.returned false)
    | _ => e
  | .resume call =>
    match e.calls[call]? with
    | some ⟨destination, .waiting completer⟩ =>
      if (destination, completer) ∈ e.completed then
        e.finish call destination completer (.returned true)
      else e
    | _ => e
  | .receive raw => e.receive raw
  | .checked announce =>
    match e.checking[announce]? with
    | none => e
    | some packet =>
      let e := { e with checking := e.checking.eraseIdx announce }
      match RnsAnnounce.validate c packet with
      | none => e
      | some announce => e.learn announce

def machine (c : Primitives) : Machine (RnsEndpoint c) Act Unit := ⟨fun e act => (e.step act, ())⟩

/-! ### What is said of a call -/

/-- The call holds a completer: it sends or waits. -/
def Holds (call : ℕ) (destination : Bytes) (completer : ℕ) : Prop :=
  e.calls[call]? = some ⟨destination, .sending completer⟩ ∨
    e.calls[call]? = some ⟨destination, .waiting completer⟩

/-- The call has been told, or has returned `true`. -/
def Answered (call : ℕ) (destination : Bytes) (completer : ℕ) : Prop :=
  e.calls[call]? = some ⟨destination, .returned true⟩ ∨
    (destination, completer) ∈ e.completed ∧
      e.calls[call]? = some ⟨destination, .waiting completer⟩

/-- So has the call, unless its request is still being sent or could not be sent. -/
def AnsweredIfSent (call : ℕ) (destination : Bytes) (completer : ℕ) : Prop :=
  e.Answered call destination completer ∨
    (destination, completer) ∈ e.completed ∧
      e.calls[call]? = some ⟨destination, .sending completer⟩ ∨
    e.calls[call]? = some ⟨destination, .failed⟩

/-- The step learns a path to the destination. -/
def Learns (act : Act) (destination : Bytes) : Prop :=
  ∃ index packet announce, act = .checked index ∧ e.checking[index]? = some packet ∧
    RnsAnnounce.validate c packet = some announce ∧ e.routes.outdated announce = false ∧
    announce.destinationHash = destination

/-- **The condition**: a call that gives up is the only one that holds the completer that is kept
for its destination. -/
def Orderly : Act → Prop
  | .sent call false => ∀ destination completer,
      e.calls[call]? = some ⟨destination, .sending completer⟩ →
      e.pathWaiters.get destination = some completer →
      ∀ other, e.Holds other destination completer → other = call
  | .timeout call => ∀ destination completer,
      e.calls[call]? = some ⟨destination, .waiting completer⟩ →
      e.pathWaiters.get destination = some completer →
      ∀ other, e.Holds other destination completer → other = call
  | _ => True

/-- **The invariant of orderly runs**: the completer of a call is completed, or kept. -/
def Kept : Prop :=
  ∀ call destination completer, e.Holds call destination completer →
    (destination, completer) ∈ e.completed ∨ e.pathWaiters.get destination = some completer

/-- **The invariant of all runs**: paths, completions and `true` come from what was learned. -/
structure Told : Prop where
  paths : ∀ destination, (e.routes.pathTo destination).isSome → destination ∈ e.learned
  completed : ∀ destination completer, (destination, completer) ∈ e.completed →
    destination ∈ e.learned
  calls : ∀ (call : ℕ) destination, e.calls[call]? = some ⟨destination, .returned true⟩ →
    destination ∈ e.learned

variable {e} {call n completer : ℕ} {destination : Bytes} {phase : Phase} {act : Act}

/-! ### Calls that end -/

theorem Holds.of_finish {other completer' : ℕ} {destination' : Bytes}
    (hphase : ∀ k, phase ≠ .sending k ∧ phase ≠ .waiting k)
    (h : (e.finish call destination completer phase).Holds other destination' completer') :
    other ≠ call ∧ e.Holds other destination' completer' := by
  have hcalls : (e.finish call destination completer phase).calls =
      e.calls.set call ⟨destination, phase⟩ := rfl
  unfold Holds at h ⊢
  rw [hcalls, getElem?_set] at h
  by_cases heq : call = other
  · rw [if_pos heq] at h
    split at h
    · rcases h with h | h
      · exact absurd (congrArg Call.phase (some.inj h)) (hphase completer').1
      · exact absurd (congrArg Call.phase (some.inj h)) (hphase completer').2
    · simp at h
  · rw [if_neg heq] at h
    exact ⟨Ne.symm heq, h⟩

theorem Kept.finish (h : e.Kept) (hphase : ∀ k, phase ≠ .sending k ∧ phase ≠ .waiting k)
    (hends : (destination, completer) ∈ e.completed ∨
      (e.pathWaiters.get destination = some completer →
        ∀ other, e.Holds other destination completer → other = call)) :
    (e.finish call destination completer phase).Kept := by
  intro other destination' completer' hholds
  obtain ⟨hne, hheld⟩ := hholds.of_finish hphase
  rcases h other destination' completer' hheld with hdone | hkept
  · exact .inl hdone
  by_cases hmine : e.pathWaiters.get destination = some completer
  swap
  · -- nothing is taken away
    right
    show (if _ then _ else _ : LinkedMap Bytes ℕ).get destination' = _
    rwa [if_neg hmine]
  by_cases heq : destination' = destination
  · subst heq
    obtain rfl : completer' = completer := some.inj (hkept.symm.trans hmine)
    rcases hends with hdone | halone
    · exact .inl hdone
    · exact absurd (halone hmine other hheld) hne
  · right
    show (if _ then _ else _ : LinkedMap Bytes ℕ).get destination' = _
    rw [if_pos hmine, LinkedMap.get_remove, if_neg heq]
    exact hkept

theorem Told.finish (h : e.Told)
    (hphase : phase = .returned true → (destination, completer) ∈ e.completed) :
    (e.finish call destination completer phase).Told := by
  refine ⟨h.paths, h.completed, fun other destination' hreturned => ?_⟩
  have hcalls : (e.finish call destination completer phase).calls =
      e.calls.set call ⟨destination, phase⟩ := rfl
  rw [hcalls, getElem?_set] at hreturned
  split at hreturned
  · split at hreturned
    · obtain ⟨rfl, hret⟩ := Call.mk.inj (some.inj hreturned)
      exact h.completed _ _ (hphase hret)
    · cases hreturned
  · exact h.calls other destination' hreturned

/-! ### Calls that begin -/

/-- What a call that begins leaves of the calls: one more, which has returned or holds the completer
that is kept for its destination. -/
theorem calls_requestPath (e : RnsEndpoint c) (destination : Bytes) :
    ∃ phase, (e.requestPath destination).calls = e.calls ++ [⟨destination, phase⟩] ∧
      (phase = .returned true ∧ (e.routes.pathTo destination).isSome ∨
        ∃ completer, phase = .sending completer ∧
          (e.requestPath destination).pathWaiters.get destination = some completer) := by
  unfold RnsEndpoint.requestPath
  split
  next hpath => exact ⟨_, rfl, .inl ⟨rfl, hpath⟩⟩
  split
  next completer hkept => exact ⟨_, rfl, .inr ⟨completer, rfl, hkept⟩⟩
  · refine ⟨_, rfl, .inr ⟨e.nextCompleter, rfl, ?_⟩⟩
    rw [LinkedMap.get_put, if_pos rfl]

theorem rest_requestPath (e : RnsEndpoint c) (destination : Bytes) :
    (e.requestPath destination).routes.paths = e.routes.paths ∧
      (e.requestPath destination).completed = e.completed ∧
      (e.requestPath destination).learned = e.learned ∧
      ∀ destination' completer, e.pathWaiters.get destination' = some completer →
        (e.requestPath destination).pathWaiters.get destination' = some completer := by
  unfold RnsEndpoint.requestPath
  split
  · exact ⟨rfl, rfl, rfl, fun _ _ h => h⟩
  split
  · exact ⟨rfl, rfl, rfl, fun _ _ h => h⟩
  next hnone =>
  refine ⟨rfl, rfl, rfl, fun destination' completer hkept => ?_⟩
  rw [LinkedMap.get_put, if_neg]
  · exact hkept
  · rintro rfl
    rw [hnone] at hkept
    cases hkept

theorem Kept.requestPath (h : e.Kept) (destination : Bytes) : (e.requestPath destination).Kept := by
  obtain ⟨phase, hcalls, hphase⟩ := calls_requestPath e destination
  obtain ⟨-, hcompleted, -, hkept⟩ := rest_requestPath e destination
  intro call destination' completer hholds
  unfold Holds at hholds
  rw [hcalls] at hholds
  rw [hcompleted]
  by_cases hlt : call < e.calls.length
  · rw [getElem?_append_left hlt] at hholds
    exact (h call destination' completer hholds).imp_right (hkept destination' completer)
  -- the new call
  rw [getElem?_append_right (Nat.not_lt.mp hlt)] at hholds
  have hnew : ∀ phase', [(⟨destination, phase⟩ : Call)][call - e.calls.length]? =
      some ⟨destination', phase'⟩ → destination = destination' ∧ phase = phase' := by
    intro phase' hget
    rw [getElem?_singleton] at hget
    split at hget
    · exact Call.mk.inj (some.inj hget)
    · cases hget
  rcases hphase with ⟨rfl, -⟩ | ⟨completer', rfl, hget⟩
  · rcases hholds with hget | hget
    · exact nomatch (hnew _ hget).2
    · exact nomatch (hnew _ hget).2
  rcases hholds with hget' | hget'
  · obtain ⟨rfl, hsame⟩ := hnew _ hget'
    obtain rfl := Phase.sending.inj hsame
    exact .inr hget
  · exact nomatch (hnew _ hget').2

theorem Told.requestPath (h : e.Told) (destination : Bytes) : (e.requestPath destination).Told := by
  obtain ⟨phase, hcalls, hphase⟩ := calls_requestPath e destination
  obtain ⟨hpaths, hcompleted, hlearned, -⟩ := rest_requestPath e destination
  refine ⟨fun destination' hpath => ?_, fun destination' completer hmem => ?_,
    fun call destination' hreturned => ?_⟩
  · rw [hlearned]
    unfold Routes.pathTo at hpath
    rw [hpaths] at hpath
    exact h.paths destination' hpath
  · rw [hlearned]
    rw [hcompleted] at hmem
    exact h.completed destination' completer hmem
  · rw [hcalls] at hreturned
    rw [hlearned]
    by_cases hlt : call < e.calls.length
    · rw [getElem?_append_left hlt] at hreturned
      exact h.calls call destination' hreturned
    rw [getElem?_append_right (Nat.not_lt.mp hlt), getElem?_singleton] at hreturned
    split at hreturned
    · obtain ⟨rfl, rfl⟩ := Call.mk.inj (some.inj hreturned)
      rcases hphase with ⟨-, hpath⟩ | ⟨completer, hsending, -⟩
      · exact h.paths destination hpath
      · exact nomatch hsending
    · cases hreturned

/-! ### Announces -/

theorem Kept.learn (h : e.Kept) (announce : RnsAnnounce c) : (e.learn announce).Kept := by
  unfold RnsEndpoint.learn
  split
  · exact h
  intro call destination completer hholds
  have hbefore := h call destination completer hholds
  by_cases heq : destination = announce.destinationHash
  · -- what is kept for the destination is completed
    left
    subst heq
    rcases hbefore with hdone | hkept
    · split
      · exact Finset.mem_insert_of_mem hdone
      · exact hdone
    · simp only [hkept]
      exact Finset.mem_insert_self _ _
  · rcases hbefore with hdone | hkept
    · left
      split
      · exact Finset.mem_insert_of_mem hdone
      · exact hdone
    · right
      rw [LinkedMap.get_remove, if_neg heq]
      exact hkept

theorem Told.learn (h : e.Told) (announce : RnsAnnounce c) : (e.learn announce).Told := by
  unfold RnsEndpoint.learn
  split
  · exact h
  refine ⟨fun destination hpath => ?_, fun destination completer hmem => ?_,
    fun call destination hreturned => Finset.mem_insert_of_mem (h.calls call destination hreturned)⟩
  · rcases Routes.pathTo_learn announce destination with ⟨-, rfl⟩ | ⟨-, hold⟩
    · exact Finset.mem_insert_self _ _
    · obtain ⟨path, hget⟩ := isSome_iff_exists.mp hpath
      apply Finset.mem_insert_of_mem
      apply h.paths
      rw [hold path hget]
      rfl
  · split at hmem
    · rcases Finset.mem_insert.mp hmem with hnew | hold
      · obtain ⟨rfl, -⟩ := Prod.mk.inj hnew
        exact Finset.mem_insert_self _ _
      · exact Finset.mem_insert_of_mem (h.completed destination completer hold)
    · exact Finset.mem_insert_of_mem (h.completed destination completer hmem)

/-! ### Steps -/

theorem returned_ne (found : Bool) (k : ℕ) :
    Phase.returned found ≠ .sending k ∧ Phase.returned found ≠ .waiting k :=
  ⟨(fun h => nomatch h), fun h => nomatch h⟩

theorem failed_ne (k : ℕ) : Phase.failed ≠ .sending k ∧ Phase.failed ≠ .waiting k :=
  ⟨(fun h => nomatch h), fun h => nomatch h⟩

theorem Kept.sent (h : e.Kept) (hcall : e.calls[call]? = some ⟨destination, .sending completer⟩) :
    Kept { e with calls := e.calls.set call ⟨destination, .waiting completer⟩ } := by
  intro other destination' completer' hholds
  apply h other
  unfold Holds at hholds ⊢
  simp only [getElem?_set] at hholds
  by_cases heq : call = other
  · subst heq
    rw [if_pos rfl] at hholds
    split at hholds
    · rcases hholds with hget | hget
      · cases hget
      · cases hget
        exact .inl hcall
    · simp at hholds
  · rwa [if_neg heq] at hholds

theorem Kept.step (h : e.Kept) (act : Act) (horderly : e.Orderly act) : (e.step act).Kept := by
  cases act with
  | watch destination => exact h
  | requestPath destination => exact h.requestPath destination
  | sent call ok =>
    unfold RnsEndpoint.step
    simp only
    split
    · next destination completer hcall =>
      cases ok with
      | true => exact h.sent hcall
      | false => exact h.finish failed_ne (.inr (horderly destination completer hcall))
    · exact h
  | timeout call =>
    unfold RnsEndpoint.step
    simp only
    split
    · next destination completer hcall =>
      split
      · exact h
      · exact h.finish (returned_ne false) (.inr (horderly destination completer hcall))
    · exact h
  | resume call =>
    unfold RnsEndpoint.step
    simp only
    split
    · split
      next hdone => exact h.finish (returned_ne true) (.inl hdone)
      · exact h
    · exact h
  | receive raw =>
    unfold RnsEndpoint.step receive
    simp only
    split
    · exact h
    split
    · exact h
    · split
      · exact h
      · exact h
  | checked announce =>
    unfold RnsEndpoint.step
    simp only
    split
    · exact h
    split
    · exact h
    · refine Kept.learn ?_ _
      exact h

theorem Told.step (h : e.Told) (act : Act) : (e.step act).Told := by
  cases act with
  | watch destination => exact ⟨h.paths, h.completed, h.calls⟩
  | requestPath destination => exact h.requestPath destination
  | sent call ok =>
    unfold RnsEndpoint.step
    simp only
    split
    swap
    · exact h
    next destination completer hcall =>
    cases ok with
    | true =>
      refine ⟨h.paths, h.completed, fun other destination' hreturned => ?_⟩
      simp only [if_true, getElem?_set] at hreturned
      split at hreturned
      · split at hreturned
        · cases hreturned
        · cases hreturned
      · exact h.calls other destination' hreturned
    | false => exact h.finish fun hret => nomatch hret
  | timeout call =>
    unfold RnsEndpoint.step
    simp only
    split
    swap
    · exact h
    split
    · exact h
    · exact h.finish fun hret => nomatch hret
  | resume call =>
    unfold RnsEndpoint.step
    simp only
    split
    swap
    · exact h
    split
    next hdone => exact h.finish fun _ => hdone
    · exact h
  | receive raw =>
    unfold RnsEndpoint.step receive
    simp only
    split
    · exact h
    split
    · exact h
    · split
      · exact h
      · exact ⟨h.paths, h.completed, h.calls⟩
  | checked announce =>
    unfold RnsEndpoint.step
    simp only
    split
    · exact h
    split
    · exact ⟨h.paths, h.completed, h.calls⟩
    · refine Told.learn ?_ _
      exact ⟨h.paths, h.completed, h.calls⟩

theorem set_calls_cases {before : Call} (h : e.calls[n]? = some before) (call : ℕ) (after : Call) :
    call = n ∧ (e.calls.set call after)[n]? = some after ∨
      (e.calls.set call after)[n]? = some before := by
  have hlt : n < e.calls.length := (List.getElem?_eq_some_iff.mp h).1
  rw [getElem?_set, h]
  by_cases heq : call = n
  · rw [if_pos heq, if_pos (heq ▸ hlt)]
    exact .inl ⟨heq, rfl⟩
  · rw [if_neg heq]
    exact .inr rfl

theorem step_call {before : Call} (h : e.calls[n]? = some before) (act : Act) :
    (e.step act).calls[n]? = some before ∨
    (∃ completer ok, before.phase = .sending completer ∧ act = .sent n ok ∧
      (e.step act).calls[n]? = some ⟨before.destination,
        if ok then .waiting completer else .failed⟩) ∨
    ∃ completer found, before.phase = .waiting completer ∧
      ((before.destination, completer) ∈ e.completed ↔ found = true) ∧
      (e.step act).calls[n]? = some ⟨before.destination, .returned found⟩ := by
  cases act with
  | watch destination => exact .inl h
  | requestPath destination =>
    obtain ⟨phase, hcalls, -⟩ := calls_requestPath e destination
    left
    show (e.requestPath destination).calls[n]? = _
    rw [hcalls, List.getElem?_append_left (List.getElem?_eq_some_iff.mp h).1]
    exact h
  | sent call ok =>
    unfold RnsEndpoint.step
    simp only
    split
    swap
    · exact .inl h
    next destination completer hcall =>
    obtain ⟨rfl, hafter⟩ | hafter := set_calls_cases h call
      ⟨destination, if ok then .waiting completer else .failed⟩
    · obtain rfl := some.inj (h.symm.trans hcall)
      exact .inr (.inl ⟨completer, ok, rfl, rfl, by cases ok <;> exact hafter⟩)
    · exact .inl (by cases ok <;> exact hafter)
  | timeout call =>
    unfold RnsEndpoint.step
    simp only
    split
    swap
    · exact .inl h
    next destination completer hcall =>
    split
    · exact .inl h
    next hopen =>
    obtain ⟨rfl, hafter⟩ | hafter := set_calls_cases h call ⟨destination, .returned false⟩
    · obtain rfl := some.inj (h.symm.trans hcall)
      exact .inr (.inr ⟨completer, false, rfl,
        ⟨fun hdone => absurd hdone hopen, fun hf => nomatch hf⟩, hafter⟩)
    · exact .inl hafter
  | resume call =>
    unfold RnsEndpoint.step
    simp only
    split
    swap
    · exact .inl h
    next destination completer hcall =>
    split
    swap
    · exact .inl h
    next hdone =>
    obtain ⟨rfl, hafter⟩ | hafter := set_calls_cases h call ⟨destination, .returned true⟩
    · obtain rfl := some.inj (h.symm.trans hcall)
      exact .inr (.inr ⟨completer, true, rfl, ⟨fun _ => rfl, fun _ => hdone⟩, hafter⟩)
    · exact .inl hafter
  | receive raw =>
    left
    unfold RnsEndpoint.step receive
    simp only
    split
    · exact h
    split
    · exact h
    · split
      · exact h
      · exact h
  | checked announce =>
    left
    unfold RnsEndpoint.step
    simp only
    split
    · exact h
    split
    · exact h
    unfold RnsEndpoint.learn
    split
    · exact h
    · exact h

theorem completed_step (e : RnsEndpoint c) (act : Act) : e.completed ⊆ (e.step act).completed := by
  have hrefl : e.completed ⊆ e.completed := Finset.Subset.refl _
  cases act with
  | watch destination => exact hrefl
  | requestPath destination => exact (rest_requestPath e destination).2.1.symm.subset
  | sent call ok =>
    unfold RnsEndpoint.step
    simp only
    split
    · split
      · exact hrefl
      · exact hrefl
    · exact hrefl
  | timeout call =>
    unfold RnsEndpoint.step
    simp only
    split
    · split
      · exact hrefl
      · exact hrefl
    · exact hrefl
  | resume call =>
    unfold RnsEndpoint.step
    simp only
    split
    · split
      · exact hrefl
      · exact hrefl
    · exact hrefl
  | receive raw =>
    unfold RnsEndpoint.step receive
    simp only
    split
    · exact hrefl
    split
    · exact hrefl
    · split
      · exact hrefl
      · exact hrefl
  | checked announce =>
    unfold RnsEndpoint.step
    simp only
    split
    · exact hrefl
    split
    · exact hrefl
    unfold RnsEndpoint.learn
    split
    · exact hrefl
    split
    · exact Finset.subset_insert _ _
    · exact hrefl

/-! ### Answers -/

theorem Answered.step (h : e.Answered n destination completer) (act : Act) :
    (e.step act).Answered n destination completer := by
  rcases h with hreturned | ⟨hdone, hwaiting⟩
  · left
    rcases step_call hreturned act with hsame | ⟨k, ok, hphase, -⟩ | ⟨k, found, hphase, -⟩
    · exact hsame
    · cases hphase
    · cases hphase
  rcases step_call hwaiting act with hsame | ⟨k, ok, hphase, -⟩ | ⟨k, found, hphase, hfound, hnew⟩
  · exact .inr ⟨completed_step e act hdone, hsame⟩
  · cases hphase
  · -- the call resumes
    obtain rfl := Phase.waiting.inj hphase
    rw [hfound.mp hdone] at hnew
    exact .inl hnew

theorem AnsweredIfSent.step (h : e.AnsweredIfSent n destination completer) (act : Act) :
    (e.step act).AnsweredIfSent n destination completer := by
  rcases h with hanswered | ⟨hdone, hsending⟩ | hfailed
  · exact .inl (hanswered.step act)
  · rcases step_call hsending act with hsame | ⟨k, ok, hphase, -, hnew⟩ | ⟨k, found, hphase, -⟩
    · exact .inr (.inl ⟨completed_step e act hdone, hsame⟩)
    · obtain rfl := Phase.sending.inj hphase
      cases ok with
      | true => exact .inl (.inr ⟨completed_step e act hdone, hnew⟩)
      | false => exact .inr (.inr hnew)
    · cases hphase
  · rcases step_call hfailed act with hsame | ⟨k, ok, hphase, -⟩ | ⟨k, found, hphase, -⟩
    · exact .inr (.inr hsame)
    · cases hphase
    · cases hphase

theorem Answered.resume (h : e.Answered n destination completer) :
    (e.step (.resume n)).calls[n]? = some ⟨destination, .returned true⟩ := by
  rcases h with hreturned | ⟨hdone, hwaiting⟩
  · unfold RnsEndpoint.step
    simp only [hreturned]
  · unfold RnsEndpoint.step
    simp only [hwaiting, if_pos hdone]
    exact getElem?_set_self (List.getElem?_eq_some_iff.mp hwaiting).1

theorem Kept.completed_of_learns (h : e.Kept) (hlearns : e.Learns act destination)
    (hholds : e.Holds n destination completer) :
    (destination, completer) ∈ (e.step act).completed ∧ (e.step act).calls = e.calls := by
  obtain ⟨index, packet, announce, rfl, hpacket, hvalid, hfresh, rfl⟩ := hlearns
  unfold RnsEndpoint.step
  simp only [hpacket, hvalid]
  unfold RnsEndpoint.learn
  simp only [hfresh]
  rw [if_neg Bool.false_ne_true]
  refine ⟨?_, rfl⟩
  rcases h n _ completer hholds with hdone | hkept
  · split
    · exact Finset.mem_insert_of_mem hdone
    · exact hdone
  · simp only [hkept]
    exact Finset.mem_insert_self _ _

theorem emittedAt_step (e : RnsEndpoint c) (act : Act) {path path' : RnsPath c}
    (h : e.routes.pathTo destination = some path)
    (h' : (e.step act).routes.pathTo destination = some path') :
    path.emittedAt ≤ path'.emittedAt := by
  have hsame : ∀ {r : Routes c}, r.pathTo destination = some path' → r.paths = e.routes.paths →
      path.emittedAt ≤ path'.emittedAt := by
    intro r hafter heq
    unfold Routes.pathTo at h hafter
    rw [heq, h] at hafter
    rw [some.inj hafter]
  cases act with
  | watch destination => exact hsame h' rfl
  | requestPath destination => exact hsame h' (rest_requestPath e destination).1
  | sent call ok =>
    refine hsame h' ?_
    unfold RnsEndpoint.step
    simp only
    split
    · split <;> rfl
    · rfl
  | timeout call =>
    refine hsame h' ?_
    unfold RnsEndpoint.step
    simp only
    split
    · split <;> rfl
    · rfl
  | resume call =>
    refine hsame h' ?_
    unfold RnsEndpoint.step
    simp only
    split
    · split <;> rfl
    · rfl
  | receive raw =>
    refine hsame h' ?_
    unfold RnsEndpoint.step receive
    simp only
    split
    · rfl
    · split
      · rfl
      · split <;> rfl
  | checked announce =>
    unfold RnsEndpoint.step at h'
    simp only at h'
    split at h'
    · exact hsame h' rfl
    split at h'
    · exact hsame h' rfl
    next announce hvalid =>
    unfold RnsEndpoint.learn at h'
    split at h'
    · exact hsame h' rfl
    next hfresh =>
    rcases Routes.pathTo_learn (r := e.routes) announce destination with ⟨hnew, rfl⟩ | ⟨-, hold⟩
    · -- the announce is not outdated
      rw [← some.inj (hnew.symm.trans h')]
      rw [Bool.not_eq_true] at hfresh
      unfold Routes.outdated at hfresh
      rw [h] at hfresh
      exact Nat.not_lt.mp (of_decide_eq_false hfresh)
    · rw [some.inj (h.symm.trans (hold path' h'))]

theorem Kept.checks_of_kept (h : e.Kept) {raw : Bytes} {packet : RnsPacket}
    (hunpack : RnsPacket.unpack raw = some packet)
    (htype : packet.packetType = RnsPacketType.announce)
    (hholds : e.Holds n packet.destinationHash completer)
    (hopen : (packet.destinationHash, completer) ∉ e.completed) :
    (e.step (.receive raw)).checking = e.checking ++ [packet] := by
  have hkept := (h n _ completer hholds).resolve_left hopen
  have hcontains : e.pathWaiters.contains packet.destinationHash = true := by
    unfold LinkedMap.contains
    rw [hkept]
    rfl
  unfold RnsEndpoint.step receive
  simp only [hunpack]
  rw [if_neg (not_not.mpr htype), hcontains, Bool.not_true, Bool.and_false,
    if_neg Bool.false_ne_true]

end RnsEndpoint

section Runs

variable {c : Primitives} {before : RnsEndpoint c} {acts : List Act}

theorem kept_of_orderly (hkept : before.Kept)
    (h : (RnsEndpoint.machine c).Along RnsEndpoint.Orderly before acts) :
    ((RnsEndpoint.machine c).run before acts).Kept :=
  Machine.run_induction_along (fun _ act hkept horderly => hkept.step act horderly) hkept h

theorem stays {P : RnsEndpoint c → Prop} (hP : ∀ e act, P e → P (e.step act)) {i : ℕ}
    {st st' : RnsEndpoint c} {act : Act} {o : Unit}
    (hstep : (RnsEndpoint.machine c).StepAt before acts i st act o st') (h : P st') :
    P ((RnsEndpoint.machine c).run before acts) := by
  rw [← take_append_drop (i + 1) acts, Machine.run_append, hstep.after]
  exact Machine.run_induction (fun e act _ => hP e act) h

end Runs

/-- **Path requests.** In an orderly run a call during whose wait a path is learned is answered, and
returns `true` when it resumes; and a valid announce for a call that waits is checked, whatever is
watched. In every run a call returns `true` only if a path to its destination was learned, and the
announce of a path that is kept is never older than before. -/
theorem answered_of_orderly (c : Primitives) (acceptAllAnnounces : Bool) (acts : List Act) :
    let before : RnsEndpoint c := RnsEndpoint.initial acceptAllAnnounces
    let machine := RnsEndpoint.machine c
    let after := machine.run before acts
    (machine.Along RnsEndpoint.Orderly before acts →
      (∀ i st act o st', machine.StepAt before acts i st act o st' → ∀ destination,
        st.Learns act destination → ∀ (call : ℕ) completer,
          (st.calls[call]? = some ⟨destination, .waiting completer⟩ →
            after.Answered call destination completer ∧
            (after.step (.resume call)).calls[call]? = some ⟨destination, .returned true⟩) ∧
          (st.calls[call]? = some ⟨destination, .sending completer⟩ →
            after.AnsweredIfSent call destination completer)) ∧
      ∀ raw packet call completer, RnsPacket.unpack raw = some packet →
        packet.packetType = RnsPacketType.announce →
        after.Holds call packet.destinationHash completer →
        (packet.destinationHash, completer) ∉ after.completed →
          (after.step (.receive raw)).checking = after.checking ++ [packet]) ∧
    (∀ (call : ℕ) destination, after.calls[call]? = some ⟨destination, .returned true⟩ →
      destination ∈ after.learned) ∧
    ∀ i st act o st', machine.StepAt before acts i st act o st' → ∀ destination path path',
      st.routes.pathTo destination = some path → st'.routes.pathTo destination = some path' →
        path.emittedAt ≤ path'.emittedAt := by
  intro before machine after
  have hkept : before.Kept := by
    rintro call destination completer (hholds | hholds)
    · cases hholds
    · cases hholds
  have htold : before.Told := by
    refine ⟨fun _ hpath => (nomatch hpath), fun _ _ hmem => absurd hmem (Finset.notMem_empty _),
      fun _ _ hreturned => ?_⟩
    cases hreturned
  refine ⟨fun horderly => ⟨?_, fun raw packet call completer hunpack htype hholds hopen => ?_⟩,
    ?_, ?_⟩
  · intro i st act o st' hstep destination hlearns call completer
    have hbefore : st.Kept := by
      rw [← hstep.before]
      refine kept_of_orderly hkept ?_
      rw [← take_append_drop i acts, Machine.along_append] at horderly
      exact horderly.1
    obtain rfl : st.step act = st' := congrArg Prod.fst hstep.step
    constructor
    · intro hwaiting
      obtain ⟨hdone, hcalls⟩ := hbefore.completed_of_learns hlearns (.inr hwaiting)
      have hanswered : after.Answered call destination completer :=
        stays (P := fun e => e.Answered call destination completer) (fun e act h => h.step act)
          hstep (.inr ⟨hdone, hcalls ▸ hwaiting⟩)
      exact ⟨hanswered, hanswered.resume⟩
    · intro hsending
      obtain ⟨hdone, hcalls⟩ := hbefore.completed_of_learns hlearns (.inl hsending)
      exact stays (P := fun e => e.AnsweredIfSent call destination completer)
        (fun e act h => h.step act) hstep (.inr (.inl ⟨hdone, hcalls ▸ hsending⟩))
  · exact (kept_of_orderly hkept horderly).checks_of_kept hunpack htype hholds hopen
  · have hafter : after.Told :=
      Machine.run_induction (fun e act _ h => h.step act) htold
    exact hafter.calls
  · intro i st act o st' hstep destination path path' hpath hpath'
    obtain rfl : st.step act = st' := congrArg Prod.fst hstep.step
    exact RnsEndpoint.emittedAt_step st act hpath hpath'

namespace Sample

def destination : Bytes := List.replicate 16 0

def announced : RnsPacket where
  packetType := RnsPacketType.announce
  destinationType := RnsDestinationType.single
  destinationHash := destination
  data := List.replicate 148 0

def gaveUp : List Act :=
  [.requestPath destination, .sent 0 true, .requestPath destination, .sent 1 true, .timeout 0,
    .receive announced.raw]

def start : RnsEndpoint primitives := RnsEndpoint.initial false

def afterRun (acts : List Act) : RnsEndpoint primitives :=
  (RnsEndpoint.machine primitives).run start acts

/-- **The announce is missed**: it is learned while the second call waits, which then times out. -/
theorem announce_missed :
    (afterRun gaveUp).calls = [⟨destination, .returned false⟩, ⟨destination, .waiting 0⟩] ∧
    (afterRun (gaveUp ++ [.checked 0])).learned = {destination} ∧
    ((afterRun (gaveUp ++ [.checked 0])).routes.pathTo destination).isSome ∧
    (afterRun (gaveUp ++ [.checked 0, .timeout 1])).calls =
      [⟨destination, .returned false⟩, ⟨destination, .returned false⟩] := by
  decide +kernel

def heard : List Act :=
  [.requestPath destination, .sent 0 true, .requestPath destination, .sent 1 true,
    .receive announced.raw, .checked 0, .resume 0]

theorem learns_heard : (afterRun (heard.take 5)).Learns (.checked 0) destination := by
  have hvalid : (RnsAnnounce.validate primitives announced).isSome = true := by decide +kernel
  obtain ⟨announce, hannounce⟩ := isSome_iff_exists.mp hvalid
  have hchecking : (afterRun (heard.take 5)).checking[0]? = some announced := by decide +kernel
  have hnone : ((afterRun (heard.take 5)).routes.pathTo destination).isNone = true := by
    decide +kernel
  obtain ⟨hdestination, -⟩ := Routes.validate_eq_some hannounce
  refine ⟨0, announced, announce, rfl, hchecking, hannounce, ?_, hdestination⟩
  unfold Routes.outdated
  rw [hdestination]
  show Option.any _ ((afterRun (heard.take 5)).routes.pathTo destination) = false
  rw [isNone_iff_eq_none.mp hnone]
  rfl

theorem answered_heard :
    (afterRun heard).calls[0]? = some ⟨destination, .returned true⟩ ∧
    ((afterRun heard).step (.resume 1)).calls[1]? = some ⟨destination, .returned true⟩ := by
  obtain ⟨hanswered, -⟩ := (answered_of_orderly primitives false heard).1
    ⟨trivial, trivial, trivial, trivial, trivial, trivial, trivial, trivial⟩
  have hstep := @Machine.stepAt_run _ _ _ (RnsEndpoint.machine primitives) start heard 5 (by decide)
  have hwaiting : (afterRun (heard.take 5)).calls[1]? = some ⟨destination, .waiting 0⟩ := by
    decide +kernel
  exact ⟨by decide +kernel, ((hanswered 5 _ _ _ _ hstep destination learns_heard 1 0).1 hwaiting).2⟩

end Sample

end Reticulum
end Conest
