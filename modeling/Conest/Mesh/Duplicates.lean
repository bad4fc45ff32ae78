import Conest.Lib.EventLog
import Conest.Mesh.Node

/-!
# Duplicate suppression

A copy is compared with the remembered keys when its handling begins, and its key is remembered when
it goes on: past `onPacket`, and past the packet that its fragments make. What holds of every run in
which no copy of a packet begins, and the device does not send the packet itself, while another copy
of it waits to go on (`NoOverlap`): between two copies that are accepted and go on, between two that
are relayed, and between one that went on and one that is delivered later, at least `maxSeen` other
keys are remembered.

The argument has two halves. The seen keys are the last `maxSeen` keys that were remembered
(`Good.memory`), so a key that is not seen was remembered long ago or never; and a copy that waits to
go on is the only one, with a key that is not seen (`Good.one`, `Good.unseen`), so it remembers the
key when it goes on.

Copies that go no further are not remembered and can be delivered again (`accepted_twice`).
-/

namespace Conest
namespace Mesh

open Lib
open EventLog

namespace Event

/-- The key that the event puts among the seen ones. -/
def remembers : Event → Option DartString
  | .remembered key _ => some key
  | _ => none

variable (k : DartString)

/-- A copy begins, or the key is remembered, while another copy waits to go on. -/
def overlaps : Event → Bool
  | .began copy early => decide (copy.key = k) && early
  | .remembered key early => decide (key = k) && early
  | _ => false

def delivers : Event → Bool
  | .delivered copy => decide (copy.key = k)
  | _ => false

def accepts : Event → Bool
  | .accepted copy => decide (copy.key = k)
  | _ => false

/-- A copy that goes on is accepted. -/
def acceptsOnward : Event → Bool
  | .accepted copy => decide (copy.key = k) && copy.goesOn
  | _ => false

def relays : Event → Bool
  | .relayed copy => decide (copy.key = k)
  | _ => false

/-- A copy has gone on. -/
def passes (e : Event) : Bool := e.acceptsOnward k || e.relays k

end Event

/-- No copy begins, and the key is not remembered for another reason, while a copy waits. -/
def NoOverlap (k : DartString) (log : List Event) : Prop := ∀ e ∈ log, e.overlaps k = false

/-- The log has enough other keys between two copies that go on. -/
structure Suppressed (k : DartString) (log : List Event) : Prop where
  accepted : Spaced (Event.acceptsOnward k) (Event.acceptsOnward k) (putsOther Event.remembers k)
    maxSeen log
  relayed : Spaced (Event.relays k) (Event.relays k) (putsOther Event.remembers k) maxSeen log
  delivered : Spaced (Event.passes k) (Event.delivers k) (putsOther Event.remembers k) maxSeen log

/-- What holds of the seen keys, the number of copies that wait to go on and the log. -/
structure Good (k : DartString) (seen : List DartString) (waiting : ℕ) (log : List Event) :
    Prop extends Suppressed k log where
  memory : seen.reverse = (keys Event.remembers log).take maxSeen
  one : waiting ≤ 1
  unseen : 0 < waiting → k ∉ seen
  /-- A copy that went on has remembered the key. -/
  passed : ∀ m, since (Event.passes k) (putsOther Event.remembers k) log = some m →
    ∃ m' ≤ m, since (puts Event.remembers k) (putsOther Event.remembers k) log = some m'

/-! ### The log -/

section Log

variable {k key : DartString} {seen : List DartString} {waiting : ℕ} {log : List Event} {e : Event}
  {copy : Copy}

theorem NoOverlap.of_cons (h : NoOverlap k (e :: log)) : NoOverlap k log :=
  fun e' he' => h e' (List.mem_cons_of_mem e he')

theorem Good.initial : Good k [] 0 [] where
  accepted := trivial
  relayed := trivial
  delivered := trivial
  memory := rfl
  one := Nat.zero_le 1
  unseen := fun h => absurd h (Nat.lt_irrefl 0)
  passed := fun _ hm => nomatch hm

theorem Good.fewer {waiting' : ℕ} (h : Good k seen waiting log) (hle : waiting' ≤ waiting) :
    Good k seen waiting' log :=
  { h with
    one := hle.trans h.one
    unseen := fun hpos => h.unseen (Nat.lt_of_lt_of_le hpos hle) }

theorem Good.wait (h : Good k seen waiting log) (hnot : k ∉ seen) : Good k seen 1 log :=
  { h with
    one := le_rfl
    unseen := fun _ => hnot }

theorem Good.far {p : Event → Bool} {m : ℕ} (h : Good k seen waiting log) (hnot : k ∉ seen)
    (himp : ∀ e, p e = true → Event.passes k e = true)
    (hm : since p (putsOther Event.remembers k) log = some m) : maxSeen ≤ m := by
  by_contra hlt
  obtain ⟨m₁, hle₁, hm₁⟩ := since_mono himp hm
  obtain ⟨m₂, hle₂, hm₂⟩ := h.passed m₁ hm₁
  have hmem : k ∈ (keys Event.remembers log).take maxSeen := mem_take_of_since hm₂ (by omega)
  rw [← h.memory, List.mem_reverse] at hmem
  exact hnot hmem

theorem Good.cons (h : Good k seen waiting log) (hremembers : e.remembers = none)
    (hpasses : e.passes k = false) (hdelivers : e.delivers k = true → k ∉ seen) :
    Good k seen waiting (e :: log) := by
  have hputs : puts Event.remembers k e = false := by simp [puts, hremembers]
  have hother : putsOther Event.remembers k e = false := by simp [putsOther, hremembers]
  obtain ⟨haccepts, hrelays⟩ := Bool.or_eq_false_iff.mp hpasses
  refine ⟨⟨h.accepted.cons_other haccepts, h.relayed.cons_other hrelays, ?_, h.delivered⟩, ?_,
    h.one, h.unseen, ?_⟩
  · intro hdelivered m hm
    exact h.far (hdelivers hdelivered) (fun _ hp => hp) hm
  · rw [h.memory]
    unfold keys
    rw [List.filterMap_cons_none hremembers]
  · intro m hm
    rw [since_cons_other hpasses hother] at hm
    rw [since_cons_other hputs hother]
    exact h.passed m hm

/-- The seen keys after one more. -/
def seenWith (seen : List DartString) (key : DartString) : List DartString :=
  if maxSeen < (seen ++ [key]).length then (seen ++ [key]).tail else seen ++ [key]

theorem mem_seenWith {k' : DartString} (h : k' ∈ seenWith seen key) : k' ∈ seen ∨ k' = key := by
  have hmem : k' ∈ seen ++ [key] := by
    unfold seenWith at h
    split at h
    · exact List.mem_of_mem_tail h
    · exact h
  rwa [List.mem_append, List.mem_singleton] at hmem

section

variable {early : Bool} (h : Good k seen waiting log)

include h

theorem memory_seenWith : (seenWith seen key).reverse =
      (keys Event.remembers (.remembered key early :: log)).take maxSeen := by
  have hlength : seen.length ≤ maxSeen := by
    rw [← List.length_reverse, h.memory]
    exact List.length_take_le _ _
  have hlast : (seenWith seen key).reverse = (key :: seen.reverse).take maxSeen := by
    unfold seenWith
    rw [List.length_append, List.length_singleton]
    split
    · rw [← List.dropLast_reverse, List.reverse_append, List.dropLast_eq_take]
      show (key :: seen.reverse).take ((key :: seen.reverse).length - 1) = _
      rw [List.length_cons, List.length_reverse]
      congr 1
      omega
    · rw [List.reverse_append, List.take_of_length_le]
      · rfl
      · rw [List.length_cons, List.length_reverse]
        omega
  calc (seenWith seen key).reverse
      = (key :: seen.reverse).take maxSeen := hlast
    _ = ((key :: keys Event.remembers log).take (maxSeen + 1)).take maxSeen := by
        rw [h.memory, List.take_succ_cons]
    _ = (key :: keys Event.remembers log).take maxSeen := by
        rw [List.take_take, Nat.min_eq_left (Nat.le_succ _)]

theorem Good.remember_other (hne : key ≠ k) :
    Good k (seenWith seen key) waiting (.remembered key early :: log) := by
  have hputs : puts Event.remembers k (.remembered key early) = false := by
    simp [puts, Event.remembers, hne]
  have hother : putsOther Event.remembers k (.remembered key early) = true := by
    simp [putsOther, Event.remembers, hne]
  refine ⟨⟨h.accepted.cons_other rfl, h.relayed.cons_other rfl, h.delivered.cons_other rfl⟩,
    memory_seenWith h, h.one, fun hpos hmem => ?_, fun m hm => ?_⟩
  · rcases mem_seenWith hmem with hold | rfl
    · exact h.unseen hpos hold
    · exact hne rfl
  · rw [since_cons_tick rfl hother] at hm
    obtain ⟨m₀, hm₀, rfl⟩ := Option.map_eq_some_iff.mp hm
    obtain ⟨m', hle, hm'⟩ := h.passed m₀ hm₀
    refine ⟨m' + 1, Nat.succ_le_succ hle, ?_⟩
    rw [since_cons_tick hputs hother, hm']
    rfl

end

section

variable (h : Good k seen waiting log)

include h

theorem Good.remember_self : Good k (seenWith seen k) 0 (.remembered k false :: log) := by
  refine ⟨⟨h.accepted.cons_other rfl, h.relayed.cons_other rfl, h.delivered.cons_other rfl⟩,
    memory_seenWith h, Nat.zero_le 1, fun hpos => absurd hpos (Nat.lt_irrefl 0), fun m _ => ?_⟩
  exact ⟨0, Nat.zero_le m, since_cons_self (by simp [puts, Event.remembers])⟩

theorem Good.accept (hnot : k ∉ seen) :
    Good k (seenWith seen k) 0 (.remembered k false :: .accepted copy :: log) := by
  have hfar : ∀ m, since (Event.acceptsOnward k) (putsOther Event.remembers k) log = some m →
      maxSeen ≤ m := fun m hm =>
    h.far hnot (fun e he => Bool.or_eq_true_iff.mpr (.inl he)) hm
  have haccepted : Spaced (Event.acceptsOnward k) (Event.acceptsOnward k)
      (putsOther Event.remembers k) maxSeen (.accepted copy :: log) := ⟨fun _ => hfar, h.accepted⟩
  have hmemory : (seenWith seen k).reverse =
      (keys Event.remembers (.remembered k false :: log)).take maxSeen := memory_seenWith h
  refine ⟨⟨haccepted.cons_other rfl, ?_, ?_⟩, hmemory, Nat.zero_le 1,
    fun hpos => absurd hpos (Nat.lt_irrefl 0), fun m _ => ?_⟩
  · exact (h.relayed.cons_other rfl).cons_other rfl
  · exact (h.delivered.cons_other rfl).cons_other rfl
  · exact ⟨0, Nat.zero_le m, since_cons_self (by simp [puts, Event.remembers])⟩

theorem Good.relay
    (hjust : since (puts Event.remembers k) (putsOther Event.remembers k) log = some 0)
    (hfar : ∀ m, since (Event.relays k) (putsOther Event.remembers k) log = some m → maxSeen ≤ m) :
    Good k seen waiting (.relayed copy :: log) := by
  refine ⟨⟨h.accepted.cons_other rfl, ⟨fun _ => hfar, h.relayed⟩, h.delivered.cons_other rfl⟩,
    h.memory, h.one, h.unseen, fun m _ => ⟨0, Nat.zero_le m, ?_⟩⟩
  rw [since_cons_other rfl rfl]
  exact hjust

end

end Log

/-! ### The node -/

namespace BitchatNode

/-- How many copies of a key wait to go on. -/
def waiting (k : DartString) (tasks : List (List Frame)) : ℕ :=
  (tasks.map fun task => task.countP (Frame.waitsFor k)).sum

section Waiting

variable {k : DartString} {tasks : List (List Frame)} {task : List Frame} {frame : Frame} {i : ℕ}

theorem waiting_append_nil : waiting k (tasks ++ [[]]) = waiting k tasks := by
  unfold waiting
  rw [List.map_append, List.sum_append]
  rfl

theorem waiting_modify_le : waiting k (tasks.modify i (frame :: ·)) ≤
    waiting k tasks + if frame.waitsFor k then 1 else 0 := by
  induction tasks generalizing i with
  | nil =>
    rw [List.modify_nil]
    exact Nat.zero_le _
  | cons task tasks ih =>
  cases i with
  | zero =>
    show ((frame :: task).countP _ + waiting k tasks) ≤ task.countP _ + waiting k tasks + _
    rw [List.countP_cons]
    omega
  | succ i =>
    have hrest := @ih i
    show task.countP _ + waiting k (tasks.modify i _) ≤ task.countP _ + waiting k tasks + _
    omega

theorem waiting_set (h : tasks[i]? = some task) (task' : List Frame) :
    waiting k (tasks.set i task') + task.countP (Frame.waitsFor k) =
      waiting k tasks + task'.countP (Frame.waitsFor k) := by
  induction tasks generalizing i with
  | nil => cases h
  | cons first tasks ih =>
  cases i with
  | zero =>
    cases h
    show (task'.countP _ + waiting k tasks) + _ = (task.countP _ + waiting k tasks) + _
    omega
  | succ i =>
    have hrest := @ih i (by simpa using h)
    show (first.countP _ + waiting k (tasks.set i task')) + _ = (first.countP _ + waiting k tasks) + _
    omega

theorem waitsFor_eq_false {n : BitchatNode} (h : n.waitsFor k = false) : waiting k n.tasks = 0 := by
  unfold waiting
  rw [List.sum_eq_zero_iff]
  intro count hcount
  obtain ⟨task, htask, rfl⟩ := List.mem_map.mp hcount
  rw [List.countP_eq_zero]
  intro frame hframe hwaits
  have htrue : n.waitsFor k = true :=
    List.any_eq_true.mpr ⟨task, htask, List.any_eq_true.mpr ⟨frame, hframe, hwaits⟩⟩
  rw [h] at htrue
  cases htrue

theorem waitsFor_eq_false_iff {n : BitchatNode} :
    n.waitsFor k = false ↔ waiting k n.tasks = 0 := by
  refine ⟨waitsFor_eq_false, fun hzero => ?_⟩
  unfold waiting at hzero
  rw [List.sum_eq_zero_iff] at hzero
  apply Bool.eq_false_iff.mpr
  intro htrue
  obtain ⟨task, htask, hframes⟩ := List.any_eq_true.mp htrue
  obtain ⟨frame, hframe, hwaits⟩ := List.any_eq_true.mp hframes
  have hnone := hzero _ (List.mem_map_of_mem htask)
  exact List.countP_eq_zero.mp hnone frame hframe hwaits

end Waiting

variable (k : DartString) (n : BitchatNode)

/-- Where nothing has overlapped, the seen keys, the waiting copies and the log are good. -/
def Safe : Prop := NoOverlap k n.log → Good k n.seen (waiting k n.tasks) n.log

/-- No copy of the key waits, and the key is not seen. -/
def Fresh : Prop := waiting k n.tasks = 0 ∧ k ∉ n.seen

variable {k n} {key : DartString} {e : Event} {frame : Frame} {copy : Copy} {i : ℕ}

theorem remember_of_not_mem (h : key ∉ n.seen) : n.remember key = { n with
    seen := seenWith n.seen key, log := .remembered key (n.waitsFor key) :: n.log } := by
  unfold remember
  rw [if_neg h]
  rfl

section

variable (h : n.Safe k)

include h

theorem safe_note (hremembers : e.remembers = none) (hpasses : e.passes k = false)
    (hdelivers : e.delivers k = true → NoOverlap k n.log → k ∉ n.seen) : (n.note e).Safe k := by
  intro hno
  have hno' : NoOverlap k n.log := hno.of_cons
  exact (h hno').cons hremembers hpasses fun he => hdelivers he hno'

theorem safe_remember (key : DartString) : (n.remember key).Safe k := by
  by_cases hseen : key ∈ n.seen
  · have hsame : n.remember key = n := if_pos hseen
    rwa [hsame]
  rw [remember_of_not_mem hseen]
  intro hno
  have hgood := h hno.of_cons
  by_cases hkey : key = k
  · subst hkey
    -- nothing overlaps, so no copy of the key waits
    have hearly : n.waitsFor key = false := by
      have hfirst := hno _ List.mem_cons_self
      simpa [Event.overlaps] using hfirst
    show Good key (seenWith n.seen key) (waiting key n.tasks) (.remembered key (n.waitsFor key) :: n.log)
    rw [hearly, waitsFor_eq_false hearly]
    exact hgood.remember_self
  · exact hgood.remember_other hkey

theorem safe_push (hframe : frame.waitsFor k = false) : (n.push i frame).Safe k := by
  intro hno
  have hle := @waiting_modify_le k n.tasks frame i
  rw [hframe] at hle
  exact (h hno).fewer hle

theorem safe_push_fresh (hfresh : NoOverlap k n.log → n.Fresh k) : (n.push i frame).Safe k := by
  intro hno
  obtain ⟨hzero, hnot⟩ := hfresh hno
  have hle := @waiting_modify_le k n.tasks frame i
  refine ((h hno).wait hnot).fewer (hle.trans ?_)
  split <;> omega

theorem safe_perform (sendings : List Sending) : (n.perform i sendings).Safe k := by
  unfold perform
  split
  · exact h
  next sending rest =>
  apply safe_push _ rfl
  apply safe_note (e := .sent sending.send) _ rfl rfl (fun he => nomatch he)
  split
  · exact safe_remember h _
  · exact h

end

variable {c : NodeConfig} {env : Env}

theorem safe_sendFitting (h : n.Safe k) (packet : BitchatPacket) (encoded : Bytes)
    (exceptLink : Option DartString) : (n.sendFitting c env i packet encoded exceptLink).Safe k :=
  safe_perform h _

theorem relayAllowed_same (link : DartString) {n' : BitchatNode} {allowed : Bool}
    (h : n.relayAllowed env link = (n', allowed)) :
    n'.seen = n.seen ∧ n'.tasks = n.tasks ∧ n'.log = n.log := by
  unfold relayAllowed at h
  simp only at h
  split at h <;> split at h <;> cases h <;> exact ⟨rfl, rfl, rfl⟩

theorem Safe.of_same {n' : BitchatNode} (h : n.Safe k)
    (hsame : n'.seen = n.seen ∧ n'.tasks = n.tasks ∧ n'.log = n.log) : n'.Safe k := by
  obtain ⟨hseen, htasks, hlog⟩ := hsame
  unfold Safe
  rw [hseen, htasks, hlog]
  exact h

theorem safe_relay (h : n.Safe k)
    (hfresh : copy.key = k → NoOverlap k n.log →
      since (puts Event.remembers k) (putsOther Event.remembers k) n.log = some 0 ∧
        ∀ m, since (Event.relays k) (putsOther Event.remembers k) n.log = some m → maxSeen ≤ m) :
    (if !c.relay || decide (copy.packet.type ∉ relayedTypes) then n
      else
        match n.relayAllowed env copy.link with
        | (n, false) => n
        | (n, true) =>
          let hops := min copy.packet.ttl bitchatDefaultTtl - 1
          (n.note (.relayed copy)).sendFitting c env i { copy.packet with ttl := hops }
            (copy.raw.set 2 hops) (some copy.link)).Safe k := by
  split
  · exact h
  split
  next n' hallowed => exact h.of_same (relayAllowed_same copy.link hallowed)
  next n' hallowed =>
  have hsame := relayAllowed_same copy.link hallowed
  have h' := h.of_same hsame
  apply safe_sendFitting
  by_cases hkey : copy.key = k
  · intro hno
    have hno' : NoOverlap k n'.log := hno.of_cons
    obtain ⟨hjust, hfar⟩ := hfresh hkey (hsame.2.2 ▸ hno')
    rw [← hsame.2.2] at hjust hfar
    exact (h' hno').relay hjust hfar
  · apply safe_note (e := .relayed copy) h' rfl _ (fun he => nomatch he)
    simp [Event.passes, Event.acceptsOnward, Event.relays, hkey]

theorem noOverlap_of_remember (h : NoOverlap k (n.remember key).log) : NoOverlap k n.log := by
  unfold remember at h
  split at h
  · exact h
  · exact h.of_cons

theorem Fresh.remember (hfresh : n.Fresh k) :
    n.remember k = { n with seen := seenWith n.seen k, log := .remembered k false :: n.log } := by
  rw [remember_of_not_mem hfresh.2, waitsFor_eq_false_iff.mpr hfresh.1]

theorem since_remembered (log : List Event) :
    since (puts Event.remembers k) (putsOther Event.remembers k) (.remembered k false :: log) =
      some 0 :=
  since_cons_self (by simp [puts, Event.remembers])

theorem putsOther_remembered :
    putsOther Event.remembers k (.remembered k false) = false := by
  simp [putsOther, Event.remembers]

section

variable (h : n.Safe k) (hfresh : copy.key = k → copy.goesOn = true → NoOverlap k n.log → n.Fresh k)

include h hfresh

theorem safe_goOn : (n.goOn c env i copy).Safe k := by
  unfold goOn
  split
  · exact h
  next hon =>
  have hon' : copy.goesOn = true := by simpa using hon
  apply safe_relay (safe_remember h copy.key)
  intro hkey hno
  have hno' := noOverlap_of_remember hno
  have hfresh' := hfresh hkey hon' hno'
  rw [hkey, hfresh'.remember]
  refine ⟨since_remembered _, fun m hm => ?_⟩
  rw [since_cons_other rfl putsOther_remembered] at hm
  exact (h hno').far hfresh'.2 (fun e he => Bool.or_eq_true_iff.mpr (.inr he)) hm

theorem safe_accept : ((n.note (.accepted copy)).goOn c env i copy).Safe k := by
  by_cases hboth : copy.key = k ∧ copy.goesOn = true
  swap
  · -- not a copy of the key, or it goes no further
    have hpasses : Event.passes k (.accepted copy) = false := by
      rw [not_and] at hboth
      simp only [Event.passes, Event.acceptsOnward, Event.relays, Bool.or_false]
      by_cases hkey : copy.key = k
      · simp [hboth hkey]
      · simp [hkey]
    apply safe_goOn (safe_note h rfl hpasses fun he => nomatch he)
    intro hkey hon
    exact absurd ⟨hkey, hon⟩ hboth
  obtain ⟨hkey, hon⟩ := hboth
  have hfresh' : NoOverlap k (n.note (.accepted copy)).log → (n.note (.accepted copy)).Fresh k :=
    fun hno => hfresh hkey hon hno.of_cons
  unfold goOn
  rw [if_neg (by simp [hon]), hkey]
  apply safe_relay
  · intro hno
    have hno' := noOverlap_of_remember hno
    have hfresh'' := hfresh' hno'
    have hgood : Good k (seenWith n.seen k) 0 (.remembered k false :: .accepted copy :: n.log) :=
      (h hno'.of_cons).accept hfresh''.2
    rw [hfresh''.remember]
    refine hgood.fewer ?_
    exact le_of_eq hfresh''.1
  intro _ hno
  have hno' := noOverlap_of_remember hno
  have hfresh'' := hfresh' hno'
  rw [hfresh''.remember]
  refine ⟨since_remembered _, fun m hm => ?_⟩
  rw [since_cons_other rfl putsOther_remembered] at hm
  change since _ _ (.accepted copy :: n.log) = some m at hm
  rw [since_cons_other rfl rfl] at hm
  exact (h hno'.of_cons).far hfresh''.2 (fun e he => Bool.or_eq_true_iff.mpr (.inr he)) hm

end

section

variable (h : n.Safe k)

include h

theorem safe_handlePublic (hfresh : copy.key = k → NoOverlap k n.log → n.Fresh k) :
    (n.handlePublic c env i copy).1.Safe k := by
  unfold handlePublic
  split
  · -- a fragment
    simp only
    have hremember : (if copy.packet.recipientId.any env.wantsRecipient ||
        decide (copy.packet.ttl = 0) then n.remember copy.key else n).Safe k := by
      split
      · exact safe_remember h _
      · exact h
    -- what goes on has not been remembered
    have hfresh' : copy.key = k → copy.goesOn = true →
        copy.packet.recipientId.any env.wantsRecipient = false →
        NoOverlap k (if copy.packet.recipientId.any env.wantsRecipient ||
          decide (copy.packet.ttl = 0) then n.remember copy.key else n).log →
        (if copy.packet.recipientId.any env.wantsRecipient ||
          decide (copy.packet.ttl = 0) then n.remember copy.key else n).Fresh k := by
      intro hkey hon htoMe hno
      have httl : copy.packet.ttl ≠ 0 := by
        unfold Copy.goesOn at hon
        simp only [Bool.and_eq_true, decide_eq_true_eq] at hon
        exact hon.2
      rw [htoMe, if_neg (by simpa using httl)] at hno ⊢
      exact hfresh hkey hno
    generalize (if copy.packet.recipientId.any env.wantsRecipient ||
      decide (copy.packet.ttl = 0) then n.remember copy.key else n) = n' at hremember hfresh'
    cases htoMe : copy.packet.recipientId.any env.wantsRecipient with
    | true =>
      split
      · exact safe_push hremember (by simp [Frame.waitsFor])
      · exact hremember
    | false =>
    split
    · by_cases hkey : copy.key = k ∧ copy.goesOn = true
      · exact safe_push_fresh hremember (hfresh' hkey.1 hkey.2 htoMe)
      · refine safe_push hremember ?_
        simp only [Frame.waitsFor, Bool.not_false, Bool.and_true]
        simpa using hkey
    · exact safe_goOn hremember fun hkey hon => hfresh' hkey hon htoMe
  · split
    · -- `onPacket` is asked
      have hnote : (n.note (.delivered copy)).Safe k := by
        refine safe_note h rfl rfl fun he hno => ?_
        exact (hfresh (of_decide_eq_true he) hno).2
      by_cases hkey : copy.key = k
      · exact safe_push_fresh hnote fun hno => hfresh hkey hno.of_cons
      · exact safe_push hnote (by simp [Frame.waitsFor, hkey])
    · exact safe_goOn h fun hkey _ => hfresh hkey

/-- **A packet arrives.** A copy of the key that passes the first checks is fresh, if nothing
overlaps. -/
theorem safe_start (link : DartString) (raw : Bytes) (reassembled relayReassembled : Bool)
    (expectedType : Option UInt8) :
    (n.start c env i link raw reassembled relayReassembled expectedType).1.Safe k := by
  unfold start
  split
  · exact h
  next packet hdecode =>
  simp only
  split
  · exact h
  next hchecks =>
  have hnot : packet.dedupKey c.sha256 ∉ n.seen := by
    intro hmem
    simp [hmem] at hchecks
  have hbegan : (n.note (.began ⟨link, raw, packet, packet.dedupKey c.sha256, reassembled,
      relayReassembled⟩ (n.waitsFor (packet.dedupKey c.sha256)))).Safe k :=
    safe_note h rfl rfl fun he => nomatch he
  split
  · exact safe_remember hbegan _
  · exact hbegan
  apply safe_handlePublic hbegan
  intro hkey hno
  have hkey' : packet.dedupKey c.sha256 = k := hkey
  have hearly := hno _ List.mem_cons_self
  refine ⟨?_, hkey' ▸ hnot⟩
  apply waitsFor_eq_false
  show n.waitsFor k = false
  simpa [Event.overlaps, hkey'] using hearly

theorem safe_handle (link : DartString) (raw : Bytes) (reassembled relayReassembled : Bool)
    (expectedType : Option UInt8) :
    (handle c env n i link raw reassembled relayReassembled expectedType).Safe k := by
  fun_induction handle c env n i link raw reassembled relayReassembled expectedType with
  | case1 n raw reassembled relayReassembled expectedType n' hstart =>
    have hsafe := @safe_start k n i c env h link raw reassembled relayReassembled expectedType
    rw [hstart] at hsafe
    exact hsafe
  | case2 n raw reassembled relayReassembled expectedType n' whole type toMe hstart ih =>
    have hsafe := @safe_start k n i c env h link raw reassembled relayReassembled expectedType
    rw [hstart] at hsafe
    exact ih hsafe

theorem safe_resume (i : ℕ) (answer : Answer) : (n.resume c env i answer).Safe k := by
  unfold resume
  split
  swap
  · exact h
  next frame outer htask =>
  have hset := @waiting_set k n.tasks (frame :: outer) i htask outer
  rw [List.countP_cons] at hset
  have hpopped : Safe k { n with tasks := n.tasks.set i outer } := by
    intro hno
    refine (h hno).fewer ?_
    show waiting k (n.tasks.set i outer) ≤ waiting k n.tasks
    omega
  have hfresh : frame.waitsFor k = true → NoOverlap k n.log →
      Fresh k { n with tasks := n.tasks.set i outer } := by
    intro hwaits hno
    rw [hwaits, if_pos rfl] at hset
    have hone := (h hno).one
    have hpos : 0 < waiting k n.tasks := by omega
    refine ⟨?_, (h hno).unseen hpos⟩
    show waiting k (n.tasks.set i outer) = 0
    omega
  split
  · next copy =>
    apply safe_accept hpopped
    intro hkey hon
    exact hfresh (by simp [Frame.waitsFor, hkey, hon])
  · exact hpopped
  · next copy toMe =>
    cases toMe with
    | true => exact hpopped
    | false =>
      apply safe_goOn hpopped
      intro hkey hon
      exact hfresh (by simp [Frame.waitsFor, hkey, hon])
  · exact safe_perform hpopped _
  · exact safe_perform hpopped _
  · -- an error ends the task
    intro hno
    refine (h hno).fewer ?_
    have hclear := @waiting_set k n.tasks (frame :: outer) i htask []
    rw [List.countP_nil] at hclear
    show waiting k ((n.tasks.set i outer).set i []) ≤ waiting k n.tasks
    rw [List.set_set]
    omega

theorem safe_step (act : Act) : (n.step c act).Safe k := by
  have hadded : Safe k { n with tasks := n.tasks ++ [[]] } := by
    intro hno
    apply (h hno).fewer
    show waiting k (n.tasks ++ [[]]) ≤ waiting k n.tasks
    rw [waiting_append_nil]
  cases act with
  | receive env link raw => exact safe_handle hadded link raw false false none
  | resume env i answer => exact safe_resume h i answer
  | send env packet => exact safe_sendFitting (safe_remember hadded _) packet _ none

theorem safe_run (acts : List Act) : (n.run c acts).Safe k := by
  induction acts generalizing n with
  | nil => exact h
  | cons act acts ih => exact ih (safe_step h act)

end

/-- **Duplicate suppression.** In every run in which the copies of a packet do not overlap, no two
copies of it are accepted and go on, no two are relayed, and none is delivered after one has gone on,
unless `maxSeen` other keys were remembered in between. -/
theorem duplicates_suppressed (c : NodeConfig) (acts : List Act) (k : DartString)
    (h : NoOverlap k (initial.run c acts).log) : Suppressed k (initial.run c acts).log :=
  (safe_run (fun _ => Good.initial) acts h).toSuppressed

theorem step_receive {link : DartString} {raw : Bytes}
    (h : (start { n with tasks := n.tasks ++ [[]] } c env n.tasks.length link raw false false
      none).2 = none) :
    n.step c (.receive env link raw) =
      (start { n with tasks := n.tasks ++ [[]] } c env n.tasks.length link raw false false none).1 := by
  show handle c env _ _ link raw false false none = _
  rw [handle]
  split
  next hstart => rw [hstart]
  next hstart =>
  rw [hstart] at h
  cases h

end BitchatNode

namespace Sample

def mesh : NodeConfig where
  onPacket := true
  maxPacketBytes := 512
  relay := true
  sha256 bytes := bytes.map fun byte => Fin.ofNat 65536 byte.toNat

def nearby : Env where
  now := 1000
  onPrivate _ _ := .notMine
  wantsRecipient _ := false
  inflate _ := none
  linkLimits := LinkedMap.ofEntries [([1], 512), ([2], 512)]
  fragmentId := List.replicate 8 0

def message (ttl : UInt8) : BitchatPacket where
  version := 1
  type := BitchatType.message
  ttl := ttl
  timestamp := 1000
  senderId := List.replicate 8 1
  recipientId := none
  route := none
  payload := [104, 105]
  compressed := false
  signature := none

def messageKey : DartString := (message 7).dedupKey mesh.sha256

def arrives (n : BitchatNode) (link : DartString) (ttl : UInt8) : BitchatNode :=
  (BitchatNode.start { n with tasks := n.tasks ++ [[]] } mesh nearby n.tasks.length link
    ((message ttl).encode none) false false none).1

def answered (n : BitchatNode) (i : ℕ) : BitchatNode := n.resume mesh nearby i (.returned true)

def twice (ttl : UInt8) : List BitchatNode.Act :=
  [.receive nearby [1] ((message ttl).encode none), .resume nearby 0 (.returned true),
   .receive nearby [2] ((message 7).encode none), .resume nearby 1 (.returned true)]

def logAfter (ttl : UInt8) : List Event :=
  (answered (arrives (answered (arrives BitchatNode.initial [1] ttl) 0) [2] 7) 1).log

section

variable (ttl : UInt8) (h : ttl = 0 ∨ ttl = 7)

include ttl h

theorem alone_first :
    (BitchatNode.start { BitchatNode.initial with tasks := [[]] } mesh nearby 0 [1]
      ((message ttl).encode none) false false none).2 = none := by
  rcases h with rfl | rfl <;> decide

theorem alone_second : (BitchatNode.start
      { answered (arrives BitchatNode.initial [1] ttl) 0 with
        tasks := (answered (arrives BitchatNode.initial [1] ttl) 0).tasks ++ [[]] } mesh nearby
      (answered (arrives BitchatNode.initial [1] ttl) 0).tasks.length [2]
      ((message 7).encode none) false false none).2 = none := by
  rcases h with rfl | rfl <;> decide

theorem log_twice : (BitchatNode.initial.run mesh (twice ttl)).log = logAfter ttl := by
  have hfirst : BitchatNode.initial.step mesh (.receive nearby [1] ((message ttl).encode none)) =
      arrives BitchatNode.initial [1] ttl := BitchatNode.step_receive (alone_first ttl h)
  have hsecond : (answered (arrives BitchatNode.initial [1] ttl) 0).step mesh
      (.receive nearby [2] ((message 7).encode none)) =
      arrives (answered (arrives BitchatNode.initial [1] ttl) 0) [2] 7 :=
    BitchatNode.step_receive (alone_second ttl h)
  unfold BitchatNode.run twice logAfter
  rw [List.foldl_cons, List.foldl_cons, List.foldl_cons, List.foldl_cons, hfirst]
  show (((answered (arrives BitchatNode.initial [1] ttl) 0).step mesh
    (.receive nearby [2] ((message 7).encode none))).step mesh
      (.resume nearby 1 (.returned true))).log = _
  rw [hsecond]
  rfl

end

theorem duplicates_suppressed_twice :
    Suppressed messageKey (BitchatNode.initial.run mesh (twice 7)).log ∧
      (BitchatNode.initial.run mesh (twice 7)).log.countP (Event.relays messageKey) = 1 := by
  have hlog := log_twice 7 (.inr rfl)
  have hno : NoOverlap messageKey (BitchatNode.initial.run mesh (twice 7)).log := by
    unfold NoOverlap
    decide +kernel
  refine ⟨BitchatNode.duplicates_suppressed mesh (twice 7) messageKey hno, ?_⟩
  decide +kernel

/-- **A copy with no hops to go**, and then one with some: both are accepted, with no key remembered
in between. -/
theorem accepted_twice :
    (BitchatNode.initial.run mesh (twice 0)).log.countP (Event.accepts messageKey) = 2 ∧
      (keys Event.remembers (BitchatNode.initial.run mesh (twice 0)).log).length = 1 := by
  decide +kernel

end Sample

end Mesh
end Conest
