import Conest.Mesh.Duplicates

/-!
# Packets within packets

A packet that fragments make is handled by a call of `_handle` inside the call for the last
fragment. It can be a fragment itself, of a packet with one fragment or of one that waits for its
last. Whatever the reassembler holds, the calls end: what it holds and the bytes in hand weigh less
from one call to the next (`nested_weight`), so there are never more calls than they weigh.
-/

namespace Conest
namespace Mesh

open Lib

/-- A call of `_handle`, with the node as the call finds it. -/
structure Handling where
  node : BitchatNode
  link : DartString
  raw : Bytes
  reassembled : Bool
  relayReassembled : Bool
  expectedType : Option UInt8

namespace Handling

variable (c : NodeConfig) (i : ℕ)

/-- What a call does before the call inside it. -/
def start (env : Env) (call : Handling) : BitchatNode × Option (Bytes × UInt8 × Bool) :=
  call.node.start c env i call.link call.raw call.reassembled call.relayReassembled
    call.expectedType

/-- The call inside a call. -/
def nested (env : Env) (call : Handling) : Option Handling :=
  (call.start c i env).2.map fun (whole, type, toMe) =>
    ⟨(call.start c i env).1, call.link, whole, true, toMe, some type⟩

/-- `_handle`, with all calls inside. -/
def handle (env : Env) (call : Handling) : BitchatNode :=
  call.node.handle c env i call.link call.raw call.reassembled call.relayReassembled
    call.expectedType

/-- The bytes that the reassembler holds and those in hand. -/
def weight (call : Handling) : ℕ := call.node.reassembler.weight + call.raw.length

/-- `_handle` up to the first wait, each call with what its own calls of the node return; `none` if
it takes more than `fuel` calls. -/
def within : ℕ → (ℕ → Env) → Handling → Option BitchatNode
  | 0, _, _ => none
  | fuel + 1, env, call =>
    match call.nested c i (env 0) with
    | none => some (call.start c i (env 0)).1
    | some inner => within fuel (fun depth => env (depth + 1)) inner

variable {c i}

theorem nested_weight {env : Env} {call inner : Handling} (h : call.nested c i env = some inner) :
    inner.weight < call.weight := by
  unfold nested at h
  obtain ⟨⟨whole, type, toMe⟩, hstart, rfl⟩ := Option.map_eq_some_iff.mp h
  exact BitchatNode.start_weight (Prod.ext rfl hstart)

theorem within_ends {fuel : ℕ} (env : ℕ → Env) {call : Handling} (h : call.weight < fuel) :
    ∃ node, within c i fuel env call = some node := by
  induction fuel generalizing env call with
  | zero => exact absurd h (Nat.not_lt_zero _)
  | succ fuel ih =>
    unfold within
    split
    · exact ⟨_, rfl⟩
    next hnested => exact ih _ (Nat.lt_of_lt_of_le (nested_weight hnested) (Nat.lt_succ_iff.mp h))

theorem handle_eq (env : Env) (call : Handling) :
    call.handle c i env =
      ((call.nested c i env).map (handle c i env)).getD (call.start c i env).1 := by
  unfold handle nested
  rw [BitchatNode.handle]
  split
  · next node hstart =>
    have hcall : call.start c i env = (node, none) := hstart
    rw [hcall]
    rfl
  next node whole type toMe hstart =>
  have hcall : call.start c i env = (node, some (whole, type, toMe)) := hstart
  rw [hcall]
  rfl

theorem eq_handle_of_within {fuel : ℕ} {env : Env} {call : Handling} {node : BitchatNode}
    (h : within c i fuel (fun _ => env) call = some node) : node = call.handle c i env := by
  induction fuel generalizing call with
  | zero => cases h
  | succ fuel ih =>
  rw [handle_eq]
  unfold within at h
  split at h
  · next hnested =>
    rw [hnested]
    exact (Option.some.inj h).symm
  next hnested =>
  rw [hnested]
  exact ih h

/-- **Handling a datagram ends**, whatever the reassembler holds and whatever the calls of the node
return from one call of `_handle` to the next: every call inside weighs less than the one around it,
and there are no more of them than the first one weighs. -/
theorem handling_ends (c : NodeConfig) (i : ℕ) (call : Handling) :
    (∀ env inner, call.nested c i env = some inner → inner.weight < call.weight) ∧
      (∀ env, ∃ node, within c i (call.weight + 1) env call = some node) ∧
      ∀ env, within c i (call.weight + 1) (fun _ => env) call = some (call.handle c i env) := by
  refine ⟨fun env inner => nested_weight, fun env => within_ends env (Nat.lt_succ_self _), fun env => ?_⟩
  obtain ⟨node, hnode⟩ := within_ends (fun _ => env)
    (Nat.lt_succ_self call.weight)
  rw [hnode, eq_handle_of_within hnode]

end Handling

namespace Sample

def wrapped (packet : BitchatPacket) : BitchatPacket :=
  fragmentOf packet (List.replicate 8 0) 0 1 (packet.encode none)

def twiceWrapped : Handling where
  node := BitchatNode.initial
  link := [1]
  raw := (wrapped (wrapped (message 7))).encode none
  reassembled := false
  relayReassembled := false
  expectedType := none

theorem handling_ends_twice_wrapped :
    ((twiceWrapped.nested mesh 0 nearby).bind (Handling.nested mesh 0 nearby)).isSome = true ∧
      (∀ inner, twiceWrapped.nested mesh 0 nearby = some inner →
        inner.weight < twiceWrapped.weight) ∧
      Handling.within mesh 0 (twiceWrapped.weight + 1) (fun _ => nearby) twiceWrapped =
        some (twiceWrapped.handle mesh 0 nearby) := by
  obtain ⟨hless, -, hends⟩ := Handling.handling_ends mesh 0 twiceWrapped
  exact ⟨by decide, hless nearby, hends nearby⟩

end Sample

end Mesh
end Conest
