import Conest.Reticulum.PathRequests

/-!
# Where paths come from

An endpoint keeps what others tell it. In every run it keeps no more than 1024 paths, and each of
them is that of an announce that it received, for this destination and signed by its identity
(`paths_announced`). The next hops are hashes of nodes then, which is all that `sendTo_fits` asks of
an endpoint.
-/

namespace Conest
namespace Reticulum

open Lib List

variable {c : Primitives}

theorem length_transportId {raw : Bytes} {packet : RnsPacket}
    (h : RnsPacket.unpack raw = some packet) :
    ∀ id ∈ packet.transportId, id.length = rnsTruncatedHashBytes := by
  unfold RnsPacket.unpack at h
  split at h
  · cases h
  simp only at h
  split at h
  · cases h
  split at h
  · cases h
  next hlong =>
  obtain rfl := Option.some.inj h
  intro id hid
  dsimp only at hid
  split at hid
  · next hheader =>
    obtain rfl := Option.some.inj hid
    have hlength := not_lt.mp fun hless => hlong ⟨hheader, hless⟩
    rw [length_take, length_drop]
    omega
  · cases hid

/-- The packet was received. -/
def Received (acts : List Act) (packet : RnsPacket) : Prop :=
  ∃ raw, Act.receive raw ∈ acts ∧ RnsPacket.unpack raw = some packet

/-- The path is that of a valid announce of the destination which was received. -/
def Announced (acts : List Act) (destination : Bytes) (path : RnsPath c) : Prop :=
  ∃ packet announce, Received acts packet ∧ RnsAnnounce.validate c packet = some announce ∧
    announce.destinationHash = destination ∧
    path = ⟨announce.identity, announce.hops + 1, announce.transportId, announce.emittedAt⟩

theorem Received.append {acts : List Act} {packet : RnsPacket} (h : Received acts packet)
    (act : Act) : Received (acts ++ [act]) packet := by
  obtain ⟨raw, hraw, hunpack⟩ := h
  exact ⟨raw, mem_append_left _ hraw, hunpack⟩

theorem Announced.append {acts : List Act} {destination : Bytes} {path : RnsPath c}
    (h : Announced acts destination path) (act : Act) :
    Announced (acts ++ [act]) destination path := by
  obtain ⟨packet, announce, hreceived, hrest⟩ := h
  exact ⟨packet, announce, hreceived.append act, hrest⟩

namespace Routes

variable {r : Routes c}

theorem size_learn (h : r.paths.size ≤ maxPaths) (announce : RnsAnnounce c) :
    (r.learn announce).paths.size ≤ maxPaths := by
  unfold learn
  generalize hless : r.paths.remove announce.destinationHash = paths
  have hsize : paths.size ≤ maxPaths := hless ▸ (LinkedMap.size_filter_le _ _).trans h
  dsimp only
  split
  next hfull =>
    have hvictim : ∃ victim, r.victim paths = some victim ∧ victim ∈ paths.keys := by
      have hhead : ∃ key, paths.keys.head? = some key := by
        have hpos : 0 < paths.keys.length := by
          rw [LinkedMap.length_keys]
          exact Nat.lt_of_lt_of_le (by decide) hfull
        exact ⟨_, head?_eq_some_head (ne_nil_of_length_pos hpos)⟩
      unfold victim
      cases hfound : paths.keys.find? fun candidate => !r.watched.contains candidate with
      | some candidate => exact ⟨candidate, rfl, mem_of_find?_eq_some hfound⟩
      | none =>
        obtain ⟨key, hkey⟩ := hhead
        exact ⟨key, hkey, mem_of_head? hkey⟩
    obtain ⟨victim, hfound, hmem⟩ := hvictim
    rw [hfound]
    dsimp only
    have hremoved : (paths.remove victim).size < paths.size := by
      obtain ⟨entry, hentry, rfl⟩ := mem_map.mp hmem
      exact length_filter_lt_length_iff_exists.mpr ⟨entry, hentry, by simp⟩
    exact (LinkedMap.size_put_le _ _ _).trans (by omega)
  next hroom => exact (LinkedMap.size_put_le _ _ _).trans (by omega)

end Routes

namespace RnsEndpoint

variable {e : RnsEndpoint c} {acts : List Act}

/-- **The invariant**: what is checked was received, and the paths are announced. -/
structure Learned (e : RnsEndpoint c) (acts : List Act) : Prop where
  checking : ∀ packet ∈ e.checking, Received acts packet
  size : e.routes.paths.size ≤ maxPaths
  paths : ∀ destination path, e.routes.pathTo destination = some path →
    Announced acts destination path

theorem Learned.keep (h : e.Learned acts) (act : Act) {e' : RnsEndpoint c}
    (hchecking : e'.checking = e.checking) (hpaths : e'.routes.paths = e.routes.paths) :
    e'.Learned (acts ++ [act]) where
  checking packet hpacket := (h.checking packet (hchecking ▸ hpacket)).append act
  size := hpaths ▸ h.size
  paths destination path hpath := by
    unfold Routes.pathTo at hpath
    rw [hpaths] at hpath
    exact (h.paths destination path hpath).append act

theorem Learned.learn (h : e.Learned acts) {packet : RnsPacket} (hreceived : Received acts packet)
    {announce : RnsAnnounce c} (hvalid : RnsAnnounce.validate c packet = some announce) :
    (e.learn announce).Learned acts := by
  unfold RnsEndpoint.learn
  split
  · exact h
  refine ⟨h.checking, Routes.size_learn h.size announce, fun destination path hpath => ?_⟩
  rcases e.routes.pathTo_learn announce destination with ⟨hnew, rfl⟩ | ⟨-, hold⟩
  · exact ⟨packet, announce, hreceived, hvalid, rfl, Option.some.inj (hpath.symm.trans hnew)⟩
  · exact h.paths destination path (hold path hpath)

theorem Learned.step (h : e.Learned acts) (act : Act) : (e.step act).Learned (acts ++ [act]) := by
  cases act with
  | watch destination => exact h.keep _ rfl rfl
  | requestPath destination =>
    refine h.keep _ ?_ (rest_requestPath e destination).1
    unfold RnsEndpoint.step requestPath
    dsimp only
    split
    · rfl
    · split <;> rfl
  | sent call ok =>
    unfold RnsEndpoint.step
    dsimp only
    split
    · split <;> exact h.keep _ rfl rfl
    · exact h.keep _ rfl rfl
  | timeout call =>
    unfold RnsEndpoint.step
    dsimp only
    split
    · split <;> exact h.keep _ rfl rfl
    · exact h.keep _ rfl rfl
  | resume call =>
    unfold RnsEndpoint.step
    dsimp only
    split
    · split <;> exact h.keep _ rfl rfl
    · exact h.keep _ rfl rfl
  | receive raw =>
    unfold RnsEndpoint.step RnsEndpoint.receive
    dsimp only
    split
    · exact h.keep _ rfl rfl
    next packet hunpack =>
    split
    · exact h.keep _ rfl rfl
    split
    · exact h.keep _ rfl rfl
    have hkept := h.keep (.receive raw) rfl rfl
    refine ⟨fun other hother => ?_, hkept.size, hkept.paths⟩
    rcases mem_append.mp hother with hother | hother
    · exact hkept.checking other hother
    · rw [mem_singleton.mp hother]
      exact ⟨raw, mem_append_right _ mem_cons_self, hunpack⟩
  | checked index =>
    have hkept : ({ e with checking := e.checking.eraseIdx index } : RnsEndpoint c).Learned
        (acts ++ [.checked index]) :=
      ⟨fun packet hpacket => (h.checking packet (mem_of_mem_eraseIdx hpacket)).append _, h.size,
        (h.keep (.checked index) rfl rfl).paths⟩
    unfold RnsEndpoint.step
    dsimp only
    split
    · exact h.keep _ rfl rfl
    next packet hpacket =>
    split
    · exact hkept
    next announce hvalid =>
    exact hkept.learn ((h.checking packet (mem_of_getElem? hpacket)).append _) hvalid

/-- **Paths are announced.** In every run there are at most 1024 paths, each is that of a valid
announce of its destination which was received, and its next hop is the hash of a node. -/
theorem paths_announced (c : Primitives) (acceptAllAnnounces : Bool) (acts : List Act) :
    let after := (machine c).run (initial acceptAllAnnounces) acts
    after.routes.paths.size ≤ maxPaths ∧ after.routes.Sound ∧
      ∀ destination path, after.routes.pathTo destination = some path →
        Announced acts destination path := by
  intro after
  have hafter : after.Learned acts := by
    induction acts using reverseRecOn with
    | nil => exact ⟨fun _ h => absurd h not_mem_nil, Nat.zero_le _, fun _ _ h => nomatch h⟩
    | append_singleton acts act ih =>
      have hstep := ih.step act
      rw [show after = ((machine c).run (initial acceptAllAnnounces) acts).step act from
        Machine.run_append _ _ _ _]
      exact hstep
  refine ⟨hafter.size, fun destination path hpath id hid => ?_, hafter.paths⟩
  obtain ⟨packet, announce, ⟨raw, -, hunpack⟩, hvalid, -, rfl⟩ :=
    hafter.paths destination path hpath
  refine length_transportId hunpack id ?_
  rw [← (Routes.validate_eq_some hvalid).2]
  exact hid

end RnsEndpoint

end Reticulum
end Conest
