import Conest.Beam.Completion
import Conest.Beam.Indices
import Conest.Lib.Cfb
import Conest.Lib.Slices

/-!
# A Beam transfer

`BeamEncoder` cuts the bytes of a package into blocks, sends them one by one, and from then on the
exclusive or of blocks that it draws (`nextFrame`); the seed is drawn at random and the degree from
it by a table of floating point numbers, so a frame gets both. What the decoder knows of such a
stream is always true: every equation it keeps gives the exclusive or of the encoder's blocks
(`Adds`), every block it knows is the encoder's (`Knows`). So whatever arrives of a transfer, in any
order and any number of times, no call throws and no other package is read (`transfer_agrees`); and
when the first round has arrived, the package is there (`transfer_arrives`), unless a later frame
has the number of a block for its seed.
-/

namespace Conest
namespace Beam

open Lib List Option

/-! ### The encoder -/

/-- An encoder, but for the number of its next frame. -/
structure BeamEncoder where
  packageBytes : Bytes
  mode : BeamMode
  transferIdBytes : Bytes
  blockSize : ℕ

namespace BeamEncoder

def sourceBlockCount (e : BeamEncoder) : ℕ := sliceCount e.blockSize e.packageBytes.length

/-- `_blocks`: the last one is filled up with zeros. -/
def block (e : BeamEncoder) (index : ℕ) : Bytes :=
  slice e.blockSize e.packageBytes index ++
    replicate (e.blockSize - (slice e.blockSize e.packageBytes index).length) 0

/-- The exclusive or of the blocks of these indices. -/
def sumOf (e : BeamEncoder) (indices : List ℕ) : Bytes :=
  indices.foldl (fun payload index => xorInto payload (e.block index)) (replicate e.blockSize 0)

/-- A frame of the transfer. -/
def frame (e : BeamEncoder) (seed degree : ℕ) (systematic : Bool) (payload : Bytes) :
    BeamFrame where
  mode := e.mode
  transferIdBytes := e.transferIdBytes
  originalLength := e.packageBytes.length
  blockSize := e.blockSize
  sourceBlockCount := e.sourceBlockCount
  seed
  degree
  systematic
  payload

/-- The frame with one block. -/
def blockFrame (e : BeamEncoder) (index : ℕ) : BeamFrame := e.frame index 1 true (e.block index)

/-- `nextFrame`, for a seed and the degree that follows from it. -/
def nextFrame (e : BeamEncoder) (frameIndex : ℕ) (draw : ℕ × ℕ) : ℕ × Outcome BeamError BeamFrame :=
  (frameIndex + 1,
    if frameIndex < e.sourceBlockCount then .ok (e.blockFrame frameIndex)
    else
      match indicesFor draw.1 draw.2 e.sourceBlockCount with
      | .error error => .error error
      | .diverges => .diverges
      | .ok indices => .ok (e.frame draw.1 draw.2 false (e.sumOf indices)))

/-- The encoder with its counter. -/
def machine (e : BeamEncoder) : Machine ℕ (ℕ × ℕ) (Outcome BeamError BeamFrame) := ⟨e.nextFrame⟩

/-- What the frames say of the transfer. -/
def transfer (e : BeamEncoder) : Transfer :=
  ⟨hexOf e.transferIdBytes, e.mode, e.packageBytes.length, e.blockSize, e.sourceBlockCount⟩

end BeamEncoder

/-- **A package is read** from the length of its manifest, the manifest and its payload. -/
theorem BeamPackage.decode_append {libs : Libraries} {text payload : Bytes}
    {json : DartString → Value} {manifest : BeamManifest}
    (hlength : 0 < text.length ∧ text.length ≤ 64 * 1024)
    (hjson : libs.jsonDecode text = some (some json))
    (hmanifest : BeamManifest.fromJson libs json = .ok manifest)
    (hsize : (payload.length : ℤ) = manifest.sizeBytes)
    (hhash : hashText libs payload = manifest.sha256Base64) :
    BeamPackage.decode libs (bigEndian 4 text.length ++ (text ++ payload)) =
      .ok ⟨manifest, payload⟩ := by
  have hnumber : ofBigEndian (bigEndian 4 text.length) = text.length := by
    rw [ofBigEndian_bigEndian]
    omega
  have hdrop : (bigEndian 4 text.length ++ (text ++ payload)).drop (4 + text.length) = payload := by
    rw [← append_assoc, drop_left']
    rw [length_append, bigEndian_length]
  unfold BeamPackage.decode
  rw [take_left' (bigEndian_length 4 _), drop_left' (bigEndian_length 4 _), hnumber, if_neg]
  · dsimp only
    rw [if_neg, take_left' rfl, hjson]
    · dsimp only
      rw [hmanifest, hdrop]
      simp only [bind, Except.bind]
      rw [if_neg (by simp [hsize, hhash])]
    · rw [length_append, length_append, bigEndian_length]
      omega
  · rw [length_append, bigEndian_length]
    omega

/-! ### Exclusive or -/

theorem xorInto_right_comm (a b c : Bytes) :
    xorInto (xorInto a b) c = xorInto (xorInto a c) b := by
  unfold xorInto
  induction a generalizing b c with
  | nil => rfl
  | cons x a ih =>
  cases b with
  | nil => cases c <;> rfl
  | cons y b =>
  cases c with
  | nil => rfl
  | cons z c =>
    rw [zipWith_cons_cons, zipWith_cons_cons, zipWith_cons_cons, zipWith_cons_cons, ih]
    congr 1
    ac_rfl

instance instRightCommutativeXor (block : ℕ → Bytes) :
    RightCommutative fun payload index => xorInto payload (block index) :=
  ⟨fun payload i j => xorInto_right_comm payload (block i) (block j)⟩

theorem xorInto_xorInto {target source : Bytes} (h : target.length ≤ source.length) :
    xorInto (xorInto target source) source = target :=
  zipWith_zipWith (fun a k => by rw [UInt8.xor_assoc, UInt8.xor_self, UInt8.xor_zero]) h

theorem zeros_xorInto (source : Bytes) : xorInto (replicate source.length 0) source = source := by
  unfold xorInto
  induction source with
  | nil => rfl
  | cons b source ih =>
    rw [length_cons, replicate_succ, zipWith_cons_cons, ih, UInt8.zero_xor]

namespace BeamEncoder

variable (e : BeamEncoder)

theorem length_block (index : ℕ) : (e.block index).length = e.blockSize := by
  have hle := length_slice_le e.blockSize e.packageBytes index
  unfold block
  rw [length_append, length_replicate]
  omega

theorem length_sumOf (indices : List ℕ) : (e.sumOf indices).length = e.blockSize := by
  unfold sumOf
  induction indices using reverseRecOn with
  | nil => exact length_replicate
  | append_singleton indices index ih =>
    rw [foldl_append, foldl_cons, foldl_nil, xorInto, length_zipWith, ih, length_block, min_self]

theorem sumOf_singleton (index : ℕ) : e.sumOf [index] = e.block index := by
  have hzeros := zeros_xorInto (e.block index)
  rw [length_block] at hzeros
  exact hzeros

theorem sumOf_perm {l l' : List ℕ} (h : l ~ l') : e.sumOf l = e.sumOf l' := h.foldl_eq _

theorem sumOf_erase {indices : List ℕ} {index : ℕ} (h : index ∈ indices) :
    xorInto (e.sumOf indices) (e.block index) = e.sumOf (indices.erase index) := by
  have hperm : indices ~ indices.erase index ++ [index] :=
    (perm_cons_erase h).trans (perm_append_singleton index _).symm
  have hsum : e.sumOf (indices.erase index ++ [index]) =
      xorInto (e.sumOf (indices.erase index)) (e.block index) := by
    unfold sumOf
    rw [foldl_append]
    rfl
  rw [e.sumOf_perm hperm, hsum]
  exact xorInto_xorInto (by rw [length_sumOf, length_block])

/-! ### The blocks put together -/

variable {e}

theorem block_eq_slice {index : ℕ} (hindex : index < e.sourceBlockCount) :
    e.block index = slice e.blockSize (e.packageBytes ++
      replicate (e.sourceBlockCount * e.blockSize - e.packageBytes.length) 0) index := by
  have hlast : (index + 1) * e.blockSize ≤ e.sourceBlockCount * e.blockSize :=
    Nat.mul_le_mul_right _ hindex
  rw [Nat.succ_mul] at hlast
  unfold block slice
  rw [drop_append, take_append, drop_replicate, take_replicate, length_take, length_drop]
  congr 2
  rcases Nat.eq_zero_or_pos e.blockSize with hzero | hpos
  · omega
  have hstart : index * e.blockSize < e.packageBytes.length := by
    have hmul := (Nat.le_div_iff_mul_le hpos).mp (Nat.succ_le_of_lt hindex)
    rw [Nat.succ_mul] at hmul
    omega
  omega

theorem flatMap_block (hpos : 0 < e.blockSize) :
    ((range e.sourceBlockCount).flatMap e.block).take e.packageBytes.length = e.packageBytes := by
  have hblocks : (range e.sourceBlockCount).flatMap e.block = (range e.sourceBlockCount).flatMap
      (slice e.blockSize (e.packageBytes ++
        replicate (e.sourceBlockCount * e.blockSize - e.packageBytes.length) 0)) :=
    flatMap_congr fun index hindex => block_eq_slice (mem_range.mp hindex)
  have henough : e.packageBytes.length ≤ e.sourceBlockCount * e.blockSize :=
    le_sliceCount_mul hpos e.packageBytes.length
  rw [hblocks, flatMap_range_slice, take_take, Nat.min_eq_left henough, take_left]

/-! ### What the decoder knows -/

variable (e)

/-- The equation is true of the blocks. -/
structure Adds (equation : BeamEquation) : Prop where
  nodup : equation.indices.Nodup
  below : ∀ index ∈ equation.indices, index < e.sourceBlockCount
  bytes : equation.bytes = e.sumOf equation.indices

/-- What is known and what is left are true of the blocks. -/
structure Knows (b : Blocks) : Prop where
  below : ∀ index ∈ b.solved.keys, index < e.sourceBlockCount
  solved : ∀ index bytes, b.solved.get index = some bytes → bytes = e.block index
  equations : ∀ equation ∈ b.equations, e.Adds equation

variable {e} {b : Blocks}

theorem Adds.reduceKnown {solved : LinkedMap ℕ Bytes}
    (hsolved : ∀ index bytes, solved.get index = some bytes → bytes = e.block index)
    {indices : List ℕ} (hnodup : indices.Nodup) {equation : BeamEquation}
    (hsub : indices ⊆ equation.indices) (h : e.Adds equation) :
    e.Adds (Blocks.reduceKnown solved indices equation) ∧
      (Blocks.reduceKnown solved indices equation).indices <+ equation.indices := by
  induction indices generalizing equation with
  | nil => exact ⟨h, Sublist.refl _⟩
  | cons index indices ih =>
  obtain ⟨hnot, hnodup⟩ := nodup_cons.mp hnodup
  obtain ⟨hmem, hsub⟩ := cons_subset.mp hsub
  unfold Blocks.reduceKnown
  cases hget : solved.get index with
  | none => exact ih hnodup hsub h
  | some known =>
  have hless : e.Adds ⟨equation.indices.erase index, xorInto equation.bytes known⟩ := by
    refine ⟨h.nodup.erase index, fun i hi => h.below i (mem_of_mem_erase hi), ?_⟩
    change xorInto equation.bytes known = e.sumOf (equation.indices.erase index)
    rw [h.bytes, hsolved index known hget, e.sumOf_erase hmem]
  have hkept : indices ⊆ equation.indices.erase index := fun i hi =>
    (mem_erase_of_ne (ne_of_mem_of_not_mem hi hnot)).mpr (hsub hi)
  obtain ⟨hadds, hsublist⟩ := ih hnodup hkept hless
  exact ⟨hadds, hsublist.trans erase_sublist⟩

theorem Knows.reduced (h : e.Knows b) {equation : BeamEquation} (hadds : e.Adds equation) :
    e.Adds (b.reduced equation) ∧ (b.reduced equation).indices <+ equation.indices :=
  Adds.reduceKnown h.solved hadds.nodup (Subset.refl _) hadds

theorem Knows.solve (h : e.Knows b) {single : ℕ} {bytes : Bytes}
    (hadds : e.Adds ⟨[single], bytes⟩) :
    ∃ b', b.solve single bytes = (b', .ok ()) ∧ e.Knows b' ∧ b.solved.keys ⊆ b'.solved.keys ∧
      b'.equations = b.equations ∧ single ∈ b'.solved.keys := by
  have hbytes : bytes = e.block single := hadds.bytes.trans (e.sumOf_singleton single)
  unfold Blocks.solve
  cases hget : b.solved.get single with
  | some existing =>
    have hsame : ¬ existing ≠ bytes := by
      rw [hbytes, h.solved single existing hget]
      exact fun hne => hne rfl
    dsimp only
    rw [if_neg hsame]
    refine ⟨b, rfl, h, Subset.refl _, rfl, ?_⟩
    rw [← LinkedMap.contains_iff, LinkedMap.contains, hget]
    rfl
  | none =>
  refine ⟨_, rfl, ⟨?_, ?_, h.equations⟩, ?_, rfl, LinkedMap.mem_keys_put.mpr (.inr rfl)⟩
  · intro index hindex
    rcases LinkedMap.mem_keys_put.mp hindex with hold | rfl
    · exact h.below index hold
    · exact hadds.below _ mem_cons_self
  · intro index value hvalue
    rw [LinkedMap.get_put] at hvalue
    split at hvalue
    · next heq => rw [heq, ← some.inj hvalue, hbytes]
    · exact h.solved index value hvalue
  · exact fun index hindex => LinkedMap.mem_keys_put.mpr (.inl hindex)

theorem weight_middle (solved : LinkedMap ℕ Bytes) (front back : List BeamEquation)
    (equation : BeamEquation) : Blocks.weight ⟨solved, front ++ equation :: back⟩ =
      Blocks.weight ⟨solved, front ++ back⟩ + (equation.indices.length + 1) := by
  unfold Blocks.weight
  rw [map_append, map_cons, sum_append, sum_cons, map_append, sum_append]
  omega

variable (e) in
/-- A pass from `b` ends with what is known true, and with less left if it changed anything. -/
def Passes (b : Blocks) (changed : Bool) (result : Blocks × Outcome BeamError Bool) : Prop :=
  ∃ b' c, result = (b', .ok c) ∧ e.Knows b' ∧ b.solved.keys ⊆ b'.solved.keys ∧
    b'.weight ≤ b.weight ∧ (c = true → changed = true ∨ b'.weight < b.weight)

theorem Knows.drainPass (h : e.Knows b) (changed : Bool) (n : ℕ) :
    e.Passes b changed (b.drainPass changed n) := by
  induction n generalizing b changed with
  | zero => exact ⟨b, changed, rfl, h, Subset.refl _, Nat.le_refl _, .inl⟩
  | succ n ih =>
  -- the rest of the pass, behind a position where the equation was reduced
  have hrest : ∀ b₁ changed₁, e.Knows b₁ → b.solved.keys ⊆ b₁.solved.keys →
      b₁.weight ≤ b.weight → (changed₁ = true → changed = true ∨ b₁.weight < b.weight) →
      e.Passes b changed (b₁.drainPass changed₁ n) := by
    intro b₁ changed₁ hknows hkeys hweight hchanged
    obtain ⟨b', c, hpass, hknows', hkeys', hweight', hc⟩ := ih hknows changed₁
    refine ⟨b', c, hpass, hknows', fun _ hi => hkeys' (hkeys hi), hweight'.trans hweight, ?_⟩
    intro hc'
    rcases hc hc' with hbefore | hless
    · exact (hchanged hbefore).imp_right hweight'.trans_lt
    · exact .inr (hless.trans_le hweight)
  unfold Blocks.drainPass
  split
  · exact ⟨b, changed, rfl, h, Subset.refl _, Nat.le_refl _, .inl⟩
  next equation hget =>
  obtain ⟨hnext, hfew⟩ := h.reduced (h.equations equation (mem_of_getElem? hget))
  generalize b.reduced equation = reduced at hnext hfew
  obtain ⟨solved, equations⟩ := b
  obtain ⟨front, back, rfl, rfl⟩ : ∃ front back, equations = front ++ equation :: back ∧
      front.length = n := by
    obtain ⟨hlt, heq⟩ := List.getElem?_eq_some_iff.mp hget
    refine ⟨equations.take n, equations.drop (n + 1), ?_, length_take_of_le hlt.le⟩
    rw [← heq, getElem_cons_drop, take_append_drop]
  have hknows : e.Knows ⟨solved, front ++ reduced :: back⟩ := by
    refine ⟨h.below, h.solved, fun other hother => ?_⟩
    rw [mem_append, mem_cons] at hother
    rcases hother with hother | rfl | hother
    · exact h.equations other (mem_append_left _ hother)
    · exact hnext
    · exact h.equations other (mem_append_right _ (mem_cons_of_mem _ hother))
  have hbefore := weight_middle solved front back equation
  have hafter := weight_middle solved front back reduced
  have hlength := hfew.length_le
  -- the position is erased
  have herased : ∀ solved', e.Knows ⟨solved', front ++ reduced :: back⟩ →
      solved.keys ⊆ solved'.keys → e.Passes ⟨solved, front ++ equation :: back⟩ changed
        (Blocks.drainPass ⟨solved', (front ++ reduced :: back).eraseIdx front.length⟩ true
          front.length) := by
    intro solved' hknows hkeys
    have hsame : Blocks.weight ⟨solved', front ++ back⟩ = Blocks.weight ⟨solved, front ++ back⟩ :=
      rfl
    rw [eraseIdx_append_of_length_le (Nat.le_refl _), Nat.sub_self, eraseIdx_cons_zero]
    refine hrest _ true ⟨hknows.below, hknows.solved, fun other hother => ?_⟩ hkeys ?_ ?_
    · refine hknows.equations other (mem_append.mpr ?_)
      exact (mem_append.mp hother).imp_right (mem_cons_of_mem _)
    · omega
    · exact fun _ => .inr (by omega)
  dsimp only
  rw [set_append_right _ _ (Nat.le_refl _), Nat.sub_self, set_cons_zero]
  split
  · exact herased solved hknows (Subset.refl _)
  · next single hsingle =>
    have hone : e.Adds ⟨[single], reduced.bytes⟩ := hsingle ▸ hnext
    obtain ⟨⟨solved', equations'⟩, hsolve, hknows', hkeys, heq, -⟩ := hknows.solve hone
    obtain rfl : equations' = front ++ reduced :: back := heq
    rw [hsolve]
    exact herased solved' hknows' hkeys
  · refine hrest _ _ hknows (Subset.refl _) (by omega) fun hchanged => ?_
    rw [Bool.or_eq_true, decide_eq_true_eq] at hchanged
    exact hchanged.imp_right fun hne => by omega

theorem Knows.drainFrom {fuel : ℕ} (h : e.Knows b) (hfuel : b.weight < fuel) :
    ∃ b', Blocks.drainFrom fuel b = (b', .ok ()) ∧ e.Knows b' ∧
      b.solved.keys ⊆ b'.solved.keys := by
  induction fuel generalizing b with
  | zero => exact absurd hfuel (Nat.not_lt_zero _)
  | succ fuel ih =>
  obtain ⟨b', c, hpass, hknows, hkeys, -, hc⟩ := h.drainPass false b.equations.length
  unfold Blocks.drainFrom
  rw [hpass]
  dsimp only
  cases c with
  | false => exact ⟨b', rfl, hknows, hkeys⟩
  | true =>
  have hless : b'.weight < b.weight := (hc rfl).resolve_left Bool.false_ne_true
  obtain ⟨b'', hdrain, hknows', hkeys'⟩ := ih hknows (by omega)
  exact ⟨b'', hdrain, hknows', fun _ hindex => hkeys' (hkeys hindex)⟩

/-- **One more equation.** If it is a single block, that block is known then. -/
theorem Knows.add (h : e.Knows b) {equation : BeamEquation} (hadds : e.Adds equation) :
    ∃ b', b.add equation = (b', .ok ()) ∧ e.Knows b' ∧ b.solved.keys ⊆ b'.solved.keys ∧
      ∀ index, equation.indices = [index] → index ∈ b'.solved.keys := by
  obtain ⟨hnext, hfew⟩ := h.reduced hadds
  have hdrain : ∀ b₁ : Blocks, e.Knows b₁ → b.solved.keys ⊆ b₁.solved.keys →
      (∀ index, equation.indices = [index] → index ∈ b₁.solved.keys) →
      ∃ b', b₁.drainEquations = (b', .ok ()) ∧ e.Knows b' ∧ b.solved.keys ⊆ b'.solved.keys ∧
        ∀ index, equation.indices = [index] → index ∈ b'.solved.keys := by
    intro b₁ hknows hkeys hindex
    obtain ⟨b', hrun, hknows', hkeys'⟩ := hknows.drainFrom (Nat.lt_succ_self _)
    exact ⟨b', hrun, hknows', fun _ hi => hkeys' (hkeys hi), fun i hi => hkeys' (hindex i hi)⟩
  unfold Blocks.add
  dsimp only
  split
  · next hnil =>
    refine hdrain b h (Subset.refl _) fun index hindex => ?_
    -- an equation for one block is only left empty if that block is known
    by_contra hnot
    have hunknown : b.solved.get index = none := LinkedMap.get_eq_none.mpr hnot
    unfold Blocks.reduced at hnil
    rw [hindex, Blocks.reduceKnown, hunknown, Blocks.reduceKnown, hindex] at hnil
    cases hnil
  · next single hsingle =>
    have hone : e.Adds ⟨[single], (b.reduced equation).bytes⟩ := hsingle ▸ hnext
    obtain ⟨b₂, hsolve, hknows, hkeys, -, hmem⟩ := h.solve hone
    rw [hsolve]
    refine hdrain b₂ hknows hkeys fun index hindex => ?_
    rw [hsingle, hindex] at hfew
    rwa [← mem_singleton.mp (hfew.subset mem_cons_self)]
  · next first second rest hmany =>
    refine hdrain _ ⟨h.below, h.solved, fun other hother => ?_⟩ (Subset.refl _)
      fun index hindex => ?_
    · rcases mem_append.mp hother with hother | hother
      · exact h.equations other hother
      · rw [mem_singleton.mp hother]
        exact hnext
    · have hlength := hfew.length_le
      rw [hmany, hindex] at hlength
      simp at hlength

/-! ### The frames -/

variable (e)

/-- A frame that says what the encoder has. -/
structure Sends (frame : BeamFrame) : Prop where
  transfer : frame.transfer = e.transfer
  adds : ∃ indices, BeamDecoder.indicesOf frame = .ok indices ∧ e.Adds ⟨indices, frame.payload⟩

variable {e} {frame : BeamFrame}

theorem sends_nextFrame {frameIndex : ℕ} {draw : ℕ × ℕ}
    (h : (e.nextFrame frameIndex draw).2 = .ok frame) : e.Sends frame := by
  unfold nextFrame at h
  dsimp only at h
  split at h
  · next hindex =>
    obtain rfl := Outcome.ok.inj h
    refine ⟨rfl, [frameIndex], rfl, nodup_singleton _, ?_, (e.sumOf_singleton frameIndex).symm⟩
    exact forall_mem_singleton.mpr hindex
  next =>
  split at h
  · cases h
  · cases h
  next indices hdrawn =>
  obtain rfl := Outcome.ok.inj h
  refine ⟨rfl, indices, hdrawn, ?_⟩
  unfold indicesFor at hdrawn
  split at hdrawn
  · cases hdrawn
  next hdegree =>
  rw [not_or, not_lt] at hdegree
  have hcount : 0 < e.sourceBlockCount := (Nat.pos_of_ne_zero hdegree.1).trans_le hdegree.2
  dsimp only at hdrawn
  split at hdrawn
  · cases hdrawn
  next result hresult =>
  obtain rfl := Outcome.ok.inj hdrawn
  have h := (drawIndices_some hcount ⟨nodup_nil, Nat.zero_le _, forall_mem_nil _⟩ hresult).1
  exact ⟨h.nodup, h.below, rfl⟩

theorem sends_of_output {draws : List (ℕ × ℕ)} {frameIndex : ℕ}
    (h : .ok frame ∈ e.machine.outputs frameIndex draws) : e.Sends frame := by
  induction draws generalizing frameIndex with
  | nil => cases h
  | cons draw draws ih =>
  rcases mem_cons.mp h with heq | h
  · exact sends_nextFrame heq.symm
  · exact ih h

/-! ### The decoder -/

theorem Knows.assembled (h : e.Knows b) (hpos : 0 < e.blockSize)
    (hfull : b.solved.size = e.sourceBlockCount) :
    BeamDecoder.assembled b e.transfer = e.packageBytes := by
  have hkeys : b.solved.keys ~ range e.sourceBlockCount := by
    have hsub : b.solved.keys <+~ range e.sourceBlockCount :=
      subperm_of_subset b.solved.keys_nodup fun index hindex => mem_range.mpr (h.below index hindex)
    refine hsub.perm_of_length_le ?_
    rw [b.solved.length_keys, hfull, length_range]
  refine Eq.trans (congrArg (take _) (flatMap_congr fun index hindex => ?_)) (flatMap_block hpos)
  cases hget : b.solved.get index with
  | none => exact absurd (hkeys.mem_iff.mpr hindex) (LinkedMap.get_eq_none.mp hget)
  | some bytes => exact h.solved index bytes hget

variable {libs : Libraries} {package : BeamPackage} {d : BeamDecoder}

variable (e package) in
/-- The decoder follows the transfer. `seen` is for the seeds that are numbers of blocks. -/
structure Follows (d : BeamDecoder) : Prop where
  transfer : ∀ transfer, d.transfer = some transfer → transfer = e.transfer
  knows : e.Knows d.blocks
  package : d.package = none ∨ d.package = some package
  full : d.package = none → d.blocks.solved.size ≠ e.sourceBlockCount

/-- The systematic frames that were taken are solved. -/
def Solved (e : BeamEncoder) (d : BeamDecoder) : Prop :=
  ∀ seed ∈ d.seenSeeds, seed < e.sourceBlockCount → seed ∈ d.blocks.solved.keys

variable (hpos : 0 < e.blockSize) (hdecode : BeamPackage.decode libs e.packageBytes = .ok package)
  (hid : libs.toLowerCase package.manifest.transferId = hexOf e.transferIdBytes)

include hpos hdecode hid

theorem follows_finish (hknows : e.Knows d.blocks) (hnone : d.package = none)
    (htransfer : d.transfer = some e.transfer) :
    ∃ d' progress, d.finish libs e.transfer = (d', .ok progress) ∧ e.Follows package d' ∧
      d'.blocks = d.blocks ∧ d'.seenSeeds = d.seenSeeds := by
  have hsame : ∀ transfer, d.transfer = some transfer → transfer = e.transfer := by
    intro transfer h
    exact some.inj (h.symm.trans htransfer)
  unfold BeamDecoder.finish
  split
  · next hfull =>
    have hsameId : ¬ libs.toLowerCase package.manifest.transferId ≠ e.transfer.transferId :=
      not_not.mpr hid
    rw [hknows.assembled hpos hfull, hdecode]
    dsimp only
    rw [if_neg hsameId]
    refine ⟨_, _, rfl, ⟨hsame, hknows, .inr rfl, fun h => ?_⟩, rfl, rfl⟩
    cases h
  · next hmore => exact ⟨d, _, rfl, ⟨hsame, hknows, .inl hnone, fun _ => hmore⟩, rfl, rfl⟩

/-- **Frames of the transfer** are taken, or are not needed. -/
structure Takes (received : List BeamFrame) (d d' : BeamDecoder) : Prop where
  unfinished : d.package = none
  grows : d.seenSeeds ⊆ d'.seenSeeds
  seen : ∀ frame ∈ received, frame.seed ∈ d'.seenSeeds
  solved : (∀ frame ∈ received, frame.systematic = false → e.sourceBlockCount ≤ frame.seed) →
    e.Solved d → e.Solved d'

theorem Follows.step (h : e.Follows package d) (hsends : e.Sends frame) :
    ∃ d' progress, d.addFrame libs frame = (d', .ok progress) ∧ e.Follows package d' ∧
      (d'.package = none → e.Takes [frame] d d') := by
  obtain ⟨indices, hindices, hadds⟩ := hsends.adds
  have hcount : frame.sourceBlockCount = e.sourceBlockCount :=
    congrArg Transfer.sourceBlockCount hsends.transfer
  have hsame : ¬ (d.transfer.any fun transfer => decide (transfer ≠ frame.transfer)) = true := by
    rw [BeamDecoder.any_transfer_ne, not_not, hsends.transfer]
    exact h.transfer
  unfold BeamDecoder.addFrame
  rw [if_neg hsame, hsends.transfer]
  dsimp only
  split
  · next hignored =>
    refine ⟨_, _, rfl, ⟨fun _ ht => (some.inj ht).symm, h.knows, h.package, h.full⟩,
      fun hnone => ?_⟩
    change d.package = none at hnone
    rw [hnone] at hignored
    have hseen := hignored.resolve_left Bool.false_ne_true
    exact ⟨hnone, Finset.Subset.refl _, forall_mem_singleton.mpr hseen, fun _ hsolved => hsolved⟩
  next htaken =>
  rw [not_or, Bool.not_eq_true, isSome_eq_false_iff, isNone_iff_eq_none] at htaken
  have hbelow : ¬ (indices.any fun index => decide (frame.sourceBlockCount ≤ index)) = true := by
    rw [List.any_eq_true]
    rintro ⟨index, hindex, hge⟩
    exact (hcount ▸ of_decide_eq_true hge).not_gt (hadds.below index hindex)
  rw [hindices]
  dsimp only
  rw [if_neg hbelow]
  obtain ⟨blocks, hadd, hknows, hkeys, hone⟩ := h.knows.add hadds
  rw [hadd]
  dsimp only
  obtain ⟨d', progress, hfinish, hfollows, hblocks, hseeds⟩ :=
    follows_finish (d := ⟨some e.transfer, blocks, insert frame.seed d.seenSeeds, d.package⟩)
      hpos hdecode hid hknows htaken.1 rfl
  refine ⟨d', progress, hfinish, hfollows, fun _ => ⟨htaken.1, ?_, ?_, ?_⟩⟩
  · exact hseeds ▸ Finset.subset_insert _ _
  · exact hseeds ▸ forall_mem_singleton.mpr (Finset.mem_insert_self _ _)
  intro hdrawn hsolved seed hseed hlt
  rw [hblocks]
  rw [hseeds] at hseed
  rcases Finset.mem_insert.mp hseed with rfl | hseed
  · -- a seed below the number of blocks is that of a frame with this block
    have hsystematic : frame.systematic = true := by
      by_contra hnot
      exact (hdrawn frame mem_cons_self (Bool.eq_false_iff.mpr hnot)).not_gt hlt
    unfold BeamDecoder.indicesOf at hindices
    rw [if_pos hsystematic] at hindices
    exact hone _ (Outcome.ok.inj hindices).symm
  · exact hkeys (hsolved seed hseed hlt)

omit hid in
theorem follows_initial : e.Follows package BeamDecoder.initial where
  transfer := by
    intro transfer h
    cases h
  knows := ⟨forall_mem_nil _, fun _ _ h => (nomatch h), forall_mem_nil _⟩
  package := .inl rfl
  full := by
    intro _ hzero
    have hlong : 4 ≤ e.packageBytes.length := by
      by_contra hshort
      unfold BeamPackage.decode at hdecode
      rw [if_pos (not_le.mp hshort)] at hdecode
      cases hdecode
    have henough : e.packageBytes.length ≤ e.sourceBlockCount * e.blockSize :=
      le_sliceCount_mul hpos e.packageBytes.length
    rw [← hzero] at henough
    change e.packageBytes.length ≤ 0 * e.blockSize at henough
    omega

theorem Follows.run {received : List BeamFrame} (hsends : ∀ frame ∈ received, e.Sends frame)
    (h : e.Follows package d) :
    (∀ result ∈ (decoder libs).outputs d received, ∃ progress, result = .ok progress) ∧
      e.Follows package ((decoder libs).run d received) ∧
      (((decoder libs).run d received).package = none →
        e.Takes received d ((decoder libs).run d received)) := by
  induction received generalizing d with
  | nil =>
    refine ⟨forall_mem_nil _, h, fun hnone => ⟨hnone, Finset.Subset.refl _, forall_mem_nil _, ?_⟩⟩
    exact fun _ hsolved => hsolved
  | cons frame received ih =>
  obtain ⟨hfirst, hsends⟩ := forall_mem_cons.mp hsends
  obtain ⟨d', progress, hadd, hfollows, htakes⟩ := h.step hpos hdecode hid hfirst
  obtain ⟨hresults, hrun, hlater⟩ := ih hsends hfollows
  have hstep : (decoder libs).step d frame = (d', .ok progress) := hadd
  rw [Machine.outputs_cons, Machine.run_cons, hstep]
  refine ⟨forall_mem_cons.mpr ⟨⟨progress, rfl⟩, hresults⟩, hrun, fun hnone => ?_⟩
  have hafter := hlater hnone
  have hnow := htakes hafter.unfinished
  refine ⟨hnow.unfinished, hnow.grows.trans hafter.grows, ?_, fun hdrawn hsolved => ?_⟩
  · exact forall_mem_cons.mpr ⟨hafter.grows (hnow.seen frame mem_cons_self), hafter.seen⟩
  · obtain ⟨hdrawn, hdrawn'⟩ := forall_mem_cons.mp hdrawn
    exact hafter.solved hdrawn' (hnow.solved (forall_mem_singleton.mpr hdrawn) hsolved)

omit hpos hdecode hid

/-- **A transfer agrees.** Whatever frames of one encoder arrive, in any order and any number of
times: no call throws, and a package that is there is the encoder's. -/
theorem transfer_agrees (hpos : 0 < e.blockSize)
    (hdecode : BeamPackage.decode libs e.packageBytes = .ok package)
    (hid : libs.toLowerCase package.manifest.transferId = hexOf e.transferIdBytes)
    (draws : List (ℕ × ℕ)) (received : List BeamFrame)
    (hreceived : ∀ frame ∈ received, .ok frame ∈ e.machine.outputs 0 draws) :
    (∀ result ∈ (decoder libs).outputs BeamDecoder.initial received,
        ∃ progress, result = .ok progress) ∧
      ∀ other, ((decoder libs).run BeamDecoder.initial received).package = some other →
        other = package := by
  have hsends : ∀ frame ∈ received, e.Sends frame := fun frame hframe =>
    sends_of_output (hreceived frame hframe)
  obtain ⟨hresults, hrun, -⟩ := (follows_initial hpos hdecode).run hpos hdecode hid hsends
  refine ⟨hresults, fun other hother => ?_⟩
  rcases hrun.package with hnone | hsome
  · cases hother.symm.trans hnone
  · exact some.inj (hother.symm.trans hsome)

/-- **A transfer arrives.** When a frame with each block has arrived, among whatever others, the
package is there, if the seed of no other frame is the number of a block. -/
theorem transfer_arrives (hpos : 0 < e.blockSize)
    (hdecode : BeamPackage.decode libs e.packageBytes = .ok package)
    (hid : libs.toLowerCase package.manifest.transferId = hexOf e.transferIdBytes)
    (draws : List (ℕ × ℕ)) (received : List BeamFrame)
    (hreceived : ∀ frame ∈ received, .ok frame ∈ e.machine.outputs 0 draws)
    (hseeds : ∀ frame ∈ received, frame.systematic = false → e.sourceBlockCount ≤ frame.seed)
    (hround : ∀ index < e.sourceBlockCount, e.blockFrame index ∈ received) :
    ((decoder libs).run BeamDecoder.initial received).package = some package := by
  have hsends : ∀ frame ∈ received, e.Sends frame := fun frame hframe =>
    sends_of_output (hreceived frame hframe)
  obtain ⟨-, hrun, htakes⟩ := (follows_initial hpos hdecode).run hpos hdecode hid hsends
  refine hrun.package.resolve_left fun hnone => hrun.full hnone ?_
  have htakes := htakes hnone
  have hsolved := htakes.solved hseeds fun seed hseed _ => absurd hseed (Finset.notMem_empty seed)
  -- all blocks are solved, and nothing else is
  have hall : range e.sourceBlockCount ⊆
      ((decoder libs).run .initial received).blocks.solved.keys := by
    intro index hindex
    have hlt := mem_range.mp hindex
    exact hsolved index (htakes.seen _ (hround index hlt)) hlt
  have hless := (subperm_of_subset (LinkedMap.keys_nodup _) fun index hindex =>
    mem_range.mpr (hrun.knows.below index hindex)).length_le
  have hmore := (subperm_of_subset nodup_range hall).length_le
  rw [LinkedMap.length_keys, length_range] at hless hmore
  exact hless.antisymm hmore

end BeamEncoder

namespace Sample

def manifest : BeamManifest where
  transferId := .ofString "ffeeddccbbaa99887766554433221100"
  mode := .publicMode
  fileName := .ofString "a"
  mimeType := .ofString "b"
  sizeBytes := 0
  sha256Base64 := .ofString "47DEQpj8HBSa+/TImW+5JCeuQeRkm5NMpJWZG3hSuFU="
  createdAt := 0
  senderFingerprint := none
  senderSigningPublicKeyBase64 := none
  signatureBase64 := none
  encryptionMetadataBase64 := none

def encoder : BeamEncoder where
  packageBytes := bigEndian 4 222 ++ (manifestText ++ [])
  mode := .publicMode
  transferIdBytes := frame.transferIdBytes.reverse
  blockSize := 256

theorem fromJson_members : BeamManifest.fromJson libraries
    (fun key => (members.lookup key).getD .null) = .ok manifest := by
  decide +kernel

theorem transferId_manifest :
    libraries.toLowerCase manifest.transferId = hexOf encoder.transferIdBytes := by
  decide +kernel

theorem hashText_nil : hashText libraries [] = manifest.sha256Base64 := by decide +kernel

theorem jsonDecode_libraries {text : Bytes} (h : text = manifestText) :
    libraries.jsonDecode text = some (some fun key => (members.lookup key).getD .null) := if_pos h

theorem decode_package :
    BeamPackage.decode libraries encoder.packageBytes = .ok ⟨manifest, []⟩ := by
  have hsize : (([] : Bytes).length : ℤ) = manifest.sizeBytes := rfl
  have hread := BeamPackage.decode_append (by rw [length_manifestText]; decide)
    (jsonDecode_libraries rfl) fromJson_members hsize hashText_nil
  rw [length_manifestText] at hread
  exact hread

theorem sourceBlockCount_encoder : encoder.sourceBlockCount = 1 := by
  unfold BeamEncoder.sourceBlockCount encoder
  rw [length_append, length_append, bigEndian_length, length_manifestText]
  rfl

theorem sent_twice : ∀ frame ∈ [encoder.blockFrame 0, encoder.blockFrame 0],
    .ok frame ∈ encoder.machine.outputs 0 [(0, 0)] := by
  change ∀ frame ∈ _, _ ∈ [(encoder.nextFrame 0 (0, 0)).2]
  unfold BeamEncoder.nextFrame
  rw [sourceBlockCount_encoder, if_pos Nat.one_pos]
  simp

theorem agrees_twice :
    (∀ result ∈ (decoder libraries).outputs BeamDecoder.initial
        [encoder.blockFrame 0, encoder.blockFrame 0], ∃ progress, result = .ok progress) ∧
      ∀ other, ((decoder libraries).run BeamDecoder.initial
        [encoder.blockFrame 0, encoder.blockFrame 0]).package = some other →
          other = ⟨manifest, []⟩ :=
  BeamEncoder.transfer_agrees (by decide) decode_package transferId_manifest [(0, 0)] _ sent_twice

theorem arrives_twice : ((decoder libraries).run BeamDecoder.initial
    [encoder.blockFrame 0, encoder.blockFrame 0]).package = some ⟨manifest, []⟩ := by
  refine BeamEncoder.transfer_arrives (by decide) decode_package transferId_manifest [(0, 0)] _
    sent_twice ?_ fun index hindex => ?_
  · intro frame hframe hdrawn
    rw [show frame = encoder.blockFrame 0 by simpa using hframe] at hdrawn
    cases hdrawn
  · rw [sourceBlockCount_encoder, Nat.lt_one_iff] at hindex
    subst hindex
    exact mem_cons_self

end Sample

end Beam
end Conest
