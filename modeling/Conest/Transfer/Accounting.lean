import Conest.Transfer.Stored

/-!
# What a transfer counts

`received_bytes` adds the bytes of the durable blocks to those of the pending ones. That counts each
block once as long as no block waits twice, and none that waits is lost. A block that comes again
before the checkpoint that makes it durable waits twice, unless a checkpoint follows at once; and an
append to the journal that fails drops the blocks of its checkpoint that were not appended. The
other runs are `Steady`: there the count is that of the distinct blocks, within the size of the
attachment, and does not fall; what was accepted is durable after the next checkpoint; and the
transfer is complete when all blocks are durable (`accounted_of_steady`).

`Counted` is the invariant of a transfer: durable and pending blocks are different blocks of the
attachment, with their lengths. `Sample.block_counted_twice` is the other case.
-/

namespace Conest
namespace Transfer

open Lib List Option

/-! ### The lengths of the blocks -/

namespace TransferManifest

variable (m : TransferManifest)

/-- The length of a block, as `durable_bytes` counts it. -/
def lengthOf (index : UInt32) : ℕ :=
  match m.expectedPlaintextLen index with
  | .ok length => length
  | .error _ => 0

variable {m} {index : UInt32}

theorem lengthOf_eq (h : m.validate = .ok ()) (hindex : index.toNat < m.blockCount) :
    m.lengthOf index = min (m.sizeBytes - index.toNat * m.blockSize) m.blockSize := by
  unfold lengthOf expectedPlaintextLen
  rw [h]
  rw [if_neg (Nat.not_le.mpr hindex)]

theorem lt_of_expectedPlaintextLen {length : ℕ} (h : m.expectedPlaintextLen index = .ok length) :
    index.toNat < m.blockCount := by
  unfold expectedPlaintextLen at h
  split at h
  · cases h
  · split at h
    · cases h
    next hindex => exact Nat.not_le.mp hindex

theorem lengthOf_eq_zero (hindex : ¬ index.toNat < m.blockCount) : m.lengthOf index = 0 := by
  unfold lengthOf
  cases h : m.expectedPlaintextLen index with
  | error failure => rfl
  | ok length => exact absurd (lt_of_expectedPlaintextLen h) hindex

theorem sum_first_blocks (size block count : ℕ) :
    ∑ i ∈ Finset.range count, min (size - i * block) block = min size (count * block) := by
  induction count with
  | zero => simp
  | succ count ih =>
    rw [Finset.sum_range_succ, Nat.succ_mul]
    omega

section

variable (h : m.validate = .ok ())

include h

theorem sum_blocks : ∑ i ∈ Finset.range m.blockCount,
    min (m.sizeBytes - i * m.blockSize) m.blockSize = m.sizeBytes := by
  obtain ⟨hpos, hcount⟩ := m.geometry h
  have hcover : m.sizeBytes ≤ m.blockCount * m.blockSize := by
    have hlt := Nat.lt_mul_div_succ (m.sizeBytes + m.blockSize - 1) hpos
    rw [← hcount, Nat.mul_succ, Nat.mul_comm] at hlt
    omega
  rw [sum_first_blocks, Nat.min_eq_left hcover]

theorem sum_lengthOf_le (blocks : Finset UInt32) :
    ∑ index ∈ blocks, m.lengthOf index ≤ m.sizeBytes := by
  have hinjective : Set.InjOn UInt32.toNat
      ((blocks.filter fun index => index.toNat < m.blockCount : Finset UInt32) : Set UInt32) :=
    fun _ _ _ _ heq => UInt32.toNat_inj.mp heq
  have hrange : (blocks.filter fun index => index.toNat < m.blockCount).image UInt32.toNat ⊆
      Finset.range m.blockCount := by
    intro n hn
    obtain ⟨index, hindex, rfl⟩ := Finset.mem_image.mp hn
    exact Finset.mem_range.mpr (Finset.mem_filter.mp hindex).2
  calc ∑ index ∈ blocks, m.lengthOf index
      = ∑ index ∈ blocks.filter fun index => index.toNat < m.blockCount, m.lengthOf index := by
        refine (Finset.sum_filter_of_ne fun index _ hne => ?_).symm
        by_contra hindex
        exact hne (lengthOf_eq_zero hindex)
    _ = ∑ index ∈ blocks.filter fun index => index.toNat < m.blockCount,
          min (m.sizeBytes - index.toNat * m.blockSize) m.blockSize :=
        Finset.sum_congr rfl fun index hindex => lengthOf_eq h (Finset.mem_filter.mp hindex).2
    _ = ∑ i ∈ (blocks.filter fun index => index.toNat < m.blockCount).image UInt32.toNat,
          min (m.sizeBytes - i * m.blockSize) m.blockSize := by rw [Finset.sum_image hinjective]
    _ ≤ ∑ i ∈ Finset.range m.blockCount, min (m.sizeBytes - i * m.blockSize) m.blockSize :=
        Finset.sum_le_sum_of_subset hrange
    _ = m.sizeBytes := sum_blocks h

theorem sizeBytes_bounds : 0 < m.sizeBytes ∧ m.sizeBytes ≤ maxAttachmentBytes := (sizes h).1

theorem blockCount_lt : m.blockCount < UInt32.size := by
  obtain ⟨hblock, hcount⟩ := m.geometry h
  obtain ⟨hpos, hmax⟩ := sizeBytes_bounds h
  have hle : m.sizeBytes + m.blockSize - 1 ≤ m.sizeBytes * m.blockSize := by
    obtain ⟨size, hsize⟩ := Nat.exists_eq_succ_of_ne_zero hpos.ne'
    rw [hsize, Nat.succ_mul]
    have := Nat.le_mul_of_pos_right size hblock
    omega
  calc m.blockCount = (m.sizeBytes + m.blockSize - 1) / m.blockSize := hcount
    _ ≤ m.sizeBytes := Nat.div_le_of_le_mul (by rwa [Nat.mul_comm])
    _ ≤ maxAttachmentBytes := hmax
    _ < UInt32.size := by decide

end

end TransferManifest

variable {result : Except Failure Unit} {transfer' : PartialTransfer} {bytes' : Bytes}
  {file' : DiskFile UInt8} {journal journal' : TransferJournal}

theorem length_of_decrypt {c : Crypto} {m : TransferManifest} {key : Digest}
    {frame : AttachmentBlockFrame} {plaintext : Bytes}
    (h : frame.decrypt c m key = .ok plaintext) :
    m.expectedPlaintextLen frame.blockIndex = .ok frame.plaintextLen.toNat ∧
      plaintext.length = frame.plaintextLen.toNat := by
  unfold AttachmentBlockFrame.decrypt at h
  split at h
  · cases h
  split at h
  · cases h
  next expected hexpected =>
  split at h
  · cases h
  next hgeometry =>
  rw [not_or, not_not] at hgeometry
  split at h
  · cases h
  next hopened =>
  split at h
  · cases h
  cases h
  have hlength := c.decryptWith_length hopened
  rw [hexpected, hgeometry.1]
  exact ⟨rfl, by omega⟩

/-! ### The blocks of a transfer -/

namespace PartialTransfer

/-- The blocks that are durable or wait for a checkpoint. -/
def blocks (transfer : PartialTransfer) : Finset UInt32 :=
  transfer.journal.durable ∪ indexes transfer.pending

/-- **What a transfer may count on**: its durable and pending blocks are different blocks of the
attachment, and the pending ones have their lengths. -/
structure Counted (m : TransferManifest) (transfer : PartialTransfer) : Prop where
  valid : m.validate = .ok ()
  durable : ∀ index ∈ transfer.journal.durable, index.toNat < m.blockCount
  distinct : (transfer.pending.map Block.index).Nodup
  fresh : ∀ block ∈ transfer.pending, block.index ∉ transfer.journal.durable
  length : ∀ block ∈ transfer.pending, m.expectedPlaintextLen block.index = .ok block.length.toNat

variable {m : TransferManifest} {transfer : PartialTransfer}

theorem counted_of_pending_nil (valid : m.validate = .ok ())
    (durable : ∀ index ∈ transfer.journal.durable, index.toNat < m.blockCount)
    (hpending : transfer.pending = []) : Counted m transfer where
  valid := valid
  durable := durable
  distinct := by rw [hpending]; exact nodup_nil
  fresh := by rw [hpending]; exact fun _ h => nomatch h
  length := by rw [hpending]; exact fun _ h => nomatch h

namespace Counted

section

variable (h : Counted m transfer)

include h

theorem lt_blockCount {index : UInt32} (hindex : index ∈ transfer.blocks) :
    index.toNat < m.blockCount := by
  rcases Finset.mem_union.mp hindex with hdurable | hpending
  · exact h.durable index hdurable
  · obtain ⟨block, hblock, rfl⟩ := mem_indexes.mp hpending
    exact TransferManifest.lt_of_expectedPlaintextLen (h.length block hblock)

theorem pending_sum : (transfer.pending.map fun block => block.length.toNat).sum =
      ∑ index ∈ indexes transfer.pending, m.lengthOf index := by
  have hlength : ∀ block ∈ transfer.pending, block.length.toNat = m.lengthOf block.index := by
    intro block hblock
    unfold TransferManifest.lengthOf
    rw [h.length block hblock]
  calc (transfer.pending.map fun block => block.length.toNat).sum
      = (transfer.pending.map fun block => m.lengthOf block.index).sum := by
        rw [List.map_congr_left hlength]
    _ = ((transfer.pending.map Block.index).map m.lengthOf).sum := by
        rw [List.map_map]
        rfl
    _ = ∑ index ∈ indexes transfer.pending, m.lengthOf index :=
        (List.sum_toFinset m.lengthOf h.distinct).symm

theorem receivedBytes_eq :
    transfer.receivedBytes m = ∑ index ∈ transfer.blocks, m.lengthOf index := by
  have hdisjoint : Disjoint transfer.journal.durable (indexes transfer.pending) := by
    rw [Finset.disjoint_right]
    intro index hindex
    obtain ⟨block, hblock, rfl⟩ := mem_indexes.mp hindex
    exact h.fresh block hblock
  calc transfer.receivedBytes m
      = ∑ index ∈ transfer.journal.durable, m.lengthOf index +
          (transfer.pending.map fun block => block.length.toNat).sum := rfl
    _ = ∑ index ∈ transfer.journal.durable, m.lengthOf index +
          ∑ index ∈ indexes transfer.pending, m.lengthOf index := by rw [h.pending_sum]
    _ = ∑ index ∈ transfer.blocks, m.lengthOf index := (Finset.sum_union hdisjoint).symm

theorem receivedBytes_le : transfer.receivedBytes m ≤ m.sizeBytes := by
  rw [h.receivedBytes_eq]
  exact TransferManifest.sum_lengthOf_le h.valid _

end

theorem receivedBytes_mono {transfer' : PartialTransfer} (h : Counted m transfer)
    (h' : Counted m transfer') (hblocks : transfer.blocks ⊆ transfer'.blocks) :
    transfer.receivedBytes m ≤ transfer'.receivedBytes m := by
  rw [h.receivedBytes_eq, h'.receivedBytes_eq]
  exact Finset.sum_le_sum_of_subset hblocks

theorem isComplete_iff (h : Counted m transfer) :
    transfer.isComplete m = true ↔
      ∀ index : UInt32, index.toNat < m.blockCount → index ∈ transfer.journal.durable := by
  have hinjective : Set.InjOn UInt32.toNat (transfer.journal.durable : Set UInt32) :=
    fun _ _ _ _ heq => UInt32.toNat_inj.mp heq
  have hrange : transfer.journal.durable.image UInt32.toNat ⊆ Finset.range m.blockCount := by
    intro n hn
    obtain ⟨index, hindex, rfl⟩ := Finset.mem_image.mp hn
    exact Finset.mem_range.mpr (h.durable index hindex)
  have hcard : (transfer.journal.durable.image UInt32.toNat).card = transfer.journal.durable.card :=
    Finset.card_image_of_injOn hinjective
  unfold isComplete
  rw [Bool.and_eq_true, decide_eq_true_eq]
  constructor
  · rintro ⟨hcount, -⟩ index hindex
    -- as many durable blocks as there are blocks
    have hall : transfer.journal.durable.image UInt32.toNat = Finset.range m.blockCount := by
      apply Finset.eq_of_subset_of_card_le hrange
      rw [hcard, hcount, Finset.card_range]
    have hmem : index.toNat ∈ transfer.journal.durable.image UInt32.toNat := by
      rw [hall]
      exact Finset.mem_range.mpr hindex
    obtain ⟨index', hindex', heq⟩ := Finset.mem_image.mp hmem
    rwa [← UInt32.toNat_inj.mp heq]
  · intro hall
    have hle := TransferManifest.blockCount_lt h.valid
    constructor
    · rw [← hcard, ← Finset.card_range m.blockCount]
      congr 1
      apply Finset.Subset.antisymm hrange
      intro n hn
      have hlt := Finset.mem_range.mp hn
      have hnat : (UInt32.ofNat n).toNat = n := UInt32.toNat_ofNat_of_lt' (hlt.trans hle)
      refine Finset.mem_image.mpr ⟨UInt32.ofNat n, hall _ ?_, hnat⟩
      rwa [hnat]
    -- what waits is not durable
    rw [List.isEmpty_iff]
    by_contra hne
    obtain ⟨block, hblock⟩ := exists_mem_of_ne_nil _ hne
    refine h.fresh block hblock (hall _ ?_)
    exact TransferManifest.lt_of_expectedPlaintextLen (h.length block hblock)

end Counted

end PartialTransfer

/-! ### Checkpoints and blocks -/

section Steps

variable {c : Crypto} {m : TransferManifest} {key : Digest} {transfer : PartialTransfer}
  {file : DiskFile UInt8} {bytes : Bytes} {faults : Faults} {blocks : List Block}

theorem indexes_cons (block : Block) (blocks : List Block) :
    indexes (block :: blocks) = insert block.index (indexes blocks) := by
  unfold indexes
  rw [map_cons, toFinset_cons]

theorem TransferJournal.append_durable {block : Block} {fault : Option ℕ}
    (h : journal.append c key bytes block fault = (result, journal', bytes')) :
    (result = .ok () ∧ journal'.durable = insert block.index journal.durable) ∨
      (result = .error .io ∧ journal' = journal ∧ fault ≠ none) := by
  unfold TransferJournal.append at h
  by_cases hmem : block.index ∈ journal.durable
  · rw [if_pos hmem] at h
    cases h
    exact .inl ⟨rfl, (Finset.insert_eq_of_mem hmem).symm⟩
  rw [if_neg hmem] at h
  cases fault with
  | none =>
    cases h
    exact .inl ⟨rfl, rfl⟩
  | some written =>
    cases h
    exact .inr ⟨rfl, rfl, some_ne_none written⟩

/-- **Appending the pending blocks** makes them durable up to the first append that fails. -/
theorem appendPending_durable {pending : List Block} {faults : List (Option ℕ)}
    (h : appendPending c key journal bytes pending faults = (result, journal', bytes')) :
    journal.durable ⊆ journal'.durable ∧
      journal'.durable ⊆ journal.durable ∪ indexes pending ∧
      (result = .ok () → indexes pending ⊆ journal'.durable) ∧
      ∀ n, (∀ fault ∈ faults.take n, fault = none) →
        indexes (pending.take n) ⊆ journal'.durable := by
  induction pending generalizing journal bytes faults with
  | nil =>
    cases h
    refine ⟨Finset.Subset.refl _, Finset.subset_union_left, fun _ => Finset.empty_subset _, ?_⟩
    intro n _
    rw [take_nil]
    exact Finset.empty_subset _
  | cons block pending ih =>
  rw [appendPending] at h
  rcases happend : journal.append c key bytes block (faults.headD none) with
    ⟨result₁, journal₁, bytes₁⟩
  rw [happend] at h
  rcases TransferJournal.append_durable happend with ⟨rfl, hdurable⟩ | ⟨rfl, rfl, hfault⟩
  · -- this block is durable, and the others come
    obtain ⟨hgrow, hbound, hall, htaken⟩ := ih h
    have hinsert : insert block.index journal.durable ⊆ journal'.durable := by
      rw [← hdurable]
      exact hgrow
    have hblock : block.index ∈ journal'.durable := hinsert (Finset.mem_insert_self _ _)
    refine ⟨(Finset.subset_insert _ _).trans hinsert, ?_, fun hok => ?_, fun n hn => ?_⟩
    · rw [hdurable, Finset.insert_union] at hbound
      rwa [indexes_cons, Finset.union_insert]
    · rw [indexes_cons]
      exact Finset.insert_subset hblock (hall hok)
    cases n with
    | zero => exact Finset.empty_subset _
    | succ n =>
      rw [take_succ_cons, indexes_cons]
      apply Finset.insert_subset hblock
      apply htaken
      intro fault hmem
      apply hn
      cases faults with
      | nil => simp at hmem
      | cons fault' faults => exact mem_cons_of_mem _ hmem
  · -- the first append that fails
    cases h
    refine ⟨Finset.Subset.refl _, Finset.subset_union_left, ?_, ?_⟩
    · intro hok
      cases hok
    intro n hn
    cases n with
    | zero => exact Finset.empty_subset _
    | succ n =>
      cases faults with
      | nil => exact absurd rfl hfault
      | cons fault faults => exact absurd (hn fault mem_cons_self) hfault

theorem PartialTransfer.checkpoint_drains (hpending : transfer.pending ≠ [])
    (hsync : faults.sync = false)
    (h : transfer.checkpoint c key file bytes faults = (result, file', bytes', transfer')) :
    transfer'.pending = [] ∧ transfer.journal.durable ⊆ transfer'.blocks ∧
      transfer'.blocks ⊆ transfer.blocks ∧ (result = .ok () → transfer.blocks ⊆ transfer'.blocks) ∧
      ∀ n, (∀ fault ∈ faults.appends.take n, fault = none) →
        indexes (transfer.pending.take n) ⊆ transfer'.blocks := by
  unfold PartialTransfer.checkpoint at h
  rw [if_neg (by rwa [List.isEmpty_iff]), hsync, if_neg Bool.false_ne_true] at h
  have hdrained : ∀ {t : PartialTransfer}, t.pending = [] → t.blocks = t.journal.durable := by
    intro t ht
    unfold PartialTransfer.blocks
    rw [ht]
    exact Finset.union_empty _
  split at h
  · next happend =>
    cases h
    obtain ⟨hgrow, hbound, -, htaken⟩ := appendPending_durable happend
    rw [hdrained rfl]
    exact ⟨rfl, hgrow, hbound, (fun hok => nomatch hok), htaken⟩
  next happend =>
  cases h
  obtain ⟨hgrow, hbound, hall, htaken⟩ := appendPending_durable happend
  rw [hdrained rfl]
  exact ⟨rfl, hgrow, hbound, fun _ => Finset.union_subset hgrow (hall rfl), htaken⟩

theorem PartialTransfer.checkpoint_stays (hstays : transfer.pending = [] ∨ faults.sync = true)
    (h : transfer.checkpoint c key file bytes faults = (result, file', bytes', transfer')) :
    transfer' = transfer ∧ (result = .ok () → transfer.pending = []) := by
  unfold PartialTransfer.checkpoint at h
  by_cases hpending : transfer.pending = []
  · rw [if_pos (by rw [hpending]; rfl)] at h
    cases h
    exact ⟨rfl, fun _ => hpending⟩
  · rw [if_neg (by rwa [List.isEmpty_iff]), if_pos (hstays.resolve_left hpending)] at h
    cases h
    exact ⟨rfl, fun hok => nomatch hok⟩

theorem PartialTransfer.counted_of_subset (valid : m.validate = .ok ())
    (hlt : ∀ index ∈ transfer.blocks, index.toNat < m.blockCount)
    (hpending : transfer'.pending = []) (hblocks : transfer'.blocks ⊆ transfer.blocks) :
    transfer'.Counted m := by
  apply counted_of_pending_nil valid _ hpending
  intro index hindex
  exact hlt index (hblocks (Finset.mem_union_left _ hindex))

/-- The appends of a checkpoint that is reached do not fail, where they are of these blocks. -/
def Faults.AppendsHold (faults : Faults) (blocks : List Block) : Prop :=
  faults.sync = false → ∀ fault ∈ faults.appends.take blocks.length, fault = none

/-- **A checkpoint** keeps the blocks, and a successful one makes them durable. -/
theorem PartialTransfer.Counted.checkpoint (h : transfer.Counted m)
    (hold : faults.AppendsHold transfer.pending)
    (hrun : transfer.checkpoint c key file bytes faults = (result, file', bytes', transfer')) :
    transfer'.Counted m ∧ transfer'.blocks = transfer.blocks ∧
      (result = .ok () → transfer'.journal.durable = transfer.blocks) := by
  by_cases hstays : transfer.pending = [] ∨ faults.sync = true
  · obtain ⟨rfl, hempty⟩ := checkpoint_stays hstays hrun
    refine ⟨h, rfl, fun hok => ?_⟩
    unfold blocks
    rw [hempty hok]
    exact (Finset.union_empty _).symm
  rw [not_or, Bool.not_eq_true] at hstays
  obtain ⟨hnil, hgrow, hbound, -, htaken⟩ := checkpoint_drains hstays.1 hstays.2 hrun
  have hpending := htaken _ (hold hstays.2)
  rw [take_length] at hpending
  have hsame : transfer'.blocks = transfer.blocks :=
    Finset.Subset.antisymm hbound (Finset.union_subset hgrow hpending)
  refine ⟨counted_of_subset h.valid (fun _ => h.lt_blockCount) hnil hbound, hsame, fun _ => ?_⟩
  rw [← hsame]
  unfold blocks
  rw [hnil]
  exact (Finset.union_empty _).symm

/-- **A block is received steadily**: one that comes while it waits is followed by a checkpoint that
syncs, and a checkpoint that is reached appends what waited before. -/
def PartialTransfer.Steady (c : Crypto) (m : TransferManifest) (key : Digest)
    (transfer : PartialTransfer) (encoded : Bytes) (due : Bool) (faults : Faults) : Prop :=
  ∀ frame plaintext, AttachmentBlockFrame.decode encoded = .ok frame →
    frame.blockIndex ∉ transfer.journal.durable → frame.decrypt c m key = .ok plaintext →
    faults.write = none →
    let checkpointed :=
      journalCheckpointBytes ≤ transfer.pendingBytes + plaintext.length ∨ due = true
    (frame.blockIndex ∈ indexes transfer.pending → checkpointed ∧ faults.sync = false) ∧
      (checkpointed → faults.AppendsHold transfer.pending)

theorem PartialTransfer.Counted.waits {block : Block} {pendingBytes : ℕ} (h : transfer.Counted m)
    (hpending : block.index ∉ indexes transfer.pending)
    (hdurable : block.index ∉ transfer.journal.durable)
    (hlength : m.expectedPlaintextLen block.index = .ok block.length.toNat) :
    Counted m ⟨transfer.journal, transfer.pending ++ [block], pendingBytes⟩ := by
  refine ⟨h.valid, h.durable, ?_, fun other hother => ?_, fun other hother => ?_⟩
  · rw [map_append, nodup_append]
    refine ⟨h.distinct, nodup_singleton _, ?_⟩
    rintro index hindex index' hindex' rfl
    rw [map_singleton, mem_singleton] at hindex'
    subst hindex'
    exact hpending (mem_toFinset.mpr hindex)
  · rcases mem_append.mp hother with hold | hnew
    · exact h.fresh other hold
    · rwa [mem_singleton.mp hnew]
  · rcases mem_append.mp hother with hold | hnew
    · exact h.length other hold
    · rwa [mem_singleton.mp hnew]

theorem PartialTransfer.blocks_waits (block : Block) (pendingBytes : ℕ) :
    (⟨transfer.journal, transfer.pending ++ [block], pendingBytes⟩ : PartialTransfer).blocks =
      insert block.index transfer.blocks := by
  unfold blocks
  rw [indexes_append, Finset.union_insert]

/-- **A block that is received** keeps the blocks, and one that is accepted is among them. -/
theorem PartialTransfer.Counted.receive {encoded : Bytes} {due : Bool} {result : Except Failure ℕ}
    (h : transfer.Counted m) (hsteady : transfer.Steady c m key encoded due faults)
    (hrun : transfer.receiveEncodedBlock c m key file bytes encoded due faults =
      (result, file', bytes', transfer')) :
    transfer'.Counted m ∧ transfer.blocks ⊆ transfer'.blocks ∧
      ∀ count frame, result = .ok count → AttachmentBlockFrame.decode encoded = .ok frame →
        frame.blockIndex ∈ transfer'.blocks := by
  unfold receiveEncodedBlock at hrun
  cases hdecode : AttachmentBlockFrame.decode encoded with
  | error failure =>
    rw [hdecode] at hrun
    cases hrun
    exact ⟨h, Finset.Subset.refl _, fun _ _ hok => nomatch hok⟩
  | ok frame =>
  rw [hdecode] at hrun
  simp only at hrun
  split at hrun
  · next hdurable =>
    cases hrun
    refine ⟨h, Finset.Subset.refl _, fun _ _ _ hframe => ?_⟩
    rw [← Except.ok.inj hframe]
    exact Finset.mem_union_left _ hdurable
  next hnew =>
  cases hdecrypt : frame.decrypt c m key with
  | error failure =>
    rw [hdecrypt] at hrun
    cases hrun
    exact ⟨h, Finset.Subset.refl _, fun _ _ hok => nomatch hok⟩
  | ok plaintext =>
  rw [hdecrypt] at hrun
  unfold writeBlock at hrun
  cases hwrite : faults.write with
  | some written =>
    rw [hwrite] at hrun
    cases hrun
    exact ⟨h, Finset.Subset.refl _, fun _ _ hok => nomatch hok⟩
  | none =>
  rw [hwrite] at hrun
  simp only at hrun
  obtain ⟨hagain, hold⟩ := hsteady frame plaintext hdecode hnew hdecrypt hwrite
  obtain ⟨hlength, -⟩ := length_of_decrypt hdecrypt
  -- the transfer after the block is written
  let block : Block := ⟨frame.blockIndex, frame.plaintextLen, frame.plaintextSha256⟩
  have hblocks := @blocks_waits transfer block (transfer.pendingBytes + plaintext.length)
  have hmore : transfer.blocks ⊆ insert block.index transfer.blocks := Finset.subset_insert _ _
  by_cases hdue : journalCheckpointBytes ≤ transfer.pendingBytes + plaintext.length ∨ due = true
  swap
  · -- no checkpoint follows, so the block does not wait yet
    have hwaits : block.index ∉ indexes transfer.pending := fun hmem => hdue (hagain hmem).1
    rw [if_neg (by rwa [Bool.or_eq_true, decide_eq_true_eq])] at hrun
    cases hrun
    refine ⟨h.waits hwaits hnew hlength, by rwa [hblocks], fun _ _ _ hframe => ?_⟩
    rw [hblocks, ← Except.ok.inj hframe]
    exact Finset.mem_insert_self _ _
  rw [if_pos (by rwa [Bool.or_eq_true, decide_eq_true_eq])] at hrun
  rcases hcheck : PartialTransfer.checkpoint c key ⟨transfer.journal, transfer.pending ++ [block],
    transfer.pendingBytes + plaintext.length⟩ (file.write 0 (m.offset frame.blockIndex) plaintext)
    bytes faults with ⟨result₁, file₁, bytes₁, transfer₁⟩
  rw [hcheck] at hrun
  have hend : transfer' = transfer₁ ∧ (∀ count, result = .ok count → result₁ = .ok ()) := by
    cases result₁ with
    | error failure =>
      cases hrun
      exact ⟨rfl, fun _ hok => nomatch hok⟩
    | ok value =>
      cases hrun
      exact ⟨rfl, fun _ _ => rfl⟩
  obtain ⟨rfl, hresult⟩ := hend
  cases hsync : faults.sync with
  | true =>
    -- the checkpoint fails before it appends, and the block waits
    have hwaits : block.index ∉ indexes transfer.pending := by
      intro hmem
      rw [(hagain hmem).2] at hsync
      cases hsync
    obtain ⟨rfl, hempty⟩ := checkpoint_stays (.inr hsync) hcheck
    refine ⟨h.waits hwaits hnew hlength, by rwa [hblocks], fun count _ hok _ => ?_⟩
    exact absurd (hempty (hresult count hok)) (append_ne_nil_of_right_ne_nil _ (by simp))
  | false =>
  obtain ⟨hnil, hgrow, hbound, hall, htaken⟩ :=
    checkpoint_drains (append_ne_nil_of_right_ne_nil _ (by simp)) hsync hcheck
  rw [hblocks] at hbound hall
  have hpending : indexes transfer.pending ⊆ transfer'.blocks := by
    have htake := htaken transfer.pending.length (hold hdue hsync)
    rwa [take_left'] at htake
    rfl
  have hlt : ∀ index ∈ insert block.index transfer.blocks, index.toNat < m.blockCount := by
    intro index hindex
    rcases Finset.mem_insert.mp hindex with rfl | hindex
    · exact TransferManifest.lt_of_expectedPlaintextLen hlength
    · exact h.lt_blockCount hindex
  refine ⟨?_, Finset.union_subset hgrow hpending, fun count _ hok hframe => ?_⟩
  · rw [← hblocks] at hlt hbound
    exact counted_of_subset h.valid hlt hnil hbound
  · rw [← Except.ok.inj hframe]
    exact hall (hresult count hok) (Finset.mem_insert_self _ _)

end Steps

/-! ### Runs -/

/-- The files and the transfer, with the blocks that were accepted since it was opened. -/
structure Tally where
  world : World
  accepted : Finset UInt32

namespace Tally

variable (c : Crypto) (m : TransferManifest) (key : Digest)

/-- The accepted blocks after a step. -/
def accepts (t : Tally) : World.Act → Finset UInt32
  | .openTransfer => ∅
  | .crash _ _ => ∅
  | .checkpoint _ => t.accepted
  | .receive encoded due faults =>
    match t.world.file, t.world.transfer, AttachmentBlockFrame.decode encoded with
    | some file, some transfer, .ok frame =>
      match (transfer.receiveEncodedBlock c m key file t.world.bytes encoded due faults).1 with
      | .ok _ => insert frame.blockIndex t.accepted
      | .error _ => t.accepted
    | _, _, _ => t.accepted

def step (t : Tally) (act : World.Act) : Tally := ⟨t.world.step c m key act, t.accepts c m key act⟩

def machine : Machine Tally World.Act Unit := ⟨fun t act => (t.step c m key act, ())⟩

/-- What is on the disk, and no transfer. -/
def closed (w : World) : Tally := ⟨{ w with transfer := none }, ∅⟩

/-- The journal's file, if it can be read, is about blocks of the attachment. -/
def Named (w : World) : Prop :=
  ∀ journal, (TransferJournal.openJournal c key w.bytes).1 = .ok journal →
    ∀ index ∈ journal.durable, index.toNat < m.blockCount

/-- The steps of a transfer that counts right. -/
def Steady (t : Tally) : World.Act → Prop
  | .openTransfer => Named c m key t.world
  | .crash _ _ => True
  | .checkpoint faults => ∀ transfer ∈ t.world.transfer, faults.AppendsHold transfer.pending
  | .receive encoded due faults => ∀ transfer ∈ t.world.transfer,
      transfer.Steady c m key encoded due faults

/-- **The account of a transfer**: what it counts are its blocks, each once; it counts no more than
the attachment has; what was accepted is among its blocks, and durable after a checkpoint; and it is
complete when all blocks are durable. -/
def Accounted (t : Tally) : Prop :=
  ∀ transfer ∈ t.world.transfer,
    transfer.receivedBytes m = ∑ index ∈ transfer.blocks, m.lengthOf index ∧
    transfer.receivedBytes m ≤ m.sizeBytes ∧
    t.accepted ⊆ transfer.blocks ∧
    (∀ file bytes faults, (transfer.checkpoint c key file bytes faults).1 = .ok () →
      t.accepted ⊆ (transfer.checkpoint c key file bytes faults).2.2.2.journal.durable) ∧
    (transfer.isComplete m = true ↔
      ∀ index : UInt32, index.toNat < m.blockCount → index ∈ transfer.journal.durable)

def Inv (t : Tally) : Prop :=
  ∀ transfer ∈ t.world.transfer, transfer.Counted m ∧ t.accepted ⊆ transfer.blocks

variable {c m key} {t : Tally}

theorem named_of_careful {acts : List World.Act}
    (h : (World.machine c m key).Along (World.Careful c m key) World.initial acts) :
    Named c m key ((World.machine c m key).run World.initial acts) := by
  have hinv : World.Inv c m key ((World.machine c m key).run World.initial acts) := by
    refine Machine.run_induction_along ?_ (.inl rfl) h
    exact fun w act hinv hcareful => World.Inv.step hinv act hcareful
  obtain ⟨blocks, torn, hholds, hsecured⟩ := hinv.found
  intro journal hopen index hindex
  rw [hholds.openJournal] at hopen
  rw [← Except.ok.inj hopen] at hindex
  obtain ⟨plaintext, hauthentic, -⟩ := hsecured index hindex
  exact hauthentic.fits.2.2

theorem durable_of_checkpoint {transfer : PartialTransfer} {file : DiskFile UInt8} {bytes : Bytes}
    {faults : Faults} (hok : (transfer.checkpoint c key file bytes faults).1 = .ok ()) :
    transfer.blocks ⊆ (transfer.checkpoint c key file bytes faults).2.2.2.journal.durable := by
  rcases hrun : transfer.checkpoint c key file bytes faults with ⟨result, file', bytes', transfer'⟩
  rw [hrun] at hok
  by_cases hstays : transfer.pending = [] ∨ faults.sync = true
  · obtain ⟨rfl, hempty⟩ := PartialTransfer.checkpoint_stays hstays hrun
    unfold PartialTransfer.blocks
    rw [hempty hok]
    exact Finset.union_subset (Finset.Subset.refl _) (Finset.empty_subset _)
  rw [not_or, Bool.not_eq_true] at hstays
  obtain ⟨hnil, -, -, hall, -⟩ := PartialTransfer.checkpoint_drains hstays.1 hstays.2 hrun
  have hblocks : transfer'.blocks = transfer'.journal.durable := by
    unfold PartialTransfer.blocks
    rw [hnil]
    exact Finset.union_empty _
  rw [← hblocks]
  exact hall hok

theorem Inv.accounted (h : Inv m t) : Accounted c m key t := by
  intro transfer htransfer
  obtain ⟨hcounted, haccepted⟩ := h transfer htransfer
  refine ⟨hcounted.receivedBytes_eq, hcounted.receivedBytes_le, haccepted,
    fun file bytes faults hok => ?_, hcounted.isComplete_iff⟩
  exact haccepted.trans (durable_of_checkpoint hok)

theorem inv_closed (w : World) : Inv m (closed w) := fun _ h => nomatch h

theorem inv_openTransfer (hnamed : Named c m key t.world) :
    Inv m (t.step c m key .openTransfer) := by
  intro transfer htransfer
  have hworld : transfer ∈ (t.world.openTransfer c m key).2.transfer := htransfer
  unfold World.openTransfer at hworld
  split at hworld
  · cases hworld
  next hvalid =>
  split at hworld
  · cases hworld
  next journal bytes hopen =>
  obtain rfl := some.inj hworld
  refine ⟨PartialTransfer.counted_of_pending_nil hvalid (fun index hindex => ?_) rfl,
    Finset.empty_subset _⟩
  refine hnamed journal ?_ index hindex
  rw [hopen]

theorem step_idle (h : t.world.file = none ∨ t.world.transfer = none) {act : World.Act}
    (hopen : act ≠ .openTransfer) (hcrash : ∀ choose rest, act ≠ .crash choose rest) :
    t.step c m key act = t := by
  obtain ⟨⟨file, bytes, transfer⟩, accepted⟩ := t
  cases act with
  | openTransfer => exact absurd rfl hopen
  | crash choose rest => exact absurd rfl (hcrash choose rest)
  | checkpoint faults =>
    rcases h with rfl | rfl
    · rfl
    · cases file <;> rfl
  | receive encoded due faults =>
    rcases h with rfl | rfl
    · rfl
    · cases file <;> rfl

/-- **One step** that is steady: the account stays right, and no block is lost. -/
theorem Inv.step (h : Inv m t) (act : World.Act) (hsteady : t.Steady c m key act) :
    Inv m (t.step c m key act) ∧ (act ≠ .openTransfer →
      ∀ transfer ∈ t.world.transfer, ∀ transfer' ∈ (t.step c m key act).world.transfer,
        transfer.blocks ⊆ transfer'.blocks) := by
  by_cases hopen : act = .openTransfer
  · subst hopen
    exact ⟨inv_openTransfer hsteady, fun hne => absurd rfl hne⟩
  by_cases hcrash : ∃ choose rest, act = .crash choose rest
  · obtain ⟨choose, rest, rfl⟩ := hcrash
    exact ⟨fun _ hnone => (nomatch hnone), fun _ _ _ _ hnone => nomatch hnone⟩
  by_cases hidle : t.world.file = none ∨ t.world.transfer = none
  · rw [step_idle hidle hopen fun choose rest heq => hcrash ⟨choose, rest, heq⟩]
    refine ⟨h, fun _ transfer hbefore transfer' hafter => ?_⟩
    rw [mem_unique hbefore hafter]
  rw [not_or] at hidle
  obtain ⟨file, hfile⟩ := ne_none_iff_exists'.mp hidle.1
  obtain ⟨transfer, htransfer⟩ := ne_none_iff_exists'.mp hidle.2
  obtain ⟨hcounted, haccepted⟩ := h transfer htransfer
  cases act with
  | openTransfer => exact absurd rfl hopen
  | crash choose rest => exact absurd ⟨choose, rest, rfl⟩ hcrash
  | checkpoint faults =>
    rcases hrun : transfer.checkpoint c key file t.world.bytes faults with
      ⟨result, file', bytes', transfer'⟩
    have hstep : t.step c m key (.checkpoint faults) =
        ⟨⟨some file', bytes', some transfer'⟩, t.accepted⟩ := by
      unfold Tally.step World.step accepts
      rw [hfile, htransfer]
      simp[hrun]
    obtain ⟨hcounted', hblocks, -⟩ := hcounted.checkpoint (hsteady transfer htransfer) hrun
    rw [hstep, htransfer]
    constructor
    · rintro _ ⟨⟩
      exact ⟨hcounted', by rwa [hblocks]⟩
    · rintro - _ ⟨⟩ _ ⟨⟩
      rw [hblocks]
  | receive encoded due faults =>
    rcases hrun : transfer.receiveEncodedBlock c m key file t.world.bytes encoded due faults with
      ⟨result, file', bytes', transfer'⟩
    obtain ⟨hcounted', hblocks, haccept⟩ := hcounted.receive (hsteady transfer htransfer) hrun
    have hstep : (t.step c m key (.receive encoded due faults)).world =
        ⟨some file', bytes', some transfer'⟩ := by
      unfold Tally.step World.step
      simp[hfile, htransfer, hrun]
    have htaken : t.accepts c m key (.receive encoded due faults) ⊆ transfer'.blocks := by
      unfold accepts
      simp only [hfile, htransfer]
      cases hdecode : AttachmentBlockFrame.decode encoded with
      | error failure => exact haccepted.trans hblocks
      | ok frame =>
      simp only [hrun]
      cases result with
      | error failure => exact haccepted.trans hblocks
      | ok count =>
        exact Finset.insert_subset (haccept count frame rfl hdecode) (haccepted.trans hblocks)
    rw [hstep, htransfer]
    constructor
    · intro after hafter
      rw [hstep] at hafter
      obtain rfl := some.inj hafter
      exact ⟨hcounted', htaken⟩
    · rintro - _ ⟨⟩ _ ⟨⟩
      exact hblocks

end Tally

/-- **What a transfer counts.** In every run whose steps are steady the account of the transfer is
right, and what it counts does not fall until it is opened again. -/
theorem accounted_of_steady (c : Crypto) (m : TransferManifest) (key : Digest) (w : World)
    (acts : List World.Act)
    (h : (Tally.machine c m key).Along (Tally.Steady c m key) (Tally.closed w) acts) :
    ((Tally.machine c m key).run (Tally.closed w) acts).Accounted c m key ∧
    ∀ i st act o st', (Tally.machine c m key).StepAt (Tally.closed w) acts i st act o st' →
      act ≠ .openTransfer → ∀ transfer ∈ st.world.transfer, ∀ transfer' ∈ st'.world.transfer,
        transfer.receivedBytes m ≤ transfer'.receivedBytes m := by
  have hkeep : ∀ t act, Tally.Inv m t → t.Steady c m key act → Tally.Inv m (t.step c m key act) :=
    fun t act hinv hsteady => (hinv.step act hsteady).1
  constructor
  · apply Tally.Inv.accounted
    exact Machine.run_induction_along hkeep (Tally.inv_closed w) h
  intro i st act o st' hstep hopen transfer htransfer transfer' htransfer'
  have hbefore : Tally.Inv m st := by
    rw [← hstep.before]
    refine Machine.run_induction_along hkeep (Tally.inv_closed w) ?_
    rw [← take_append_drop i acts, Machine.along_append] at h
    exact h.1
  obtain ⟨hafter, hgrow⟩ := hbefore.step act (hstep.along h)
  obtain rfl : st.step c m key act = st' := congrArg Prod.fst hstep.step
  exact (hbefore transfer htransfer).1.receivedBytes_mono (hafter transfer' htransfer').1
    (hgrow hopen transfer htransfer transfer' htransfer')

namespace Sample

def after (acts : List World.Act) : Tally :=
  (Tally.machine crypto manifest zeros).run (Tally.closed World.initial) acts

def twice : List World.Act :=
  [.openTransfer, .receive encoded false noFaults, .receive encoded false noFaults]

def dropped : List World.Act :=
  [.openTransfer, .receive encoded false noFaults, .checkpoint ⟨none, false, [some 0]⟩,
    .checkpoint noFaults]

/-- **A block that comes twice** is counted twice, six bytes of an attachment of three. A block
whose append fails is accepted, and then not there. -/
theorem block_counted_twice :
    (after twice).accepted = {0} ∧
    ((after twice).world.transfer.map fun transfer =>
      (transfer.blocks, transfer.receivedBytes manifest)) = some ({0}, 6) ∧
    (after dropped).accepted = {0} ∧
    ((after dropped).world.transfer.map fun transfer =>
      (transfer.blocks, transfer.receivedBytes manifest)) = some (∅, 0) ∧
    manifest.sizeBytes = 3 := by
  decide +kernel

def once : List World.Act :=
  [.openTransfer, .receive encoded false noFaults, .checkpoint noFaults]

theorem steady_once :
    (Tally.machine crypto manifest zeros).Along (Tally.Steady crypto manifest zeros)
      (Tally.closed World.initial) once := by
  have hhold : ∀ blocks, noFaults.AppendsHold blocks := by
    intro blocks _ fault hfault
    rw [show noFaults.appends = [] from rfl, take_nil] at hfault
    cases hfault
  refine ⟨?_, ?_, fun _ _ => hhold _, trivial⟩
  · exact @Tally.named_of_careful crypto manifest zeros [] trivial
  · rintro _ ⟨⟩ frame plaintext - - - -
    exact ⟨fun hwaits => absurd hwaits (Finset.notMem_empty _), fun _ => hhold _⟩

theorem accounted_once :
    (after once).Accounted crypto manifest zeros ∧
    ((after once).world.transfer.map fun transfer => transfer.isComplete manifest) = some true :=
  ⟨(accounted_of_steady crypto manifest zeros World.initial once steady_once).1, by decide +kernel⟩

end Sample

end Transfer
end Conest
