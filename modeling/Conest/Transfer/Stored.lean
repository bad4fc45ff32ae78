import Conest.Transfer.Partial

/-!
# What the journal promises

In every run of a transfer whose steps are all `Careful`, the blocks in the journal have an authentic
plaintext at their place of the partial file (`stored_of_careful`). `Safe` is the invariant: what has
a record is there whatever a crash does, and what waits for a checkpoint is there now, so that the
sync of the checkpoint keeps it.
-/

namespace Conest
namespace Transfer

open Lib List
open DiskFile

variable (c : Crypto) (m : TransferManifest) (key : Digest)

variable {plaintext' b : Bytes} {index' : UInt32}

/-- An authentic plaintext of the block is in the file. -/
def Present (content : Bytes) (index : UInt32) : Prop :=
  ∃ plaintext, Authentic c m key index plaintext ∧ HasAt content (m.offset index) plaintext

/-- And it stays there through a crash. -/
def Secured (file : DiskFile UInt8) (index : UInt32) : Prop :=
  ∃ plaintext, Authentic c m key index plaintext ∧ file.Kept (m.offset index) plaintext

/-- The journal holds records of secured blocks, those in memory among them, and the pending blocks
are present. -/
structure Safe (file : DiskFile UInt8) (bytes : Bytes) (durable : Finset UInt32)
    (pending : List Block) : Prop where
  journal : ∃ blocks torn, Holds c key bytes blocks torn ∧ durable ⊆ indexes blocks ∧
    ∀ index ∈ indexes blocks, Secured c m key file index
  pending : ∀ block ∈ pending, Present c m key file.content block.index

variable {c m key} {file : DiskFile UInt8} {bytes : Bytes} {durable : Finset UInt32}
  {pending : List Block} {index : UInt32} {plaintext : Bytes} {blocks : List Block}
  {transfer : PartialTransfer} {faults : Faults}

theorem Secured.present (h : Secured c m key file index) : Present c m key file.content index := by
  obtain ⟨plaintext, hauthentic, hkept⟩ := h
  exact ⟨plaintext, hauthentic, hkept.content⟩

theorem Present.sync (h : Present c m key file.content index) : Secured c m key file.sync index := by
  obtain ⟨plaintext, hauthentic, hat⟩ := h
  exact ⟨plaintext, hauthentic, kept_sync hat⟩

/-! ### Checkpoints -/

theorem appendPending_spec {journal : TransferJournal} (hholds : Holds c key bytes blocks [])
    (hdurable : journal.durable ⊆ indexes blocks) (pending : List Block)
    (faults : List (Option ℕ)) :
    ∃ blocks' torn',
      Holds c key (appendPending c key journal bytes pending faults).2.2 blocks' torn' ∧
      (appendPending c key journal bytes pending faults).2.1.durable ⊆ indexes blocks' ∧
      ∀ index ∈ indexes blocks', index ∈ indexes blocks ∨ ∃ block ∈ pending, block.index = index := by
  induction pending generalizing journal bytes blocks faults with
  | nil => exact ⟨blocks, [], hholds, hdurable, fun _ h => .inl h⟩
  | cons block pending ih =>
  rw [appendPending]
  unfold TransferJournal.append
  by_cases hmem : block.index ∈ journal.durable
  · -- appended before
    rw [if_pos hmem]
    obtain ⟨blocks', torn', hholds', hdurable', hnew⟩ := ih hholds hdurable faults.tail
    refine ⟨blocks', torn', hholds', hdurable', fun index hindex => ?_⟩
    exact (hnew index hindex).imp_right fun ⟨b, hb, heq⟩ => ⟨b, mem_cons_of_mem _ hb, heq⟩
  rw [if_neg hmem]
  have hmore : indexes blocks ⊆ indexes (blocks ++ [block]) := by
    rw [indexes_append]
    exact Finset.subset_insert _ _
  have hlast : ∀ index ∈ indexes (blocks ++ [block]), index ∈ indexes blocks ∨
      ∃ b ∈ block :: pending, b.index = index := by
    intro index hindex
    rw [indexes_append, Finset.mem_insert] at hindex
    rcases hindex with rfl | hold
    · exact .inr ⟨block, mem_cons_self, rfl⟩
    · exact .inl hold
  cases hfault : faults.headD none with
  | some written =>
    -- this append fails
    obtain ⟨blocks', torn', hholds', rfl | rfl⟩ := hholds.append block written
    · exact ⟨blocks', torn', hholds', hdurable, fun _ h => .inl h⟩
    · exact ⟨_, torn', hholds', hdurable.trans hmore, hlast⟩
  | none =>
  have hdurable' : insert block.index journal.durable ⊆ indexes (blocks ++ [block]) := by
    rw [indexes_append]
    exact Finset.insert_subset_insert _ hdurable
  obtain ⟨blocks', torn', hholds', hinclude, hnew⟩ :=
    @ih _ _ ⟨insert block.index journal.durable⟩ (hholds.append_all block) hdurable' faults.tail
  refine ⟨blocks', torn', hholds', hinclude, fun index hindex => ?_⟩
  rcases hnew index hindex with hold | ⟨b, hb, heq⟩
  · exact hlast index hold
  · exact .inr ⟨b, mem_cons_of_mem _ hb, heq⟩

/-- **A checkpoint is safe** that does not append behind part of a record. -/
theorem Safe.checkpoint (h : Safe c m key file bytes transfer.journal.durable transfer.pending)
    (haligned : transfer.pending ≠ [] → faults.sync = false →
      bytes.length % journalRecordLen = 0) :
    let after := transfer.checkpoint c key file bytes faults
    Safe c m key after.2.1 after.2.2.1 after.2.2.2.journal.durable after.2.2.2.pending := by
  obtain ⟨blocks, torn, hholds, hdurable, hsecured⟩ := h.journal
  unfold PartialTransfer.checkpoint
  split
  · exact h
  next hpending =>
  split
  · exact h
  next hsync =>
  have hne : transfer.pending ≠ [] := by simpa using hpending
  obtain rfl := hholds.torn_eq_nil (haligned hne (by simpa using hsync))
  obtain ⟨blocks', torn', hholds', hdurable', hnew⟩ :=
    appendPending_spec hholds hdurable transfer.pending faults.appends
  -- the sync secures the pending blocks and keeps the others secured
  have hsecured' : ∀ index ∈ indexes blocks', Secured c m key file.sync index := by
    intro index hindex
    rcases hnew index hindex with hold | ⟨block, hblock, rfl⟩
    · exact (hsecured index hold).present.sync
    · exact (h.pending block hblock).sync
  split
  · next hresult =>
    rw [hresult] at hholds' hdurable'
    exact ⟨⟨blocks', torn', hholds', hdurable', hsecured'⟩, fun _ hb => nomatch hb⟩
  next hresult =>
  rw [hresult] at hholds' hdurable'
  exact ⟨⟨blocks', torn', hholds', hdurable', hsecured'⟩, fun _ hb => nomatch hb⟩

/-! ### Blocks -/

theorem agrees_of_ne (hne : index ≠ index') (hauthentic : Authentic c m key index plaintext)
    (hauthentic' : Authentic c m key index' plaintext') (hbegins : b <+: plaintext') :
    Agrees (m.offset index) plaintext (m.offset index') b := by
  have hfits := hauthentic.fits.1
  have hfits' := hbegins.length_le.trans hauthentic'.fits.1
  have hne' : index.toNat ≠ index'.toNat := fun heq => hne (UInt32.toNat_inj.mp heq)
  apply Agrees.of_disjoint
  unfold TransferManifest.offset
  rcases Nat.lt_or_gt_of_ne hne' with hlt | hgt
  · have hle := Nat.mul_le_mul_right m.blockSize (Nat.succ_le_of_lt hlt)
    rw [Nat.succ_mul] at hle
    exact .inl (by omega)
  · have hle := Nat.mul_le_mul_right m.blockSize (Nat.succ_le_of_lt hgt)
    rw [Nat.succ_mul] at hle
    exact .inr (by omega)

theorem agrees_of_hasAt {offset : ℕ} (hat : HasAt file.content offset plaintext)
    (hat' : HasAt file.content offset plaintext') (hbegins : b <+: plaintext') :
    Agrees offset plaintext offset b := by
  intro k hk hle hlt
  have hk' : k < b.length := by omega
  have hb : b[k]? = plaintext'[k]? := by
    obtain ⟨rest, rfl⟩ := hbegins
    exact (getElem?_append_left hk').symm
  have hk'' : k < plaintext'.length := Nat.lt_of_lt_of_le hk' hbegins.length_le
  rw [Nat.add_sub_cancel_left, hb, ← hasAt_iff.mp hat k hk, ← hasAt_iff.mp hat' k hk'']

theorem Secured.write (h : Secured c m key file index)
    (hauthentic' : Authentic c m key index' plaintext') (hbegins : b <+: plaintext')
    (hsame : index = index' → HasAt file.content (m.offset index') plaintext') :
    Secured c m key (file.write 0 (m.offset index') b) index := by
  obtain ⟨plaintext, hauthentic, hkept⟩ := h
  refine ⟨plaintext, hauthentic, hkept.write ?_⟩
  by_cases heq : index = index'
  · subst heq
    exact agrees_of_hasAt hkept.content (hsame rfl) hbegins
  · exact agrees_of_ne heq hauthentic hauthentic' hbegins

theorem Present.write (h : Present c m key file.content index)
    (hauthentic' : Authentic c m key index' plaintext') (hbegins : b <+: plaintext')
    (hsame : index = index' → b = plaintext' ∨ HasAt file.content (m.offset index') plaintext') :
    Present c m key (file.write 0 (m.offset index') b).content index := by
  obtain ⟨plaintext, hauthentic, hat⟩ := h
  by_cases heq : index = index'
  · subst heq
    rcases hsame rfl with rfl | hat'
    · -- the block is written as a whole
      exact ⟨b, hauthentic', hasAt_overwrite⟩
    · exact ⟨plaintext, hauthentic, hat.overwrite (agrees_of_hasAt hat hat' hbegins)⟩
  · exact ⟨plaintext, hauthentic, hat.overwrite (agrees_of_ne heq hauthentic hauthentic' hbegins)⟩

/-- **A block is written safely**, if what it is written over is itself or does not count. -/
theorem Safe.writeBlock {frame : AttachmentBlockFrame} {fault : Option ℕ}
    (h : Safe c m key file bytes transfer.journal.durable transfer.pending)
    (hauthentic : Authentic c m key frame.blockIndex plaintext)
    (hrecorded : ∀ blocks torn, Holds c key bytes blocks torn → frame.blockIndex ∈ indexes blocks →
      HasAt file.content (m.offset frame.blockIndex) plaintext)
    (hpending : fault ≠ none → (∃ block ∈ transfer.pending, block.index = frame.blockIndex) →
      HasAt file.content (m.offset frame.blockIndex) plaintext) :
    let after := transfer.writeBlock m file frame plaintext fault
    Safe c m key after.2.1 bytes after.2.2.journal.durable after.2.2.pending := by
  obtain ⟨blocks, torn, hholds, hdurable, hsecured⟩ := h.journal
  have hsame : ∀ index ∈ indexes blocks, index = frame.blockIndex →
      HasAt file.content (m.offset frame.blockIndex) plaintext := by
    rintro index hindex rfl
    exact hrecorded blocks torn hholds hindex
  cases fault with
  | some written =>
    have hbegins : plaintext.take written <+: plaintext := take_prefix _ _
    refine ⟨⟨blocks, torn, hholds, hdurable, fun index hindex => ?_⟩, fun block hblock => ?_⟩
    · exact (hsecured index hindex).write hauthentic hbegins (hsame index hindex)
    · apply (h.pending block hblock).write hauthentic hbegins
      intro heq
      exact .inr (hpending (Option.some_ne_none _) ⟨block, hblock, heq⟩)
  | none =>
  have hbegins : plaintext <+: plaintext := prefix_refl _
  refine ⟨⟨blocks, torn, hholds, hdurable, fun index hindex => ?_⟩, fun block hblock => ?_⟩
  · exact (hsecured index hindex).write hauthentic hbegins (hsame index hindex)
  · rcases mem_append.mp hblock with hold | hnew
    · exact (h.pending block hold).write hauthentic hbegins fun _ => .inl rfl
    · rw [mem_singleton] at hnew
      subst hnew
      exact ⟨plaintext, hauthentic, hasAt_overwrite⟩

/-! ### Steps -/

namespace World

variable (c m key)

/-- The block has a record in the journal's file. -/
def Recorded (w : World) (index : UInt32) : Prop :=
  ∃ journal, (TransferJournal.openJournal c key w.bytes).1 = .ok journal ∧ index ∈ journal.durable

/-- The journal's file ends with a record. -/
def Aligned (w : World) : Prop := w.bytes.length % journalRecordLen = 0

/-- A checkpoint does not append behind part of a record. A block that has a record, or that waits
for a checkpoint and whose write fails, comes again with what is stored of it. -/
def Careful (w : World) : Act → Prop
  | .openTransfer => True
  | .crash _ _ => True
  | .checkpoint faults => ∀ transfer ∈ w.transfer, transfer.pending ≠ [] → faults.sync = false →
      w.Aligned
  | .receive encoded due faults => ∀ file ∈ w.file, ∀ transfer ∈ w.transfer,
      ∀ frame plaintext, AttachmentBlockFrame.decode encoded = .ok frame →
        frame.blockIndex ∉ transfer.journal.durable → frame.decrypt c m key = .ok plaintext →
        ((w.Recorded c key frame.blockIndex ∨ faults.write ≠ none ∧
            ∃ block ∈ transfer.pending, block.index = frame.blockIndex) →
          HasAt file.content (m.offset frame.blockIndex) plaintext) ∧
        (faults.write = none →
          journalCheckpointBytes ≤ transfer.pendingBytes + plaintext.length ∨ due = true →
          faults.sync = false → w.Aligned)

/-- The journal can be read, and each of its blocks is in the file, those known to the transfer among
them. -/
def Stored (w : World) : Prop :=
  ∃ durable, (TransferJournal.openJournal c key w.bytes).1 = .ok ⟨durable⟩ ∧
    (∀ transfer ∈ w.transfer, transfer.journal.durable ⊆ durable) ∧
    ∀ index ∈ durable, ∃ file ∈ w.file, Present c m key file.content index

/-- The durable blocks and the pending ones of a transfer, if there is one. -/
def known (running : Option PartialTransfer) : Finset UInt32 :=
  (running.map fun transfer => transfer.journal.durable).getD ∅

def waiting (running : Option PartialTransfer) : List Block :=
  (running.map PartialTransfer.pending).getD []

/-- Nothing has happened yet, or there is a file and what is written down about it is safe. -/
def Inv (w : World) : Prop :=
  w = initial ∨ ∃ file, w.file = some file ∧
    Safe c m key file w.bytes (known w.transfer) (waiting w.transfer)

variable {c m key} {w : World}

theorem Inv.stored (h : Inv c m key w) : w.Stored c m key := by
  rcases h with rfl | ⟨file, hfile, hsafe⟩
  · have hempty : TransferJournal.openJournal c key initial.bytes = (.ok ⟨∅⟩, []) :=
      holds_nil.openJournal
    refine ⟨∅, by rw [hempty], fun transfer htransfer => ?_, fun index hindex => ?_⟩
    · cases htransfer
    · exact absurd hindex (Finset.notMem_empty index)
  obtain ⟨blocks, torn, hholds, hdurable, hsecured⟩ := hsafe.journal
  refine ⟨indexes blocks, by rw [hholds.openJournal], fun transfer htransfer => ?_,
    fun index hindex => ⟨file, hfile, (hsecured index hindex).present⟩⟩
  have hknown : known w.transfer = transfer.journal.durable := by
    rw [Option.mem_def.mp htransfer]
    rfl
  rwa [← hknown]

theorem Recorded.of_holds {torn : Bytes} (hholds : Holds c key w.bytes blocks torn)
    (hindex : index ∈ indexes blocks) : w.Recorded c key index :=
  ⟨⟨indexes blocks⟩, by rw [hholds.openJournal], hindex⟩

theorem Safe.mono {file' : DiskFile UInt8} {torn : Bytes} (hholds : Holds c key bytes blocks torn)
    (hsecured : ∀ index ∈ indexes blocks, Secured c m key file index)
    (hkeeps : ∀ index ∈ indexes blocks, Secured c m key file index → Secured c m key file' index) :
    Safe c m key file' bytes ∅ [] :=
  ⟨⟨blocks, torn, hholds, Finset.empty_subset _, fun index hindex =>
    hkeeps index hindex (hsecured index hindex)⟩, fun _ hb => nomatch hb⟩

theorem Secured.setLen (h : Secured c m key file index) :
    Secured c m key (file.setLen 0 m.sizeBytes) index := by
  obtain ⟨plaintext, hauthentic, hkept⟩ := h
  exact ⟨plaintext, hauthentic, hkept.setLen hauthentic.fits.2.1⟩

theorem Secured.crash (h : Secured c m key file index) (choose : ℕ → Option ℕ) (rest : Bytes) :
    Secured c m key (file.crash choose rest) index := by
  obtain ⟨plaintext, hauthentic, hkept⟩ := h
  exact ⟨plaintext, hauthentic, hkept.crash choose rest⟩

theorem Inv.found (h : Inv c m key w) : ∃ blocks torn, Holds c key w.bytes blocks torn ∧
    ∀ index ∈ indexes blocks, Secured c m key (w.file.getD DiskFile.empty) index := by
  rcases h with rfl | ⟨file, hfile, hsafe⟩
  · exact ⟨[], [], holds_nil, fun index hindex => absurd hindex (Finset.notMem_empty index)⟩
  obtain ⟨blocks, torn, hholds, -, hsecured⟩ := hsafe.journal
  refine ⟨blocks, torn, hholds, ?_⟩
  rw [hfile]
  exact hsecured

theorem Inv.openTransfer (h : Inv c m key w) : Inv c m key (w.openTransfer c m key).2 := by
  unfold World.openTransfer
  split
  · rcases h with rfl | ⟨file, hfile, hsafe⟩
    · exact .inl rfl
    · obtain ⟨blocks, torn, hholds, -, hsecured⟩ := hsafe.journal
      exact .inr ⟨file, hfile, Safe.mono hholds hsecured fun _ _ h => h⟩
  obtain ⟨blocks, torn, hholds, hsecured⟩ := h.found
  simp only [hholds.openJournal]
  have hwhole : Holds c key (blocks.map (Block.record c key)).flatten blocks [] :=
    ⟨by rw [append_nil], by decide⟩
  refine .inr ⟨_, rfl, ⟨blocks, [], hwhole, Finset.Subset.refl _, fun index hindex => ?_⟩,
    fun _ hb => nomatch hb⟩
  exact Secured.setLen (hsecured index hindex)

theorem Inv.crash (h : Inv c m key w) (choose : ℕ → Option ℕ) (rest : Bytes) :
    Inv c m key (w.step c m key (.crash choose rest)) := by
  rcases h with rfl | ⟨file, hfile, hsafe⟩
  · exact .inl rfl
  obtain ⟨blocks, torn, hholds, -, hsecured⟩ := hsafe.journal
  refine .inr ⟨file.crash choose rest, ?_, Safe.mono hholds hsecured fun index _ hold =>
    Secured.crash hold choose rest⟩
  show w.file.map _ = _
  rw [hfile]
  rfl

/-- **A block is received safely**, with the checkpoint that it may be followed by. -/
theorem Safe.receive {encoded : Bytes} {due : Bool}
    (h : Safe c m key file w.bytes transfer.journal.durable transfer.pending)
    (hcareful : ∀ frame plaintext, AttachmentBlockFrame.decode encoded = .ok frame →
      frame.blockIndex ∉ transfer.journal.durable → frame.decrypt c m key = .ok plaintext →
      ((w.Recorded c key frame.blockIndex ∨ faults.write ≠ none ∧
          ∃ block ∈ transfer.pending, block.index = frame.blockIndex) →
        HasAt file.content (m.offset frame.blockIndex) plaintext) ∧
      (faults.write = none →
        journalCheckpointBytes ≤ transfer.pendingBytes + plaintext.length ∨ due = true →
        faults.sync = false → w.Aligned)) :
    let after := transfer.receiveEncodedBlock c m key file w.bytes encoded due faults
    Safe c m key after.2.1 after.2.2.1 after.2.2.2.journal.durable after.2.2.2.pending := by
  unfold PartialTransfer.receiveEncodedBlock
  split
  · exact h
  next frame hdecode =>
  split
  · exact h
  next hnew =>
  split
  · exact h
  next plaintext hdecrypt =>
  obtain ⟨hplace, haligned⟩ := hcareful frame plaintext hdecode hnew hdecrypt
  have hwritten := Safe.writeBlock h ⟨encoded, frame, hdecode, rfl, hdecrypt⟩
    (fun blocks torn hholds hindex => hplace (.inl (Recorded.of_holds hholds hindex)))
    (fun (hfault : faults.write ≠ none) hpending => hplace (.inr ⟨hfault, hpending⟩))
  split
  · next hwrite =>
    rw [hwrite] at hwritten
    exact hwritten
  next file' transfer' hwrite =>
  rw [hwrite] at hwritten
  split
  swap
  · exact hwritten
  next hdue =>
  -- a checkpoint follows, so the write did not fail
  have hok : faults.write = none ∧ transfer'.pendingBytes =
      transfer.pendingBytes + plaintext.length := by
    cases hfault : faults.write with
    | none =>
      rw [hfault] at hwrite
      cases hwrite
      exact ⟨rfl, rfl⟩
    | some written =>
      rw [hfault] at hwrite
      cases hwrite
  rw [hok.2, Bool.or_eq_true, decide_eq_true_eq] at hdue
  have haligned' : faults.sync = false → w.Aligned := haligned hok.1 hdue
  have hchecked := Safe.checkpoint hwritten fun _ => haligned'
  split
  · next hcheckpoint =>
    rw [hcheckpoint] at hchecked
    exact hchecked
  next hcheckpoint =>
  rw [hcheckpoint] at hchecked
  exact hchecked

theorem Inv.step (h : Inv c m key w) (act : Act) (hcareful : w.Careful c m key act) :
    Inv c m key (w.step c m key act) := by
  cases act with
  | openTransfer => exact h.openTransfer
  | crash choose rest => exact h.crash choose rest
  | checkpoint faults =>
    rcases h with rfl | ⟨file, hfile, hsafe⟩
    · exact .inl rfl
    unfold World.step
    cases htransfer : w.transfer with
    | none =>
      rw [hfile]
      exact .inr ⟨file, hfile, hsafe⟩
    | some transfer =>
      rw [hfile]
      rw [htransfer] at hsafe
      exact .inr ⟨_, rfl, Safe.checkpoint hsafe (hcareful transfer htransfer)⟩
  | receive encoded due faults =>
    rcases h with rfl | ⟨file, hfile, hsafe⟩
    · exact .inl rfl
    unfold World.step
    cases htransfer : w.transfer with
    | none =>
      rw [hfile]
      exact .inr ⟨file, hfile, hsafe⟩
    | some transfer =>
      rw [hfile]
      rw [htransfer] at hsafe
      exact .inr ⟨_, rfl, Safe.receive hsafe fun frame plaintext hdecode hnew hdecrypt =>
        hcareful file hfile transfer htransfer frame plaintext hdecode hnew hdecrypt⟩

theorem stored_of_careful {acts : List Act}
    (h : (machine c m key).Along (Careful c m key) initial acts) :
    ((machine c m key).run initial acts).Stored c m key := by
  apply Inv.stored
  exact Machine.run_induction_along (fun w act hinv hcareful => hinv.step act hcareful)
    (.inl rfl) h

theorem sha256_of_finalize {faults : Faults} {fails : Bool} {published : Bytes}
    (h : w.finalize c m key faults fails = .ok published) : c.sha256 published = m.wholeSha256 := by
  unfold finalize at h
  split at h
  swap
  · cases h
  split at h
  · cases h
  split at h
  · cases h
  split at h
  · cases h
  next hhash =>
  split at h
  · cases h
  · cases h
    exact not_not.mp hhash

end World

/-- **Torn appends.** A journal that is never appended to behind part of a record is recovered in every
state of its runs. In every state of a careful run of a transfer the blocks of the journal are in the
file, and what is published has the hash of the manifest. -/
theorem journal_survives (c : Crypto) (m : TransferManifest) (key : Digest) :
    (∀ acts, (JournalState.machine c key).Along JournalState.Aligned JournalState.initial acts →
      ((JournalState.machine c key).run JournalState.initial acts).Recovers c key) ∧
    ∀ acts, (World.machine c m key).Along (World.Careful c m key) World.initial acts →
      ((World.machine c m key).run World.initial acts).Stored c m key ∧
      ∀ faults fails published,
        ((World.machine c m key).run World.initial acts).finalize c m key faults fails =
          .ok published → c.sha256 published = m.wholeSha256 :=
  ⟨fun _ h => JournalState.recovers_of_aligned h, fun _ h =>
    ⟨World.stored_of_careful h, fun _ _ _ => World.sha256_of_finalize⟩⟩

namespace Sample

def zeros : Digest := ⟨List.replicate 32 0, rfl⟩

def strip (ciphertext : Bytes) : Option Bytes :=
  if ciphertext.length < aeadTagLen then none
  else some (ciphertext.take (ciphertext.length - aeadTagLen))

theorem strip_length {ciphertext plaintext : Bytes} (h : strip ciphertext = some plaintext) :
    plaintext.length + aeadTagLen = ciphertext.length := by
  unfold strip at h
  split at h
  · cases h
  · cases h
    rw [length_take]
    omega

def crypto : Crypto where
  sha256 _ := zeros
  hmacSha256 _ _ := zeros
  decryptWith _ _ ciphertext _ := strip ciphertext
  decryptWith_length := strip_length

def manifest : TransferManifest where
  protocolVersion := 2
  transferId := "t"
  messageId := "m"
  albumId := none
  presentation := .file
  fileName := "f"
  mimeType := "m"
  mediaMetadata := none
  thumbnail := []
  sizeBytes := 3
  blockSize := attachmentBlockSize
  blockCount := 1
  wholeSha256 := zeros
  noncePrefix := List.replicate 16 0

def block (index : UInt32) : Block := ⟨index, 3, zeros⟩

def goesOn : List JournalAct := [.reopen, .append (block 0) (some 3), .append (block 1) none]

def startsOver : List JournalAct :=
  [.reopen, .append (block 0) (some 3), .reopen, .append (block 1) none]

/-- **A torn append** that is followed by a complete one: the journal cannot be opened any more. -/
theorem torn_append_buried :
    ((JournalState.machine crypto zeros).run JournalState.initial goesOn).acknowledged = {1} ∧
    ((TransferJournal.openJournal crypto zeros
      ((JournalState.machine crypto zeros).run JournalState.initial goesOn).bytes).1 =
        .error (.bail "transfer journal has an unsupported record")) :=
  ⟨by decide, rfl⟩

def encoded : Bytes :=
  frameMagic ++ [0, 2, 0, 0] ++ List.replicate 8 0 ++ [0, 0, 0, 0] ++ [0, 0, 0, 3] ++ zeros.1 ++
    [7, 8, 9] ++ List.replicate 16 0

def noFaults : Faults := ⟨none, false, []⟩

def received : List World.Act :=
  [.openTransfer, .receive encoded false noFaults, .checkpoint noFaults, .crash (fun _ => none) []]

theorem aligned_startsOver :
    (JournalState.machine crypto zeros).Along JournalState.Aligned JournalState.initial startsOver := by
  refine ⟨trivial, fun _ _ _ => ?_, trivial, fun _ _ _ => ?_, trivial⟩ <;> decide

theorem careful_received :
    (World.machine crypto manifest zeros).Along (World.Careful crypto manifest zeros)
      World.initial received := by
  refine ⟨trivial, ?_, fun _ _ _ _ => rfl, trivial, trivial⟩
  intro file _ transfer _ frame plaintext _ _ _
  refine ⟨?_, fun _ _ _ => rfl⟩
  rintro (⟨journal, hopen, hmem⟩ | ⟨hfault, -⟩)
  · -- nothing is recorded yet
    have hnone : TransferJournal.openJournal crypto zeros [] = (.ok ⟨∅⟩, []) := holds_nil.openJournal
    have hjournal : (⟨∅⟩ : TransferJournal) = journal := by
      have hempty := congrArg Prod.fst hnone
      exact Except.ok.inj (hempty.symm.trans hopen)
    rw [← hjournal] at hmem
    exact absurd hmem (Finset.notMem_empty _)
  · exact absurd rfl hfault

theorem journal_survives_startsOver :
    ((JournalState.machine crypto zeros).run JournalState.initial startsOver).Recovers crypto zeros ∧
    ((World.machine crypto manifest zeros).run World.initial received).Stored crypto manifest zeros :=
  ⟨(journal_survives crypto manifest zeros).1 startsOver aligned_startsOver,
   ((journal_survives crypto manifest zeros).2 received careful_received).1⟩

end Sample

end Transfer
end Conest
