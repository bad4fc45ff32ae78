import Conest.Lib.Machine
import Conest.Lib.Records
import Conest.Transfer.Manifest

/-!
# The journal of a transfer

A `TransferJournal` is a file of records of eighty bytes, one for each block that is safe, each with
a tag. Opening it drops what is torn at its end and reads the rest. An append can fail after any part
of its record; the bytes that were written stay, and so does what a crash cuts off.

The file holds whole records and then part of one (`Holds`). As long as nothing is
appended behind part of a record, this stays so, and opening the journal gives the blocks of the
records (`recovers_of_aligned`).
-/

namespace Conest
namespace Transfer

open Lib List Option

/-- `CAJ2`. -/
def journalMagic : Bytes := [0x43, 0x41, 0x4a, 0x32]

def journalRecordLen : ℕ := 4 + 2 + 2 + 4 + 4 + 32 + 32

/-- What a record says: the block, its length and its hash. -/
structure Block where
  index : UInt32
  length : UInt32
  digest : Digest

variable (c : Crypto) (key : Digest)

/-- The part of a record that the tag is about. -/
def Block.tagged (block : Block) : Bytes :=
  journalMagic ++ (bigEndian 2 attachmentProtocolVersion ++ (bigEndian 2 0 ++
    (bigEndian 4 block.index.toNat ++ (bigEndian 4 block.length.toNat ++ block.digest.1))))

def Block.record (block : Block) : Bytes := block.tagged ++ (c.hmacSha256 key block.tagged).1

/-- Reads one record. -/
def readRecord (record : Bytes) : Except Failure UInt32 :=
  let front := record.take (journalRecordLen - 32)
  if front.take 4 ≠ journalMagic ∨
      ofBigEndian ((front.drop 4).take 2) ≠ attachmentProtocolVersion then
    .error (.bail "transfer journal has an unsupported record")
  else if (c.hmacSha256 key front).1 ≠ record.drop (journalRecordLen - 32) then
    .error (.bail "transfer journal authentication failed")
  else .ok (UInt32.ofNat (ofBigEndian ((front.drop 8).take 4)))

def readRecords (durable : Finset UInt32) : List Bytes → Except Failure (Finset UInt32)
  | [] => .ok durable
  | record :: records =>
    match readRecord c key record with
    | .error failure => .error failure
    | .ok index => readRecords (insert index durable) records

/-- The file is empty where there is none. What is left of it after reading comes second. -/
def loadJournalRecords (bytes : Bytes) : Except Failure (Finset UInt32) × Bytes :=
  let whole := bytes.take (Records.count journalRecordLen bytes * journalRecordLen)
  (readRecords c key ∅ (Records.chunks journalRecordLen (Records.count journalRecordLen bytes) whole),
   whole)

structure TransferJournal where
  durable : Finset UInt32

namespace TransferJournal

def openJournal (bytes : Bytes) : Except Failure TransferJournal × Bytes :=
  let (durable, bytes) := loadJournalRecords c key bytes
  (durable.map TransferJournal.mk, bytes)

/-- Appends to the file `bytes`. A `fault` is how much of the record is written before the append
fails. -/
def append (journal : TransferJournal) (bytes : Bytes) (block : Block) (fault : Option ℕ) :
    Except Failure Unit × TransferJournal × Bytes :=
  if block.index ∈ journal.durable then (.ok (), journal, bytes)
  else
    match fault with
    | some written => (.error .io, journal, bytes ++ (block.record c key).take written)
    | none => (.ok (), ⟨insert block.index journal.durable⟩, bytes ++ block.record c key)

end TransferJournal

/-! ### Reading what was written -/

section Reading

variable {c key} {block : Block} {blocks : List Block} {bytes torn : Bytes}

theorem Block.length_tagged (block : Block) : block.tagged.length = journalRecordLen - 32 := by
  unfold tagged
  simp only [length_append, bigEndian_length, block.digest.2]
  rfl

theorem Block.length_record (block : Block) : (block.record c key).length = journalRecordLen := by
  unfold record
  rw [length_append, block.length_tagged, (c.hmacSha256 key block.tagged).2]
  rfl

theorem readRecord_record (block : Block) : readRecord c key (block.record c key) = .ok block.index := by
  have htake : (block.record c key).take (journalRecordLen - 32) = block.tagged :=
    take_left' block.length_tagged
  have hdrop : (block.record c key).drop (journalRecordLen - 32) =
      (c.hmacSha256 key block.tagged).1 := drop_left' block.length_tagged
  have hindex : (block.tagged.drop 8).take 4 = bigEndian 4 block.index.toNat := by
    show ((bigEndian 4 block.index.toNat ++ _) : Bytes).take 4 = _
    exact take_left' (bigEndian_length 4 _)
  have hvalue : UInt32.ofNat (ofBigEndian (bigEndian 4 block.index.toNat)) = block.index := by
    have hlt : block.index.toNat < 256 ^ 4 := block.index.toNat_lt
    rw [ofBigEndian_bigEndian, Nat.mod_eq_of_lt hlt, UInt32.ofNat_toNat]
  have hmagic : block.tagged.take 4 = journalMagic := take_left' rfl
  have hversion : ofBigEndian ((block.tagged.drop 4).take 2) = attachmentProtocolVersion := by
    have hdrop4 : block.tagged.drop 4 = _ := drop_left' (show journalMagic.length = 4 from rfl)
    rw [hdrop4, take_left' (bigEndian_length 2 _)]
    rfl
  unfold readRecord
  simp only [htake, hdrop]
  rw [if_neg, if_neg (not_not.mpr rfl), hindex, hvalue]
  rintro (hbad | hbad)
  · exact hbad hmagic
  · exact hbad hversion

theorem readRecords_records (durable : Finset UInt32) (blocks : List Block) :
    readRecords c key durable (blocks.map (Block.record c key)) =
      .ok (durable ∪ (blocks.map Block.index).toFinset) := by
  induction blocks generalizing durable with
  | nil => simp [readRecords]
  | cons block blocks ih =>
  rw [map_cons, readRecords, readRecord_record]
  show readRecords c key (insert block.index durable) _ = _
  rw [ih]
  congr 1
  ext index
  simp only [Finset.mem_union, Finset.mem_insert, map_cons, toFinset_cons]
  tauto

/-- The file is the records of the blocks and part of one more. -/
structure Holds (c : Crypto) (key : Digest) (bytes : Bytes) (blocks : List Block) (torn : Bytes) :
    Prop where
  eq : bytes = (blocks.map (Block.record c key)).flatten ++ torn
  torn : torn.length < journalRecordLen

/-- The indexes of blocks. -/
def indexes (blocks : List Block) : Finset UInt32 := (blocks.map Block.index).toFinset

theorem mem_indexes {index : UInt32} :
    index ∈ indexes blocks ↔ ∃ block ∈ blocks, block.index = index := by
  unfold indexes
  rw [List.mem_toFinset, List.mem_map]

theorem indexes_append (blocks : List Block) (block : Block) :
    indexes (blocks ++ [block]) = insert block.index (indexes blocks) := by
  ext index
  simp [indexes]

theorem holds_nil : Holds c key [] [] [] := ⟨rfl, by decide⟩

theorem records_length : ∀ r ∈ blocks.map (Block.record c key), r.length = journalRecordLen := by
  intro r hr
  obtain ⟨block, -, rfl⟩ := mem_map.mp hr
  exact block.length_record

/-- **Opening the journal** gives the blocks of the whole records and drops the rest. -/
theorem Holds.openJournal (h : Holds c key bytes blocks torn) :
    TransferJournal.openJournal c key bytes = (.ok ⟨indexes blocks⟩,
      (blocks.map (Block.record c key)).flatten) := by
  have hcount : Records.count journalRecordLen bytes = blocks.length := by
    rw [h.eq, Records.count_append records_length h.torn, length_map]
  have hwhole : bytes.take (blocks.length * journalRecordLen) =
      (blocks.map (Block.record c key)).flatten := by
    rw [h.eq, take_left']
    rw [Records.length_flatten records_length, length_map]
  have hchunks : Records.chunks journalRecordLen blocks.length
      (blocks.map (Block.record c key)).flatten = blocks.map (Block.record c key) := by
    have hread := @Records.chunks_append _ _ _ [] (@records_length c key blocks)
    rw [length_map, append_nil] at hread
    exact hread
  unfold TransferJournal.openJournal loadJournalRecords
  simp only [hcount, hwhole, hchunks, readRecords_records, Finset.empty_union]
  rfl

theorem Holds.append (h : Holds c key bytes blocks []) (block : Block) (written : ℕ) :
    ∃ blocks' torn', Holds c key (bytes ++ (block.record c key).take written) blocks' torn' ∧
      (blocks' = blocks ∨ blocks' = blocks ++ [block]) := by
  have heq := h.eq
  rw [append_nil] at heq
  rcases Nat.lt_or_ge written journalRecordLen with hpart | hall
  · refine ⟨blocks, (block.record c key).take written, ⟨by rw [heq], ?_⟩, .inl rfl⟩
    exact (length_take_le _ _).trans_lt hpart
  · refine ⟨blocks ++ [block], [], ⟨?_, by decide⟩, .inr rfl⟩
    rw [take_of_length_le (block.length_record.trans_le hall), heq]
    simp

theorem Holds.append_all (h : Holds c key bytes blocks []) (block : Block) :
    Holds c key (bytes ++ block.record c key) (blocks ++ [block]) [] := by
  refine ⟨?_, by decide⟩
  rw [h.eq]
  simp

theorem Holds.torn_eq_nil (h : Holds c key bytes blocks torn)
    (hlength : bytes.length % journalRecordLen = 0) : torn = [] := by
  have htorn := h.torn
  rw [h.eq, length_append, Records.length_flatten records_length, Nat.add_comm,
    Nat.add_mul_mod_self_right, Nat.mod_eq_of_lt htorn] at hlength
  exact length_eq_zero_iff.mp hlength

end Reading

/-! ### Runs of one journal -/

/-- A journal and its file, with the blocks whose append was called and those whose append returned
`Ok`. -/
structure JournalState where
  bytes : Bytes
  journal : Option TransferJournal
  called : Finset UInt32
  acknowledged : Finset UInt32

inductive JournalAct where
  | append (block : Block) (fault : Option ℕ)
  /-- The journal is opened, again or after a crash. -/
  | reopen

namespace JournalState

variable {s : JournalState}

def initial : JournalState := ⟨[], none, ∅, ∅⟩

def step (s : JournalState) : JournalAct → JournalState
  | .reopen =>
    let (result, bytes) := TransferJournal.openJournal c key s.bytes
    { s with bytes, journal := result.toOption }
  | .append block fault =>
    match s.journal with
    | none => s
    | some journal =>
      let (result, journal, bytes) := journal.append c key s.bytes block fault
      { bytes
        journal := some journal
        called := insert block.index s.called
        acknowledged := match result with
          | .ok () => insert block.index s.acknowledged
          | .error _ => s.acknowledged }

def machine : Machine JournalState JournalAct Unit := ⟨fun s act => (s.step c key act, ())⟩

/-- Opening the journal gives what was acknowledged, and nothing that was not appended. -/
def Recovers (s : JournalState) : Prop :=
  ∃ durable, (TransferJournal.openJournal c key s.bytes).1 = .ok ⟨durable⟩ ∧
    s.acknowledged ⊆ durable ∧ durable ⊆ s.called

/-- A block is appended at the end of a record, not behind part of one. -/
def Aligned (s : JournalState) : JournalAct → Prop
  | .reopen => True
  | .append block _ => ∀ journal ∈ s.journal, block.index ∉ journal.durable →
      s.bytes.length % journalRecordLen = 0

/-- The records are those of appended blocks, and include the acknowledged ones. -/
structure Inv (s : JournalState) : Prop where
  holds : ∃ blocks torn, Holds c key s.bytes blocks torn ∧ s.acknowledged ⊆ indexes blocks ∧
    indexes blocks ⊆ s.called ∧ ∀ journal ∈ s.journal, journal.durable ⊆ indexes blocks

variable {c key}

theorem inv_initial : Inv c key initial :=
  ⟨[], [], holds_nil, Finset.empty_subset _, Finset.empty_subset _, fun _ h => nomatch h⟩

theorem Inv.recovers (h : Inv c key s) : s.Recovers c key := by
  obtain ⟨blocks, torn, hholds, hacknowledged, hcalled, -⟩ := h.holds
  refine ⟨indexes blocks, ?_, hacknowledged, hcalled⟩
  rw [hholds.openJournal]

theorem Inv.reopen (h : Inv c key s) : Inv c key (s.step c key .reopen) := by
  obtain ⟨blocks, torn, hholds, hacknowledged, hcalled, -⟩ := h.holds
  unfold step
  simp only [hholds.openJournal]
  refine ⟨blocks, [], ⟨by rw [append_nil], by decide⟩, hacknowledged, hcalled, ?_⟩
  rintro journal hjournal
  obtain rfl : (⟨indexes blocks⟩ : TransferJournal) = journal := some.inj hjournal
  exact Finset.Subset.refl _

theorem Inv.append {block : Block} {fault : Option ℕ} (h : Inv c key s)
    (haligned : s.Aligned (.append block fault)) :
    Inv c key (s.step c key (.append block fault)) := by
  obtain ⟨blocks, torn, hholds, hacknowledged, hcalled, hdurable⟩ := h.holds
  unfold step
  cases hjournal : s.journal with
  | none => exact h
  | some journal =>
  have hknown := hdurable journal hjournal
  unfold TransferJournal.append
  by_cases hmem : block.index ∈ journal.durable
  · -- nothing is written
    simp only [if_pos hmem]
    refine ⟨blocks, torn, hholds, ?_, hcalled.trans (Finset.subset_insert _ _), ?_⟩
    · exact Finset.insert_subset (hknown hmem) hacknowledged
    · rintro journal' hjournal'
      rw [← some.inj hjournal']
      exact hknown
  simp only [if_neg hmem]
  obtain rfl := hholds.torn_eq_nil (haligned journal hjournal hmem)
  have hmore : indexes blocks ⊆ indexes (blocks ++ [block]) := by
    rw [indexes_append]
    exact Finset.subset_insert _ _
  have hcalled' : indexes (blocks ++ [block]) ⊆ insert block.index s.called := by
    rw [indexes_append]
    exact Finset.insert_subset_insert _ hcalled
  cases fault with
  | none =>
    refine ⟨blocks ++ [block], [], hholds.append_all block, ?_, hcalled', ?_⟩
    · rw [indexes_append]
      exact Finset.insert_subset_insert _ hacknowledged
    · rintro journal' hjournal'
      rw [← some.inj hjournal', indexes_append]
      exact Finset.insert_subset_insert _ hknown
  | some written =>
  obtain ⟨blocks', torn', hholds', hblocks'⟩ := hholds.append block written
  have hle : indexes blocks ⊆ indexes blocks' := by
    rcases hblocks' with rfl | rfl
    · exact Finset.Subset.refl _
    · exact hmore
  have hge : indexes blocks' ⊆ insert block.index s.called := by
    rcases hblocks' with rfl | rfl
    · exact hcalled.trans (Finset.subset_insert _ _)
    · exact hcalled'
  refine ⟨blocks', torn', hholds', hacknowledged.trans hle, hge, ?_⟩
  rintro journal' hjournal'
  rw [← some.inj hjournal']
  exact hknown.trans hle

/-- **A journal is recovered** in every state of a run that never appends behind part of a record. -/
theorem recovers_of_aligned {acts : List JournalAct}
    (h : (machine c key).Along Aligned initial acts) :
    ((machine c key).run initial acts).Recovers c key := by
  apply Inv.recovers
  refine Machine.run_induction_along (fun s act hinv haligned => ?_) inv_initial h
  cases act with
  | reopen => exact hinv.reopen
  | append block fault => exact hinv.append haligned

end JournalState

end Transfer
end Conest
