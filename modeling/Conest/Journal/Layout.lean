import Conest.Journal.Worker

/-!
# What the file of a journal holds

`Stored` is an event with the text and the nonce that its frame was made from, and `layout` the
bytes of a list of them, one frame after another. `Reads` ties a worker to such a list: the file up
to the end is the header and the layout, the indexes describe the entries, and each offset is that
of its frame. `Holds` adds that the file ends there.

A worker that holds `rs` is determined by it (`Holds.unique`) and reads back every entry it has
(`Holds.readEntry`). An append that succeeds adds one to the list (`Holds.of_append`), an event that
is good by itself and conflicts with none is appended (`Holds.append`), and the frames of a file are
read back whatever tears the last one (`scan_layout`).
-/

namespace Conest
namespace Journal

open Lib Conest.Group List Option

/-! ### Numbers in bytes -/

variable {file torn : Bytes}

theorem getUint32_setUint32 {n : ℕ} (hn : n < 2 ^ 32) : getUint32 (setUint32 n) = n := by
  unfold setUint32 getUint32
  simp only [UInt8.toNat_ofNat']
  omega

theorem setUint32_length (n : ℕ) : (setUint32 n).length = 4 := rfl

/-! ### Stored events -/

/-- An event in the journal, with the text and the nonce of its frame. -/
structure Stored where
  event : GroupHistoryEvent
  nonce : Nonce
  clear : Bytes

namespace Stored

/-- The size of the frame: the nonce, the sealed text and the code. -/
def size (r : Stored) : ℕ := r.clear.length + 28

def entry (r : Stored) : Entry := ⟨r.event, r.size⟩

/-- The event is good by itself: its text decodes to it, it is signed, and it can be indexed. -/
structure Good (env : Env) (r : Stored) : Prop where
  decodes : env.decodeEvent r.clear = .ok r.event
  signed : env.checkSignature r.event = .ok ()
  searchable : ∃ target, searchTarget r.event = .ok target

variable {env : Env} {r : Stored}

theorem Good.size_le (h : r.Good env) : r.size ≤ maxFrame := by
  have hdecodes := h.decodes
  unfold Env.decodeEvent Codec.decode at hdecodes
  split at hdecodes
  · cases hdecodes
  next hle => exact Nat.add_le_add_right (Nat.not_lt.mp hle) 28

theorem Good.groupId_eq (h : r.Good env) : r.event.groupId = env.groupId := by
  have hsigned := h.signed
  unfold Env.checkSignature at hsigned
  split at hsigned
  · cases hsigned
  next hnot =>
  by_contra hne
  exact hnot (.inl hne)

end Stored

variable {env : Env}

theorem sealFrame_length (nonce : Nonce) (offset : ℕ) (clear : Bytes) :
    (env.sealFrame nonce offset clear).length = clear.length + 28 := by
  unfold Env.sealFrame
  rw [length_append, length_append, nonce.length_eq, env.aead.cipher_length,
    env.aead.mac_length]
  omega

/-- **A frame opens to the event that was sealed in it**, at the offset it was sealed for. -/
theorem decodeFrame_sealFrame {clear : Bytes} {event : GroupHistoryEvent}
    (hdecodes : env.decodeEvent clear = .ok event) (hgroup : event.groupId = env.groupId)
    (nonce : Nonce) (offset : ℕ) :
    env.decodeFrame (env.sealFrame nonce offset clear) offset = .ok event := by
  have hlength : (env.sealFrame nonce offset clear).length = clear.length + 28 :=
    sealFrame_length nonce offset clear
  have hcipher := env.aead.cipher_length nonce.bytes (env.aad offset) clear
  -- the three parts of the frame
  have hnonce : (env.sealFrame nonce offset clear).take 12 = nonce.bytes := by
    unfold Env.sealFrame
    rw [append_assoc]
    exact take_left' nonce.length_eq
  have hrest : (env.sealFrame nonce offset clear).drop 12 =
      (env.aead.encrypt nonce.bytes (env.aad offset) clear).1 ++
        (env.aead.encrypt nonce.bytes (env.aad offset) clear).2 := by
    unfold Env.sealFrame
    rw [append_assoc]
    exact drop_left' nonce.length_eq
  have hmac : (env.sealFrame nonce offset clear).drop (clear.length + 12) =
      (env.aead.encrypt nonce.bytes (env.aad offset) clear).2 := by
    rw [Nat.add_comm, ← drop_drop, hrest]
    exact drop_left' hcipher
  unfold Env.decodeFrame
  rw [hlength, hnonce, hrest, Nat.add_sub_cancel, take_left' hcipher,
    show clear.length + 28 - 16 = clear.length + 12 by omega, hmac,
    env.aead.decrypt_encrypt]
  simp only [hdecodes]
  exact if_neg (not_not_intro hgroup)

/-- The bytes of a frame that stands at an offset. -/
def frameBytes (env : Env) (offset : ℕ) (r : Stored) : Bytes :=
  setUint32 r.size ++ env.sealFrame r.nonce offset r.clear

theorem frameBytes_length (offset : ℕ) (r : Stored) :
    (frameBytes env offset r).length = 4 + r.size := by
  unfold frameBytes
  rw [length_append, sealFrame_length]
  rfl

/-- The bytes of all frames, the first one at `offset`. -/
def layout (env : Env) : ℕ → List Stored → Bytes
  | _, [] => []
  | offset, r :: rs => frameBytes env offset r ++ layout env (offset + (4 + r.size)) rs

/-- How many bytes the frames take. -/
def total (rs : List Stored) : ℕ := (rs.map fun r => 4 + r.size).sum

theorem total_append (rs rs' : List Stored) : total (rs ++ rs') = total rs + total rs' := by
  unfold total
  rw [map_append, sum_append]

theorem total_cons (r : Stored) (rs : List Stored) : total (r :: rs) = 4 + r.size + total rs := by
  unfold total
  rw [map_cons, sum_cons]

theorem layout_append (offset : ℕ) (rs rs' : List Stored) :
    layout env offset (rs ++ rs') = layout env offset rs ++ layout env (offset + total rs) rs' := by
  induction rs generalizing offset with
  | nil => rfl
  | cons r rs ih =>
    rw [cons_append, layout, layout, ih, append_assoc, total_cons, Nat.add_assoc]

theorem layout_length (offset : ℕ) (rs : List Stored) :
    (layout env offset rs).length = total rs := by
  induction rs generalizing offset with
  | nil => rfl
  | cons r rs ih => rw [layout, length_append, frameBytes_length, ih, total_cons]

/-! ### Workers and what they hold -/

/-- The worker has read the frames of `rs`, and nothing else. -/
structure Reads (env : Env) (w : Worker) (rs : List Stored) : Prop where
  file_take : w.file.take w.endOffset = magic ++ layout env magic.length rs
  end_eq : w.endOffset = magic.length + total rs
  describes : w.index.Describes env.text (rs.map Stored.entry)
  good : ∀ r ∈ rs, r.Good env
  compatible : (rs.map Stored.entry).Pairwise Index.Compatible
  offsets_iff : ∀ id offset, w.offsets.get id = some offset ↔
    ∃ before r after, rs = before ++ r :: after ∧ r.event.eventId = id ∧
      offset = magic.length + total before
  healthy : w.poisoned = false

/-- The worker has read the frames of `rs`, and the file ends there. -/
structure Holds (env : Env) (w : Worker) (rs : List Stored) : Prop extends Reads env w rs where
  file_end : w.file.length = w.endOffset

variable {w w' : Worker} {rs rs' : List Stored} {r : Stored}

theorem Holds.file_eq (h : Holds env w rs) : w.file = magic ++ layout env magic.length rs := by
  rw [← h.file_take, ← h.file_end, take_length]

theorem Reads.afterHeader (env : Env) (hmagic : file.take magic.length = magic) :
    Reads env (Worker.afterHeader file) [] where
  file_take := by
    change file.take magic.length = magic ++ []
    rw [hmagic, append_nil]
  end_eq := rfl
  describes := Index.Describes.initial env.text
  good := by intro r hr; cases hr
  compatible := List.Pairwise.nil
  offsets_iff := by
    intro id offset
    constructor
    · intro hget
      cases hget
    · rintro ⟨before, r, after, hsplit, -⟩
      exact absurd hsplit.symm (by simp)
  healthy := rfl

theorem Holds.unique (h : Holds env w rs) (h' : Holds env w' rs) : w = w' := by
  have hfile : w.file = w'.file := by rw [h.file_eq, h'.file_eq]
  have hend : w.endOffset = w'.endOffset := by rw [h.end_eq, h'.end_eq]
  have hindex : w.index = w'.index := h.describes.unique h'.describes fun e => Iff.rfl
  have hoffsets : w.offsets = w'.offsets := by
    ext id offset
    rw [h.offsets_iff, h'.offsets_iff]
  have hpoisoned : w.poisoned = w'.poisoned := by rw [h.healthy, h'.healthy]
  cases w
  cases w'
  simp only at hfile hend hindex hoffsets hpoisoned
  rw [hfile, hend, hindex, hoffsets, hpoisoned]

theorem Reads.contains_iff (h : Reads env w rs) {id : DartString} :
    w.index.entries.contains id = true ↔ ∃ r ∈ rs, r.event.eventId = id := by
  unfold FMap.contains
  rw [Option.isSome_iff_exists]
  simp only [h.describes.get_iff, List.mem_map]
  constructor
  · rintro ⟨e, ⟨r, hr, rfl⟩, hid⟩
    exact ⟨r, hr, hid⟩
  · rintro ⟨r, hr, hid⟩
    exact ⟨r.entry, ⟨r, hr, rfl⟩, hid⟩

theorem Holds.readEntry (h : Holds env w rs) {e : Entry} (he : e ∈ rs.map Stored.entry) :
    w.readEntry env e = .ok e.event := by
  obtain ⟨r, hr, rfl⟩ := mem_map.mp he
  obtain ⟨before, after, rfl⟩ := append_of_mem hr
  have hoffset : w.offsets.get r.entry.id = some (magic.length + total before) :=
    (h.offsets_iff _ _).mpr ⟨before, r, after, rfl, rfl, rfl⟩
  -- the frame stands after those before it
  have hframe : (w.file.drop (magic.length + total before + 4)).take r.entry.size =
      env.sealFrame r.nonce (magic.length + total before) r.clear := by
    have hprefix : (magic ++ layout env magic.length before).length =
        magic.length + total before := by
      rw [length_append, layout_length]
    rw [h.file_eq, layout_append, layout, ← append_assoc, ← drop_drop,
      drop_left' hprefix]
    unfold frameBytes
    exact take_left' (sealFrame_length _ _ _)
  unfold Worker.readEntry
  rw [hoffset]
  dsimp only
  rw [hframe]
  exact decodeFrame_sealFrame (h.good r hr).decodes (h.good r hr).groupId_eq _ _

/-! ### One more frame -/

theorem exists_split_concat {α : Type} {P : List α → α → Prop} (l : List α) (x : α) :
    (∃ before y after, l ++ [x] = before ++ y :: after ∧ P before y) ↔
      (∃ before y after, l = before ++ y :: after ∧ P before y) ∨ P l x := by
  constructor
  · rintro ⟨before, y, after, hsplit, hP⟩
    rcases eq_nil_or_concat' after with rfl | ⟨init, last, rfl⟩
    · obtain ⟨rfl, hlast⟩ := append_inj' hsplit rfl
      rw [singleton_inj] at hlast
      rw [hlast]
      exact .inr hP
    · refine .inl ⟨before, y, init, ?_, hP⟩
      rw [← cons_append, ← append_assoc] at hsplit
      exact (append_inj' hsplit rfl).1
  · rintro (⟨before, y, after, rfl, hP⟩ | hP)
    · refine ⟨before, y, after ++ [x], ?_, hP⟩
      rw [append_assoc, cons_append]
    · exact ⟨l, x, [], rfl, hP⟩

/-- The event of a frame conflicts with no frame before it. -/
def NoConflict (rs : List Stored) (r : Stored) : Prop :=
  ∀ r' ∈ rs, Index.Compatible r'.entry r.entry

theorem Reads.checkEvent_iff (h : Reads env w rs) (hsigned : env.checkSignature r.event = .ok ()) :
    w.checkEvent env r.event = .ok () ↔ ∀ r' ∈ rs, Index.Chained r'.event r.event := by
  unfold Worker.checkEvent
  rw [hsigned]
  rw [h.describes.checkChain_ok_iff, List.forall_mem_map]
  rfl

theorem Reads.indexAtEnd (h : Reads env w rs) (hgood : r.Good env) (hnew : NoConflict rs r)
    (hfile : file.take (w.endOffset + (4 + r.size)) =
      magic ++ layout env magic.length (rs ++ [r])) :
    ∃ w₁, { w with file := file }.indexAtEnd env r.event r.size = (w₁, .ok ()) ∧
      w₁.file = file ∧ Reads env { w₁ with endOffset := w.endOffset + 4 + r.size } (rs ++ [r]) := by
  have hfresh : ¬ w.index.entries.contains r.event.eventId = true := by
    rw [h.contains_iff]
    rintro ⟨r', hr', hid⟩
    exact (hnew r' hr').1 hid
  obtain ⟨target, htarget⟩ := hgood.searchable
  have hnew' : ∀ e ∈ rs.map Stored.entry, Index.Compatible e ⟨r.event, r.size⟩ := by
    rw [List.forall_mem_map]
    exact hnew
  obtain ⟨hok, hdescribes⟩ := h.describes.indexEvent hnew' htarget
  refine ⟨{ w with
    file := file
    index := (w.index.indexEvent env.text r.event r.size).1
    offsets := w.offsets.insert r.event.eventId w.endOffset }, ?_, rfl, ?_⟩
  · unfold Worker.indexAtEnd
    dsimp only
    rw [if_neg hfresh, hok]
  refine ⟨?_, ?_, ?_, ?_, ?_, ?_, h.healthy⟩
  · rw [← Nat.add_assoc] at hfile
    exact hfile
  · change w.endOffset + 4 + r.size = _
    rw [total_append, h.end_eq, total_cons]
    change _ = _ + (_ + (_ + 0))
    omega
  · rw [map_append]
    exact hdescribes
  · intro r' hr'
    rcases mem_append.mp hr' with hr' | hr'
    · exact h.good r' hr'
    · rw [mem_singleton.mp hr']
      exact hgood
  · rw [map_append, pairwise_append]
    refine ⟨h.compatible, pairwise_singleton _ _, ?_⟩
    intro e he e' he'
    rw [map_singleton, mem_singleton] at he'
    rw [he']
    exact hnew' e he
  · intro id offset
    change (w.offsets.insert r.event.eventId w.endOffset).get id = some offset ↔ _
    rw [exists_split_concat, FMap.get_insert,
      ← h.offsets_iff]
    by_cases hid : id = r.event.eventId
    · -- the new event: no frame before has its identifier
      have hnone : w.offsets.get id = none := by
        rw [eq_none_iff_forall_ne_some]
        intro offset' hget
        obtain ⟨before, r', after, rfl, hid', -⟩ := (h.offsets_iff id offset').mp hget
        exact (hnew r' (by simp)).1 (hid'.trans hid)
      rw [if_pos hid, hnone, h.end_eq, some.injEq]
      constructor
      · intro heq
        exact .inr ⟨hid.symm, heq.symm⟩
      · rintro (hnot | ⟨-, heq⟩)
        · cases hnot
        · exact heq.symm
    · rw [if_neg hid]
      constructor
      · exact .inl
      · rintro (hget | ⟨heq, -⟩)
        · exact hget
        · exact absurd heq.symm hid

theorem Holds.overwrite_take (h : Holds env w rs) (r : Stored) :
    Worker.overwrite w.file w.endOffset (frameBytes env w.endOffset r) =
      magic ++ layout env magic.length (rs ++ [r]) := by
  unfold Worker.overwrite
  rw [← h.file_end, take_length, drop_eq_nil_of_le (Nat.le_add_right _ _),
    layout_append, ← append_assoc, ← h.file_eq, h.file_end, h.end_eq]
  simp[layout, append_nil]

theorem Holds.writeFrame (h : Holds env w rs) (hgood : r.Good env) (hnew : NoConflict rs r) :
    ∃ w', w.writeFrame env r.event (env.sealFrame r.nonce w.endOffset r.clear) .written =
      (w', .ok true) ∧ Holds env w' (rs ++ [r]) := by
  have hsize : (env.sealFrame r.nonce w.endOffset r.clear).length = r.size :=
    sealFrame_length r.nonce w.endOffset r.clear
  have hlength : (Worker.overwrite w.file w.endOffset (frameBytes env w.endOffset r)).length =
      w.endOffset + (4 + r.size) := by
    rw [h.overwrite_take, length_append, layout_length, total_append, h.end_eq, Nat.add_assoc]
    rfl
  obtain ⟨w₁, hindexed, hfile₁, hreads⟩ := h.toReads.indexAtEnd hgood hnew
    (by rw [← hlength, take_length, h.overwrite_take])
  refine ⟨{ w₁ with endOffset := w.endOffset + 4 + r.size }, ?_, hreads, ?_⟩
  · unfold frameBytes at hindexed
    unfold Worker.writeFrame
    dsimp only
    rw [hsize, hindexed]
  · rw [hfile₁, hlength, Nat.add_assoc]

theorem append_eq_writeFrame {event decoded : GroupHistoryEvent} (hhealthy : w.poisoned = false)
    (hdecodes : env.decodeEvent (env.codec.encode event) = .ok decoded)
    (hchecked : w.checkEvent env decoded = .ok ())
    (hfresh : ¬ w.index.entries.contains decoded.eventId = true) (nonce : Nonce)
    (io : WriteOutcome) :
    w.append env event nonce io =
      w.writeFrame env decoded (env.sealFrame nonce w.endOffset (env.codec.encode event)) io := by
  unfold Worker.append
  rw [hhealthy, if_neg Bool.false_ne_true, hdecodes]
  dsimp only
  rw [hchecked]
  rw [if_neg hfresh]

/-- **An event that is good by itself and conflicts with none is appended.** -/
theorem Holds.append (h : Holds env w rs) {event : GroupHistoryEvent} (hgood : r.Good env)
    (hnew : NoConflict rs r) (hclear : r.clear = env.codec.encode event) :
    ∃ w', w.append env event r.nonce .written = (w', .ok true) ∧ Holds env w' (rs ++ [r]) := by
  have hdecodes := hgood.decodes
  rw [hclear] at hdecodes
  have hchecked : w.checkEvent env r.event = .ok () :=
    (h.checkEvent_iff hgood.signed).mpr fun r' hr' => (hnew r' hr').2
  have hfresh : ¬ w.index.entries.contains r.event.eventId = true := by
    rw [h.contains_iff]
    rintro ⟨r', hr', hid⟩
    exact (hnew r' hr').1 hid
  rw [append_eq_writeFrame h.healthy hdecodes hchecked hfresh, ← hclear]
  exact h.writeFrame hgood hnew

/-- **What an append can do**: it fails and changes nothing, it finds the event in the journal, or it
comes to writing the frame of an event that decodes, is signed and conflicts with nothing. -/
theorem Holds.append_cases (h : Holds env w rs) (event : GroupHistoryEvent) (nonce : Nonce)
    (io : WriteOutcome) :
    (∃ e, w.append env event nonce io = (w, .error e)) ∨
      (∃ decoded, env.decodeEvent (env.codec.encode event) = .ok decoded ∧
        (∃ r ∈ rs, r.event.eventId = decoded.eventId) ∧
        w.append env event nonce io = (w, .ok false)) ∨
      ∃ r : Stored, r.nonce = nonce ∧ r.clear = env.codec.encode event ∧
        env.decodeEvent r.clear = .ok r.event ∧ env.checkSignature r.event = .ok () ∧
        NoConflict rs r ∧
        w.append env event nonce io =
          w.writeFrame env r.event (env.sealFrame r.nonce w.endOffset r.clear) io := by
  cases hdecodes : env.decodeEvent (env.codec.encode event) with
  | error e =>
    refine .inl ⟨e, ?_⟩
    unfold Worker.append
    rw [h.healthy, if_neg Bool.false_ne_true, hdecodes]
  | ok decoded =>
  cases hchecked : w.checkEvent env decoded with
  | error e =>
    refine .inl ⟨e, ?_⟩
    unfold Worker.append
    rw [h.healthy, if_neg Bool.false_ne_true, hdecodes]
    dsimp only
    rw [hchecked]
  | ok u =>
  by_cases hfresh : w.index.entries.contains decoded.eventId = true
  · refine .inr (.inl ⟨decoded, rfl, h.contains_iff.mp hfresh, ?_⟩)
    unfold Worker.append
    rw [h.healthy, if_neg Bool.false_ne_true, hdecodes]
    dsimp only
    rw [hchecked]
    rw [if_pos hfresh]
  have hsigned : env.checkSignature decoded = .ok () := by
    unfold Worker.checkEvent at hchecked
    cases hsig : env.checkSignature decoded with
    | error e => rw [hsig] at hchecked; cases hchecked
    | ok u => rfl
  refine .inr (.inr ⟨⟨decoded, nonce, env.codec.encode event⟩, rfl, rfl, hdecodes,
    hsigned, ?_, append_eq_writeFrame h.healthy hdecodes hchecked hfresh nonce io⟩)
  intro r' hr'
  refine ⟨fun hid => hfresh (h.contains_iff.mpr ⟨r', hr', hid⟩), ?_⟩
  exact (h.checkEvent_iff (r := ⟨decoded, nonce, env.codec.encode event⟩) hsigned).mp
    hchecked r' hr'

theorem Holds.of_append (h : Holds env w rs) {event : GroupHistoryEvent} {nonce : Nonce}
    (happend : w.append env event nonce .written = (w', .ok true)) :
    ∃ r : Stored, r.nonce = nonce ∧ r.clear = env.codec.encode event ∧ r.Good env ∧
      NoConflict rs r ∧ Holds env w' (rs ++ [r]) := by
  rcases h.append_cases event nonce .written with ⟨e, heq⟩ | ⟨-, -, -, heq⟩ | ⟨r, hnonce, hclear,
    hdecodes, hsigned, hnew, heq⟩
  · rw [heq, Prod.mk.injEq] at happend
    cases happend.2
  · rw [heq, Prod.mk.injEq] at happend
    cases happend.2
  -- an event that cannot be indexed makes the append fail
  have hgood : r.Good env := by
    refine ⟨hdecodes, hsigned, ?_⟩
    cases htarget : searchTarget r.event with
    | ok target => exact ⟨target, rfl⟩
    | error e =>
    have hfresh : ¬ w.index.entries.contains r.event.eventId = true := by
      rw [h.contains_iff]
      rintro ⟨r', hr', hid⟩
      exact (hnew r' hr').1 hid
    have hindex : ∀ n, (w.index.indexEvent env.text r.event n).2 = .error e := by
      intro n
      unfold Index.indexEvent
      rw [if_neg hfresh]
      rw [htarget]
    rw [heq] at happend
    unfold Worker.writeFrame Worker.indexAtEnd at happend
    dsimp only at happend
    rw [if_neg hfresh] at happend
    rw [hindex] at happend
    simp at happend
  obtain ⟨w₁, hwritten, hholds⟩ := h.writeFrame hgood hnew
  rw [heq, hwritten, Prod.mk.injEq] at happend
  rw [← happend.1]
  exact ⟨r, hnonce, hclear, hgood, hnew, hholds⟩

/-! ### Reading the file back -/

/-- What may stand after the last whole frame: nothing, or a part of a frame. -/
inductive Torn (env : Env) (offset : ℕ) : Bytes → Prop
  | nothing : Torn env offset []
  | part (r : Stored) (n : ℕ) (hsize : r.size ≤ maxFrame) (hn : n < 4 + r.size) :
      Torn env offset ((frameBytes env offset r).take n)

theorem getUint32_frameBytes (hsize : r.size ≤ maxFrame) (offset : ℕ) :
    getUint32 ((frameBytes env offset r).take 4) = r.size := by
  unfold frameBytes
  refine getUint32_setUint32 ?_
  have hmax : maxFrame < 2 ^ 32 := by decide
  omega

theorem Reads.scan_step (h : Reads env w rs) (hgood : r.Good env) (hnew : NoConflict rs r)
    {rest : Bytes} (hrest : w.file.drop w.endOffset = frameBytes env w.endOffset r ++ rest)
    (fuel : ℕ) :
    ∃ w₁, Worker.scan env (fuel + 1) w = Worker.scan env fuel w₁ ∧ Reads env w₁ (rs ++ [r]) ∧
      w₁.file = w.file ∧ w₁.file.drop w₁.endOffset = rest := by
  have hlength : w.file.length - w.endOffset = 4 + r.size + rest.length := by
    rw [← length_drop, hrest, length_append, frameBytes_length]
  have hsize : getUint32 ((w.file.drop w.endOffset).take 4) = r.size := by
    rw [hrest, take_append_of_le_length (by rw [frameBytes_length]; omega)]
    exact getUint32_frameBytes hgood.size_le w.endOffset
  have hframe : (w.file.drop (w.endOffset + 4)).take r.size =
      env.sealFrame r.nonce w.endOffset r.clear := by
    rw [← drop_drop, hrest]
    unfold frameBytes
    exact take_left' (sealFrame_length _ _ _)
  have hfile : w.file.take (w.endOffset + (4 + r.size)) =
      magic ++ layout env magic.length (rs ++ [r]) := by
    rw [take_add, h.file_take, hrest, take_left' (frameBytes_length _ _), layout_append,
      append_assoc, ← h.end_eq]
    simp[layout, append_nil]
  have hchecked : w.checkEvent env r.event = .ok () :=
    (h.checkEvent_iff hgood.signed).mpr fun r' hr' => (hnew r' hr').2
  obtain ⟨w₁, hindexed, hfile₁, hreads⟩ := h.indexAtEnd hgood hnew hfile
  refine ⟨{ w₁ with endOffset := w.endOffset + 4 + r.size }, ?_, hreads, hfile₁, ?_⟩
  · have hmin : 28 ≤ r.size := Nat.le_add_left 28 r.clear.length
    have hmax : r.size ≤ maxFrame := hgood.size_le
    rw [Worker.scan]
    rw [if_neg (by omega), if_neg (by omega)]
    rw [hsize, if_neg (by omega), if_neg (by omega), hframe,
      decodeFrame_sealFrame hgood.decodes hgood.groupId_eq]
    dsimp only
    rw [hchecked]
    rw [hindexed]
  · change w₁.file.drop (w.endOffset + 4 + r.size) = rest
    rw [hfile₁, Nat.add_assoc, ← drop_drop, hrest]
    exact drop_left' (frameBytes_length _ _)

theorem Reads.scan_torn (h : Reads env w rs) (htorn : Torn env w.endOffset
    (w.file.drop w.endOffset)) {fuel : ℕ} (hfuel : w.file.length - w.endOffset ≤ fuel) :
    ∃ w₁, Worker.scan env fuel w = .ok w₁ ∧ Holds env w₁ rs := by
  have hcut : Holds env { w with file := w.file.take w.endOffset } rs := by
    have hend : (w.file.take w.endOffset).length = w.endOffset := by
      rw [h.file_take, length_append, layout_length, ← h.end_eq]
    refine ⟨{ h with file_take := ?_ }, hend⟩
    change (w.file.take w.endOffset).take w.endOffset = _
    rw [take_take, Nat.min_self, h.file_take]
  generalize hrest : w.file.drop w.endOffset = rest at htorn
  have hlength : w.file.length - w.endOffset = rest.length := by rw [← hrest, length_drop]
  have hdone : w.file.length ≤ w.endOffset → Holds env w rs := by
    intro hle
    have hsame : w.file.take w.endOffset = w.file := take_of_length_le hle
    rw [hsame] at hcut
    exact hcut
  cases fuel with
  | zero => exact ⟨w, rfl, hdone (by omega)⟩
  | succ fuel =>
  rw [Worker.scan]
  split
  next hle =>
    exact ⟨w, rfl, hdone hle⟩
  split
  · exact ⟨_, rfl, hcut⟩
  cases htorn with
  | nothing =>
    rw [length_nil] at hlength
    omega
  | part r n hsize hn =>
  -- the size is whole, and tells that the frame is not
  rw [length_take, frameBytes_length] at hlength
  have hget : getUint32 ((w.file.drop w.endOffset).take 4) = r.size := by
    rw [hrest, take_take, Nat.min_eq_left (by omega)]
    exact getUint32_frameBytes hsize w.endOffset
  have hmin : 28 ≤ r.size := Nat.le_add_left 28 r.clear.length
  rw [if_neg (by omega), if_pos (by omega)]
  exact ⟨_, rfl, hcut⟩

theorem scan_layout (h : Reads env w rs) (hgood : ∀ r ∈ rs', r.Good env)
    (hcompat : ((rs ++ rs').map Stored.entry).Pairwise Index.Compatible)
    (hrest : w.file.drop w.endOffset = layout env w.endOffset rs' ++ torn)
    (htorn : Torn env (w.endOffset + total rs') torn) {fuel : ℕ}
    (hfuel : w.file.length - w.endOffset ≤ fuel) :
    ∃ w₁, Worker.scan env fuel w = .ok w₁ ∧ Holds env w₁ (rs ++ rs') := by
  induction rs' generalizing w rs fuel with
  | nil =>
    rw [append_nil]
    refine h.scan_torn ?_ hfuel
    rw [hrest]
    exact htorn
  | cons r rs' ih =>
  rw [layout, append_assoc] at hrest
  have hlength : w.file.length - w.endOffset = 4 + r.size +
      (layout env (w.endOffset + (4 + r.size)) rs' ++ torn).length := by
    rw [← length_drop, hrest, length_append, frameBytes_length]
  have hnew : NoConflict rs r := by
    intro r' hr'
    rw [map_append, pairwise_append] at hcompat
    exact hcompat.2.2 r'.entry (mem_map_of_mem hr') r.entry
      (mem_map_of_mem mem_cons_self)
  cases fuel with
  | zero => omega
  | succ fuel =>
  obtain ⟨w₁, hscan, hreads, hfile, hdrop⟩ :=
    h.scan_step (hgood r mem_cons_self) hnew hrest fuel
  have hend : w₁.endOffset = w.endOffset + (4 + r.size) := by
    rw [hreads.end_eq, h.end_eq, total_append, Nat.add_assoc]
    rfl
  rw [← hend] at hdrop
  rw [total_cons, ← Nat.add_assoc, ← hend] at htorn
  have hfuel' : w₁.file.length - w₁.endOffset ≤ fuel := by
    rw [hfile]
    omega
  rw [append_cons] at hcompat ⊢
  obtain ⟨w₂, hscan₂, hholds⟩ := ih hreads
    (fun r' hr' => hgood r' (mem_cons_of_mem r hr')) hcompat hdrop htorn hfuel'
  exact ⟨w₂, hscan.trans hscan₂, hholds⟩

/-- **Reopening**: a file that is the layout of good frames, with a torn one behind them at most,
opens to the worker that holds them. -/
theorem openJournal_layout (hgood : ∀ r ∈ rs, r.Good env)
    (hcompat : (rs.map Stored.entry).Pairwise Index.Compatible)
    (htorn : Torn env (magic.length + total rs) torn) :
    ∃ w, Worker.openJournal env (magic ++ layout env magic.length rs ++ torn) = .ok w ∧
      Holds env w rs := by
  have hmagic : (magic ++ layout env magic.length rs ++ torn).take magic.length = magic := by
    rw [append_assoc]
    exact take_left' rfl
  have hne : ¬ (magic ++ layout env magic.length rs ++ torn).length = 0 := by
    rw [length_append, length_append]
    have hpos : 0 < magic.length := by decide
    omega
  unfold Worker.openJournal
  rw [if_neg hne, if_neg (not_not_intro hmagic)]
  have hrest : (magic ++ layout env magic.length rs ++ torn).drop magic.length =
      layout env magic.length rs ++ torn := by
    rw [append_assoc]
    exact drop_left' rfl
  exact scan_layout (Reads.afterHeader env hmagic) hgood hcompat hrest htorn (Nat.sub_le _ _)

theorem Holds.initial (env : Env) : Holds env (Worker.afterHeader magic) [] :=
  ⟨Reads.afterHeader env (take_length ..), rfl⟩

theorem Holds.openJournal (h : Holds env w rs) : Worker.openJournal env w.file = .ok w := by
  obtain ⟨w', hopen, hholds⟩ := openJournal_layout h.good h.compatible Torn.nothing
  rw [append_nil, ← h.file_eq] at hopen
  rw [hopen, hholds.unique h]

/-! ### Runs of appends -/

/-- The worker of a new journal. -/
def Worker.fresh : Worker := Worker.afterHeader magic

theorem openJournal_nil (env : Env) : Worker.openJournal env [] = .ok Worker.fresh := rfl

/-- The journal after events were appended one after another, each with success. -/
def appendAll (env : Env) : Worker → List (GroupHistoryEvent × Nonce) → Option Worker
  | w, [] => some w
  | w, (event, nonce) :: calls =>
    match w.append env event nonce .written with
    | (w', .ok true) => appendAll env w' calls
    | _ => none

/-- What an append of an event stores. -/
def storedOf (env : Env) (call : GroupHistoryEvent × Nonce) : Option Stored :=
  match env.decodeEvent (env.codec.encode call.1) with
  | .ok decoded => some ⟨decoded, call.2, env.codec.encode call.1⟩
  | .error _ => none

variable {calls calls' : List (GroupHistoryEvent × Nonce)}

theorem appendAll_append : appendAll env w (calls ++ calls') =
    (appendAll env w calls).bind fun w₁ => appendAll env w₁ calls' := by
  induction calls generalizing w with
  | nil => rfl
  | cons call calls ih =>
    rw [cons_append, appendAll, appendAll]
    split
    · exact ih
    · rfl

theorem storedOf_eq (hgood : r.Good env) {event : GroupHistoryEvent} {nonce : Nonce}
    (hnonce : r.nonce = nonce) (hclear : r.clear = env.codec.encode event) :
    storedOf env (event, nonce) = some r := by
  have hdecodes := hgood.decodes
  rw [hclear] at hdecodes
  unfold storedOf
  rw [hdecodes, ← hnonce, ← hclear]

theorem Holds.of_appendAll (h : Holds env w rs) (hall : appendAll env w calls = some w') :
    Holds env w' (rs ++ calls.filterMap (storedOf env)) ∧
      (calls.filterMap (storedOf env)).length = calls.length := by
  induction calls generalizing w rs with
  | nil =>
    obtain rfl : w = w' := some.inj hall
    rw [filterMap_nil, append_nil]
    exact ⟨h, rfl⟩
  | cons call calls ih =>
  rw [appendAll] at hall
  split at hall
  swap
  · cases hall
  next w₁ happend =>
  obtain ⟨r, hnonce, hclear, hgood, -, hholds⟩ := h.of_append happend
  obtain ⟨hrest, hlength⟩ := ih hholds hall
  rw [filterMap_cons_some (storedOf_eq hgood hnonce hclear), append_cons]
  exact ⟨hrest, by rw [length_cons, length_cons, hlength]⟩

/-- The events in the journal, in their order. -/
def Worker.held (w : Worker) : List GroupHistoryEvent := w.index.ordered.map Entry.event

theorem Holds.held_perm (h : Holds env w rs) : w.held.Perm (rs.map Stored.event) := by
  have hnodup : w.index.ordered.Nodup :=
    h.describes.ordered_sorted.imp fun hlt heq => absurd (congrArg Entry.key heq) (ne_of_lt hlt)
  have hnodup' : (rs.map Stored.entry).Nodup :=
    h.compatible.imp fun hcompat heq => hcompat.1 (congrArg Entry.id heq)
  have hperm : w.index.ordered.Perm (rs.map Stored.entry) :=
    (List.perm_ext_iff_of_nodup hnodup hnodup').mpr h.describes.ordered_mem
  have hevents := hperm.map Entry.event
  rw [List.map_map] at hevents
  exact hevents

end Journal
end Conest
