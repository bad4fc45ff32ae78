import Mathlib

/-!
# A file on a disk that can lose writes

A file has the bytes that a reader sees, the bytes at the last sync and the writes since. After a
crash, every byte of what was synced is as it was, or as one of the later writes left it.

`Kept` says that a stretch of bytes is at a place whatever a crash does: it was there at the last
sync, and every later write agrees with it where it touches it. A stretch that is there when the file
is synced is kept (`kept_sync`), and what keeps a stretch is a write that agrees with it
(`Kept.write`), a sync, a new length and a crash.
-/

namespace Lib

open List Option

/-- A file: what is read, what was synced and what was written since. -/
structure DiskFile (α : Type) where
  content : List α
  synced : List α
  unsynced : List (ℕ × List α)

namespace DiskFile

variable {α : Type}

def empty : DiskFile α := ⟨[], [], []⟩

/-- The bytes up to a length, with `zero` after their end. -/
def resize (zero : α) (n : ℕ) (content : List α) : List α :=
  content.take n ++ List.replicate (n - content.length) zero

/-- The bytes with others in the place of some. -/
def overwrite (zero : α) (content : List α) (offset : ℕ) (bytes : List α) : List α :=
  resize zero offset content ++ (bytes ++ content.drop (offset + bytes.length))

variable (zero : α) (file : DiskFile α)

def setLen (n : ℕ) : DiskFile α := { file with content := resize zero n file.content }

def write (offset : ℕ) (bytes : List α) : DiskFile α :=
  { file with
    content := overwrite zero file.content offset bytes
    unsynced := (offset, bytes) :: file.unsynced }

def sync : DiskFile α := ⟨file.content, file.content, []⟩

/-- What one of the later writes left at a position. -/
def written (j k : ℕ) : Option α := do
  let (offset, bytes) ← file.unsynced[k]?
  if offset ≤ j then bytes[j - offset]? else none

/-- The file after a crash: `choose` says which write a byte is from, if it is from one, and `rest`
is what comes after the synced bytes. -/
def crash (choose : ℕ → Option ℕ) (rest : List α) : DiskFile α :=
  let content := (file.synced.mapIdx fun j v => ((choose j).bind (file.written j)).getD v) ++ rest
  ⟨content, content, []⟩

/-! ### Bytes at a place -/

/-- The bytes are in the file at the offset. -/
def HasAt (content : List α) (offset : ℕ) (bytes : List α) : Prop := bytes <+: content.drop offset

variable {zero file} {content bytes b : List α} {offset o j n : ℕ} {v : α}

theorem hasAt_iff : HasAt content offset bytes ↔
    ∀ k < bytes.length, content[offset + k]? = bytes[k]? := by
  unfold HasAt
  rw [prefix_iff_getElem?]
  constructor
  · intro h k hk
    have hget := h k hk
    rw [getElem?_drop] at hget
    rw [hget, getElem?_eq_getElem hk]
  · intro h k hk
    rw [getElem?_drop, h k hk, getElem?_eq_getElem hk]

theorem getElem?_resize (h : content[j]? = some v) (hj : j < n) :
    (resize zero n content)[j]? = some v := by
  have hlength : j < content.length := (List.getElem?_eq_some_iff.mp h).1
  unfold resize
  rw [getElem?_append_left, getElem?_take_of_lt hj, h]
  rw [length_take]
  omega

theorem length_resize : (resize zero n content).length = n := by
  unfold resize
  rw [length_append, length_take, length_replicate]
  omega

theorem getElem?_overwrite_other (h : content[j]? = some v)
    (hout : j < offset ∨ offset + b.length ≤ j) :
    (overwrite zero content offset b)[j]? = some v := by
  unfold overwrite
  rcases hout with hbefore | hafter
  · rw [getElem?_append_left]
    · exact getElem?_resize h hbefore
    · rw [length_resize]
      exact hbefore
  rw [getElem?_append_right, length_resize, getElem?_append_right,
    getElem?_drop]
  · rw [← h]
    congr 1
    omega
  · omega
  · rw [length_resize]
    omega

theorem getElem?_overwrite_self {k : ℕ} (hk : k < b.length) :
    (overwrite zero content offset b)[offset + k]? = b[k]? := by
  unfold overwrite
  rw [getElem?_append_right, length_resize, Nat.add_sub_cancel_left,
    getElem?_append_left hk]
  rw [length_resize]
  exact Nat.le_add_right _ _

theorem hasAt_overwrite : HasAt (overwrite zero content offset b) offset b :=
  hasAt_iff.mpr fun _ hk => getElem?_overwrite_self hk

/-- A write agrees with the bytes at a place: where it touches the place, it writes the same. -/
def Agrees (offset : ℕ) (bytes : List α) (o : ℕ) (b : List α) : Prop :=
  ∀ k < bytes.length, o ≤ offset + k → offset + k < o + b.length →
    b[offset + k - o]? = bytes[k]?

theorem Agrees.of_disjoint (h : offset + bytes.length ≤ o ∨ o + b.length ≤ offset) :
    Agrees offset bytes o b := by
  intro k hk hle hlt
  omega

theorem HasAt.overwrite (h : HasAt content offset bytes) (hagrees : Agrees offset bytes o b) :
    HasAt (overwrite zero content o b) offset bytes := by
  rw [hasAt_iff] at h ⊢
  intro k hk
  have hget := h k hk
  by_cases htouched : o ≤ offset + k ∧ offset + k < o + b.length
  · obtain ⟨hle, hlt⟩ := htouched
    have hself : (DiskFile.overwrite zero content o b)[o + (offset + k - o)]? =
        b[offset + k - o]? := getElem?_overwrite_self (by omega)
    rw [Nat.add_sub_cancel' hle] at hself
    rw [hself, hagrees k hk hle hlt]
  · rw [getElem?_eq_getElem hk] at hget ⊢
    exact getElem?_overwrite_other hget (by omega)

theorem HasAt.resize (h : HasAt content offset bytes) (hn : offset + bytes.length ≤ n) :
    HasAt (resize zero n content) offset bytes := by
  rw [hasAt_iff] at h ⊢
  intro k hk
  have hget := h k hk
  rw [getElem?_eq_getElem hk] at hget ⊢
  exact getElem?_resize hget (by omega)

/-! ### What a crash keeps -/

/-- The bytes are at the offset, also after a crash. -/
structure Kept (file : DiskFile α) (offset : ℕ) (bytes : List α) : Prop where
  content : HasAt file.content offset bytes
  synced : HasAt file.synced offset bytes
  agrees : ∀ w ∈ file.unsynced, Agrees offset bytes w.1 w.2

theorem kept_sync (h : HasAt file.content offset bytes) : file.sync.Kept offset bytes :=
  ⟨h, h, fun _ hw => nomatch hw⟩

theorem Kept.write (h : file.Kept offset bytes) (hagrees : Agrees offset bytes o b) :
    (file.write zero o b).Kept offset bytes := by
  refine ⟨h.content.overwrite hagrees, h.synced, fun w hw => ?_⟩
  rcases mem_cons.mp hw with rfl | hold
  · exact hagrees
  · exact h.agrees w hold

theorem Kept.setLen (h : file.Kept offset bytes) (hn : offset + bytes.length ≤ n) :
    (file.setLen zero n).Kept offset bytes :=
  ⟨h.content.resize hn, h.synced, h.agrees⟩

theorem Kept.crash (h : file.Kept offset bytes) (choose : ℕ → Option ℕ) (rest : List α) :
    (file.crash choose rest).Kept offset bytes := by
  have hcontent : HasAt (file.crash choose rest).content offset bytes := by
    rw [hasAt_iff]
    intro k hk
    have hsynced := hasAt_iff.mp h.synced k hk
    rw [getElem?_eq_getElem hk] at hsynced
    have hlength : offset + k < file.synced.length := (List.getElem?_eq_some_iff.mp hsynced).1
    show ((file.synced.mapIdx _) ++ rest)[offset + k]? = bytes[k]?
    rw [getElem?_append_left (by rwa [length_mapIdx]), getElem?_mapIdx, hsynced,
      map_some, getElem?_eq_getElem hk]
    congr 1
    cases hw : (choose (offset + k)).bind (file.written (offset + k)) with
    | none => rfl
    | some w =>
    -- the byte is from a write, which agrees
    obtain ⟨i, -, hwritten⟩ := bind_eq_some_iff.mp hw
    obtain ⟨⟨o, b⟩, hmem, hbyte⟩ := bind_eq_some_iff.mp hwritten
    dsimp only at hbyte
    split at hbyte
    swap
    · cases hbyte
    next hle =>
    have hlt : offset + k - o < b.length := (List.getElem?_eq_some_iff.mp hbyte).1
    have hsame := h.agrees (o, b) (mem_of_getElem? hmem) k hk hle (by dsimp only; omega)
    rw [hbyte, getElem?_eq_getElem hk] at hsame
    exact some.inj hsame
  exact ⟨hcontent, hcontent, fun _ hw => nomatch hw⟩

end DiskFile
end Lib
