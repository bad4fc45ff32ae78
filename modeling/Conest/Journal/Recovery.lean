import Conest.Journal.Layout
import Conest.Group.MembershipHistory

/-!
# Crash recovery of the journal

A crash leaves a prefix of the file. Wherever the cut falls behind the header, reopening brings back
the worker as it was after the appends whose whole frames lie in the prefix; what it holds and what
is appended to it then survives the next reopening as well. An empty file becomes a new journal.

A cut inside the header is different: the file is not empty, so no header is written, and what is
there is no header, so opening throws. The journal stays unusable until the file is deleted
(`torn_header_refused`). So recovery works for exactly the cuts outside the header
(`recovers_iff`).
-/

namespace Conest
namespace Journal

open Lib Conest.Group List Option

variable {env : Env} {w w' : Worker} {rs : List Stored}
variable {calls : List (GroupHistoryEvent × Nonce)}

/-- The event that an append of a call stores. -/
def decodedOf (env : Env) (call : GroupHistoryEvent × Nonce) : Option GroupHistoryEvent :=
  (storedOf env call).map Stored.event

/-- **Recovery from a cut.** Of the file after the appends `calls`, the first `k` bytes are left.
Reopening gives the worker after the first `j` appends, which are those whose frame ends within the
`k` bytes. Whatever is appended then, reopening once more gives the worker that holds both. -/
def Recovers (env : Env) (calls : List (GroupHistoryEvent × Nonce)) (w : Worker) (k : ℕ) : Prop :=
  ∃ j wj, j ≤ calls.length ∧ appendAll env Worker.fresh (calls.take j) = some wj ∧
    (∀ i wi, i < calls.length → appendAll env Worker.fresh (calls.take (i + 1)) = some wi →
      (i < j ↔ wi.file.length ≤ k)) ∧
    Worker.openJournal env (w.file.take k) = .ok wj ∧
    wj.held.Perm ((calls.take j).filterMap (decodedOf env)) ∧
    ∀ more w', appendAll env wj more = some w' →
      Worker.openJournal env w'.file = .ok w' ∧
        w'.held.Perm (wj.held ++ more.filterMap (decodedOf env))

/-! ### Cuts behind the header -/

/-- **A prefix of the frames** is the whole frames that lie in it, and a part of the next. -/
theorem layout_take (offset n : ℕ) (hsize : ∀ r ∈ rs, r.size ≤ maxFrame) :
    ∃ j torn, j ≤ rs.length ∧
      (layout env offset rs).take n = layout env offset (rs.take j) ++ torn ∧
      Torn env (offset + total (rs.take j)) torn ∧
      ∀ i, i < rs.length → (i < j ↔ total (rs.take (i + 1)) ≤ n) := by
  induction rs generalizing offset n with
  | nil => exact ⟨0, [], Nat.le_refl 0, by simp [layout], Torn.nothing, by simp⟩
  | cons r rs ih =>
  by_cases hfits : 4 + r.size ≤ n
  · -- the first frame is whole
    obtain ⟨j, torn, hj, htake, htorn, hiff⟩ := ih (offset + (4 + r.size)) (n - (4 + r.size))
      fun r' hr' => hsize r' (mem_cons_of_mem r hr')
    refine ⟨j + 1, torn, Nat.succ_le_succ hj, ?_, ?_, ?_⟩
    · rw [layout, take_append, frameBytes_length, htake,
        take_of_length_le (by rw [frameBytes_length]; exact hfits), take_succ_cons,
        layout, append_assoc]
    · rw [take_succ_cons, total_cons, ← Nat.add_assoc]
      exact htorn
    intro i hi
    rw [take_succ_cons, total_cons]
    cases i with
    | zero => simp [total, hfits]
    | succ i =>
      rw [Nat.succ_lt_succ_iff, hiff i (Nat.lt_of_succ_lt_succ hi)]
      omega
  · refine ⟨0, (frameBytes env offset r).take n, Nat.zero_le _, ?_,
      Torn.part r n (hsize r mem_cons_self) (by omega), ?_⟩
    · rw [layout, take_append_of_le_length (by rw [frameBytes_length]; omega)]
      rfl
    · intro i hi
      rw [take_succ_cons, total_cons]
      omega

theorem holds_of_appendAll_take (hall : appendAll env Worker.fresh calls = some w) (j : ℕ) :
    ∃ wj, appendAll env Worker.fresh (calls.take j) = some wj ∧
      Holds env wj ((calls.filterMap (storedOf env)).take j) ∧
      (calls.take j).filterMap (storedOf env) = (calls.filterMap (storedOf env)).take j := by
  have hsplit := hall
  rw [← take_append_drop j calls, appendAll_append, bind_eq_some_iff] at hsplit
  obtain ⟨wj, hfirst, -⟩ := hsplit
  obtain ⟨-, hlength⟩ := (Holds.initial env).of_appendAll hall
  obtain ⟨hholds, hlength'⟩ := (Holds.initial env).of_appendAll hfirst
  -- every call stores one event, so the first calls store the first events
  have heq : (calls.take j).filterMap (storedOf env) =
      (calls.filterMap (storedOf env)).take j := by
    have happend : calls.filterMap (storedOf env) =
        (calls.take j).filterMap (storedOf env) ++ (calls.drop j).filterMap (storedOf env) := by
      rw [← filterMap_append, take_append_drop]
    rcases Nat.le_total j calls.length with hle | hle
    · rw [happend]
      refine (take_left' ?_).symm
      rw [hlength', length_take, Nat.min_eq_left hle]
    · rw [take_of_length_le hle, take_of_length_le]
      rw [hlength]
      exact hle
  rw [heq] at hholds
  exact ⟨wj, hfirst, hholds, heq⟩

theorem Holds.survives (h : Holds env w rs) {more : List (GroupHistoryEvent × Nonce)}
    (hmore : appendAll env w more = some w') :
    Worker.openJournal env w'.file = .ok w' ∧
      w'.held.Perm (w.held ++ more.filterMap (decodedOf env)) := by
  obtain ⟨hholds, -⟩ := h.of_appendAll hmore
  refine ⟨hholds.openJournal, ?_⟩
  have hperm := hholds.held_perm
  rw [map_append, map_filterMap] at hperm
  exact hperm.trans (h.held_perm.symm.append_right _)

theorem file_length_of_holds (h : Holds env w rs) : w.file.length = magic.length + total rs := by
  rw [h.file_end, h.end_eq]

theorem recovers_of_behind_header (hall : appendAll env Worker.fresh calls = some w) {k : ℕ}
    (hk : magic.length ≤ k) : Recovers env calls w k := by
  obtain ⟨hholds, hlength⟩ := (Holds.initial env).of_appendAll hall
  rw [nil_append] at hholds
  obtain ⟨j, torn, hj, htake, htorn, hiff⟩ := layout_take magic.length (k - magic.length)
    fun r hr => (hholds.good r hr).size_le
  obtain ⟨wj, hfirst, hholdsj, heqj⟩ := holds_of_appendAll_take hall j
  rw [hlength] at hj hiff
  refine ⟨j, wj, hj, hfirst, ?_, ?_, ?_, fun more w' hmore => hholdsj.survives hmore⟩
  · intro i wi hi hwi
    obtain ⟨wi', hwi', hholdsi, -⟩ := holds_of_appendAll_take hall (i + 1)
    rw [hwi, some.injEq] at hwi'
    rw [hiff i hi, hwi', file_length_of_holds hholdsi]
    omega
  · -- the file that is left is the layout of the first events and a torn frame
    have hfile : w.file.take k =
        magic ++ layout env magic.length ((calls.filterMap (storedOf env)).take j) ++ torn := by
      rw [hholds.file_eq, take_append, take_of_length_le hk, htake, append_assoc]
    obtain ⟨w₁, hopen, hholds₁⟩ := openJournal_layout hholdsj.good hholdsj.compatible htorn
    rw [hfile, hopen, hholds₁.unique hholdsj]
  · have hperm := hholdsj.held_perm
    rw [← heqj, map_filterMap] at hperm
    exact hperm

/-! ### Cuts up to the header -/

theorem recovers_zero (hall : appendAll env Worker.fresh calls = some w) :
    Recovers env calls w 0 := by
  refine ⟨0, Worker.fresh, Nat.zero_le _, rfl, ?_, openJournal_nil env, List.Perm.refl _,
    fun more w' hmore => (Holds.initial env).survives hmore⟩
  intro i wi _ hwi
  obtain ⟨wi', hwi', hholdsi, -⟩ := holds_of_appendAll_take hall (i + 1)
  rw [hwi, some.injEq] at hwi'
  rw [hwi', file_length_of_holds hholdsi]
  have hpos : 0 < magic.length := by decide
  omega

theorem openJournal_torn_header {file : Bytes} {k : ℕ} (hpos : 0 < k) (hk : k < magic.length)
    (hlength : k ≤ file.length) :
    Worker.openJournal env (file.take k) = .error "Invalid group journal header." := by
  have hcut : (file.take k).length = k := by rw [length_take, Nat.min_eq_left hlength]
  have hne : ¬ (file.take k).length = 0 := by
    rw [hcut]
    exact Nat.ne_of_gt hpos
  have hshort : (file.take k).take magic.length ≠ magic := by
    intro heq
    have hlen := congrArg length heq
    rw [length_take] at hlen
    omega
  unfold Worker.openJournal
  rw [if_neg hne, if_pos hshort]

/-- **Which cuts the journal recovers from.** For every run of successful appends and every cut of
its file, reopening recovers the events whose frames are whole, and goes on from there, if and only
if the cut is not inside the header. -/
theorem recovers_iff (env : Env) (calls : List (GroupHistoryEvent × Nonce)) (w : Worker)
    (hall : appendAll env Worker.fresh calls = some w) (k : ℕ) (hk : k ≤ w.file.length) :
    Recovers env calls w k ↔ k = 0 ∨ magic.length ≤ k := by
  constructor
  · rintro ⟨j, wj, -, -, -, hopen, -⟩
    by_contra hnot
    rw [not_or, not_le] at hnot
    rw [openJournal_torn_header (Nat.pos_of_ne_zero hnot.1) hnot.2 hk] at hopen
    cases hopen
  · rintro (rfl | hbehind)
    · exact recovers_zero hall
    · exact recovers_of_behind_header hall hbehind

/-! ### A journal of two events -/

namespace Sample

open Group.Sample

def aead : Aead where
  encrypt _ _ clear := (clear, List.replicate 16 0)
  decrypt _ _ cipherText _ := some cipherText
  cipher_length _ _ _ := rfl
  mac_length _ _ _ := rfl
  decrypt_encrypt _ _ _ := rfl

def sequenceByte : Json → Bytes
  | .obj entries =>
    match fieldAt entries "sequence" with
    | .int n => [UInt8.ofNat n.toNat]
    | _ => []
  | _ => []

def codec (events : List GroupHistoryEvent) : Codec where
  jsonEncode := sequenceByte
  jsonDecode bytes :=
    match events.find? fun event => sequenceByte event.canonicalJson == bytes with
    | some event => .ok event.canonicalJson
    | none => .error "Unexpected character"
  sha256 bytes := digest (Fin.ofNat 10 ((bytes.getLastD 0).toNat - 1))

def twoEvents : Env where
  groupId := groupId
  crypto := crypto
  aead := aead
  codec := codec [root.proof, admits.proof]
  text := ⟨fun _ => [], fun _ => false⟩

def nonce : Nonce := ⟨List.replicate 12 0, rfl⟩

def appends : List (GroupHistoryEvent × Nonce) := [(root.proof, nonce), (admits.proof, nonce)]

theorem recovers_second_torn :
    ∃ w, appendAll twoEvents Worker.fresh appends = some w ∧ 60 ≤ w.file.length ∧
      Recovers twoEvents appends w 60 := by
  have hruns : ((appendAll twoEvents Worker.fresh appends).map fun w =>
      decide (60 ≤ w.file.length)) = some true := by decide
  obtain ⟨w, hall, hlength⟩ := map_eq_some_iff.mp hruns
  rw [decide_eq_true_eq] at hlength
  refine ⟨w, hall, hlength, (recovers_iff twoEvents appends w hall 60 hlength).mpr (.inr ?_)⟩
  decide

/-- **A crash while a new journal gets its header** leaves a file that can never be opened. -/
theorem torn_header_refused :
    appendAll twoEvents Worker.fresh [] = some Worker.fresh ∧ 5 ≤ Worker.fresh.file.length ∧
      Worker.openJournal twoEvents (Worker.fresh.file.take 5) =
        .error "Invalid group journal header." ∧
      ¬ Recovers twoEvents [] Worker.fresh 5 := by
  have herror : Worker.openJournal twoEvents (Worker.fresh.file.take 5) =
      .error "Invalid group journal header." :=
    openJournal_torn_header (by decide) (by decide) (by decide)
  refine ⟨rfl, by decide, herror, ?_⟩
  rintro ⟨j, wj, -, -, -, hopen, -⟩
  cases hopen

end Sample

end Journal
end Conest
