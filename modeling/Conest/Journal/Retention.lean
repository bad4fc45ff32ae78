import Conest.Journal.Filing
import Conest.Journal.Replica

/-!
# What a journal keeps

An event that a journal has in its order stays there: through later appends, whatever becomes of their
writes, and through restarts of the device (`ordered_run`). The file behind a worker is the header and
the frames that were read or written, one behind the other up to the end (`Frames`); an append changes
nothing before the end, and an open reads these frames again before anything else.

A frame may repeat an event that is there, so of the frames only the first ones of their events count
(`First`).
-/

namespace Conest
namespace Journal

open Lib Conest.Group List

variable {env : Env} {w : Worker} {file file' : Bytes} {o m stop : ℕ} {es es' : List Entry}

/-! ### Frames of a file -/

/-- The frames of a file from an offset to another, with the entries that they hold. -/
inductive Frames (env : Env) (file : Bytes) : ℕ → List Entry → ℕ → Prop
  | nil (o : ℕ) : Frames env file o [] o
  | cons {o size stop : ℕ} {event : GroupHistoryEvent} {es : List Entry} :
      o + 4 + size ≤ file.length → getUint32 ((file.drop o).take 4) = size → 28 ≤ size →
      size ≤ maxFrame → env.decodeFrame ((file.drop (o + 4)).take size) o = .ok event →
      Frames env file (o + 4 + size) es stop → Frames env file o (⟨event, size⟩ :: es) stop

theorem Frames.le (h : Frames env file o es stop) : o ≤ stop := by
  induction h with
  | nil o => exact Nat.le_refl o
  | cons _ _ _ _ _ _ ih => omega

theorem Frames.append (h : Frames env file o es m) (h' : Frames env file m es' stop) :
    Frames env file o (es ++ es') stop := by
  induction h with
  | nil o => exact h'
  | cons hfits hsize hmin hmax hdecode _ ih => exact .cons hfits hsize hmin hmax hdecode (ih h')

theorem Frames.congr (h : Frames env file o es stop) (hfile : file'.take stop = file.take stop)
    (hle : stop ≤ file'.length) : Frames env file' o es stop := by
  induction h with
  | nil o => exact .nil o
  | @cons o size stop event es hfits hsize hmin hmax hdecode hrest ih =>
  have hend := hrest.le
  refine .cons (by omega) ?_ hmin hmax ?_ (ih hfile hle)
  · rw [take_drop_of_take_eq hfile (by omega)]
    exact hsize
  · rw [take_drop_of_take_eq hfile (by omega)]
    exact hdecode

/-- The first entry of its event. -/
def First (es : List Entry) (e : Entry) : Prop :=
  ∃ before after, es = before ++ e :: after ∧ ∀ b ∈ before, b.id ≠ e.id

theorem First.append {e : Entry} (h : First es e) (more : List Entry) : First (es ++ more) e := by
  obtain ⟨before, after, rfl, hbefore⟩ := h
  refine ⟨before, after ++ more, ?_, hbefore⟩
  rw [append_assoc, cons_append]

theorem First.last {e : Entry} (hnew : ∀ b ∈ es, b.id ≠ e.id) : First (es ++ [e]) e :=
  ⟨es, [], rfl, hnew⟩

theorem First.of_append_singleton {e x : Entry} (h : First (es ++ [x]) e) :
    First es e ∨ e = x ∧ ∀ b ∈ es, b.id ≠ x.id := by
  obtain ⟨before, after, hsplit, hbefore⟩ := h
  rcases eq_nil_or_concat after with rfl | ⟨rest, last, rfl⟩
  · obtain ⟨rfl, heq⟩ := append_inj' hsplit rfl
    obtain rfl : x = e := (cons.inj heq).1
    exact .inr ⟨rfl, hbefore⟩
  · refine .inl ⟨before, rest, ?_, hbefore⟩
    rw [concat_eq_append, ← cons_append, ← append_assoc] at hsplit
    exact (append_inj' hsplit rfl).1

/-! ### The file behind a worker -/

/-- **The frames behind a worker.** Their events are in the maps, and the order has first entries
only. -/
structure Framed (env : Env) (w : Worker) (es : List Entry) : Prop where
  header : w.file.take magic.length = magic
  frames : Frames env w.file magic.length es w.endOffset
  end_le : w.endOffset ≤ w.file.length
  contains : ∀ b ∈ es, w.index.entries.contains b.id = true
  ordered : ∀ e ∈ w.index.ordered, First es e

/-- A worker that has read its frames and nothing else: the order has every first entry. -/
structure Scanned (env : Env) (w : Worker) (es : List Entry) : Prop extends Framed env w es where
  contained : ∀ id, w.index.entries.contains id = true → ∃ b ∈ es, b.id = id
  firsts : ∀ e, First es e → e ∈ w.index.ordered

theorem Framed.header_le (h : Framed env w es) : magic.length ≤ w.endOffset := h.frames.le

theorem Framed.of_file (h : Framed env w es) (file : Bytes) (poisoned : Bool)
    (hfile : file.take w.endOffset = w.file.take w.endOffset) (hle : w.endOffset ≤ file.length) :
    Framed env { w with file := file, poisoned := poisoned } es where
  header := by
    have hcut : ∀ f : Bytes, f.take magic.length = (f.take w.endOffset).take magic.length := by
      intro f
      rw [take_take, Nat.min_eq_left h.header_le]
    change file.take magic.length = magic
    rw [hcut, hfile, ← hcut]
    exact h.header
  frames := h.frames.congr hfile hle
  end_le := hle
  contains := h.contains
  ordered := h.ordered

/-- The size and the text of the frame at an offset. -/
structure FrameAt (env : Env) (file : Bytes) (o size : ℕ) (event : GroupHistoryEvent) : Prop where
  fits : o + 4 + size ≤ file.length
  size_eq : getUint32 ((file.drop o).take 4) = size
  le_size : 28 ≤ size
  size_le : size ≤ maxFrame
  decodes : env.decodeFrame ((file.drop (o + 4)).take size) o = .ok event

theorem FrameAt.frames {size : ℕ} {event : GroupHistoryEvent}
    (h : FrameAt env file o size event) : Frames env file o [⟨event, size⟩] (o + 4 + size) :=
  .cons h.fits h.size_eq h.le_size h.size_le h.decodes (.nil _)

section Indexing

variable {event : GroupHistoryEvent} {size : ℕ}

theorem indexAtEnd_of_contains (hold : w.index.entries.contains event.eventId = true) :
    w.indexAtEnd env event size = (w, .ok ()) := by
  unfold Worker.indexAtEnd
  rw [if_pos hold]

theorem indexAtEnd_file (env : Env) (w : Worker) (event : GroupHistoryEvent) (size : ℕ) :
    (w.indexAtEnd env event size).1.file = w.file ∧
      (w.indexAtEnd env event size).1.endOffset = w.endOffset ∧
      (w.indexAtEnd env event size).1.poisoned = w.poisoned := by
  unfold Worker.indexAtEnd
  split
  · exact ⟨rfl, rfl, rfl⟩
  · exact ⟨rfl, rfl, rfl⟩

theorem Framed.indexAtEnd_failed (h : Framed env w es)
    (hfailed : (w.indexAtEnd env event size).2 ≠ .ok ()) :
    Framed env (w.indexAtEnd env event size).1 es := by
  obtain ⟨hfile, hend, -⟩ := indexAtEnd_file env w event size
  obtain ⟨hindex, hresult⟩ := indexAtEnd_index env w event size
  cases hnew : w.index.entries.contains event.eventId with
  | true =>
    rw [indexAtEnd_of_contains hnew] at hfailed
    exact absurd rfl hfailed
  | false =>
  obtain ⟨hentries, -, hcases⟩ := indexEvent_cases env.text hnew size
  rw [← hindex] at hentries hcases
  rcases hcases with ⟨hok, -⟩ | ⟨-, -, hordered⟩
  · exact absurd (hresult.trans hok) hfailed
  refine ⟨?_, ?_, ?_, fun b hb => ?_, fun e he => ?_⟩
  · rw [hfile]
    exact h.header
  · rw [hfile, hend]
    exact h.frames
  · rw [hfile, hend]
    exact h.end_le
  · rw [hentries, FMap.contains, FMap.get_insert]
    split
    · rfl
    · exact h.contains b hb
  · rw [hordered] at he
    exact h.ordered e he

theorem Framed.indexAtEnd (h : Framed env w es) (hframe : FrameAt env w.file w.endOffset size event)
    (hok : (w.indexAtEnd env event size).2 = .ok ()) :
    Framed env { (w.indexAtEnd env event size).1 with endOffset := w.endOffset + 4 + size }
      (es ++ [⟨event, size⟩]) := by
  obtain ⟨hfile, -, -⟩ := indexAtEnd_file env w event size
  obtain ⟨hindex, hresult⟩ := indexAtEnd_index env w event size
  refine ⟨?_, ?_, ?_, ?_, ?_⟩
  · change (w.indexAtEnd env event size).1.file.take magic.length = magic
    rw [hfile]
    exact h.header
  · change Frames env (w.indexAtEnd env event size).1.file magic.length _ _
    rw [hfile]
    exact h.frames.append hframe.frames
  · change w.endOffset + 4 + size ≤ (w.indexAtEnd env event size).1.file.length
    rw [hfile]
    exact hframe.fits
  · intro b hb
    change (w.indexAtEnd env event size).1.index.entries.contains b.id = true
    cases hnew : w.index.entries.contains event.eventId with
    | true =>
      rw [indexAtEnd_of_contains hnew]
      rcases mem_append.mp hb with hb | hb
      · exact h.contains b hb
      · rw [mem_singleton.mp hb]
        exact hnew
    | false =>
    rw [hindex, (indexEvent_cases env.text hnew size).1, FMap.contains, FMap.get_insert]
    split
    · rfl
    next hne =>
    rcases mem_append.mp hb with hb | hb
    · exact h.contains b hb
    · rw [mem_singleton.mp hb] at hne
      exact absurd rfl hne
  · intro e he
    change e ∈ (w.indexAtEnd env event size).1.index.ordered at he
    cases hnew : w.index.entries.contains event.eventId with
    | true =>
      rw [indexAtEnd_of_contains hnew] at he
      exact (h.ordered e he).append _
    | false =>
    rcases (indexEvent_cases env.text hnew size).2.2 with ⟨-, hordered⟩ | ⟨hfailed, -⟩
    · rw [hindex, hordered, Sorted.mem_insertSorted] at he
      rcases he with rfl | he
      · -- a frame of the same event would be in the maps
        refine First.last fun b hb hid => ?_
        have hcontains := h.contains b hb
        rw [hid] at hcontains
        exact Bool.false_ne_true (hnew.symm.trans hcontains)
      · exact (h.ordered e he).append _
    · exact absurd (hresult.symm.trans hok) hfailed

theorem Scanned.indexAtEnd (h : Scanned env w es)
    (hframe : FrameAt env w.file w.endOffset size event)
    (hok : (w.indexAtEnd env event size).2 = .ok ()) :
    Scanned env { (w.indexAtEnd env event size).1 with endOffset := w.endOffset + 4 + size }
      (es ++ [⟨event, size⟩]) := by
  obtain ⟨hindex, hresult⟩ := indexAtEnd_index env w event size
  refine ⟨h.toFramed.indexAtEnd hframe hok, fun id hid => ?_, fun e he => ?_⟩
  · change (w.indexAtEnd env event size).1.index.entries.contains id = true at hid
    cases hnew : w.index.entries.contains event.eventId with
    | true =>
      rw [indexAtEnd_of_contains hnew] at hid
      obtain ⟨b, hb, hbid⟩ := h.contained id hid
      exact ⟨b, mem_append_left _ hb, hbid⟩
    | false =>
    rw [hindex, (indexEvent_cases env.text hnew size).1, FMap.contains, FMap.get_insert] at hid
    split at hid
    next heq => exact ⟨_, mem_append_right _ (mem_singleton_self _), heq.symm⟩
    · obtain ⟨b, hb, hbid⟩ := h.contained id hid
      exact ⟨b, mem_append_left _ hb, hbid⟩
  · change e ∈ (w.indexAtEnd env event size).1.index.ordered
    cases hnew : w.index.entries.contains event.eventId with
    | true =>
      rw [indexAtEnd_of_contains hnew]
      rcases he.of_append_singleton with hold | ⟨-, hfresh⟩
      · exact h.firsts e hold
      · obtain ⟨b, hb, hbid⟩ := h.contained event.eventId hnew
        exact absurd hbid (hfresh b hb)
    | false =>
      rcases (indexEvent_cases env.text hnew size).2.2 with ⟨-, hordered⟩ | ⟨hfailed, -⟩
      · rw [hindex, hordered, Sorted.mem_insertSorted]
        exact he.of_append_singleton.symm.imp And.left (h.firsts e)
      · exact absurd (hresult.symm.trans hok) hfailed

end Indexing

/-! ### Opening -/

theorem Scanned.afterHeader {file : Bytes} (hmagic : file.take magic.length = magic) :
    Scanned env (Worker.afterHeader file) [] where
  header := hmagic
  frames := .nil _
  end_le := by
    have hlength := congrArg length hmagic
    rw [length_take] at hlength
    change magic.length ≤ file.length
    omega
  contains := by intro b hb; cases hb
  ordered := by intro e he; cases he
  contained := by intro id hid; cases hid
  firsts := by
    rintro e ⟨before, after, hsplit, -⟩
    exact absurd hsplit.symm (by simp)

theorem Scanned.scan {fuel : ℕ} {w' : Worker} (h : Scanned env w es)
    (hframes : Frames env w.file w.endOffset es' stop)
    (hfuel : w.file.length ≤ w.endOffset + fuel) (hscan : Worker.scan env fuel w = .ok w') :
    ∃ more, Scanned env w' (es ++ es' ++ more) := by
  induction fuel generalizing w es es' stop with
  | zero =>
    obtain rfl : w = w' := Except.ok.inj hscan
    cases hframes with
    | nil => exact ⟨[], by rw [append_nil, append_nil]; exact h⟩
    | cons hfits => omega
  | succ fuel ih =>
  -- where nothing more can be read, the frames are at their end
  have hend : w.file.length - w.endOffset < 4 ∨
      w.file.length - w.endOffset - 4 < getUint32 ((w.file.drop w.endOffset).take 4) →
        es' = [] := by
    intro hshort
    cases hframes with
    | nil => rfl
    | cons hfits hsize => omega
  have htruncated : Scanned env { w with file := w.file.take w.endOffset } es := by
    have hframed := h.toFramed.of_file (w.file.take w.endOffset) w.poisoned
      (by rw [take_take, Nat.min_self]) (by rw [length_take_of_le h.end_le])
    exact ⟨hframed, h.contained, h.firsts⟩
  unfold Worker.scan at hscan
  split at hscan
  · obtain rfl : w = w' := Except.ok.inj hscan
    obtain rfl := hend (.inl (by omega))
    exact ⟨[], by rw [append_nil, append_nil]; exact h⟩
  split at hscan
  · next hfour =>
    obtain rfl := hend (.inl hfour)
    rw [← Except.ok.inj hscan]
    exact ⟨[], by rw [append_nil, append_nil]; exact htruncated⟩
  dsimp only at hscan
  split at hscan
  · cases hscan
  next hbounds =>
  split at hscan
  · next hshort =>
    obtain rfl := hend (.inr hshort)
    rw [← Except.ok.inj hscan]
    exact ⟨[], by rw [append_nil, append_nil]; exact htruncated⟩
  next hfour hfits =>
  split at hscan
  · cases hscan
  next event hdecode =>
  split at hscan
  · cases hscan
  split at hscan
  · cases hscan
  next w₁ hindexed =>
  have hframe : FrameAt env w.file w.endOffset (getUint32 ((w.file.drop w.endOffset).take 4))
      event := ⟨by omega, rfl, by omega, by omega, hdecode⟩
  obtain ⟨hfile, -, -⟩ := indexAtEnd_file env w event
    (getUint32 ((w.file.drop w.endOffset).take 4))
  have hnext := h.indexAtEnd hframe (by rw [hindexed])
  rw [hindexed] at hnext hfile
  have hfile' : w₁.file = w.file := hfile
  have hfuel' : w₁.file.length ≤
      w.endOffset + 4 + getUint32 ((w.file.drop w.endOffset).take 4) + fuel := by
    rw [hfile']
    omega
  cases hframes with
  | nil =>
    obtain ⟨more, hmore⟩ := ih hnext (.nil _) hfuel' hscan
    exact ⟨_ :: more, by
      rw [append_nil] at hmore ⊢
      rw [append_cons]
      exact hmore⟩
  | @cons _ _ _ event' rest hfits' hsize' hmin hmax hdecode' hrest =>
  -- the frame that the scan reads is the first of them
  subst hsize'
  obtain rfl : event = event' := Except.ok.inj (hdecode.symm.trans hdecode')
  have hrest' : Frames env w₁.file
      (w.endOffset + 4 + getUint32 ((w.file.drop w.endOffset).take 4)) rest stop := by
    rw [hfile']
    exact hrest
  obtain ⟨more, hmore⟩ := ih hnext hrest' hfuel' hscan
  exact ⟨more, by
    rw [append_cons es]
    exact hmore⟩

theorem Framed.reopened {w' : Worker} (h : Framed env w es)
    (hopen : Worker.openJournal env w.file = .ok w') : ∃ more, Scanned env w' (es ++ more) := by
  have hlength : w.file.length ≠ 0 := by
    have hle := h.header_le.trans h.end_le
    have hpos : 0 < magic.length := by decide
    omega
  unfold Worker.openJournal at hopen
  rw [if_neg hlength] at hopen
  rw [if_neg (not_not_intro h.header)] at hopen
  have hfuel : (Worker.afterHeader w.file).file.length ≤
      (Worker.afterHeader w.file).endOffset + w.file.length := Nat.le_add_left _ _
  obtain ⟨more, hmore⟩ := (Scanned.afterHeader h.header).scan h.frames hfuel hopen
  exact ⟨more, hmore⟩

/-! ### Appending -/

theorem frameAt_overwrite {event decoded : GroupHistoryEvent} {nonce : Nonce}
    (hend : w.endOffset ≤ w.file.length)
    (hdecode : env.decodeEvent (env.codec.encode event) = .ok decoded)
    (hgroup : decoded.groupId = env.groupId) :
    FrameAt env (Worker.overwrite w.file w.endOffset
        (setUint32 (env.sealFrame nonce w.endOffset (env.codec.encode event)).length ++
          env.sealFrame nonce w.endOffset (env.codec.encode event)))
      w.endOffset (env.sealFrame nonce w.endOffset (env.codec.encode event)).length decoded := by
  have hframe := decodeFrame_sealFrame hdecode hgroup nonce w.endOffset
  have hlength : (env.sealFrame nonce w.endOffset (env.codec.encode event)).length =
      (env.codec.encode event).length + 28 := sealFrame_length _ _ _
  have hmax : (env.codec.encode event).length ≤ groupEventMaxBytes := by
    by_contra hlarge
    unfold Env.decodeEvent Codec.decode at hdecode
    rw [if_pos (not_le.mp hlarge)] at hdecode
    cases hdecode
  have hbound : (env.sealFrame nonce w.endOffset (env.codec.encode event)).length ≤ maxFrame := by
    rw [hlength]
    exact Nat.add_le_add_right hmax 28
  generalize env.sealFrame nonce w.endOffset (env.codec.encode event) = frame
    at hframe hlength hbound
  have hdrop : (Worker.overwrite w.file w.endOffset (setUint32 frame.length ++ frame)).drop
      w.endOffset = setUint32 frame.length ++ (frame ++ w.file.drop (w.endOffset +
        (setUint32 frame.length ++ frame).length)) := by
    unfold Worker.overwrite
    rw [append_assoc, drop_left' (length_take_of_le hend), append_assoc]
  refine ⟨?_, ?_, by omega, hbound, ?_⟩
  · have hle := @le_overwrite_length w.file (setUint32 frame.length ++ frame) w.endOffset hend
    rw [length_append, setUint32_length] at hle
    omega
  · rw [hdrop]
    refine getUint32_setUint32 (hbound.trans_lt ?_)
    decide
  · rw [← drop_drop, hdrop, drop_left' (setUint32_length _), take_left' rfl]
    exact hframe

/-- **An append keeps the frames**, whatever becomes of the write, and adds at most one. -/
theorem Framed.append (h : Framed env w es) (event : GroupHistoryEvent) (nonce : Nonce)
    (io : WriteOutcome) : ∃ more, Framed env (w.append env event nonce io).1 (es ++ more) := by
  have hsame : ∀ {w' : Worker}, Framed env w' es → ∃ more, Framed env w' (es ++ more) :=
    fun hframed => ⟨[], by rw [append_nil]; exact hframed⟩
  unfold Worker.append
  split
  · exact hsame h
  split
  · exact hsame h
  next decoded hdecode =>
  split
  · exact hsame h
  next hcheck =>
  split
  · exact hsame h
  have hframe := @frameAt_overwrite env w event decoded nonce h.end_le hdecode
    (groupId_of_checkEvent hcheck)
  generalize env.sealFrame nonce w.endOffset (env.codec.encode event) = frame at hframe
  have hover : ∀ bytes poisoned, Framed env { w with
      file := Worker.overwrite w.file w.endOffset bytes, poisoned := poisoned } es := by
    intro bytes poisoned
    refine h.of_file _ poisoned (overwrite_take h.end_le) ?_
    have hle := @le_overwrite_length w.file bytes w.endOffset h.end_le
    omega
  unfold Worker.writeFrame
  cases io with
  | rolledBack =>
    refine hsame (h.of_file (w.file.take w.endOffset) w.poisoned ?_ ?_)
    · rw [take_take, Nat.min_self]
    · rw [length_take_of_le h.end_le]
  | poisoned reached => exact hsame (hover _ true)
  | written =>
  have hwritten := hover (setUint32 frame.length ++ frame) w.poisoned
  dsimp only
  split
  · next e herror =>
    refine hsame (hwritten.indexAtEnd_failed ?_)
    rw [herror]
    exact fun hcontra => by cases hcontra
  next hok => exact ⟨_, hwritten.indexAtEnd hframe hok⟩

theorem ordered_kept (w : Worker) (event : GroupHistoryEvent) (nonce : Nonce) (io : WriteOutcome)
    {e : Entry} (he : e ∈ w.index.ordered) :
    e ∈ (w.append env event nonce io).1.index.ordered := by
  rcases append_cases env w event nonce io with
    ⟨hsame, -⟩ | ⟨decoded, size, -, -, hnew, -, hindex, -⟩
  · rw [hsame]
    exact he
  · rw [hindex]
    rcases (indexEvent_cases env.text hnew size).2.2 with ⟨-, hordered⟩ | ⟨-, -, hordered⟩
    · rw [hordered, Sorted.mem_insertSorted]
      exact .inr he
    · rw [hordered]
      exact he

/-! ### Runs of a replica -/

variable {d : Device}

/-- The worker behind a replica has its frames. -/
def Replica.Framed (d : Device) (replica : Replica) : Prop :=
  ∃ es, Journal.Framed d.env replica.worker es

theorem worker_step (d : Device) (replica : Replica) (call : Device.Call) :
    (d.machine.step replica call).1.worker = replica.worker ∨
      (∃ event nonce io, (d.machine.step replica call).1.worker =
        (replica.worker.append d.env event nonce io).1) ∨
      Worker.openJournal d.env replica.worker.file =
        .ok (d.machine.step replica call).1.worker := by
  cases call with
  | importMembership proof nonce io =>
    change (d.importMembership replica proof nonce io).1.worker = _ ∨ _
    unfold Device.machine Device.importMembership
    dsimp only
    split
    · exact .inl rfl
    split
    · split
      next heq => exact .inr (.inl ⟨proof, nonce, io, by rw [heq]⟩)
      next heq => exact .inr (.inl ⟨proof, nonce, io, by rw [heq]⟩)
    · exact .inl rfl
  | importEvent event carrierDeviceId nonce io =>
    unfold Device.machine Device.importEvent
    dsimp only
    split
    · exact .inl rfl
    · exact .inr (.inl ⟨event, nonce, io, rfl⟩)
  | restart =>
    unfold Device.machine Device.restart Device.restore
    dsimp only
    split
    · exact .inl rfl
    next restored hrestore =>
    split at hrestore
    · cases hrestore
    next w hopen =>
    split at hrestore
    · cases hrestore
    rw [← Except.ok.inj hrestore]
    exact .inr (.inr hopen)

theorem ordered_step {replica : Replica} (h : replica.Framed d) (call : Device.Call) :
    (d.machine.step replica call).1.Framed d ∧ ∀ e ∈ replica.worker.index.ordered,
      e ∈ (d.machine.step replica call).1.worker.index.ordered := by
  obtain ⟨es, hes⟩ := h
  unfold Replica.Framed
  rcases worker_step d replica call with hsame | ⟨event, nonce, io, happend⟩ | hopen
  · rw [hsame]
    exact ⟨⟨es, hes⟩, fun e he => he⟩
  · rw [happend]
    obtain ⟨more, hmore⟩ := hes.append event nonce io
    exact ⟨⟨_, hmore⟩, fun e he => ordered_kept _ event nonce io he⟩
  · obtain ⟨more, hmore⟩ := hes.reopened hopen
    exact ⟨⟨_, hmore.toFramed⟩, fun e he => hmore.firsts e ((hes.ordered e he).append more)⟩

theorem framed_fresh (d : Device) : d.fresh.Framed d := by
  have hmagic : magic.take magic.length = magic := take_length
  exact ⟨[], (Scanned.afterHeader hmagic).toFramed⟩

theorem ordered_run {replica : Replica} (h : replica.Framed d) (calls : List Device.Call) :
    (d.machine.run replica calls).Framed d ∧ ∀ e ∈ replica.worker.index.ordered,
      e ∈ (d.machine.run replica calls).worker.index.ordered := by
  refine Machine.run_induction (I := fun r : Replica => r.Framed d ∧
    ∀ e ∈ replica.worker.index.ordered, e ∈ r.worker.index.ordered) ?_ ⟨h, fun e he => he⟩
  rintro r call - ⟨hframed, hkept⟩
  obtain ⟨hframed', hkept'⟩ := ordered_step hframed call
  exact ⟨hframed', fun e he => hkept' e (hkept e he)⟩

end Journal
end Conest
