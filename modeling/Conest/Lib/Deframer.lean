import Conest.Lib.Dart

/-!
# Splitting a byte stream into frames

A `Deframer` is fed chunks of a stream and gives back the frames each chunk completes. What is
wanted of one is that the cuts do not matter: `Incremental` says that a chunk may be fed in two
parts, and `feed_eq_add` that then a whole run of chunks gives what the stream gives in one piece.

Two kinds are incremental by construction. `ofStep` reads byte after byte and keeps its whole
state between two bytes. `ofNext` keeps a buffer and scans it from the front, one `Progress` at a
time; here the argument is about the scan: what it decides on a buffer it decides on any longer
one (`Lawful`), so a scan that ran out of bytes goes on as if it had seen them all at once.
-/

namespace Lib

open List

/-- A deframer: its state at the start, and what a chunk makes of a state. -/
structure Deframer (σ Frame : Type) where
  start : σ
  add : σ → Bytes → List Frame × σ

namespace Deframer

variable {σ Frame : Type} (d : Deframer σ Frame)

variable {a b r : Bytes} {s t u : σ}

/-- Feed chunk after chunk. -/
def feed (s : σ) : List Bytes → List Frame × σ
  | [] => ([], s)
  | chunk :: chunks =>
    ((d.add s chunk).1 ++ (feed (d.add s chunk).2 chunks).1, (feed (d.add s chunk).2 chunks).2)

/-- A chunk may be fed in two parts, and an empty one changes nothing, in every state with `I`,
which chunks keep. -/
structure Incremental (I : σ → Prop) : Prop where
  start : I d.start
  keeps : ∀ s chunk, I s → I (d.add s chunk).2
  nil : ∀ s, I s → d.add s [] = ([], s)
  append : ∀ s a b, I s →
    d.add s (a ++ b) = ((d.add s a).1 ++ (d.add (d.add s a).2 b).1, (d.add (d.add s a).2 b).2)

variable {d}

/-- **The cuts do not matter**: chunks give what their concatenation gives. -/
theorem feed_eq_add {I : σ → Prop} (h : d.Incremental I) (hs : I s) (chunks : List Bytes) :
    d.feed s chunks = d.add s chunks.flatten := by
  induction chunks generalizing s with
  | nil => exact (h.nil s hs).symm
  | cons chunk chunks ih =>
    rw [feed, ih (h.keeps s chunk hs), flatten_cons, h.append s chunk _ hs]

variable (d)

/-- The frames a stream gives do not depend on where it is cut. -/
def CutFree : Prop :=
  ∀ chunks chunks' : List Bytes, chunks.flatten = chunks'.flatten →
    (d.feed d.start chunks).1 = (d.feed d.start chunks').1

/-- However the stream is cut, these are the frames it gives. -/
def Recovers (stream : Bytes) (frames : List Frame) : Prop :=
  ∀ chunks : List Bytes, chunks.flatten = stream → (d.feed d.start chunks).1 = frames

variable {d}

section

variable {I : σ → Prop} (h : d.Incremental I)

include h

theorem Incremental.cutFree : d.CutFree := by
  intro chunks chunks' heq
  rw [feed_eq_add h h.start, feed_eq_add h h.start, heq]

theorem Incremental.recovers {stream : Bytes} {frames : List Frame}
    (hwhole : (d.add d.start stream).1 = frames) : d.Recovers stream frames := by
  intro chunks hflat
  rw [feed_eq_add h h.start, hflat, hwhole]

end

/-! ### Byte after byte -/

/-- What a run of bytes gives, one step a byte. -/
def steps (step : σ → UInt8 → Option Frame × σ) (s : σ) : Bytes → List Frame × σ
  | [] => ([], s)
  | byte :: bytes =>
    ((step s byte).1.toList ++ (steps step (step s byte).2 bytes).1,
      (steps step (step s byte).2 bytes).2)

theorem steps_append (step : σ → UInt8 → Option Frame × σ) (s : σ) (a b : Bytes) :
    steps step s (a ++ b) =
      ((steps step s a).1 ++ (steps step (steps step s a).2 b).1,
        (steps step (steps step s a).2 b).2) := by
  induction a generalizing s with
  | nil => rfl
  | cons byte bytes ih => simp[cons_append, steps, ih, append_assoc]

/-- The deframer that takes one step a byte. -/
def ofStep (start : σ) (step : σ → UInt8 → Option Frame × σ) : Deframer σ Frame where
  start := start
  add := steps step

theorem ofStep_incremental (start : σ) (step : σ → UInt8 → Option Frame × σ) :
    (ofStep start step).Incremental fun _ => True where
  start := trivial
  keeps := fun _ _ _ => trivial
  nil := fun _ _ => rfl
  append := fun s a b _ => steps_append step s a b

/-! ### Steps that may fail -/

/-- What a run of bytes gives where a step may fail, and with it the run. -/
def trySteps {ε : Type} (step : σ → UInt8 → Except ε (List Frame × σ)) (s : σ) :
    Bytes → Except ε (List Frame × σ)
  | [] => .ok ([], s)
  | byte :: bytes =>
    match step s byte with
    | .error e => .error e
    | .ok (frames, t) =>
      match trySteps step t bytes with
      | .error e => .error e
      | .ok (frames', u) => .ok (frames ++ frames', u)

section

variable {ε : Type} {step : σ → UInt8 → Except ε (List Frame × σ)}

theorem trySteps_singleton {byte : UInt8} {frames : List Frame}
    (h : step s byte = .ok (frames, t)) : trySteps step s [byte] = .ok (frames, t) := by
  unfold trySteps
  rw [h]
  show Except.ok (frames ++ [], t) = .ok (frames, t)
  rw [append_nil]

theorem trySteps_append {frames : List Frame} (h : trySteps step s a = .ok (frames, t)) :
    trySteps step s (a ++ b) =
      match trySteps step t b with
      | .error e => .error e
      | .ok (frames', u) => .ok (frames ++ frames', u) := by
  induction a generalizing s frames with
  | nil =>
    cases h
    rw [nil_append]
    cases trySteps step t b with
    | error e => rfl
    | ok result => rfl
  | cons byte bytes ih =>
  rw [trySteps] at h
  rw [cons_append, trySteps]
  cases hstep : step s byte with
  | error e =>
    rw [hstep] at h
    cases h
  | ok first =>
  obtain ⟨front, t'⟩ := first
  rw [hstep] at h
  simp only at h ⊢
  cases hrest : trySteps step t' bytes with
  | error e =>
    rw [hrest] at h
    cases h
  | ok rest =>
  obtain ⟨back, u⟩ := rest
  rw [hrest] at h
  cases h
  rw [ih hrest]
  cases trySteps step t b with
  | error e => rfl
  | ok result => simp

theorem trySteps_append_ok {frames frames' : List Frame} (h : trySteps step s a = .ok (frames, t))
    (h' : trySteps step t b = .ok (frames', u)) :
    trySteps step s (a ++ b) = .ok (frames ++ frames', u) := by
  rw [trySteps_append h, h']

theorem trySteps_of_append {frames all : List Frame} (h : trySteps step s a = .ok (frames, t))
    (hall : trySteps step s (a ++ b) = .ok (all, u)) :
    ∃ frames', trySteps step t b = .ok (frames', u) ∧ all = frames ++ frames' := by
  rw [trySteps_append h] at hall
  cases hrest : trySteps step t b with
  | error e =>
    rw [hrest] at hall
    cases hall
  | ok result =>
    obtain ⟨frames', v⟩ := result
    rw [hrest] at hall
    cases hall
    exact ⟨frames', rfl, rfl⟩

end

/-! ### A buffer scanned from the front -/

/-- What one round of a scan decides: wait for more bytes, drop some and look again, or take a
frame; each with the buffer it leaves. -/
inductive Progress (Frame : Type) where
  | wait (rest : Bytes)
  | skip (rest : Bytes)
  | frame (frame : Frame) (rest : Bytes)

/-- Scan until a round waits. -/
def drain (next : Bytes → Progress Frame) : ℕ → Bytes → List Frame × Bytes
  | 0, buffer => ([], buffer)
  | fuel + 1, buffer =>
    match next buffer with
    | .wait rest => ([], rest)
    | .skip rest => drain next fuel rest
    | .frame frame rest => (frame :: (drain next fuel rest).1, (drain next fuel rest).2)

/-- The deframer that appends a chunk to its buffer and scans. -/
def ofNext (next : Bytes → Progress Frame) : Deframer Bytes Frame where
  start := []
  add buffer bytes := drain next ((buffer ++ bytes).length + 1) (buffer ++ bytes)

/-- **A scan that may stop anywhere.** A round that goes on shortens the buffer, and decides the
same when more bytes follow; what a round that waits has kept decides like the whole buffer. -/
structure Lawful (next : Bytes → Progress Frame) : Prop where
  wait_nil : next [] = .wait []
  skip_shorter : ∀ b r, next b = .skip r → r.length < b.length
  frame_shorter : ∀ b f r, next b = .frame f r → r.length < b.length
  skip_append : ∀ b r c, next b = .skip r → next (b ++ c) = .skip (r ++ c)
  frame_append : ∀ b f r c, next b = .frame f r → next (b ++ c) = .frame f (r ++ c)
  wait_append : ∀ b r c, next b = .wait r → next (b ++ c) = next (r ++ c)

section Drain

variable {next : Bytes → Progress Frame}

theorem drain_wait {fuel : ℕ} (h : next b = .wait r) (hfuel : 0 < fuel) :
    drain next fuel b = ([], r) := by
  obtain ⟨n, rfl⟩ := Nat.exists_eq_succ_of_ne_zero hfuel.ne'
  rw [drain, h]

section

variable (h : Lawful next)

include h

theorem Lawful.drain_fuel {fuel fuel' : ℕ} (hfuel : b.length < fuel) (hfuel' : b.length < fuel') :
    drain next fuel b = drain next fuel' b := by
  induction fuel generalizing fuel' b with
  | zero => exact absurd hfuel (Nat.not_lt_zero _)
  | succ fuel ih =>
  obtain ⟨n, rfl⟩ := Nat.exists_eq_succ_of_ne_zero (Nat.ne_zero_of_lt hfuel')
  cases hnext : next b with
  | wait r => rw [drain_wait hnext (Nat.succ_pos _), drain_wait hnext (Nat.succ_pos _)]
  | skip r =>
    have hshort := h.skip_shorter b r hnext
    rw [drain, drain, hnext]
    exact ih (by omega) (by omega)
  | frame f r =>
    have hshort := h.frame_shorter b f r hnext
    rw [drain, drain, hnext]
    dsimp only
    rw [ih (show r.length < fuel by omega) (show r.length < n by omega)]

theorem Lawful.drain_waits {fuel : ℕ} (hfuel : b.length < fuel) :
    next (drain next fuel b).2 = .wait (drain next fuel b).2 := by
  induction fuel generalizing b with
  | zero => exact absurd hfuel (Nat.not_lt_zero _)
  | succ fuel ih =>
  cases hnext : next b with
  | wait r =>
    have hsame := h.wait_append b r [] hnext
    rw [append_nil, append_nil, hnext] at hsame
    rw [drain_wait hnext (Nat.succ_pos _)]
    exact hsame.symm
  | skip r =>
    have hshort := h.skip_shorter b r hnext
    rw [drain, hnext]
    exact ih (by omega)
  | frame f r =>
    have hshort := h.frame_shorter b f r hnext
    rw [drain, hnext]
    exact ih (by omega)

/-- **A scan in two parts**: scanning the front, and then what it left with the rest, is scanning
the whole. -/
theorem Lawful.drain_append {c : Bytes} {fuel fuel₁ fuel₂ : ℕ} (hfuel : (b ++ c).length < fuel)
    (hfuel₁ : b.length < fuel₁) (hfuel₂ : ((drain next fuel₁ b).2 ++ c).length < fuel₂) :
    drain next fuel (b ++ c) =
      ((drain next fuel₁ b).1 ++ (drain next fuel₂ ((drain next fuel₁ b).2 ++ c)).1,
        (drain next fuel₂ ((drain next fuel₁ b).2 ++ c)).2) := by
  induction fuel₁ generalizing b fuel with
  | zero => exact absurd hfuel₁ (Nat.not_lt_zero _)
  | succ fuel₁ ih =>
  obtain ⟨n, rfl⟩ := Nat.exists_eq_succ_of_ne_zero (Nat.ne_zero_of_lt hfuel)
  cases hnext : next b with
  | wait r =>
    rw [drain_wait hnext (Nat.succ_pos _)] at hfuel₂ ⊢
    dsimp only at hfuel₂ ⊢
    obtain ⟨m, rfl⟩ := Nat.exists_eq_succ_of_ne_zero (Nat.ne_zero_of_lt hfuel₂)
    -- both scans decide alike, and then go on from the same buffer
    have hsame := h.wait_append b r c hnext
    rw [nil_append, drain, drain, hsame]
    rw [length_append] at hfuel hfuel₂
    cases hrest : next (r ++ c) with
    | wait r' => rfl
    | skip r' =>
      have hshort := h.skip_shorter _ _ hrest
      have hshort' := h.skip_shorter _ _ (hsame.trans hrest)
      rw [length_append] at hshort hshort'
      exact h.drain_fuel (by omega) (by omega)
    | frame f r' =>
    have hshort := h.frame_shorter _ _ _ hrest
    have hshort' := h.frame_shorter _ _ _ (hsame.trans hrest)
    rw [length_append] at hshort hshort'
    dsimp only
    rw [h.drain_fuel (show r'.length < n by omega) (show r'.length < m by omega)]
  | skip r =>
    have hshort := h.skip_shorter b r hnext
    rw [drain, h.skip_append b r c hnext]
    rw [drain, hnext] at hfuel₂ ⊢
    rw [length_append] at hfuel
    exact ih (by rw [length_append]; omega) (by omega) hfuel₂
  | frame f r =>
    have hshort := h.frame_shorter b f r hnext
    rw [drain, h.frame_append b f r c hnext]
    rw [drain, hnext] at hfuel₂ ⊢
    rw [length_append] at hfuel
    dsimp only at hfuel₂ ⊢
    rw [ih (show (r ++ c).length < n by rw [length_append]; omega) (by omega) hfuel₂]
    rfl

theorem Lawful.incremental :
    (ofNext next).Incremental fun buffer => next buffer = .wait buffer where
  start := h.wait_nil
  keeps := fun _ _ _ => h.drain_waits (Nat.lt_succ_self _)
  nil := by
    intro s hs
    show drain next ((s ++ []).length + 1) (s ++ []) = _
    rw [append_nil, drain_wait hs (Nat.succ_pos _)]
  append := by
    intro s a b _
    show drain next ((s ++ (a ++ b)).length + 1) (s ++ (a ++ b)) = _
    rw [← append_assoc]
    exact h.drain_append (Nat.lt_succ_self _) (Nat.lt_succ_self _) (Nat.lt_succ_self _)

theorem Lawful.drain_frame {f : Frame} (hnext : next b = .frame f r) : drain next (b.length + 1) b =
      (f :: (drain next (r.length + 1) r).1, (drain next (r.length + 1) r).2) := by
  have hshort := h.frame_shorter b f r hnext
  rw [drain, hnext]
  dsimp only
  rw [h.drain_fuel (show r.length < b.length by omega) (show r.length < r.length + 1 by omega)]

theorem Lawful.drain_frames {α : Type} {bytes : α → Bytes} {content : α → Frame}
    (hnext : ∀ f rest, next (bytes f ++ rest) = .frame (content f) rest) {rest : Bytes}
    (hrest : next rest = .wait r) (frames : List α) :
    (drain next ((frames.flatMap bytes ++ rest).length + 1) (frames.flatMap bytes ++ rest)).1 =
      frames.map content := by
  induction frames with
  | nil =>
    rw [flatMap_nil, nil_append, drain_wait hrest (Nat.succ_pos _)]
    rfl
  | cons f frames ih =>
    rw [flatMap_cons, append_assoc, h.drain_frame (hnext f _)]
    exact congrArg _ ih

end

/-! ### Frames with a header -/

/-- What a round decides on `b` it decides when `c` follows, or it waits with what it keeps. -/
def Stable (kept : Bytes → Prop) (next : Bytes → Progress Frame) (b c : Bytes) : Prop :=
  match next b with
  | .wait r => kept r
  | .skip r => r.length < b.length ∧ next (b ++ c) = .skip (r ++ c)
  | .frame f r => r.length < b.length ∧ next (b ++ c) = .frame f (r ++ c)

/-- A header that waits has kept everything. -/
def Headed (header : Bytes → Progress Frame) : Prop := ∀ b c, Stable (· = b) header b c

theorem stable_sized {header : Bytes → Progress Bytes} {none : Prop} [Decidable none] {length : ℕ}
    {after rest : Bytes} (hafter : after.length < b.length) (hrest : rest.length < b.length)
    (hheader : ∀ c, header (b ++ c) = if none then .skip (after ++ c)
      else if (rest ++ c).length < length then .wait (b ++ c)
      else .frame ((rest ++ c).take length) ((rest ++ c).drop length)) (c : Bytes) :
    Stable (· = b) header b c := by
  have hhere := hheader []
  simp only [append_nil] at hhere
  unfold Stable
  rw [hheader c, hhere]
  by_cases hnone : none
  · rw [if_pos hnone, if_pos hnone]
    exact ⟨hafter, rfl⟩
  rw [if_neg hnone, if_neg hnone]
  by_cases hshort : rest.length < length
  · rw [if_pos hshort]
  -- the payload lies in the buffer, so more bytes behind it change nothing
  have hle := not_lt.mp hshort
  rw [if_neg hshort, if_neg (by rw [length_append]; omega), take_append_of_le_length hle,
    drop_append_of_le_length hle]
  exact ⟨by rw [length_drop]; omega, rfl⟩

/-- **A scan for headers**: a round drops what cannot begin one, or reads the first. -/
theorem Lawful.of_scan {header : Bytes → Progress Frame} (h : Headed header)
    (hnil : next [] = .wait [])
    (hscan : ∀ b, (∃ r, next b = .wait r ∧ ∀ c, next (b ++ c) = next (r ++ c)) ∨
      ∃ noise rest, b = noise ++ rest ∧ next b = header rest ∧
        ∀ c, next (b ++ c) = header (rest ++ c) ∧ next (rest ++ c) = header (rest ++ c)) :
    Lawful next := by
  have hround : ∀ b c, Stable (fun r => next (b ++ c) = next (r ++ c)) next b c := by
    intro b c
    unfold Stable
    obtain ⟨r, hwait, hmore⟩ | ⟨noise, rest, rfl, hhere, hmore⟩ := hscan b
    · rw [hwait]
      exact hmore c
    have hheader := h rest c
    unfold Stable at hheader
    rw [hhere, (hmore c).1, length_append]
    cases hdecides : header rest with
    | wait r =>
      rw [hdecides] at hheader
      rw [hheader]
      exact (hmore c).2.symm
    | skip r =>
      rw [hdecides] at hheader
      exact ⟨by omega, hheader.2⟩
    | frame f r =>
      rw [hdecides] at hheader
      exact ⟨by omega, hheader.2⟩
  unfold Stable at hround
  have hskip : ∀ b r c, next b = .skip r →
      r.length < b.length ∧ next (b ++ c) = .skip (r ++ c) := fun b r c hnext => by
    simpa only [hnext] using hround b c
  have hframe : ∀ b f r c, next b = .frame f r →
      r.length < b.length ∧ next (b ++ c) = .frame f (r ++ c) := fun b f r c hnext => by
    simpa only [hnext] using hround b c
  exact ⟨hnil, fun b r hnext => (hskip b r [] hnext).1, fun b f r hnext => (hframe b f r [] hnext).1,
    fun b r c hnext => (hskip b r c hnext).2, fun b f r c hnext => (hframe b f r c hnext).2,
    fun b r c hnext => by simpa only [hnext] using hround b c⟩

end Drain

end Deframer

end Lib
