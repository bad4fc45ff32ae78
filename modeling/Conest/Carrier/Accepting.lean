import Conest.Carrier.Collecting

/-!
# What one frame does

One frame of an envelope adds its chunk to what is held of the envelope, or completes it
(`Tracked.own`). Every other frame leaves it alone (`Tracked.other`), as long as it does not expire
and is not the one dropped to make room.

Contacts and strangers differ in their keys and in how room is made. `opened` is what the two share:
the pool with room, and the entry that the frame goes into.
-/

namespace Conest
namespace Carrier

open Lib Option

theorem map_eq_ok {α β : Type} {f : α → β} {x : Except String α} {y : β}
    (h : x.map f = .ok y) : ∃ a, x = .ok a ∧ f a = y := by
  cases x with
  | error e => cases h
  | ok a => exact ⟨a, rfl, Except.ok.inj h⟩

/-! ### Opening an entry -/

namespace CarrierReassembler

variable (config : Config)

/-- Room for a new partial envelope of a sender. -/
def roomFor (sender : DartString) (pool : LinkedMap DartString PendingEnvelope) :
    Except String (LinkedMap DartString PendingEnvelope) :=
  if isStranger config sender then makeStrangerRoom config pool else makeRoom config sender pool

/-- The entry that a frame goes into, in the pool where it is to be put. -/
def opened (sender key : DartString) (now count : ℤ)
    (pool : LinkedMap DartString PendingEnvelope) :
    Except String (LinkedMap DartString PendingEnvelope × PendingEnvelope) :=
  match pool.get key with
  | some entry => .ok (pool, entry)
  | none => (roomFor config sender pool).map fun pool => (pool, ⟨count, now, FMap.empty⟩)

/-- The check that a frame has to pass. -/
def Valid (part : Part) : Prop :=
  ¬ (part.count < 1 ∨ config.framing.maxFrames < part.count ∨ part.index < 0 ∨
    part.count ≤ part.index ∨ part.chunk.isEmpty ∨ config.framing.chunkBytes < part.chunk.length)

variable {config} {r : CarrierReassembler} {now : ℤ} {sender : DartString} {part : Part}
  {pool : LinkedMap DartString PendingEnvelope} {entry : PendingEnvelope}

theorem acceptPart_single (hvalid : Valid config part) (hcount : part.count = 1) :
    r.acceptPart config now sender (some part) = (r, .ok (some part.chunk)) := by
  show accept config r now sender part.id part.index part.count part.chunk = _
  unfold accept
  rw [if_neg hvalid, if_pos hcount]

theorem acceptPart_eq (hvalid : Valid config part) (hsingle : part.count ≠ 1) :
    r.acceptPart config now sender (some part) =
      if isStranger config sender then
        acceptStranger config { r with pending := sweep config now r.pending } now sender part.id
          part.index part.count part.chunk
      else acceptContact config { r with pending := sweep config now r.pending } now sender part.id
          part.index part.count part.chunk := by
  show accept config r now sender part.id part.index part.count part.chunk = _
  unfold accept
  rw [if_neg hvalid, if_neg hsingle]

/-- **A frame into an open entry.** The chunk is added; the last one completes the envelope. -/
theorem acceptPart_opened (hvalid : Valid config part) (hsingle : part.count ≠ 1)
    (hopened : opened config sender (keyOf config sender part.id part.count) now part.count
      (sweep config now (r.poolOf config sender)) = .ok (pool, entry))
    (hcount : entry.count = part.count)
    (hchunk : ∀ chunk, entry.chunks.get part.index = some chunk → chunk = part.chunk) :
    ∃ r', r.acceptPart config now sender (some part) =
        (r', if ((entry.chunks.insert part.index part.chunk).size : ℤ) < part.count then .ok none
          else .ok (some (assemble
            { entry with chunks := entry.chunks.insert part.index part.chunk } part.count))) ∧
      r'.poolOf config sender =
        if ((entry.chunks.insert part.index part.chunk).size : ℤ) < part.count then
          pool.put (keyOf config sender part.id part.count)
            { entry with chunks := entry.chunks.insert part.index part.chunk }
        else pool.remove (keyOf config sender part.id part.count) := by
  rw [acceptPart_eq hvalid hsingle]
  cases hstranger : isStranger config sender with
  | true =>
    -- the first chunk of an index stays, and it is the same
    have hkeep : (if entry.chunks.contains part.index then entry
        else { entry with chunks := entry.chunks.insert part.index part.chunk }) =
        { entry with chunks := entry.chunks.insert part.index part.chunk } := by
      split
      · next hcontains =>
        obtain ⟨chunk, hget⟩ := isSome_iff_exists.mp hcontains
        have hsame : entry.chunks.insert part.index part.chunk = entry.chunks := by
          ext1 j
          rw [FMap.get_insert]
          split
          next hj => rw [hj, hget, hchunk chunk hget]
          · rfl
        rw [hsame]
      · rfl
    simp only [opened, roomFor, poolOf, keyOf, hstranger, if_true] at hopened ⊢
    unfold acceptStranger
    cases hget : (sweep config now r.strangers).get
        (sender ++ bar ++ part.id ++ bar ++ digits part.count) with
    | some held =>
      rw [hget] at hopened
      cases hopened
      simp only [hget, hkeep]
      split
      · exact ⟨_, rfl, rfl⟩
      · exact ⟨_, rfl, rfl⟩
    | none =>
      rw [hget] at hopened
      obtain ⟨room, hroom, hpair⟩ := map_eq_ok hopened
      cases hpair
      simp only [hget, hroom, Except.map, hkeep]
      split
      · exact ⟨_, rfl, rfl⟩
      · exact ⟨_, rfl, rfl⟩
  | false =>
    simp only [opened, roomFor, poolOf, keyOf, hstranger, Bool.false_eq_true, if_false]
      at hopened ⊢
    unfold acceptContact
    cases hget : (sweep config now r.pending).get (sender ++ bar ++ part.id) with
    | some held =>
      rw [hget] at hopened
      cases hopened
      simp only [hget, hcount, ne_eq, not_true_eq_false, if_false]
      split
      · exact ⟨_, rfl, rfl⟩
      · exact ⟨_, rfl, rfl⟩
    | none =>
    rw [hget] at hopened
    obtain ⟨room, hroom, hpair⟩ := map_eq_ok hopened
    cases hpair
    simp only [hget, hroom, Except.map, ne_eq, not_true_eq_false, if_false]
    split
    · exact ⟨_, rfl, rfl⟩
    · exact ⟨_, rfl, rfl⟩

/-! ### The other entries -/

section Others

variable {id : DartString} {index count : ℤ} {chunk : Bytes} {k s : DartString}

/-- At most the entry of one key differs. -/
def Touched (pool : LinkedMap DartString PendingEnvelope) (key : DartString)
    (pool' : LinkedMap DartString PendingEnvelope) : Prop :=
  pool' = pool ∨ pool' = pool.remove key ∨ ∃ entry, pool' = pool.put key entry

theorem Touched.get {pool pool' : LinkedMap DartString PendingEnvelope} {key : DartString}
    (h : Touched pool key pool') (hk : k ≠ key) : pool'.get k = pool.get k := by
  obtain rfl | rfl | ⟨entry, rfl⟩ := h
  · rfl
  · rw [LinkedMap.get_remove, if_neg hk]
  · rw [LinkedMap.get_put, if_neg hk]

/-- The pool that a frame finds: with room made if its entry is new. -/
def Roomy (made : Except String (LinkedMap DartString PendingEnvelope)) (key : DartString)
    (before pool : LinkedMap DartString PendingEnvelope) : Prop :=
  pool = before ∨ before.get key = none ∧ made = .ok pool

theorem acceptContact_cases (r : CarrierReassembler) (now : ℤ) (sender id : DartString)
    (index count : ℤ) (chunk : Bytes) :
    ∃ pool pool', Roomy (makeRoom config sender r.pending) (sender ++ bar ++ id) r.pending pool ∧
      Touched pool (sender ++ bar ++ id) pool' ∧
      (acceptContact config r now sender id index count chunk).1 = ⟨pool', r.strangers⟩ := by
  unfold acceptContact
  cases hget : r.pending.get (sender ++ bar ++ id) with
  | some entry =>
    simp only [hget]
    by_cases hcount : entry.count ≠ count
    · exact ⟨r.pending, _, .inl rfl, .inr (.inl rfl), by rw [if_pos hcount]⟩
    by_cases hlt : ((entry.chunks.insert index chunk).size : ℤ) < count
    · exact ⟨r.pending, _, .inl rfl, .inr (.inr ⟨_, rfl⟩), by rw [if_neg hcount, if_pos hlt]⟩
    · exact ⟨r.pending, _, .inl rfl, .inr (.inl rfl), by rw [if_neg hcount, if_neg hlt]⟩
  | none =>
  cases hmade : makeRoom config sender r.pending with
  | error e =>
    exact ⟨r.pending, _, .inl rfl, .inl rfl, by simp only [hget, Except.map]⟩
  | ok pool =>
    simp only [hget, Except.map, ne_eq, not_true_eq_false, if_false]
    by_cases hlt : ((FMap.empty.insert index chunk).size : ℤ) < count
    · exact ⟨pool, _, .inr ⟨hget, rfl⟩, .inr (.inr ⟨_, rfl⟩), by rw [if_pos hlt]⟩
    · exact ⟨pool, _, .inr ⟨hget, rfl⟩, .inr (.inl rfl), by rw [if_neg hlt]⟩

theorem acceptStranger_cases (r : CarrierReassembler) (now : ℤ) (sender id : DartString)
    (index count : ℤ) (chunk : Bytes) :
    ∃ pool pool', Roomy (makeStrangerRoom config (sweep config now r.strangers))
        (sender ++ bar ++ id ++ bar ++ digits count) (sweep config now r.strangers) pool ∧
      Touched pool (sender ++ bar ++ id ++ bar ++ digits count) pool' ∧
      (acceptStranger config r now sender id index count chunk).1 = ⟨r.pending, pool'⟩ := by
  unfold acceptStranger
  cases hget : (sweep config now r.strangers).get (sender ++ bar ++ id ++ bar ++ digits count) with
  | some entry =>
    simp only [hget]
    generalize (if entry.chunks.contains index then entry
      else { entry with chunks := entry.chunks.insert index chunk }) = filled
    by_cases hlt : (filled.chunks.size : ℤ) < count
    · exact ⟨_, _, .inl rfl, .inr (.inr ⟨_, rfl⟩), by rw [if_pos hlt]⟩
    · exact ⟨_, _, .inl rfl, .inr (.inl rfl), by rw [if_neg hlt]⟩
  | none =>
  cases hmade : makeStrangerRoom config (sweep config now r.strangers) with
  | error e => exact ⟨_, _, .inl rfl, .inl rfl, by simp only [hget, hmade, Except.map]⟩
  | ok pool =>
  simp only [hget, hmade, Except.map]
  generalize (if (FMap.empty : FMap ℤ Bytes).contains index then
    (⟨count, now, FMap.empty⟩ : PendingEnvelope)
    else ⟨count, now, FMap.empty.insert index chunk⟩) = filled
  by_cases hlt : (filled.chunks.size : ℤ) < count
  · exact ⟨pool, _, .inr ⟨hget, rfl⟩, .inr (.inr ⟨_, rfl⟩), by rw [if_pos hlt]⟩
  · exact ⟨pool, _, .inr ⟨hget, rfl⟩, .inr (.inl rfl), by rw [if_neg hlt]⟩

theorem get_sweep_of_alive
    (halive : ∀ entry, pool.get k = some entry → now - entry.startedAt ≤ config.expiry) :
    (sweep config now pool).get k = pool.get k := by
  unfold sweep
  rw [LinkedMap.get_filter]
  cases hget : pool.get k with
  | none => rfl
  | some entry =>
    have hle := halive entry hget
    simpa using hle

theorem poolOf_of_eq {sender s : DartString}
    (h : isStranger config sender = isStranger config s) :
    r.poolOf config sender = r.poolOf config s := by
  unfold poolOf
  rw [h]

/-- **What a frame can do.** Nothing, or sweep; and if it is not the whole envelope, one entry of its
sender's pool is touched, after room has been made if it is new. -/
theorem acceptPart_cases (r : CarrierReassembler) (now : ℤ) (sender : DartString)
    (read : Option Part) :
    (r.acceptPart config now sender read).1 = r ∨
      ∃ part, read = some part ∧ Valid config part ∧ part.count ≠ 1 ∧
        ∃ pool pool', Roomy (roomFor config sender (sweep config now (r.poolOf config sender)))
            (keyOf config sender part.id part.count) (sweep config now (r.poolOf config sender))
            pool ∧
          Touched pool (keyOf config sender part.id part.count) pool' ∧
          (r.acceptPart config now sender read).1 =
            if isStranger config sender then ⟨sweep config now r.pending, pool'⟩
            else ⟨pool', r.strangers⟩ := by
  cases read with
  | none => exact .inl rfl
  | some part =>
  by_cases hvalid : Valid config part
  swap
  · refine .inl ?_
    show (accept config r now sender part.id part.index part.count part.chunk).1 = r
    unfold accept
    rw [if_pos (not_not.mp hvalid)]
  by_cases hsingle : part.count = 1
  · refine .inl ?_
    rw [acceptPart_single hvalid hsingle]
  refine .inr ⟨part, rfl, hvalid, hsingle, ?_⟩
  rw [acceptPart_eq hvalid hsingle]
  unfold roomFor keyOf poolOf
  cases hstranger : isStranger config sender with
  | true =>
    exact acceptStranger_cases { r with pending := sweep config now r.pending } now sender part.id
      part.index part.count part.chunk
  | false =>
    exact acceptContact_cases { r with pending := sweep config now r.pending } now sender part.id
      part.index part.count part.chunk

/-- **Other entries.** A frame leaves an entry alone that is not its own, has not expired and is not
dropped to make room. -/
theorem acceptPart_get {read : Option Part}
    (halive : ∀ entry, (r.poolOf config s).get k = some entry →
      now - entry.startedAt ≤ config.expiry)
    (hother : isStranger config sender = isStranger config s → ∀ part, read = some part →
      k ≠ keyOf config sender part.id part.count)
    (hroom : isStranger config sender = isStranger config s → ∀ part, read = some part →
      ∀ pool, Valid config part → part.count ≠ 1 →
        (sweep config now (r.poolOf config sender)).get
          (keyOf config sender part.id part.count) = none →
        roomFor config sender (sweep config now (r.poolOf config sender)) = .ok pool →
        pool.get k = (sweep config now (r.poolOf config sender)).get k) :
    ((r.acceptPart config now sender read).1.poolOf config s).get k =
      (r.poolOf config s).get k := by
  obtain hsame | ⟨part, hread, hvalid, hsingle, pool, pool', hpool, htouched, hafter⟩ :=
    acceptPart_cases r now sender read
  · rw [hsame]
  have hsweep : (sweep config now (r.poolOf config s)).get k = (r.poolOf config s).get k :=
    get_sweep_of_alive halive
  rw [hafter]
  by_cases hpools : isStranger config sender = isStranger config s
  · -- the frame goes into this pool
    have hown : ((if isStranger config sender then ⟨sweep config now r.pending, pool'⟩
        else ⟨pool', r.strangers⟩ : CarrierReassembler).poolOf config s) = pool' := by
      unfold poolOf
      rw [← hpools]
      cases isStranger config sender with
      | true => rfl
      | false => rfl
    have hk := hother hpools part hread
    rw [hown, htouched.get hk, ← hsweep, ← poolOf_of_eq hpools]
    obtain rfl | ⟨hnew, hmade⟩ := hpool
    · rfl
    · exact hroom hpools part hread pool hvalid hsingle hnew hmade
  · -- the frame goes into the other pool
    unfold poolOf at hsweep ⊢
    cases hsender : isStranger config sender with
    | true =>
      cases hs : isStranger config s with
      | true => exact absurd (hsender.trans hs.symm) hpools
      | false =>
        rw [hs] at hsweep
        exact hsweep
    | false =>
      cases hs : isStranger config s with
      | true => rfl
      | false => exact absurd (hsender.trans hs.symm) hpools

end Others

end CarrierReassembler

/-! ### What is held of an envelope -/

section Tracking

variable {config : Config} {done : List Arrival} {e : Envelope} {r : CarrierReassembler}
  {a : Arrival} {index : ℕ}

open CarrierReassembler

theorem valid_part (hfits : e.Fits config.framing) (hindex : index < e.count config.framing) :
    Valid config (e.part config.framing index) := by
  have hcount : e.count config.framing ≤ config.framing.maxFrames :=
    config.framing.frameCount_le_maxFrames hfits.2.1
  have hchunk : config.framing.chunk e.sealed index ≠ [] := config.framing.chunk_ne_nil hindex
  have hlength := config.framing.chunk_length_le e.sealed index
  show ¬ ((e.count config.framing : ℤ) < 1 ∨ (config.framing.maxFrames : ℤ) < e.count config.framing ∨
    (index : ℤ) < 0 ∨ (e.count config.framing : ℤ) ≤ index ∨
    (config.framing.chunk e.sealed index).isEmpty ∨
    config.framing.chunkBytes < (config.framing.chunk e.sealed index).length)
  rw [List.isEmpty_iff]
  rintro (h | h | h | h | h | h)
  · omega
  · omega
  · omega
  · omega
  · exact hchunk h
  · omega

theorem gotten_eq_empty (hopen : ¬ Complete config.framing done e)
    (hnot : ¬ Incomplete config.framing done e) : gotten config.framing done e = ∅ := by
  have hle : (gotten config.framing done e).card ≤ e.count config.framing := card_gotten_le
  unfold Complete at hopen
  unfold Incomplete at hnot
  rw [← Finset.card_eq_zero]
  omega

theorem Tracked.initial (config : Config) (e : Envelope) :
    Tracked config [] e CarrierReassembler.initial where
  held h := by
    unfold Incomplete at h
    rw [gotten_nil] at h
    exact absurd h.1 (Nat.lt_irrefl 0)
  nothing _ := by
    unfold entryOf poolOf
    split
    · rfl
    · rfl

/-- **An envelope's own frame**: it is added, and the last one returns the envelope. -/
theorem Tracked.own (hfits : e.Fits config.framing) (h : Tracked config done e r)
    (hpart : a.isPart config.framing e index = true) (hindex : index < e.count config.framing)
    (hopen : ¬ Complete config.framing done e)
    (halive : ∀ start, Incomplete config.framing done e →
      startOf config.framing done e = some start → a.now - start ≤ config.expiry)
    (hroom : ¬ Incomplete config.framing done e → 1 < e.count config.framing →
      ∃ pool, roomFor config e.sender (sweep config a.now (r.poolOf config e.sender)) = .ok pool) :
    Tracked config (done ++ [a]) e ((machine config).step r a).1 ∧
      ((machine config).step r a).2 =
        .ok (if Complete config.framing (done ++ [a]) e then some e.sealed else none) := by
  have hread := Arrival.read_of_isPart hfits hpart
  have hsender : a.sender = e.sender := (Arrival.isPart_iff.mp hpart).1
  have hadded : gotten config.framing (done ++ [a]) e =
      insert index (gotten config.framing done e) := gotten_own hfits hpart hindex
  have hvalid := valid_part hfits hindex
  rw [machine_step, hread, hsender]
  rcases Nat.lt_or_ge 1 (e.count config.framing) with hmany | hone
  swap
  · -- the envelope is one frame
    have hcount : e.count config.framing = 1 := by omega
    have hzero : index = 0 := by omega
    have hempty : gotten config.framing done e = ∅ := by
      refine gotten_eq_empty hopen fun hincomplete => ?_
      unfold Incomplete at hincomplete
      omega
    have hcomplete : Complete config.framing (done ++ [a]) e := by
      unfold Complete
      rw [hadded, hempty, insert_empty_eq, Finset.card_singleton, hcount]
    have hsealed : config.framing.chunk e.sealed index = e.sealed := by
      have hall := config.framing.flatMap_chunk e.sealed
      have hframes : config.framing.frameCount e.sealed.length = 1 := hcount
      rw [hframes] at hall
      rw [hzero]
      simpa using hall
    have hsingle : (e.part config.framing index).count = 1 := by
      show (e.count config.framing : ℤ) = 1
      rw [hcount]
      rfl
    rw [acceptPart_single hvalid hsingle, if_pos hcomplete]
    refine ⟨⟨fun hincomplete => ?_, fun _ => h.nothing fun hincomplete => ?_⟩, ?_⟩
    · exact absurd hcomplete (Nat.ne_of_lt hincomplete.2)
    · unfold Incomplete at hincomplete
      omega
    · show Except.ok (some (config.framing.chunk e.sealed index)) = _
      rw [hsealed]
  -- the entry into which the frame goes
  obtain ⟨pool, entry, hopened, hmatches, hstart⟩ : ∃ pool entry,
      opened config e.sender (keyOf config e.sender e.id (e.count config.framing)) a.now
        (e.count config.framing) (sweep config a.now (r.poolOf config e.sender)) =
          .ok (pool, entry) ∧
      Matches config e (gotten config.framing done e) entry ∧
      startOf config.framing (done ++ [a]) e = some entry.startedAt := by
    by_cases hincomplete : Incomplete config.framing done e
    · obtain ⟨entry, hentry, hmatches, hstart⟩ := h.held hincomplete
      have hget : (sweep config a.now (r.poolOf config e.sender)).get
          (keyOf config e.sender e.id (e.count config.framing)) = some entry := by
        rw [get_sweep_of_alive]
        · exact hentry
        · intro entry' hentry'
          rw [some.inj (hentry'.symm.trans hentry)]
          exact halive _ hincomplete hstart
      refine ⟨sweep config a.now (r.poolOf config e.sender), entry, ?_, hmatches,
        startOf_append hstart [a]⟩
      unfold opened
      rw [hget]
    · have hempty := gotten_eq_empty hopen hincomplete
      obtain ⟨pool, hmade⟩ := hroom hincomplete hmany
      have hget : (sweep config a.now (r.poolOf config e.sender)).get
          (keyOf config e.sender e.id (e.count config.framing)) = none := by
        rw [get_sweep_of_alive]
        · exact h.nothing hincomplete
        · intro entry' hentry'
          rw [show (r.poolOf config e.sender).get _ = none from h.nothing hincomplete] at hentry'
          cases hentry'
      refine ⟨pool, ⟨e.count config.framing, a.now, FMap.empty⟩, ?_, ?_, ?_⟩
      · unfold opened
        rw [hget, hmade]
        rfl
      · rw [hempty]
        exact Matches.empty e a.now
      · exact startOf_first hempty (Arrival.isOf_of_isPart hpart hindex)
  have hmore := hmatches.insert index
  rw [← hadded] at hmore
  have hsize := hmore.size
  have hcard : (gotten config.framing (done ++ [a]) e).card ≤ e.count config.framing :=
    card_gotten_le
  have hsingle : (e.part config.framing index).count ≠ 1 := by
    show (e.count config.framing : ℤ) ≠ 1
    omega
  have hchunk : ∀ chunk, entry.chunks.get (e.part config.framing index).index = some chunk →
      chunk = (e.part config.framing index).chunk := by
    intro chunk hchunk
    rw [show (e.part config.framing index).index = (index : ℤ) from rfl, hmatches.chunks] at hchunk
    split at hchunk
    · exact (some.inj hchunk).symm
    · cases hchunk
  obtain ⟨r', hstep, hpool⟩ := acceptPart_opened hvalid hsingle hopened hmatches.count hchunk
  rw [hstep]
  show Tracked config (done ++ [a]) e r' ∧ (if ((entry.chunks.insert (index : ℤ)
    (config.framing.chunk e.sealed index)).size : ℤ) < e.count config.framing then
      Except.ok none else _) = _
  by_cases hlt : ((entry.chunks.insert (index : ℤ)
      (config.framing.chunk e.sealed index)).size : ℤ) < e.count config.framing
  · -- more frames are missing
    have hless : (gotten config.framing (done ++ [a]) e).card < e.count config.framing := by
      rw [← hsize]
      exact Nat.cast_lt.mp hlt
    have hopen' : ¬ Complete config.framing (done ++ [a]) e := Nat.ne_of_lt hless
    rw [if_pos hlt, if_neg hopen']
    have hput := hpool.trans (if_pos hlt)
    refine ⟨⟨fun _ => ⟨_, ?_, hmore, hstart⟩, fun hnot => absurd ⟨?_, hless⟩ hnot⟩, rfl⟩
    · unfold entryOf
      rw [hput]
      exact (LinkedMap.get_put _).trans (if_pos rfl)
    · rw [hadded]
      exact Finset.card_pos.mpr ⟨index, Finset.mem_insert_self _ _⟩
  · -- this was the last one
    have hfull : (gotten config.framing (done ++ [a]) e).card = e.count config.framing := by
      have hge : ¬ (gotten config.framing (done ++ [a]) e).card < e.count config.framing := by
        rw [← hsize]
        exact fun hless => hlt (Nat.cast_lt.mpr hless)
      omega
    have hall : gotten config.framing (done ++ [a]) e =
        Finset.range (e.count config.framing) := by
      refine Finset.eq_of_subset_of_card_le gotten_subset ?_
      rw [Finset.card_range, hfull]
    rw [hall] at hmore
    have hcomplete : Complete config.framing (done ++ [a]) e := hfull
    rw [if_neg hlt, if_pos hcomplete]
    have hremove := hpool.trans (if_neg hlt)
    refine ⟨⟨fun hincomplete => absurd hfull (Nat.ne_of_lt hincomplete.2), fun _ => ?_⟩, ?_⟩
    · unfold entryOf
      rw [hremove]
      exact (LinkedMap.get_remove _).trans (if_pos rfl)
    · exact congrArg (fun sealed => Except.ok (some sealed)) hmore.assemble

theorem Tracked.other (h : Tracked config done e r) (hnot : a.isOf config.framing e = false)
    (halive : ∀ start, Incomplete config.framing done e →
      startOf config.framing done e = some start → a.now - start ≤ config.expiry)
    (hother : isStranger config a.sender = isStranger config e.sender →
      ∀ part, a.frame.read = some part →
        keyOf config e.sender e.id (e.count config.framing) ≠
          keyOf config a.sender part.id part.count)
    (hroom : isStranger config a.sender = isStranger config e.sender →
      ∀ part, a.frame.read = some part → ∀ pool, Valid config part → part.count ≠ 1 →
        (sweep config a.now (r.poolOf config a.sender)).get
          (keyOf config a.sender part.id part.count) = none →
        roomFor config a.sender (sweep config a.now (r.poolOf config a.sender)) = .ok pool →
        pool.get (keyOf config e.sender e.id (e.count config.framing)) =
          (sweep config a.now (r.poolOf config a.sender)).get
            (keyOf config e.sender e.id (e.count config.framing))) :
    Tracked config (done ++ [a]) e ((machine config).step r a).1 := by
  have hentry : entryOf config ((machine config).step r a).1 e = entryOf config r e := by
    rw [machine_step]
    refine acceptPart_get (fun entry hget => ?_) hother hroom
    by_cases hincomplete : Incomplete config.framing done e
    · obtain ⟨entry', hentry', -, hstart⟩ := h.held hincomplete
      rw [some.inj (hget.symm.trans hentry')]
      exact halive _ hincomplete hstart
    · rw [show (r.poolOf config e.sender).get _ = none from h.nothing hincomplete] at hget
      cases hget
  have hgotten : gotten config.framing (done ++ [a]) e = gotten config.framing done e :=
    gotten_other hnot
  constructor
  · intro hincomplete
    unfold Incomplete at hincomplete
    rw [hgotten] at hincomplete ⊢
    obtain ⟨entry, hheld, hmatches, hstart⟩ := h.held hincomplete
    exact ⟨entry, hentry.trans hheld, hmatches, startOf_append hstart [a]⟩
  · intro hincomplete
    unfold Incomplete at hincomplete
    rw [hgotten] at hincomplete
    exact hentry.trans (h.nothing hincomplete)

end Tracking

end Carrier
end Conest
