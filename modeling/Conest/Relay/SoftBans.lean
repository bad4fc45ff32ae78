import Conest.Relay.Admission

/-!
# Soft bans

A peer that keeps going over the general limit is banned for a while. The ban entries are changed in
three critical sections of their own: the sweep at the start of a call, the violation and the
compliance noted at its end; the buckets are charged in between, under another lock. `banning` takes
these sections one by one, so that the calls of several threads interleave (`whole_call`: one call
alone is `allowRequestBanning`), and keeps the notes in the order in which they were made.

`Kept` is the invariant: a tally counts violations in a row, and a ban stands on enough of them and
lasts no longer than the soft ban from the last. So bans are earned in every run. The sweep keeps a
tally as long as it is not zero, though, however old it is: what it leaves is recent if and only if
it never meets a tally of another peer that has grown stale (`soft_bans_recent_iff`).
-/

open Lib List Option

namespace Conest
namespace Relay

/-! ### Calls in sections -/

/-- A call of `allow_request_banning`, with its reading of the clock. -/
structure Ask where
  peer : String
  ban : Bool
  now : ℕ
deriving DecidableEq, Repr

/-- What was noted of a peer at the end of a call. -/
inductive Note where
  | violation (peer : String) (now : ℕ)
  | compliance (peer : String)
deriving DecidableEq, Repr

/-- The critical sections of a call: the sweep with the check of the ban, the charge, and what is
noted of its verdict. -/
inductive Section where
  | sweep (ask : Ask)
  | charge (ask : Ask)
  | note (ask : Ask) (verdict : Verdict)
deriving DecidableEq, Repr

/-- How a section ends. -/
inductive Ended where
  | banned
  | passed
  | charged (verdict : Verdict)
  | noted
  /-- No call is there yet. -/
  | idle
deriving DecidableEq, Repr

/-- What the calls share, the calls in flight, and the notes so far. -/
structure Banning where
  rateBuckets : RateMap ℕ
  ratesPrunedAt : ℕ
  bannedPeers : FMap String BanEntry
  passed : List Ask
  charged : List (Ask × Verdict)
  notes : List Note

def Banning.initial : Banning where
  rateBuckets := FMap.empty
  ratesPrunedAt := 0
  bannedPeers := FMap.empty
  passed := []
  charged := []
  notes := []

/-- What the end of a call notes. -/
def Ask.notes (ask : Ask) : Verdict → List Note
  | .full => []
  | .overBudget => if ask.ban then [.violation ask.peer ask.now] else []
  | .granted => [.compliance ask.peer]

section Sections

variable (cfg : RelayConfig)

/-- What a call finds when it charges its peer's bucket. -/
def Banning.chargeBucket (st : Banning) (ask : Ask) : RateMap ℕ × Verdict :=
  RateMap.charge (bucketRules cfg)
    (pruneIfDue (bucketRules cfg) st.rateBuckets st.ratesPrunedAt ask.now) (spendRequest cfg)
    ask.peer ask.now

/-- One critical section. -/
def Banning.step (st : Banning) : Section → Banning × Ended
  | .sweep ask =>
    let bans := sweepBans st.bannedPeers ask.now
    if banned st.bannedPeers ask.peer ask.now then ({ st with bannedPeers := bans }, .banned)
    else ({ st with bannedPeers := bans, passed := ask :: st.passed }, .passed)
  | .charge ask =>
    if ask ∈ st.passed then
      let charged := st.chargeBucket cfg ask
      ({ st with
          rateBuckets := charged.1
          ratesPrunedAt := prunedAtAfter st.ratesPrunedAt ask.now
          passed := st.passed.erase ask
          charged := (ask, charged.2) :: st.charged }, .charged charged.2)
    else (st, .idle)
  | .note ask verdict =>
    if (ask, verdict) ∈ st.charged then
      ({ st with
          bannedPeers := bansAfter cfg st.bannedPeers ask.peer ask.ban ask.now verdict
          charged := st.charged.erase (ask, verdict)
          notes := st.notes ++ ask.notes verdict }, .noted)
    else (st, .idle)

/-- The calls of the general limit as a machine, one critical section at a time. -/
def banning : Machine Banning Section Ended where
  step st act := st.step cfg act

@[simp] theorem banning_step (st : Banning) (act : Section) :
    (banning cfg).step st act = st.step cfg act := rfl

/-- The sections of a call that meets no other, one after the other. -/
def Ask.sections (s : Banning) (ask : Ask) : List Section :=
  [.sweep ask, .charge ask, .note ask (s.chargeBucket cfg ask).2]

theorem whole_call (st : AdmissionState) (s : Banning) (hbuckets : s.rateBuckets = st.rateBuckets)
    (hpruned : s.ratesPrunedAt = st.ratesPrunedAt) (hbans : s.bannedPeers = st.bannedPeers)
    (hpassed : s.passed = []) (hcharged : s.charged = []) (ask : Ask) :
    ((banning cfg).run s (ask.sections cfg s)).bannedPeers =
        (allowRequestBanning cfg st ask.peer ask.ban ask.now).1.bannedPeers ∧
      ((banning cfg).run s (ask.sections cfg s)).rateBuckets =
        (allowRequestBanning cfg st ask.peer ask.ban ask.now).1.rateBuckets ∧
      ((banning cfg).run s (ask.sections cfg s)).ratesPrunedAt =
        (allowRequestBanning cfg st ask.peer ask.ban ask.now).1.ratesPrunedAt := by
  unfold Ask.sections allowRequestBanning
  by_cases hbanned : banned st.bannedPeers ask.peer ask.now = true
  · -- a banned peer is turned away by the sweep
    simp [banning, Banning.step, hbans, hbanned, hpassed, hcharged, hbuckets, hpruned]
  · simp [banning, Banning.step, Banning.chargeBucket, hbans, hbanned, hpassed, hcharged, hbuckets,
      hpruned]

end Sections

/-! ### What the notes say of a peer -/

/-- When the peer went over the limit, if that is what was noted. -/
def Note.violationOf (peer : String) : Note → Option ℕ
  | .violation peer' now => if peer' = peer then some now else none
  | .compliance _ => none

/-- The instants of the peer's violations, in the order of their notes. -/
def violations (notes : List Note) (peer : String) : List ℕ :=
  notes.filterMap (Note.violationOf peer)

/-- The instant of the peer's last violation. -/
def lastViolation (notes : List Note) (peer : String) : Option ℕ :=
  (violations notes peer).getLast?

/-- Somewhere the peer has `n` violations noted without a compliant request in between. -/
def InARow (notes : List Note) (peer : String) (n : ℕ) : Prop :=
  ∃ before row after, notes = before ++ row ++ after ∧ n ≤ (violations row peer).length ∧
    .compliance peer ∉ row

/-- The last notes have `n` violations of the peer without a compliant request. -/
def Unbroken (notes : List Note) (peer : String) (n : ℕ) : Prop :=
  ∃ before row, notes = before ++ row ∧ n ≤ (violations row peer).length ∧
    .compliance peer ∉ row

section Notes

variable {notes more : List Note} {peer : String} {n : ℕ} {note : Note}

theorem violations_append (notes more : List Note) (peer : String) :
    violations (notes ++ more) peer = violations notes peer ++ violations more peer :=
  filterMap_append

theorem Unbroken.zero (notes : List Note) (peer : String) : Unbroken notes peer 0 :=
  ⟨notes, [], (append_nil notes).symm, Nat.zero_le _, not_mem_nil⟩

theorem Unbroken.inARow (h : Unbroken notes peer n) : InARow notes peer n := by
  obtain ⟨before, row, rfl, hn, hrow⟩ := h
  exact ⟨before, row, [], (append_nil _).symm, hn, hrow⟩

theorem InARow.append (h : InARow notes peer n) (more : List Note) :
    InARow (notes ++ more) peer n := by
  obtain ⟨before, row, after, rfl, hn, hrow⟩ := h
  exact ⟨before, row, after ++ more, append_assoc _ _ _, hn, hrow⟩

theorem Unbroken.append (h : Unbroken notes peer n) (hmore : .compliance peer ∉ more) :
    Unbroken (notes ++ more) peer (n + (violations more peer).length) := by
  obtain ⟨before, row, rfl, hn, hrow⟩ := h
  refine ⟨before, row ++ more, append_assoc _ _ _, ?_, ?_⟩
  · rw [violations_append, length_append]
    omega
  · rw [mem_append, not_or]
    exact ⟨hrow, hmore⟩

theorem Unbroken.mono (h : Unbroken notes peer n) {m : ℕ} (hle : m ≤ n) : Unbroken notes peer m := by
  obtain ⟨before, row, hsplit, hn, hrow⟩ := h
  exact ⟨before, row, hsplit, hle.trans hn, hrow⟩

theorem lastViolation_append_of_nil (hmore : violations more peer = []) :
    lastViolation (notes ++ more) peer = lastViolation notes peer := by
  unfold lastViolation
  rw [violations_append, hmore, append_nil]

theorem violations_violation (peer : String) (now : ℕ) :
    violations [.violation peer now] peer = [now] := by
  unfold violations Note.violationOf
  simp

end Notes

/-! ### The invariant -/

/-- **What the entry of a peer stands on**: a tally below the threshold on violations in a row up to
now, one that has reached it on that many in a row, and a ban on such a tally and the last
violation. -/
structure Earned (cfg : RelayConfig) (notes : List Note) (peer : String) (entry : BanEntry) :
    Prop where
  bound : entry.consecutiveViolations < 2 ^ 32
  tally : entry.consecutiveViolations < cfg.softBanThreshold →
    Unbroken notes peer entry.consecutiveViolations
  row : cfg.softBanThreshold ≤ entry.consecutiveViolations →
    InARow notes peer cfg.softBanThreshold
  ban : 0 < entry.bannedUntilMillis → cfg.softBanThreshold ≤ entry.consecutiveViolations ∧
    ∃ last, lastViolation notes peer = some last ∧
      entry.bannedUntilMillis ≤ last + cfg.softBanMillis

/-- Every entry stands on the notes. -/
def Kept (cfg : RelayConfig) (st : Banning) : Prop :=
  ∀ peer entry, st.bannedPeers.get peer = some entry → Earned cfg st.notes peer entry

section Invariant

variable {cfg : RelayConfig} {notes more : List Note} {peer : String} {entry : BanEntry}

theorem Earned.append (h : Earned cfg notes peer entry) (hviolations : violations more peer = [])
    (hcompliance : .compliance peer ∉ more) : Earned cfg (notes ++ more) peer entry where
  bound := h.bound
  tally hlt := ((h.tally hlt).append hcompliance).mono (Nat.le_add_right _ _)
  row hle := (h.row hle).append more
  ban hpos := by
    rw [lastViolation_append_of_nil hviolations]
    exact h.ban hpos

theorem Earned.none (cfg : RelayConfig) (notes : List Note) (peer : String) :
    Earned cfg notes peer { bannedUntilMillis := 0, consecutiveViolations := 0 } where
  bound := by decide
  tally _ := Unbroken.zero notes peer
  row hle := ((Unbroken.zero notes peer).mono hle).inARow
  ban hpos := absurd hpos (lt_irrefl 0)

/-- **A violation adds one to the row**, and where that is enough it bans from its own instant. -/
theorem Earned.violation (h : Earned cfg notes peer entry) (now : ℕ) :
    Earned cfg (notes ++ [.violation peer now]) peer
      { bannedUntilMillis :=
          if cfg.softBanThreshold ≤ saturatingSucc entry.consecutiveViolations then
            saturatingAdd now cfg.softBanMillis
          else entry.bannedUntilMillis
        consecutiveViolations := saturatingSucc entry.consecutiveViolations } := by
  have hbound := h.bound
  have hsucc : saturatingSucc entry.consecutiveViolations ≤ entry.consecutiveViolations + 1 ∧
      entry.consecutiveViolations ≤ saturatingSucc entry.consecutiveViolations ∧
      saturatingSucc entry.consecutiveViolations < 2 ^ 32 := by
    unfold saturatingSucc
    omega
  generalize saturatingSucc entry.consecutiveViolations = violations at hsucc
  obtain ⟨hle, hge, hlt⟩ := hsucc
  have hmore : Note.compliance peer ∉ [Note.violation peer now] := by simp
  -- below the threshold the row goes on, from it on there was one
  have hrunning : entry.consecutiveViolations < cfg.softBanThreshold →
      Unbroken (notes ++ [.violation peer now]) peer violations := by
    intro hbelow
    refine ((h.tally hbelow).append hmore).mono ?_
    rw [violations_violation]
    exact hle
  refine ⟨hlt, fun hbelow => hrunning (by dsimp only at hbelow; omega), fun hreached => ?_,
    fun hpos => ?_⟩
  · by_cases hbelow : entry.consecutiveViolations < cfg.softBanThreshold
    · exact ((hrunning hbelow).mono hreached).inARow
    · exact (h.row (not_lt.mp hbelow)).append _
  · split at hpos
    · next hreached =>
      rw [if_pos hreached]
      refine ⟨hreached, now, ?_, ?_⟩
      · unfold lastViolation
        rw [violations_append, violations_violation, getLast?_append]
        rfl
      · exact Nat.min_le_left _ _
    next hbelow => exact absurd ((h.ban hpos).1.trans hge) hbelow

theorem Earned.compliance (h : Earned cfg notes peer entry) (more : List Note)
    (hviolations : violations more peer = []) :
    (entry.bannedUntilMillis = 0 →
      Earned cfg (notes ++ more) peer { entry with consecutiveViolations := 0 }) ∧
      (entry.bannedUntilMillis ≠ 0 → Earned cfg (notes ++ more) peer entry) := by
  constructor
  · intro hzero
    have hnone := Earned.none cfg (notes ++ more) peer
    rw [hzero]
    exact hnone
  intro hne
  have hban := h.ban (Nat.pos_of_ne_zero hne)
  refine ⟨h.bound, fun hbelow => ?_, fun hle => (h.row hle).append more, fun hpos => ?_⟩
  · exact absurd hban.1 (not_le.mpr hbelow)
  · rw [lastViolation_append_of_nil hviolations]
    exact h.ban hpos

end Invariant

/-! ### Every section keeps it -/

section Steps

variable {cfg : RelayConfig} {st : Banning} {act : Section}

theorem get_sweepBans {bans : FMap String BanEntry} {now : ℕ} {peer : String} {entry : BanEntry} :
    (sweepBans bans now).get peer = some entry ↔
      bans.get peer = some entry ∧ keepBan now entry = true := by
  unfold sweepBans
  rw [FMap.get_retain, filter_eq_some_iff]

theorem Ask.notes_other {ask : Ask} {peer : String} (hpeer : peer ≠ ask.peer) (verdict : Verdict) :
    violations (ask.notes verdict) peer = [] ∧ .compliance peer ∉ ask.notes verdict := by
  have hviolation : violations [.violation ask.peer ask.now] peer = [] := by
    unfold violations Note.violationOf
    simp [hpeer.symm]
  cases verdict with
  | full => exact ⟨rfl, not_mem_nil⟩
  | overBudget =>
    unfold Ask.notes
    cases ask.ban with
    | true => exact ⟨hviolation, by simp⟩
    | false => exact ⟨rfl, not_mem_nil⟩
  | granted =>
    refine ⟨rfl, ?_⟩
    unfold Ask.notes
    simpa using hpeer

theorem Kept.note (h : Kept cfg st) (ask : Ask) (verdict : Verdict) :
    ∀ peer entry,
      (bansAfter cfg st.bannedPeers ask.peer ask.ban ask.now verdict).get peer = some entry →
        Earned cfg (st.notes ++ ask.notes verdict) peer entry := by
  intro peer entry hget
  by_cases hpeer : peer = ask.peer
  swap
  · rw [bansAfter_get_of_ne hpeer] at hget
    obtain ⟨hviolations, hcompliance⟩ := Ask.notes_other hpeer verdict
    exact (h peer entry hget).append hviolations hcompliance
  subst hpeer
  have hsame : Earned cfg (st.notes ++ []) ask.peer entry ∨
      st.bannedPeers.get ask.peer ≠ some entry := by
    rw [append_nil]
    exact Classical.or_iff_not_imp_right.mpr fun hnot => h ask.peer entry (not_not.mp hnot)
  cases verdict with
  | full => exact hsame.resolve_right (not_not_intro hget)
  | overBudget =>
    unfold bansAfter at hget
    unfold Ask.notes
    cases hban : ask.ban with
    | false =>
      rw [hban] at hget
      exact hsame.resolve_right (not_not_intro hget)
    | true =>
    rw [hban, if_pos rfl] at hget
    unfold noteRateViolation at hget
    rw [FMap.get_insert, if_pos rfl, some.injEq] at hget
    have hold : Earned cfg st.notes ask.peer ((st.bannedPeers.get ask.peer).getD
        { bannedUntilMillis := 0, consecutiveViolations := 0 }) := by
      cases hfound : st.bannedPeers.get ask.peer with
      | none => exact Earned.none cfg st.notes ask.peer
      | some old => exact h ask.peer old hfound
    rw [← hget]
    exact hold.violation ask.now
  | granted =>
    unfold bansAfter noteRateCompliance at hget
    cases hfound : st.bannedPeers.get ask.peer with
    | none =>
      rw [hfound] at hget
      rw [hfound] at hget
      cases hget
    | some old =>
    obtain ⟨hzero, hne⟩ := (h ask.peer old hfound).compliance [.compliance ask.peer] rfl
    rw [hfound] at hget
    dsimp only at hget
    split at hget
    · next hbanned =>
      rw [FMap.get_insert, if_pos rfl, some.injEq] at hget
      rw [← hget]
      exact hzero hbanned
    next hbanned =>
    rw [hfound, some.injEq] at hget
    rw [← hget]
    exact hne hbanned

theorem Kept.initial (cfg : RelayConfig) : Kept cfg Banning.initial := by
  intro peer entry hget
  cases hget

theorem Kept.step (h : Kept cfg st) (act : Section) : Kept cfg ((banning cfg).step st act).1 := by
  rw [banning_step]
  cases act with
  | sweep ask =>
    have hswept : ∀ peer entry, (sweepBans st.bannedPeers ask.now).get peer = some entry →
        Earned cfg st.notes peer entry :=
      fun peer entry hget => h peer entry (get_sweepBans.mp hget).1
    rw [Banning.step]
    split
    · exact hswept
    · exact hswept
  | charge ask =>
    rw [Banning.step]
    split
    · exact h
    · exact h
  | note ask verdict =>
    rw [Banning.step]
    split
    · exact h.note ask verdict
    · exact h

end Steps

/-! ### Recent offenders, and bans that are earned -/

/-- How long a violation is recent: two minutes. -/
def recentMillis : ℕ := 120000

/-- After a sweep, every entry but the caller's own is under a ban that has not expired, or its
peer had a violation within the last two minutes. -/
def BansRecent (st : Banning) : Section → Prop
  | .sweep ask => ∀ peer entry, peer ≠ ask.peer → st.bannedPeers.get peer = some entry →
      ask.now < entry.bannedUntilMillis ∨
        ∃ last, lastViolation st.notes peer = some last ∧ ask.now < last + recentMillis
  | _ => True

/-- A peer that is refused because of a ban had as many violations as the threshold, without a
compliant request in between, and its last one is less than the length of a ban ago. -/
def BanEarned (cfg : RelayConfig) (st : Banning) : Section → Ended → Prop
  | .sweep ask, .banned => InARow st.notes ask.peer cfg.softBanThreshold ∧
      ∃ last, lastViolation st.notes ask.peer = some last ∧ ask.now < last + cfg.softBanMillis
  | _, _ => True

/-- The sweep meets no stale tally of another peer: violations that never led to a ban, and that
no request has cleared, the last of them two minutes ago or more. -/
def TalliesFresh (st : Banning) : Section → Prop
  | .sweep ask => ∀ peer entry, peer ≠ ask.peer → st.bannedPeers.get peer = some entry →
      entry.bannedUntilMillis = 0 → 0 < entry.consecutiveViolations →
        ∃ last, lastViolation st.notes peer = some last ∧ ask.now < last + recentMillis
  | _ => True

section Runs

variable {cfg : RelayConfig} {st : Banning}

theorem Kept.banEarned (h : Kept cfg st) (act : Section) :
    BanEarned cfg st act ((banning cfg).step st act).2 := by
  rw [banning_step]
  cases act with
  | charge ask => trivial
  | note ask verdict => trivial
  | sweep ask =>
  rw [Banning.step]
  split
  swap
  · trivial
  next hbanned =>
  unfold banned at hbanned
  rw [Option.any_eq_true] at hbanned
  obtain ⟨entry, hget, huntil⟩ := hbanned
  rw [decide_eq_true_eq] at huntil
  have hearned := h ask.peer entry (get_sweepBans.mp hget).1
  obtain ⟨hreached, last, hlast, hle⟩ := hearned.ban (Nat.zero_lt_of_lt huntil)
  exact ⟨hearned.row hreached, last, hlast, by omega⟩

/-- **What a sweep leaves is recent if and only if it meets no stale tally.** -/
theorem bansRecent_step_iff (cfg : RelayConfig) (st : Banning) (act : Section) :
    BansRecent ((banning cfg).step st act).1 act ↔ TalliesFresh st act := by
  rw [banning_step]
  cases act with
  | charge ask => exact Iff.rfl
  | note ask verdict => exact Iff.rfl
  | sweep ask =>
  have hswept : ((st.step cfg (.sweep ask)).1.bannedPeers = sweepBans st.bannedPeers ask.now) ∧
      (st.step cfg (.sweep ask)).1.notes = st.notes := by
    rw [Banning.step]
    split
    · exact ⟨rfl, rfl⟩
    · exact ⟨rfl, rfl⟩
  unfold BansRecent TalliesFresh
  rw [hswept.1, hswept.2]
  refine forall_congr' fun peer => forall_congr' fun entry => forall_congr' fun _ => ?_
  constructor
  · intro hrecent hget hzero htally
    -- a tally is kept by its count
    have hkept : keepBan ask.now entry = true := by
      unfold keepBan
      rw [if_neg (by omega), if_neg (by omega)]
      exact decide_eq_true htally
    refine (hrecent (get_sweepBans.mpr ⟨hget, hkept⟩)).resolve_left ?_
    omega
  intro hfresh hget
  obtain ⟨hold, hkept⟩ := get_sweepBans.mp hget
  unfold keepBan at hkept
  split at hkept
  next hbanned => exact .inl hbanned
  split at hkept
  · cases hkept
  next hexpired =>
  exact .inr (hfresh hold (by omega) (of_decide_eq_true hkept))

end Runs

/-- **The bans along a run.** For every order in which the sections of calls come: all bans are
earned, and what every sweep leaves is recent, if and only if no sweep meets a stale tally. -/
theorem soft_bans_recent_iff (cfg : RelayConfig) (acts : List Section) :
    (∀ i st act reply st', (banning cfg).StepAt Banning.initial acts i st act reply st' →
        BansRecent st' act ∧ BanEarned cfg st act reply) ↔
      (banning cfg).Along TalliesFresh Banning.initial acts := by
  rw [Machine.along_iff_stepAt]
  constructor
  · intro hall i st act reply st' hi
    have hafter : ((banning cfg).step st act).1 = st' := congrArg Prod.fst hi.step
    rw [← bansRecent_step_iff cfg, hafter]
    exact (hall i st act reply st' hi).1
  intro hall i st act reply st' hi
  have hkept : Kept cfg st := by
    refine hi.induction (I := fun _ s => Kept cfg s) (Kept.initial cfg) ?_
    intro n s b o s' hn hs
    have hafter : ((banning cfg).step s b).1 = s' := congrArg Prod.fst hn.step
    exact hafter ▸ hs.step b
  have hafter : ((banning cfg).step st act).1 = st' := congrArg Prod.fst hi.step
  have hreply : ((banning cfg).step st act).2 = reply := congrArg Prod.snd hi.step
  have hrecent := (bansRecent_step_iff cfg st act).mpr (hall i st act reply st' hi)
  exact ⟨hafter ▸ hrecent, hreply ▸ hkept.banEarned act⟩

/-! ### A tally that is forgotten -/

/-- A relay that grants one request a minute and bans at the third violation. -/
def tallyConfig : RelayConfig :=
  { RelayConfig.defaults with
    maxRequestsPerMinute := 1
    softBanThreshold := 3
    softBanSeconds := 30
    maxRequestsPerMinute_pos := Nat.one_pos }

/-- A request is granted and the next one goes over the limit; an hour later another peer calls. -/
def forgottenRun : List Section :=
  [.sweep ⟨"198.51.100.7", true, 1000⟩, .charge ⟨"198.51.100.7", true, 1000⟩,
    .note ⟨"198.51.100.7", true, 1000⟩ .granted, .sweep ⟨"198.51.100.7", true, 2000⟩,
    .charge ⟨"198.51.100.7", true, 2000⟩, .note ⟨"198.51.100.7", true, 2000⟩ .overBudget,
    .sweep ⟨"203.0.113.4", true, 3602000⟩]

/-- **A tally of an hour ago is kept.** -/
theorem stale_tally_kept :
    ¬ ∀ i st act reply st',
        (banning tallyConfig).StepAt Banning.initial forgottenRun i st act reply st' →
          BansRecent st' act ∧ BanEarned tallyConfig st act reply := by
  intro hall
  have hlast := hall 6 _ _ _ _ (Machine.stepAt_run (by decide))
  have htally : (((banning tallyConfig).run Banning.initial forgottenRun).bannedPeers.get
      "198.51.100.7") = some { bannedUntilMillis := 0, consecutiveViolations := 1 } := by
    decide
  have hnotes : lastViolation ((banning tallyConfig).run Banning.initial forgottenRun).notes
      "198.51.100.7" = some 2000 := by
    decide +kernel
  rcases hlast.1 "198.51.100.7" _ (by decide) htally with hbanned | ⟨last, hviolation, hrecent⟩
  · exact absurd hbanned (by decide)
  · obtain rfl := some.inj (hnotes.symm.trans hviolation)
    exact absurd hrecent (by decide)

end Relay
end Conest
