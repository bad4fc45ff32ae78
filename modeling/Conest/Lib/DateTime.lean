import Conest.Lib.Decimal
import Conest.Lib.Pattern

/-!
# Dart dates and their texts

An instant is a number of microseconds since 1970, in UTC, as `DateTime` has it on a native machine.
`toIso8601String` writes it in the proleptic Gregorian calendar, and `tryParse` reads what the
regular expression of `DateTime.tryParse` matches. A time without a zone is local; what instant it
is, is a parameter. What is written is read back (`tryParse_toIso8601String`): the day is found
again by counting in cycles of 400 years (`dayNumber_civil`), and every piece of the expression
matches first the piece of the text that was written for it.
-/

namespace Lib
namespace DateTime

open DartString List Option

variable {year t : ℤ} {micros : ℕ}

/-- The last instant there is, and with the sign changed the first: 100,000,000 days from 1970. -/
def maxMicroseconds : ℤ := 8640000000000000000

def InRange (t : ℤ) : Prop := -maxMicroseconds ≤ t ∧ t ≤ maxMicroseconds

instance (t : ℤ) : Decidable (InRange t) := inferInstanceAs (Decidable (_ ∧ _))

/-! ### Days -/

structure CivilDate where
  year : ℤ
  month : ℤ
  day : ℤ
deriving DecidableEq

/-- Years begin in March here, so that the leap day is the last of its year. The day of a year, from
0, and the place of that year in its 400 years. -/
def yearOfCycle (dayOfCycle : ℤ) : ℤ × ℤ :=
  let century := min 3 (dayOfCycle / 36524)
  let dayOfCentury := dayOfCycle - 36524 * century
  let fourth := dayOfCentury / 1461
  let dayOfFourth := dayOfCentury - 1461 * fourth
  let year := min 3 (dayOfFourth / 365)
  (100 * century + 4 * fourth + year, dayOfFourth - 365 * year)

/-- The date of a day, counted from 1970. -/
def civil (days : ℤ) : CivilDate :=
  let shifted := days + 719468
  let found := yearOfCycle (shifted % 146097)
  let shiftedMonth := (5 * found.2 + 2) / 153
  let month := if shiftedMonth < 10 then shiftedMonth + 3 else shiftedMonth - 9
  { year := 400 * (shifted / 146097) + found.1 + (if month ≤ 2 then 1 else 0)
    month
    day := found.2 - (153 * shiftedMonth + 2) / 5 + 1 }

/-- The day of a date. Months and days beyond the last are counted on. -/
def dayNumber (year month day : ℤ) : ℤ :=
  let month' := (month - 1) % 12 + 1
  let shiftedYear := year + (month - 1) / 12 - (if month' ≤ 2 then 1 else 0)
  let shiftedMonth := if month' ≤ 2 then month' + 9 else month' - 3
  let yearOfCycle := shiftedYear % 400
  146097 * (shiftedYear / 400) + 365 * yearOfCycle + yearOfCycle / 4 - yearOfCycle / 100 +
    (153 * shiftedMonth + 2) / 5 + day - 1 - 719468

theorem yearOfCycle_spec {d : ℤ} (h : 0 ≤ d ∧ d < 146097) :
    (0 ≤ (yearOfCycle d).1 ∧ (yearOfCycle d).1 < 400) ∧
      (0 ≤ (yearOfCycle d).2 ∧ (yearOfCycle d).2 < 366) ∧
      d = 365 * (yearOfCycle d).1 + (yearOfCycle d).1 / 4 - (yearOfCycle d).1 / 100 +
        (yearOfCycle d).2 := by
  unfold yearOfCycle
  simp only
  -- the place in the cycle, from the largest part down
  obtain ⟨c, hc⟩ : ∃ c, c = min 3 (d / 36524) := ⟨_, rfl⟩
  rw [← hc]
  have hcentury : 0 ≤ c ∧ c ≤ 3 ∧ 0 ≤ d - 36524 * c ∧ d - 36524 * c ≤ 36524 := by omega
  obtain ⟨e, he⟩ : ∃ e, e = d - 36524 * c := ⟨_, rfl⟩
  rw [← he] at hcentury ⊢
  obtain ⟨q, hq⟩ : ∃ q, q = e / 1461 := ⟨_, rfl⟩
  rw [← hq]
  have hfourth : 0 ≤ q ∧ q ≤ 24 ∧ 0 ≤ e - 1461 * q ∧ e - 1461 * q ≤ 1460 := by omega
  obtain ⟨f, hf⟩ : ∃ f, f = e - 1461 * q := ⟨_, rfl⟩
  rw [← hf] at hfourth ⊢
  obtain ⟨y, hy⟩ : ∃ y, y = min 3 (f / 365) := ⟨_, rfl⟩
  rw [← hy]
  have hhundreds : (100 * c + 4 * q + y) / 100 = c := by omega
  omega

theorem month_bounds (days : ℤ) : 1 ≤ (civil days).month ∧ (civil days).month ≤ 12 := by
  have hfound := (yearOfCycle_spec (d := (days + 719468) % 146097) (by omega)).2.1
  unfold civil
  simp only
  split <;> omega

theorem day_bounds (days : ℤ) : 1 ≤ (civil days).day ∧ (civil days).day ≤ 31 := by
  unfold civil
  simp only
  omega

theorem dayNumber_shifted {cycle month : ℤ} (day : ℤ) (hyear : 0 ≤ year ∧ year < 400)
    (hmonth : 0 ≤ month ∧ month ≤ 11) : dayNumber
        (400 * cycle + year +
          (if (if month < 10 then month + 3 else month - 9) ≤ 2 then 1 else 0))
        (if month < 10 then month + 3 else month - 9) day =
      146097 * cycle + 365 * year + year / 4 - year / 100 + (153 * month + 2) / 5 + day - 1 -
        719468 := by
  have hquotient : (400 * cycle + year) / 400 = cycle := by omega
  have hrest : (400 * cycle + year) % 400 = year := by omega
  by_cases h : month < 10
  · have hlate : ¬ month + 3 ≤ 2 := by omega
    have hself : (month + 3 - 1) % 12 + 1 = month + 3 := by omega
    have hyears : (month + 3 - 1) / 12 = 0 := by omega
    unfold dayNumber
    simp only [if_pos h, hself, hyears, if_neg hlate, add_zero, sub_zero, hquotient, hrest,
      add_sub_cancel_right]
  have hearly : month - 9 ≤ 2 := by omega
  have hself : (month - 9 - 1) % 12 + 1 = month - 9 := by omega
  have hyears : (month - 9 - 1) / 12 = 0 := by omega
  unfold dayNumber
  simp only [if_neg h, hself, hyears, if_pos hearly, add_zero, add_sub_cancel_right, hquotient,
    hrest, sub_add_cancel]

theorem dayNumber_civil (days : ℤ) :
    dayNumber (civil days).year (civil days).month (civil days).day = days := by
  obtain ⟨hyear, hday, hsum⟩ := yearOfCycle_spec (d := (days + 719468) % 146097) (by omega)
  unfold civil
  simp only
  rw [dayNumber_shifted _ hyear (by omega)]
  omega

/-! ### Writing -/

def microsPerDay : ℤ := 86400000000

/-- Four digits, or six and a sign. -/
def yearText (year : ℤ) : DartString :=
  if -9999 ≤ year ∧ year ≤ 9999 then (if year < 0 then [45] else []) ++ padded 4 year.natAbs
  else (if year < 0 then 45 else 43) :: padded 6 year.natAbs

/-- The digits after the point: milliseconds, and microseconds if there are any. -/
def fractionText (micros : ℕ) : DartString :=
  padded 3 (micros / 1000) ++ (if micros % 1000 = 0 then [] else padded 3 (micros % 1000))

/-- `DateTime.toIso8601String` of a time in UTC. -/
def toIso8601String (t : ℤ) : DartString :=
  let date := civil (t / microsPerDay)
  let micros := (t % microsPerDay).toNat
  yearText date.year ++ 45 :: (padded 2 date.month.toNat ++ 45 :: (padded 2 date.day.toNat ++
    84 :: (padded 2 (micros / 3600000000) ++ 58 :: (padded 2 (micros / 60000000 % 60) ++
      58 :: (padded 2 (micros / 1000000 % 60) ++
        46 :: (fractionText (micros % 1000000) ++ [90]))))))

/-! ### Reading -/

/-- A time of day as it stands in a text. -/
structure Clock where
  hour : ℕ
  minute : ℕ
  second : ℕ
  micros : ℕ

/-- What is captured from a text. The zone is the minutes it is ahead of UTC, if there is one. -/
structure Parts where
  year : ℤ
  month : ℕ
  day : ℕ
  clock : Clock
  zone : Option ℤ

open Pattern

def unit (u : Fin 65536) : Pattern (Fin 65536) (Fin 65536) := one (· == u)

def anyOf (us : DartString) : Pattern (Fin 65536) (Fin 65536) := one us.contains

def twoDigits : Pattern (Fin 65536) ℕ := do
  let digits ← exactly isDigit 2
  return decimalValue digits

/-- `\d{4,6}` -/
def yearDigits : Pattern (Fin 65536) ℕ := do
  let digits ← exactly isDigit 4
  let more ← upTo isDigit 2
  return decimalValue (digits ++ more)

/-- `[+-]?\d{4,6}` -/
def yearPattern : Pattern (Fin 65536) ℤ := do
  let sign ← maybe (anyOf [43, 45])
  let value ← yearDigits
  return if sign = some 45 then -(value : ℤ) else value

/-- `[.,](\d+)`, of which six digits count. -/
def fractionPattern : Pattern (Fin 65536) ℕ := do
  let _ ← anyOf [46, 44]
  let digits ← many isDigit
  return decimalValue ((digits ++ List.replicate 6 (digitUnit 0)).take 6)

/-- `:?(\d\d)` -/
def colonDigits : Pattern (Fin 65536) ℕ := do
  let _ ← maybe (unit 58)
  twoDigits

/-- `:?(\d\d)(?:[.,](\d+))?` -/
def secondPattern : Pattern (Fin 65536) (ℕ × ℕ) := do
  let second ← colonDigits
  let fraction ← maybe fractionPattern
  return (second, fraction.getD 0)

/-- `:?(\d\d)(?::?(\d\d)(?:[.,](\d+))?)?` -/
def minutePattern : Pattern (Fin 65536) (ℕ × ℕ × ℕ) := do
  let minute ← colonDigits
  let rest ← maybe secondPattern
  return (minute, rest.getD (0, 0))

/-- An hour, and what of the rest of the time was found. -/
def Clock.found (hour : ℕ) (rest : Option (ℕ × ℕ × ℕ)) : Clock :=
  let found := rest.getD (0, 0, 0)
  ⟨hour, found.1, found.2.1, found.2.2⟩

/-- `[ T](\d\d)(?::?(\d\d)(?::?(\d\d)(?:[.,](\d+))?)?)?` -/
def clockPattern : Pattern (Fin 65536) Clock := do
  let _ ← anyOf [32, 84]
  let hour ← twoDigits
  let rest ← maybe minutePattern
  return Clock.found hour rest

/-- `( ?[zZ]| ?([-+])(\d\d)(?::?(\d\d))?)` -/
def zonePattern : Pattern (Fin 65536) ℤ :=
  either
    (do
      let _ ← maybe (unit 32)
      let _ ← anyOf [122, 90]
      return 0)
    (do
      let _ ← maybe (unit 32)
      let sign ← anyOf [45, 43]
      let hours ← twoDigits
      let minutes ← maybe colonDigits
      let value : ℤ := minutes.getD 0 + 60 * hours
      return if sign = 45 then -value else value)

def timePattern : Pattern (Fin 65536) (Clock × Option ℤ) := do
  let clock ← clockPattern
  let zone ← maybe zonePattern
  return (clock, zone)

/-- A date, and the time of day and the zone if they were found. -/
def Parts.found (year : ℤ) (month day : ℕ) (rest : Option (Clock × Option ℤ)) : Parts :=
  let found := rest.getD (⟨0, 0, 0, 0⟩, none)
  ⟨year, month, day, found.1, found.2⟩

/-- The expression of `DateTime.parse`. -/
def parseFormat : Pattern (Fin 65536) Parts := do
  let year ← yearPattern
  let _ ← maybe (unit 45)
  let month ← twoDigits
  let _ ← maybe (unit 45)
  let day ← twoDigits
  let rest ← maybe timePattern
  atEnd
  return Parts.found year month day rest

/-- The instant of what was captured; `localTime` gives that of a time without a zone. -/
def Parts.instant (localTime : ℤ → ℤ) (parts : Parts) : ℤ :=
  let minute : ℤ := parts.clock.minute - parts.zone.getD 0
  let value := dayNumber parts.year parts.month parts.day * microsPerDay +
    parts.clock.hour * 3600000000 + minute * 60000000 + parts.clock.second * 1000000 +
      parts.clock.micros
  if parts.zone.isSome then value else localTime value

/-- `DateTime.tryParse`. -/
def tryParse (localTime : ℤ → ℤ) (s : DartString) : Option ℤ :=
  ((parseFormat.capture s).map (Parts.instant localTime)).filter fun t => decide (InRange t)

/-! ### What is written is matched -/

theorem first_unit (u : Fin 65536) (r : DartString) : First (unit u) (u :: r) u r :=
  first_one (beq_self_eq_true u) r

theorem ne_of_isDigit {u v : Fin 65536} (hu : isDigit u = true) (hv : isDigit v = false) :
    u ≠ v := by
  rintro rfl
  rw [hu] at hv
  exact absurd hv.symm Bool.false_ne_true

theorem first_twoDigits {n : ℕ} (h : n < 100) (r : DartString) :
    First twoDigits (padded 2 n ++ r) n r := by
  have hdigits : First (exactly isDigit 2) (padded 2 n ++ r) (padded 2 n) r := by
    have hexact := first_exactly (s := padded 2 n) (fun _ => isDigit_padded) r
    rwa [length_padded (by omega) h] at hexact
  have hvalue : First (pure (decimalValue (padded 2 n))) r n r := by
    rw [decimalValue_padded]
    exact first_pure n r
  exact hdigits.bind hvalue

theorem first_colonDigits {n : ℕ} (h : n < 100) (r : DartString) :
    First colonDigits (58 :: (padded 2 n ++ r)) n r :=
  (first_unit 58 _).maybe.bind (first_twoDigits h r)

theorem first_yearDigits {s : DartString} (hs : ∀ u ∈ s, isDigit u = true)
    (hlength : 4 ≤ s.length ∧ s.length ≤ 6) (r : DartString) :
    First yearDigits (s ++ 45 :: r) (decimalValue s) (45 :: r) := by
  have hfour : First (exactly isDigit 4) (s.take 4 ++ (s.drop 4 ++ 45 :: r)) (s.take 4)
      (s.drop 4 ++ 45 :: r) := by
    have hexact := first_exactly (s := s.take 4) (fun u hu => hs u (mem_of_mem_take hu))
      (s.drop 4 ++ 45 :: r)
    rwa [length_take_of_le hlength.1] at hexact
  have hmore : First (upTo isDigit 2) (s.drop 4 ++ 45 :: r) (s.drop 4) (45 :: r) := by
    refine first_upTo (fun u hu => hs u (mem_of_mem_drop hu)) ?_ (.inr ?_)
    · rw [length_drop]
      omega
    · rintro u hu
      cases hu
      decide
  rw [← append_assoc, take_append_drop] at hfour
  have hvalue : First (pure (decimalValue (s.take 4 ++ s.drop 4))) (45 :: r) (decimalValue s)
      (45 :: r) := by
    rw [take_append_drop]
    exact first_pure _ _
  exact hfour.bind (hmore.bind hvalue)

theorem first_yearPattern (h : -999999 ≤ year ∧ year ≤ 999999) (r : DartString) :
    First yearPattern (yearText year ++ 45 :: r) year (45 :: r) := by
  have hdigits : ∀ width, 4 ≤ width → width ≤ 6 → year.natAbs < 10 ^ width →
      First yearDigits (padded width year.natAbs ++ 45 :: r) year.natAbs (45 :: r) := by
    intro width hlo hhi hsize
    have hlength := length_padded (by omega) hsize
    have hfirst := first_yearDigits (s := padded width year.natAbs) (fun _ => isDigit_padded)
      (by omega) r
    rwa [decimalValue_padded] at hfirst
  -- with a sign, and without
  have hsigned : ∀ (u : Fin 65536) (width : ℕ), 4 ≤ width → width ≤ 6 → year.natAbs < 10 ^ width →
      (u = 45 ∧ year < 0 ∨ u = 43 ∧ 0 ≤ year) →
      First yearPattern (u :: padded width year.natAbs ++ 45 :: r) year (45 :: r) := by
    intro u width hlo hhi hsize hu
    have hsign : First (maybe (anyOf [43, 45])) (u :: (padded width year.natAbs ++ 45 :: r))
        (some u) (padded width year.natAbs ++ 45 :: r) :=
      First.maybe (first_one (by rcases hu with ⟨rfl, -⟩ | ⟨rfl, -⟩ <;> decide) _)
    have hvalue : First (pure (if some u = some 45 then -(year.natAbs : ℤ) else year.natAbs))
        (45 :: r) year (45 :: r) := by
      have heq : (if some u = some 45 then -(year.natAbs : ℤ) else year.natAbs) = year := by
        rcases hu with ⟨rfl, hneg⟩ | ⟨rfl, hpos⟩
        · rw [if_pos rfl]
          omega
        · rw [if_neg (by decide)]
          omega
      rw [heq]
      exact first_pure _ _
    exact hsign.bind ((hdigits width hlo hhi hsize).bind hvalue)
  unfold yearText
  split
  case isTrue hfour =>
    split
    next hneg =>
      exact hsigned 45 4 (by omega) (by omega) (by omega) (.inl ⟨rfl, hneg⟩)
    have hplain := hdigits 4 (by omega) (by omega) (by omega)
    obtain ⟨u, t, htext⟩ : ∃ u t, padded 4 year.natAbs = u :: t :=
      exists_cons_of_ne_nil fun hnil => by
        have hlength : (padded 4 year.natAbs).length = 4 :=
          length_padded (by omega) (by omega)
        rw [hnil] at hlength
        exact absurd hlength (by decide)
    have hdigit : isDigit u = true := isDigit_padded (htext ▸ mem_cons_self)
    have hnone : First (maybe (anyOf [43, 45])) (padded 4 year.natAbs ++ 45 :: r) none
        (padded 4 year.natAbs ++ 45 :: r) := by
      rw [htext]
      refine Fails.maybe (fails_one ?_ _)
      have h43 := ne_of_isDigit hdigit (v := 43) (by decide)
      have h45 := ne_of_isDigit hdigit (v := 45) (by decide)
      simp [h43, h45]
    have hvalue : First (pure (if (none : Option (Fin 65536)) = some 45 then
        -(year.natAbs : ℤ) else year.natAbs)) (45 :: r) year (45 :: r) := by
      rw [Int.natAbs_of_nonneg (by omega)]
      exact first_pure _ _
    exact hnone.bind (hplain.bind hvalue)
  case isFalse hsix =>
    split
    next hneg =>
      exact hsigned 45 6 (by omega) (by omega) (by omega) (.inl ⟨rfl, hneg⟩)
    · exact hsigned 43 6 (by omega) (by omega) (by omega) (.inr ⟨rfl, by omega⟩)

theorem decimalValue_fractionText (h : micros < 1000000) :
    decimalValue ((fractionText micros ++ replicate 6 (digitUnit 0)).take 6) = micros := by
  have hmillis : (padded 3 (micros / 1000)).length = 3 := length_padded (by omega) (by omega)
  -- the last three digits, written or not
  obtain ⟨last, hlast, hvalue, htake⟩ : ∃ last : DartString, last.length = 3 ∧
      decimalValue last = micros % 1000 ∧
      (fractionText micros ++ replicate 6 (digitUnit 0)).take 6 =
        padded 3 (micros / 1000) ++ last := by
    unfold fractionText
    by_cases hzero : micros % 1000 = 0
    · refine ⟨replicate 3 (digitUnit 0), rfl, ?_, ?_⟩
      · rw [hzero]
        exact decimalValue_zeros 3
      · rw [if_pos hzero, append_nil, take_append, hmillis]
        rw [take_of_length_le (by rw [hmillis]; omega)]
        rfl
    · have hmicros : (padded 3 (micros % 1000)).length = 3 := length_padded (by omega) (by omega)
      refine ⟨padded 3 (micros % 1000), hmicros, decimalValue_padded _ _, ?_⟩
      rw [if_neg hzero]
      exact take_left' (by rw [length_append, hmillis, hmicros])
  rw [htake, decimalValue_append_eq, decimalValue_padded, hlast]
  omega

theorem isDigit_fractionText {u : Fin 65536} (h : u ∈ fractionText micros) : isDigit u = true := by
  rcases mem_append.mp h with h | h
  · exact isDigit_padded h
  · split at h
    · exact nomatch h
    · exact isDigit_padded h

theorem first_fractionPattern (h : micros < 1000000) (r : DartString) :
    First fractionPattern (46 :: (fractionText micros ++ 90 :: r)) micros (90 :: r) := by
  have hne : fractionText micros ≠ [] := by
    unfold fractionText
    rw [Ne, append_eq_nil_iff]
    rintro ⟨hnil, -⟩
    have hlength : (padded 3 (micros / 1000)).length = 3 := length_padded (by omega) (by omega)
    rw [hnil] at hlength
    exact absurd hlength (by decide)
  have hpoint : First (anyOf [46, 44]) (46 :: (fractionText micros ++ 90 :: r)) 46
      (fractionText micros ++ 90 :: r) := first_one (by decide) _
  have hdigits : First (many isDigit) (fractionText micros ++ 90 :: r) (fractionText micros)
      (90 :: r) := by
    refine first_many (fun _ => isDigit_fractionText) hne ?_
    rintro u hu
    cases hu
    decide
  have hvalue : First (pure (decimalValue
      ((fractionText micros ++ replicate 6 (digitUnit 0)).take 6))) (90 :: r) micros
      (90 :: r) := by
    rw [decimalValue_fractionText h]
    exact first_pure _ _
  exact hpoint.bind (hdigits.bind hvalue)

theorem first_secondPattern {second : ℕ} (hsecond : second < 100) (hmicros : micros < 1000000)
    (r : DartString) :
    First secondPattern (58 :: (padded 2 second ++ 46 :: (fractionText micros ++ 90 :: r)))
      (second, micros) (90 :: r) := by
  have hfraction := First.maybe (first_fractionPattern hmicros r)
  exact (first_colonDigits hsecond _).bind (hfraction.bind (first_pure _ _))

theorem first_clockPattern {clock : Clock} (hhour : clock.hour < 100) (hminute : clock.minute < 100)
    (hsecond : clock.second < 100) (hmicros : clock.micros < 1000000) (r : DartString) :
    First clockPattern
      (84 :: (padded 2 clock.hour ++ 58 :: (padded 2 clock.minute ++ 58 ::
        (padded 2 clock.second ++ 46 :: (fractionText clock.micros ++ 90 :: r)))))
      clock (90 :: r) := by
  have hmark : First (anyOf [32, 84]) (84 :: (padded 2 clock.hour ++ 58 ::
      (padded 2 clock.minute ++ 58 ::
        (padded 2 clock.second ++ 46 :: (fractionText clock.micros ++ 90 :: r))))) 84 _ :=
    first_one (by decide) _
  have hseconds := First.maybe (first_secondPattern hsecond hmicros r)
  have hminutes : First minutePattern (58 :: (padded 2 clock.minute ++ 58 ::
      (padded 2 clock.second ++ 46 :: (fractionText clock.micros ++ 90 :: r))))
      (clock.minute, clock.second, clock.micros) (90 :: r) :=
    (first_colonDigits hminute _).bind (hseconds.bind (first_pure _ _))
  exact hmark.bind ((first_twoDigits hhour _).bind (hminutes.maybe.bind (first_pure _ _)))

theorem first_zonePattern : First zonePattern [90] 0 [] := by
  have hspace : First (maybe (unit 32)) [90] none [90] := Fails.maybe (fails_one (by decide) _)
  have hzone : First (anyOf [122, 90]) [90] 90 [] := first_one (by decide) _
  exact First.either (hspace.bind (hzone.bind (first_pure _ _)))

/-- The time of day that is written for an instant. -/
def clockOf (t : ℤ) : Clock :=
  let micros := (t % microsPerDay).toNat
  ⟨micros / 3600000000, micros / 60000000 % 60, micros / 1000000 % 60, micros % 1000000⟩

theorem days_bounds (h : InRange t) :
    -100000000 ≤ t / microsPerDay ∧ t / microsPerDay ≤ 100000000 := by
  have hlo : -maxMicroseconds ≤ t := h.1
  have hhi : t ≤ maxMicroseconds := h.2
  unfold maxMicroseconds at hlo hhi
  unfold microsPerDay
  constructor
  · omega
  · omega

theorem year_bounds {days : ℤ} (h : -100000000 ≤ days ∧ days ≤ 100000000) :
    -999999 ≤ (civil days).year ∧ (civil days).year ≤ 999999 := by
  have hfound := (yearOfCycle_spec (d := (days + 719468) % 146097) (by omega)).1
  unfold civil
  simp only
  split <;> omega

theorem length_fractionText_le (h : micros < 1000000) : (fractionText micros).length ≤ 6 := by
  have hmillis : (padded 3 (micros / 1000)).length = 3 := length_padded (by omega) (by omega)
  have hmicros : (padded 3 (micros % 1000)).length = 3 := length_padded (by omega) (by omega)
  unfold fractionText
  rw [length_append, hmillis]
  split
  · exact Nat.le_add_right 3 3
  · rw [hmicros]

theorem length_yearText_le (h : -999999 ≤ year ∧ year ≤ 999999) : (yearText year).length ≤ 7 := by
  unfold yearText
  split
  case isTrue hfour =>
    have hdigits : (padded 4 year.natAbs).length = 4 := length_padded (by omega) (by omega)
    rw [length_append, hdigits]
    split
    · exact Nat.le_add_right 5 2
    · exact Nat.le_add_right 4 3
  case isFalse =>
    have hdigits : (padded 6 year.natAbs).length = 6 := length_padded (by omega) (by omega)
    rw [length_cons, hdigits]

theorem clockOf_bounds (t : ℤ) : (clockOf t).hour < 100 ∧ (clockOf t).minute < 100 ∧
    (clockOf t).second < 100 ∧ (clockOf t).micros < 1000000 := by
  unfold clockOf microsPerDay
  simp only
  omega

theorem length_toIso8601String_le (h : InRange t) : (toIso8601String t).length ≤ 30 := by
  have hmonth := month_bounds (t / microsPerDay)
  have hday := day_bounds (t / microsPerDay)
  have hyear := length_yearText_le (year_bounds (days_bounds h))
  obtain ⟨hhour, hminute, hsecond, hmicros⟩ := clockOf_bounds t
  have hfraction := length_fractionText_le hmicros
  have htwo : ∀ n, n < 100 → (padded 2 n).length = 2 := fun n hn => length_padded (by omega) hn
  have hlength : (toIso8601String t).length =
      (yearText (civil (t / microsPerDay)).year).length + 1 +
        (padded 2 (civil (t / microsPerDay)).month.toNat).length + 1 +
        (padded 2 (civil (t / microsPerDay)).day.toNat).length + 1 +
        (padded 2 (clockOf t).hour).length + 1 + (padded 2 (clockOf t).minute).length + 1 +
        (padded 2 (clockOf t).second).length + 1 +
        (fractionText (clockOf t).micros).length + 1 := by
    unfold toIso8601String clockOf
    simp only [length_append, length_cons, length_nil]
    omega
  rw [hlength, htwo _ (by omega), htwo _ (by omega), htwo _ hhour, htwo _ hminute, htwo _ hsecond]
  omega

theorem first_parseFormat (h : InRange t) : First parseFormat (toIso8601String t)
      ⟨(civil (t / microsPerDay)).year, (civil (t / microsPerDay)).month.toNat,
        (civil (t / microsPerDay)).day.toNat, clockOf t, some 0⟩ [] := by
  have hmonth := month_bounds (t / microsPerDay)
  have hday := day_bounds (t / microsPerDay)
  obtain ⟨hhour, hminute, hsecond, hmicros⟩ := clockOf_bounds t
  have hclock := first_clockPattern hhour hminute hsecond hmicros []
  have htime : First timePattern _ (clockOf t, some 0) [] :=
    hclock.bind ((First.maybe first_zonePattern).bind (first_pure _ _))
  have hend : First (atEnd >>= fun _ => (pure (Parts.found (civil (t / microsPerDay)).year
      (civil (t / microsPerDay)).month.toNat (civil (t / microsPerDay)).day.toNat
        (some (clockOf t, some 0))) : Pattern (Fin 65536) Parts)) [] _ [] :=
    first_atEnd.bind (first_pure _ _)
  exact (first_yearPattern (year_bounds (days_bounds h)) _).bind
    ((first_unit 45 _).maybe.bind ((first_twoDigits (by omega) _).bind
      ((first_unit 45 _).maybe.bind ((first_twoDigits (by omega) _).bind
        (htime.maybe.bind hend)))))

theorem tryParse_toIso8601String (localTime : ℤ → ℤ) (h : InRange t) :
    tryParse localTime (toIso8601String t) = some t := by
  have hmonth := month_bounds (t / microsPerDay)
  have hday := day_bounds (t / microsPerDay)
  have hcapture := (first_parseFormat h).capture
  have hinstant : Parts.instant localTime
      ⟨(civil (t / microsPerDay)).year, (civil (t / microsPerDay)).month.toNat,
        (civil (t / microsPerDay)).day.toNat, clockOf t, some 0⟩ = t := by
    have hdays := dayNumber_civil (t / microsPerDay)
    unfold Parts.instant clockOf
    simp only [getD_some, isSome_some, if_true]
    rw [Int.toNat_of_nonneg (by omega), Int.toNat_of_nonneg (by omega), hdays]
    unfold microsPerDay
    omega
  unfold tryParse
  rw [hcapture, map_some, hinstant, filter_some, decide_eq_true h]
  rfl

end DateTime
end Lib
