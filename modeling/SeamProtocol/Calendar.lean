import Mathlib.Algebra.BigOperators.Intervals
import Mathlib.Tactic

/-! # Two calendars

The key backups and the audit log each turn seconds since 1970 into a date: one by subtracting years and
months in loops, the other by a formula over eras of 400 years that begin in March. -/

namespace SeamProtocol

open List

structure DateTime where
  year : Nat
  month : Nat
  day : Nat
  hour : Nat
  minute : Nat
  second : Nat
  deriving DecidableEq

def isLeap (year : Nat) : Bool := year % 4 = 0 ∧ year % 100 ≠ 0 ∨ year % 400 = 0

def daysInYear (year : Nat) : Nat := if isLeap year then 366 else 365

def monthDays (leap : Bool) : List Nat :=
  [31, if leap then 29 else 28, 31, 30, 31, 30, 31, 31, 30, 31, 30, 31]

/-! ## The loops -/

def yearLoop (days year : Nat) : Nat × Nat :=
  if days < daysInYear year then (days, year) else yearLoop (days - daysInYear year) (year + 1)
termination_by days
decreasing_by
  unfold daysInYear at *
  split_ifs at * <;> omega

def monthLoop : List Nat → Nat → Nat → Nat × Nat
  | [], days, month => (days, month)
  | md :: rest, days, month =>
    if days < md then (days, month) else monthLoop rest (days - md) (month + 1)

/-- The fields of `fmt_timestamp_utc`; the number of days is a `u32`. -/
def fmtTimestamp (secs : Nat) : DateTime :=
  let (days, year) := yearLoop (secs / 86400 % 2 ^ 32) 1970
  let (days, month) := monthLoop (monthDays (isLeap year)) days 1
  let timeOfDay := secs % 86400
  ⟨year, month, days + 1, timeOfDay / 3600, timeOfDay % 3600 / 60, timeOfDay % 60⟩

/-! ## The formula -/

def daysToYmd (days : Nat) : Nat × Nat × Nat :=
  let z := days + 719468
  let era := z / 146097
  let doe := z - era * 146097
  let yoe := (doe - doe / 1460 + doe / 36524 - doe / 146096) / 365
  let y := yoe + era * 400
  let doy := doe - (365 * yoe + yoe / 4 - yoe / 100)
  let mp := (5 * doy + 2) / 153
  let d := doy - (153 * mp + 2) / 5 + 1
  let m := if mp < 10 then mp + 3 else mp - 9
  (if m ≤ 2 then y + 1 else y, m, d)

def rfc3339 (secs : Nat) : DateTime :=
  let (year, month, day) := daysToYmd (secs / 86400)
  ⟨year, month, day, secs / 3600 % 24, secs / 60 % 60, secs % 60⟩

/-! ## Printing -/

def padded (width n : Nat) : List Char :=
  replicate (width - (Nat.toDigits 10 n).length) '0' ++ Nat.toDigits 10 n

def DateTime.compact (t : DateTime) : List Char :=
  padded 4 t.year ++ padded 2 t.month ++ padded 2 t.day ++ 'T' ::
    (padded 2 t.hour ++ padded 2 t.minute ++ padded 2 t.second ++ ['Z'])

/-- `YYYY-MM-DDTHH:MM:SSZ` -/
def DateTime.rfc3339 (t : DateTime) : List Char :=
  padded 4 t.year ++ '-' :: (padded 2 t.month ++ '-' :: (padded 2 t.day ++ 'T' ::
    (padded 2 t.hour ++ ':' :: (padded 2 t.minute ++ ':' :: (padded 2 t.second ++ ['Z'])))))

def fmtTimestampUtc (secs : Nat) : List Char := (fmtTimestamp secs).compact

def nowRfc3339 (secs : Nat) : List Char := (rfc3339 secs).rfc3339

/-! ## Counting days -/

namespace DateTime

def dayNumber (t : DateTime) : Nat :=
  ∑ i ∈ Finset.range (t.year - 1970), daysInYear (1970 + i)
    + ((monthDays (isLeap t.year)).take (t.month - 1)).sum + (t.day - 1)

structure Valid (t : DateTime) : Prop where
  year : 1970 ≤ t.year
  month : 1 ≤ t.month
  day : 1 ≤ t.day
  day_le : ∃ length ∈ (monthDays (isLeap t.year))[t.month - 1]?, t.day ≤ length
  hour : t.hour < 24
  minute : t.minute < 60
  second : t.second < 60

def IsUtc (secs : Nat) (t : DateTime) : Prop :=
  t.Valid ∧ t.dayNumber * 86400 + t.hour * 3600 + t.minute * 60 + t.second = secs

end DateTime

variable {k r : Nat}

theorem yearLoop_sum (year : Nat) (hr : r < daysInYear (year + k)) :
    yearLoop (∑ i ∈ Finset.range k, daysInYear (year + i) + r) year = (r, year + k) := by
  induction k generalizing year with
  | zero => rw [yearLoop, if_pos (by simpa using hr)]; simp
  | succ k ih =>
    have hsum : ∑ i ∈ Finset.range (k + 1), daysInYear (year + i) + r
        = daysInYear year + (∑ i ∈ Finset.range k, daysInYear (year + 1 + i) + r) := by
      simp only [Finset.sum_range_succ', Nat.add_zero, Nat.add_assoc, Nat.add_comm 1]
      omega
    rw [yearLoop, hsum, if_neg (by omega), Nat.add_sub_cancel_left,
      ih (year + 1) (by rwa [Nat.add_right_comm]), Nat.add_right_comm, Nat.add_assoc]

variable {length : Nat}

theorem monthLoop_sum {months : List Nat} (month : Nat) (hk : length ∈ months[k]?) (hr : r < length) :
    monthLoop months ((months.take k).sum + r) month = (r, month + k) := by
  induction months generalizing k month with
  | nil => simp at hk
  | cons md rest ih =>
    cases k with
    | zero =>
      obtain rfl : md = length := by simpa using hk
      simp [monthLoop, hr]
    | succ k =>
      rw [monthLoop, take_succ_cons, sum_cons, if_neg (by omega), Nat.add_assoc,
        Nat.add_sub_cancel_left, ih (month + 1) (by simpa using hk), Nat.add_right_comm, Nat.add_assoc]

theorem sum_take_monthDays_lt {leap : Bool} (hk : length ∈ (monthDays leap)[k]?) :
    ((monthDays leap).take k).sum + length ≤ if leap then 366 else 365 := by
  have hlt : k < 12 := by
    cases leap <;> exact (List.getElem?_eq_some_iff.mp hk).1
  cases leap <;> interval_cases k <;> simp [monthDays] at hk ⊢ <;> omega

variable {secs : Nat} {t : DateTime}

theorem fmtTimestamp_of_isUtc (h : t.IsUtc secs) (hsecs : secs < 2 ^ 32 * 86400) :
    fmtTimestamp secs = t := by
  obtain ⟨hvalid, htotal⟩ := h
  obtain ⟨length, hlength, hle⟩ := hvalid.day_le
  have hyear := sum_take_monthDays_lt hlength
  have hh := hvalid.hour
  have hm := hvalid.minute
  have hs := hvalid.second
  have hday := hvalid.day
  have hdays : secs / 86400 % 2 ^ 32 = t.dayNumber := by omega
  obtain ⟨k, hk⟩ := Nat.exists_eq_add_of_le hvalid.year
  have hloop := yearLoop_sum (r := ((monthDays (isLeap t.year)).take (t.month - 1)).sum + (t.day - 1))
    (k := k) 1970 (by rw [← hk, daysInYear]; omega)
  have hnumber : t.dayNumber = ∑ i ∈ Finset.range k, daysInYear (1970 + i)
      + (((monthDays (isLeap t.year)).take (t.month - 1)).sum + (t.day - 1)) := by
    rw [DateTime.dayNumber, hk, Nat.add_sub_cancel_left, Nat.add_assoc]
  have hmonths := monthLoop_sum 1 hlength (by omega : t.day - 1 < length)
  have hmonth := hvalid.month
  rw [fmtTimestamp, hdays, hnumber, hloop, ← hk]
  dsimp only
  rw [hmonths, DateTime.mk.injEq]
  omega

/-! ## The formula counts days -/

theorem toNat_isLeap (year : Nat) : (isLeap year).toNat
    = if year % 4 = 0 ∧ year % 100 ≠ 0 ∨ year % 400 = 0 then 1 else 0 := by
  rw [isLeap]
  split_ifs with h
  · rw [decide_eq_true h, Bool.toNat_true]
  · rw [decide_eq_false h, Bool.toNat_false]

theorem sum_daysInYear (k : Nat) : ∑ i ∈ Finset.range k, daysInYear (1970 + i) + 477 + (1969 + k) / 100
    = 365 * k + (1969 + k) / 4 + (1969 + k) / 400 := by
  induction k with
  | zero => rfl
  | succ k ih =>
    have hyear : daysInYear (1970 + k) = 365 + (isLeap (1970 + k)).toNat := by
      rw [daysInYear]
      cases isLeap (1970 + k) <;> rfl
    rw [Finset.sum_range_succ, hyear, toNat_isLeap]
    split_ifs <;> omega

theorem DateTime.IsUtc.year_lt (h : t.IsUtc secs) (hsecs : secs < 2 ^ 32 * 86400) :
    t.year < 2 ^ 32 := by
  have hnumber : t.dayNumber < 2 ^ 32 := by
    have := h.2
    omega
  have hsum := sum_daysInYear (t.year - 1970)
  rw [dayNumber] at hnumber
  omega

variable {c q s : Nat}

/-- A day of an era as centuries, blocks of four years, years and days: the formula finds the year. -/
theorem yearOfEra {doe : Nat} (hc : c ≤ 3) (hq : q ≤ 24) (hr : r ≤ 3) (hs : s ≤ 365)
    (hlast : s = 365 → r = 3 ∧ (q < 24 ∨ c = 3)) (hdoe : doe = 36524 * c + 1461 * q + 365 * r + s) :
    (doe - doe / 1460 + doe / 36524 - doe / 146096) / 365 = 100 * c + 4 * q + r := by
  have hcentury : doe / 36524 = if s = 365 ∧ q = 24 then 4 else c := by
    split_ifs <;> omega
  have hera : doe / 146096 = if s = 365 ∧ q = 24 then 1 else 0 := by
    split_ifs <;> omega
  rw [hcentury, hera]
  interval_cases c <;> interval_cases r <;> split_ifs <;> omega

theorem exists_yearOfEra (days : Nat) : ∃ era c q r s, c ≤ 3 ∧ q ≤ 24 ∧ r ≤ 3 ∧ s ≤ 365 ∧
    (s = 365 → r = 3 ∧ (q < 24 ∨ c = 3)) ∧
    days + 719468 = 146097 * era + (36524 * c + 1461 * q + 365 * r + s) := by
  obtain ⟨doe, hdoe⟩ : ∃ doe, doe = (days + 719468) % 146097 := ⟨_, rfl⟩
  obtain ⟨c, hc⟩ : ∃ c, c = min (doe / 36524) 3 := ⟨_, rfl⟩
  obtain ⟨q, hq⟩ : ∃ q, q = min ((doe - 36524 * c) / 1461) 24 := ⟨_, rfl⟩
  obtain ⟨r, hr⟩ : ∃ r, r = min ((doe - 36524 * c - 1461 * q) / 365) 3 := ⟨_, rfl⟩
  exact ⟨(days + 719468) / 146097, c, q, r, doe - 36524 * c - 1461 * q - 365 * r, by omega⟩

theorem monthDays_of_march : ∀ leap, ∀ mp < 10,
    ((monthDays leap).take (mp + 2)).sum = (153 * mp + 2) / 5 + 59 + leap.toNat ∧
      (monthDays leap)[mp + 2]? = some ((153 * (mp + 1) + 2) / 5 - (153 * mp + 2) / 5) := by
  decide

variable {y : Nat}

theorem monthOfYear {n mp : Nat} (hn : n + 719468 + y / 100 = 365 * y + y / 4 + y / 400 + s)
    (hs : s ≤ 365) (hlast : s = 365 → isLeap (y + 1) = true) (hmp : mp = (5 * s + 2) / 153)
    {year month day : Nat} (hmonth : month = if mp < 10 then mp + 3 else mp - 9)
    (hyear : year = if month ≤ 2 then y + 1 else y) (hday : day = s - (153 * mp + 2) / 5 + 1) :
    1970 ≤ year ∧ 1 ≤ month ∧ (∃ length ∈ (monthDays (isLeap year))[month - 1]?, day ≤ length) ∧
      ∑ i ∈ Finset.range (year - 1970), daysInYear (1970 + i)
        + ((monthDays (isLeap year)).take (month - 1)).sum + (day - 1) = n := by
  have hsum := sum_daysInYear (year - 1970)
  by_cases hmarch : mp < 10
  · rw [if_pos hmarch] at hmonth
    rw [if_neg (by omega)] at hyear
    have hleap := toNat_isLeap year
    obtain ⟨htake, hlength⟩ := monthDays_of_march (isLeap year) mp hmarch
    rw [show month - 1 = mp + 2 by omega, htake, hlength]
    refine ⟨by omega, by omega, ⟨_, rfl, by omega⟩, ?_⟩
    split_ifs at hleap <;> omega
  · -- January and February belong to the year after the March they follow
    rw [if_neg hmarch] at hmonth
    rw [if_pos (by omega)] at hyear
    obtain rfl | rfl : mp = 10 ∨ mp = 11 := by omega
    · obtain rfl : month = 1 := hmonth
      refine ⟨by omega, by omega, ⟨31, rfl, by omega⟩, ?_⟩
      rw [Nat.sub_self, take_zero, sum_nil]
      omega
    · obtain rfl : month = 2 := hmonth
      refine ⟨by omega, by omega, ⟨if isLeap year then 29 else 28, rfl, ?_⟩, ?_⟩
      · split_ifs with hleap
        · omega
        · have := mt hlast (hyear ▸ hleap)
          omega
      · rw [show ((monthDays (isLeap year)).take (2 - 1)).sum = 31 from rfl]
        omega

variable {era : Nat}

theorem daysBeforeMarch (hc : c ≤ 3) (hq : q ≤ 24) (hr : r ≤ 3)
    (hy : y = 100 * c + 4 * q + r + era * 400) :
    365 * y + y / 4 + y / 400 = 146097 * era + (36524 * c + 1461 * q + 365 * r) + y / 100 := by
  omega

theorem isLeap_of_marchYear (hq : q ≤ 24) (hr : r = 3) (hlast : q < 24 ∨ c = 3)
    (hy : y = 100 * c + 4 * q + r + era * 400) : isLeap (y + 1) = true := by
  rw [isLeap, decide_eq_true_eq]
  omega

theorem isUtc_rfc3339 (secs : Nat) : (rfc3339 secs).IsUtc secs := by
  obtain ⟨era, c, q, r, s, hc, hq, hr, hs, hlast, hz⟩ := exists_yearOfEra (secs / 86400)
  obtain ⟨y, hy⟩ : ∃ y, y = 100 * c + 4 * q + r + era * 400 := ⟨_, rfl⟩
  have hera : (secs / 86400 + 719468) / 146097 = era := by omega
  have hdoe : secs / 86400 + 719468 - era * 146097 = 36524 * c + 1461 * q + 365 * r + s := by omega
  have hdoy : 36524 * c + 1461 * q + 365 * r + s
      - (365 * (100 * c + 4 * q + r) + (100 * c + 4 * q + r) / 4
        - (100 * c + 4 * q + r) / 100) = s := by
    rw [show (100 * c + 4 * q + r) / 4 = 25 * c + q by omega,
      show (100 * c + 4 * q + r) / 100 = c by omega]
    omega
  have hbefore := daysBeforeMarch hc hq hr hy
  have hn : secs / 86400 + 719468 + y / 100 = 365 * y + y / 4 + y / 400 + s := by
    rw [hz, hbefore]
    ring
  have hleap : s = 365 → isLeap (y + 1) = true := fun hs =>
    isLeap_of_marchYear hq (hlast hs).1 (hlast hs).2 hy
  obtain ⟨hyear, hmonth, hlength, hnumber⟩ := monthOfYear hn hs hleap rfl rfl rfl rfl
  have hrfc : rfc3339 secs = ⟨_, _, _, secs / 3600 % 24, secs / 60 % 60, secs % 60⟩ := rfl
  simp only [hera, hdoe, yearOfEra hc hq hr hs hlast rfl, hdoy, ← hy] at hrfc
  rw [hrfc]
  refine ⟨⟨hyear, hmonth, Nat.le_add_left 1 _, hlength, ?_, ?_, ?_⟩, ?_⟩ <;> dsimp only
  · omega
  · omega
  · omega
  · rw [DateTime.dayNumber, hnumber]
    omega

/-- **The two calendars print the same date**, which is the only one of this number of seconds. -/
theorem calendars_agree (hsecs : secs < 2 ^ 32 * 86400) :
    ∃ t : DateTime, t.IsUtc secs ∧ (∀ t' : DateTime, t'.IsUtc secs → t' = t) ∧ t.year < 2 ^ 32 ∧
      fmtTimestampUtc secs = t.compact ∧ nowRfc3339 secs = t.rfc3339 := by
  have hutc := isUtc_rfc3339 secs
  have hfmt := fmtTimestamp_of_isUtc hutc hsecs
  refine ⟨rfc3339 secs, hutc, fun t' ht' => ?_, ?_, ?_, rfl⟩
  · rw [← fmtTimestamp_of_isUtc ht' hsecs, hfmt]
  · exact hutc.year_lt hsecs
  · rw [fmtTimestampUtc, hfmt]

theorem calendars_agree_leap_day : ∃ t : DateTime, t.IsUtc 951782400 ∧
    fmtTimestampUtc 951782400 = t.compact ∧ nowRfc3339 951782400 = t.rfc3339 := by
  obtain ⟨t, hutc, -, -, hfmt, hrfc⟩ := @calendars_agree 951782400 (by decide)
  exact ⟨t, hutc, hfmt, hrfc⟩

end SeamProtocol
