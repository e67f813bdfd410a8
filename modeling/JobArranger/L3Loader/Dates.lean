import JobArranger.Core.Decimal
import JobArranger.Core.Gregorian

/-!
# Date texts of the loader

The loader passes dates as texts (`YYYYMM`, `YYYYMMDD`, `YYYYMMDDhhmm`),
cuts them into fields with `zbx_strlcpy` and `atoi`, lets `mktime` normalise
the fields and prints them again. Buffers hold 8 (`OPERATING_DATE_LEN`) and
12 (`SCHEDULED_TIME_LEN`) characters; a fifth digit of the year is cut off
at the end of the text.

`mktime` and `localtime` are those of a time zone without DST shifts, on
times from year 0 on.

* `shiftMonth_monthText`, `shiftDays_dateText`, `makeEndOperatingDate_spec`,
  `makeScheduledTime_spec`: up to year 9999 each function is addition of
  months, days or minutes.
* `makeScheduledTime_overflow`: a sum in year 10000 prints as a text before
  every date of year 1000.
-/
namespace JobArranger

open Decimal Gregorian

/-- The fields of `struct tm` the loader uses. -/
structure Tm where
  tmYear : Int
  tmMon : Int
  tmMday : Int
  tmHour : Int
  tmMin : Int
deriving Repr, DecidableEq

/-- The minute a (possibly out of range) broken-down time stands for. -/
def Tm.minutes (tm : Tm) : Nat :=
  (1440 * (monthStart (12 * (tm.tmYear + 1900) + tm.tmMon).toNat + (tm.tmMday - 1))
    + 60 * tm.tmHour + tm.tmMin).toNat

def localtime (t : Nat) : Tm :=
  { tmYear := (monthOf (t / 1440) / 12 : Nat) - 1900
    tmMon := (monthOf (t / 1440) % 12 : Nat)
    tmMday := mday (t / 1440)
    tmHour := (t % 1440 / 60 : Nat)
    tmMin := (t % 60 : Nat) }

def mktime (tm : Tm) : Tm := localtime tm.minutes

/-- `"%04d%02d"` of the year and month. -/
def Tm.yearMonth (tm : Tm) : List Char :=
  fmt 4 (tm.tmYear + 1900).toNat ++ fmt 2 (tm.tmMon + 1).toNat

/-- `"%04d%02d%02d"` of the date. -/
def Tm.date (tm : Tm) : List Char := tm.yearMonth ++ fmt 2 tm.tmMday.toNat

/-- The year field of a date text: `zbx_strlcpy(year, p, 5)` and `atoi`. -/
def textYear (p : List Char) : Nat := atoi (strlcpy p 5)

/-- The month field: `zbx_strlcpy(mon, (p + 4), 3)` and `atoi`. -/
def textMon (p : List Char) : Nat := atoi (strlcpy (p.drop 4) 3)

/-- The day field: `zbx_strlcpy(day, (p + 6), 3)` and `atoi`. -/
def textDay (p : List Char) : Nat := atoi (strlcpy (p.drop 6) 3)

/-- mirrors src/jobarg_server/jaloader/jaloader.c:74-139 -/
def getEndOfMonth (pDate : List Char) : Nat :=
  let year := textYear pDate
  match textMon pDate with
  | 2 =>
    if year % 4 = 0 then
      if year % 100 = 0 then
        if year % 400 = 0 then 29 else 28
      else 29
    else 28
  | 4 => 30
  | 6 => 30
  | 9 => 30
  | 11 => 30
  | _ => 31

/-- The search window `(start_date, end_date)`: `end_date` is the current
minute, `start_date` lies `span` minutes ahead.
mirrors src/jobarg_server/jaloader/jaloader.c:156-185 -/
def getSearchDate (span now : Nat) : List Char × List Char :=
  let stamp (tm : Tm) := tm.date ++ fmt 2 tm.tmHour.toNat ++ fmt 2 tm.tmMin.toNat
  let tm := localtime now
  (stamp (mktime { tm with tmMin := tm.tmMin + span }), stamp tm)

/-- mirrors src/jobarg_server/jaloader/jaloader.c:201-231 -/
def shiftMonth (editDate : List Char) (months : Int) : List Char :=
  let tm := mktime
    { tmYear := (textYear editDate : Int) - 1900
      tmMon := ((textMon editDate : Int) - 1) + months
      tmMday := 1
      tmHour := 0
      tmMin := 0 }
  strlcpy tm.yearMonth 9

/-- mirrors src/jobarg_server/jaloader/jaloader.c:247-280 -/
def shiftDays (editDate : List Char) (days : Int) : List Char :=
  let tm := mktime
    { tmYear := (textYear editDate : Int) - 1900
      tmMon := (textMon editDate : Int) - 1
      tmMday := (textDay editDate : Int) + days
      tmHour := 0
      tmMin := 0 }
  strlcpy tm.date 9

/-- mirrors src/jobarg_server/jaloader/jaloader.c:336-382 -/
def makeEndOperatingDate (endDate bootTime : List Char) : List Char :=
  let iBt := atoi bootTime
  if iBt < 2400 then strlcpy endDate 9
  else
    let iSday := iBt / 2400
    let tm := mktime
      { tmYear := (textYear endDate : Int) - 1900
        tmMon := (textMon endDate : Int) - 1
        tmMday := (textDay endDate : Int) - iSday
        tmHour := 0
        tmMin := 0 }
    strlcpy tm.date 9

/-- mirrors src/jobarg_server/jaloader/jaloader.c:400-449 -/
def makeScheduledTime (operatingDate bootTime : List Char) : List Char :=
  let iBt := atoi bootTime
  if iBt < 2400 then
    -- the boot time is copied over position 8 of the date's copy
    (strlcpy operatingDate 13).take 8 ++ strlcpy bootTime 5
  else
    let iSday := iBt / 2400
    let wBt := iBt - 2400 * iSday
    let tm := mktime
      { tmYear := (textYear operatingDate : Int) - 1900
        tmMon := (textMon operatingDate : Int) - 1
        tmMday := (textDay operatingDate : Int) + iSday
        tmHour := 0
        tmMin := 0 }
    strlcpy (tm.date ++ fmt 4 wBt) 13

/-! ## Texts of months, days and minutes -/

def monthText (M : Nat) : List Char := dec 6 (monthCode M)

def dateText (n : Nat) : List Char := dec 8 (dayCode n)

def stampText (t : Nat) : List Char := dec 12 (stampCode t)

/-- The boot time `HHMM`, 0000 to 9959. -/
def bootText (hh mm : Nat) : List Char := dec 4 (hh * 100 + mm)

/-- The first month and the first day of year 10000. -/
def lastMonth : Nat := 120000

def lastDay : Nat := monthStart lastMonth

theorem lastDay_eq : lastDay = 3652425 := by decide +kernel

theorem monthOf_lt_lastMonth {n : Nat} (h : n < lastDay) : monthOf n < lastMonth :=
  monthOf_lt_iff.2 h

theorem monthCode_lt_pow {M : Nat} (h : M < lastMonth) : monthCode M < 10 ^ 6 := by
  unfold monthCode lastMonth at *
  omega

theorem dayCode_lt_pow {n : Nat} (h : n < lastDay) : dayCode n < 10 ^ 8 := by
  have h1 := monthCode_lt_pow (monthOf_lt_lastMonth h)
  have h2 := mday_le_31 n
  unfold dayCode
  omega

theorem stampCode_lt_pow {t : Nat} (h : t / 1440 < lastDay) : stampCode t < 10 ^ 12 := by
  have h1 := dayCode_lt_pow h
  unfold stampCode
  omega

theorem stampCode_div (t : Nat) : stampCode t / 10 ^ 4 = dayCode (t / 1440) := by
  unfold stampCode
  omega

theorem dayCode_div (n : Nat) : dayCode n / 10 ^ 2 = monthCode (monthOf n) := by
  have h2 := mday_le_31 n
  unfold dayCode
  omega

/-- Cutting the date off a time text. -/
theorem take_stampText (t : Nat) : (stampText t).take 8 = dateText (t / 1440) := by
  rw [stampText, take_dec 8 4, stampCode_div, dateText]

theorem take_dateText (n : Nat) : (dateText n).take 6 = monthText (monthOf n) := by
  rw [dateText, take_dec 6 2, dayCode_div, monthText]

theorem textYear_monthText {M : Nat} (h : M < lastMonth) : textYear (monthText M) = M / 12 := by
  have h1 : monthCode M / 10 ^ 2 = M / 12 := by unfold monthCode; omega
  unfold lastMonth at h
  rw [textYear, strlcpy, monthText, take_dec 4 2, h1, atoi_dec_of_lt (by omega)]

theorem textMon_monthText (M : Nat) : textMon (monthText M) = M % 12 + 1 := by
  have h1 : monthCode M % 10 ^ 2 = M % 12 + 1 := by unfold monthCode; omega
  rw [textMon, strlcpy, monthText, drop_dec 4 2, List.take_of_length_le (by simp), atoi_dec, h1]

theorem textYear_take (p : List Char) : textYear (p.take 6) = textYear p := by
  simp [textYear, strlcpy, List.take_take]

theorem textMon_take (p : List Char) : textMon (p.take 6) = textMon p := by
  simp [textMon, strlcpy, List.drop_take, List.take_take]

theorem textYear_dateText {n : Nat} (h : n < lastDay) : textYear (dateText n) = monthOf n / 12 := by
  rw [← textYear_take, take_dateText, textYear_monthText (monthOf_lt_lastMonth h)]

theorem textMon_dateText (n : Nat) : textMon (dateText n) = monthOf n % 12 + 1 := by
  rw [← textMon_take, take_dateText, textMon_monthText]

theorem textDay_dateText (n : Nat) : textDay (dateText n) = mday n := by
  have h1 : dayCode n % 10 ^ 2 = mday n := by
    have := mday_le_31 n
    unfold dayCode
    omega
  rw [textDay, strlcpy, dateText, drop_dec 6 2, List.take_of_length_le (by simp), atoi_dec, h1]

/-- The date fields of a time text are those of its date. -/
theorem textFields_stampText (t : Nat) :
    textYear (stampText t) = textYear (dateText (t / 1440)) ∧
    textMon (stampText t) = textMon (dateText (t / 1440)) ∧
    textDay (stampText t) = textDay (dateText (t / 1440)) := by
  rw [← take_stampText]
  simp [textYear, textMon, textDay, strlcpy, List.drop_take, List.take_take]

/-! ## `mktime` -/

theorem localtime_yearMonth {t : Nat} (h : t / 1440 < lastDay) :
    (localtime t).yearMonth = monthText (monthOf (t / 1440)) := by
  have hM := monthOf_lt_lastMonth h
  unfold lastMonth at hM
  have hy : ((localtime t).tmYear + 1900).toNat = monthOf (t / 1440) / 12 := by
    simp only [localtime]; omega
  have hm : ((localtime t).tmMon + 1).toNat = monthOf (t / 1440) % 12 + 1 := by
    simp only [localtime]; omega
  rw [Tm.yearMonth, hy, hm, fmt_eq_dec (by omega) (by omega), fmt_eq_dec (by omega) (by omega),
    dec_append _ _ _ _ (by omega)]
  rfl

theorem localtime_date {t : Nat} (h : t / 1440 < lastDay) :
    (localtime t).date = dateText (t / 1440) := by
  have hd : (localtime t).tmMday.toNat = mday (t / 1440) := by simp [localtime]
  have h31 := mday_le_31 (t / 1440)
  rw [Tm.date, localtime_yearMonth h, hd, fmt_eq_dec (by omega) (by omega), monthText,
    dec_append _ _ _ _ (by omega)]
  rfl

/-- Midnight of day `n`, moved by `k` days. -/
theorem minutes_date {n : Nat} (k : Int) :
    Tm.minutes
      { tmYear := ((monthOf n / 12 : Nat) : Int) - 1900
        tmMon := ((monthOf n % 12 + 1 : Nat) : Int) - 1
        tmMday := (mday n : Int) + k
        tmHour := 0
        tmMin := 0 } = 1440 * ((n : Int) + k).toNat := by
  have h1 : (12 * (((monthOf n / 12 : Nat) : Int) - 1900 + 1900) +
      (((monthOf n % 12 + 1 : Nat) : Int) - 1)).toNat = monthOf n := by omega
  have h2 := monthStart_add_mday n
  simp only [Tm.minutes, h1]
  omega

theorem mktime_date {n m : Nat} {k : Int} (hk : (n : Int) + k = m) (hm : m < lastDay) :
    (mktime
      { tmYear := ((monthOf n / 12 : Nat) : Int) - 1900
        tmMon := ((monthOf n % 12 + 1 : Nat) : Int) - 1
        tmMday := (mday n : Int) + k
        tmHour := 0
        tmMin := 0 }).date = dateText m := by
  have hdiv : 1440 * m / 1440 = m := by omega
  rw [mktime, minutes_date, hk, Int.toNat_natCast, localtime_date (by rw [hdiv]; exact hm), hdiv]

/-! ## The functions on texts -/

theorem getEndOfMonth_monthText {M : Nat} (h : M < lastMonth) :
    getEndOfMonth (monthText M) = monthLen M := by
  have hm : M % 12 < 12 := Nat.mod_lt _ (by omega)
  simp only [getEndOfMonth, textYear_monthText h, textMon_monthText, monthLen, isLeap]
  generalize M % 12 = m at *
  interval_cases m <;> simp
  grind

theorem shiftMonth_monthText {M N : Nat} {k : Int} (hM : M < lastMonth) (hk : (M : Int) + k = N)
    (hN : N < lastMonth) : shiftMonth (monthText M) k = monthText N := by
  have h1 : Tm.minutes
      { tmYear := ((M / 12 : Nat) : Int) - 1900
        tmMon := (((M % 12 + 1 : Nat) : Int) - 1) + k
        tmMday := 1
        tmHour := 0
        tmMin := 0 } = 1440 * monthStart N := by
    have h2 : (12 * (((M / 12 : Nat) : Int) - 1900 + 1900) +
        ((((M % 12 + 1 : Nat) : Int) - 1) + k)).toNat = N := by omega
    simp only [Tm.minutes, h2]
    omega
  have hlt : monthStart N < lastDay := monthStart_lt hN
  have hdiv : 1440 * monthStart N / 1440 = monthStart N := by omega
  have hof : monthOf (monthStart N) = N := monthOf_eq (Nat.le_refl _) (monthStart_lt (by omega))
  simp only [shiftMonth, textYear_monthText hM, textMon_monthText, mktime, h1]
  rw [localtime_yearMonth (by rw [hdiv]; exact hlt), hdiv, hof, strlcpy,
    List.take_of_length_le (by simp [monthText])]

theorem shiftDays_dateText {n m : Nat} {k : Int} (hn : n < lastDay) (hk : (n : Int) + k = m)
    (hm : m < lastDay) : shiftDays (dateText n) k = dateText m := by
  simp only [shiftDays, textYear_dateText hn, textMon_dateText, textDay_dateText]
  rw [mktime_date hk hm, strlcpy, List.take_of_length_le (by simp [dateText])]

/-! ### Boot times -/

theorem bootText_lt {hh mm : Nat} (hhh : hh ≤ 99) (hmm : mm ≤ 59) : hh * 100 + mm < 10 ^ 4 := by omega

theorem atoi_bootText {hh mm : Nat} (hhh : hh ≤ 99) (hmm : mm ≤ 59) :
    atoi (bootText hh mm) = hh * 100 + mm := by
  rw [bootText, atoi_dec_of_lt (bootText_lt hhh hmm)]

/-- The first operating date of the SQL filter lies `HH / 24` days before
the current day. -/
theorem makeEndOperatingDate_spec {now hh mm : Nat} (hhh : hh ≤ 99) (hmm : mm ≤ 59)
    (hlo : 4 ≤ now / 1440) (hhi : now / 1440 < lastDay) :
    makeEndOperatingDate (stampText now) (bootText hh mm) = dateText (now / 1440 - hh / 24) := by
  obtain ⟨hy, hm, hd⟩ := textFields_stampText now
  have hday : (hh * 100 + mm) / 2400 = hh / 24 := by omega
  simp only [makeEndOperatingDate, atoi_bootText hhh hmm]
  split
  · rename_i hlt
    have h0 : hh / 24 = 0 := by omega
    rw [strlcpy, take_stampText, h0, Nat.sub_zero]
  · have hneg : (mday (now / 1440) : Int) - (hh / 24 : Nat) = mday (now / 1440) + -(hh / 24 : Nat) := by omega
    rw [hy, hm, hd, textYear_dateText hhi, textMon_dateText, textDay_dateText, hday, hneg,
      mktime_date (m := now / 1440 - hh / 24) (by omega) (by omega), strlcpy,
      List.take_of_length_le (by simp [dateText])]

/-- The minute an operating date and a boot time stand for. -/
def bootMinute (n hh mm : Nat) : Nat := 1440 * n + 60 * hh + mm

theorem stampText_eq {t : Nat} : stampText t = dateText (t / 1440) ++ dec 4 (t % 1440 / 60 * 100 + t % 60) := by
  rw [dateText, dec_append _ _ _ _ (by omega)]
  rfl

theorem makeScheduledTime_spec {n hh mm : Nat} (hhh : hh ≤ 99) (hmm : mm ≤ 59)
    (hlt : bootMinute n hh mm / 1440 < lastDay) :
    makeScheduledTime (dateText n) (bootText hh mm) = stampText (bootMinute n hh mm) := by
  have hn : bootMinute n hh mm / 1440 = n + hh / 24 := by unfold bootMinute; omega
  have hm : bootMinute n hh mm % 1440 / 60 * 100 + bootMinute n hh mm % 60 = hh % 24 * 100 + mm := by
    unfold bootMinute; omega
  rw [stampText_eq, hm, hn]
  rw [hn] at hlt
  simp only [makeScheduledTime, atoi_bootText hhh hmm]
  split
  · rename_i hbt
    have h0 : hh / 24 = 0 ∧ hh % 24 = hh := by omega
    rw [h0.1, h0.2, Nat.add_zero, strlcpy, strlcpy, List.take_take,
      List.take_of_length_le (by simp [dateText]), List.take_of_length_le (by simp [bootText])]
    rfl
  · have hday : (hh * 100 + mm) / 2400 = hh / 24 := by omega
    have hw : hh * 100 + mm - 2400 * (hh / 24) = hh % 24 * 100 + mm := by omega
    rw [hday, hw, textYear_dateText (by omega), textMon_dateText, textDay_dateText,
      mktime_date (m := n + hh / 24) (by omega) hlt, fmt_eq_dec (by omega) (by omega), strlcpy,
      List.take_of_length_le (by simp [dateText])]

/-- A sum in year 10000 loses its last digit and reads as a date in month
00 of year 1000. -/
theorem makeScheduledTime_overflow {n hh mm : Nat} (hhh : hh ≤ 99) (hmm : mm ≤ 59) (hn : n < lastDay)
    (hge : lastDay ≤ bootMinute n hh mm / 1440) :
    ∃ v, v < 100001010000 ∧ makeScheduledTime (dateText n) (bootText hh mm) = dec 12 v := by
  have hdiv : bootMinute n hh mm / 1440 = n + hh / 24 := by unfold bootMinute; omega
  have hday : (hh * 100 + mm) / 2400 = hh / 24 := by omega
  rw [hdiv] at hge
  have hk : 1440 * (n + hh / 24) / 1440 = n + hh / 24 := by omega
  have hL := lastDay_eq
  have hs : monthStart lastMonth = 3652425 := hL
  have hs' : monthStart (lastMonth + 1) = 3652456 := by decide +kernel
  have hof : monthOf (n + hh / 24) = lastMonth := monthOf_eq (by omega) (by omega)
  have hmd : mday (n + hh / 24) ≤ 5 := by
    unfold mday
    rw [hof]
    omega
  have hdate : (localtime (1440 * (n + hh / 24))).date = dec 9 (1000001 * 100 + mday (n + hh / 24)) := by
    have hym : (localtime (1440 * (n + hh / 24))).yearMonth = dec 7 1000001 := by
      simp only [Tm.yearMonth, localtime, hk, hof]
      decide +kernel
    rw [Tm.date, hym]
    simp only [localtime, hk]
    rw [Int.toNat_natCast, fmt_eq_dec (by omega) (by omega), dec_append _ _ _ _ (by omega)]
    rfl
  refine ⟨((1000001 * 100 + mday (n + hh / 24)) * 10 ^ 4 + (hh * 100 + mm - 2400 * (hh / 24))) / 10 ^ 1,
    by omega, ?_⟩
  simp only [makeScheduledTime, atoi_bootText hhh hmm]
  rw [if_neg (by omega), hday, textYear_dateText hn, textMon_dateText, textDay_dateText, mktime, minutes_date,
    ← Nat.cast_add, Int.toNat_natCast, hdate, fmt_eq_dec (by omega) (by omega),
    dec_append _ _ _ _ (by omega), strlcpy, take_dec 12 1]

/-- The window searched: from the current minute to `span` minutes ahead. -/
theorem getSearchDate_spec {span now : Nat} (h : (now + span) / 1440 < lastDay) :
    getSearchDate span now = (stampText (now + span), stampText now) := by
  have hstamp : ∀ t, t / 1440 < lastDay →
      (localtime t).date ++ fmt 2 (localtime t).tmHour.toNat ++ fmt 2 (localtime t).tmMin.toNat =
        stampText t := by
    intro t ht
    have h1 : (localtime t).tmHour.toNat = t % 1440 / 60 := by simp only [localtime]; omega
    have h2 : (localtime t).tmMin.toNat = t % 60 := by simp only [localtime]; omega
    rw [localtime_date ht, h1, h2, fmt_eq_dec (by omega) (by omega), fmt_eq_dec (by omega) (by omega),
      List.append_assoc, dec_append _ _ _ _ (by omega), stampText_eq]
    rfl
  have hmin : Tm.minutes { localtime now with tmMin := (localtime now).tmMin + span } = now + span := by
    have h1 : (12 * (((monthOf (now / 1440) / 12 : Nat) : Int) - 1900 + 1900) +
        ((monthOf (now / 1440) % 12 : Nat) : Int)).toNat = monthOf (now / 1440) := by omega
    have h2 := monthStart_add_mday (now / 1440)
    simp only [Tm.minutes, localtime, h1]
    omega
  have hnow : now / 1440 < lastDay := by omega
  simp only [getSearchDate, mktime, hmin, hstamp _ h, hstamp _ hnow]

end JobArranger
