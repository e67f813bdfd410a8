import JobArranger.L3Loader.Dates
import Mathlib.Data.List.Basic

/-!
# Calendar and filter schedules (`jobarg_server/jaloader/jaloader.c`)

`get_calendar_detail` finds the scheduled times of a calendar or filter
that fall into the search window and calls `get_schedule_jobnet` for each.
The model returns the calls in order, or the log line of the `FAIL` exit
(`no_valid_flag` is set exactly there).

`operating_date` is an integer column: SQL compares numbers, and a fetched
row is its decimal text. The selects have no order clause; rows come in
table order.

* `calendar_calls_exact`: for a calendar the calls are exactly the operating
  dates whose scheduled minute lies in the window.
-/
namespace JobArranger

open Decimal Gregorian

/-- Row of `ja_calendar_control_table`. -/
structure CalendarControl where
  calendarId : String
  updateDate : Nat
  validFlag : Bool
  deriving DecidableEq, Repr

/-- Row of `ja_calendar_detail_table`. -/
structure CalendarDetail where
  calendarId : String
  updateDate : Nat
  operatingDate : Nat
  deriving DecidableEq, Repr

/-- Row of `ja_filter_control_table`. -/
structure FilterControl where
  filterId : String
  validFlag : Bool
  baseDateFlag : Nat
  designatedDay : Nat
  shiftDay : Int
  baseCalendarId : String
  deriving DecidableEq, Repr

/-- The calendar tables. -/
structure Calendars where
  control : List CalendarControl
  detail : List CalendarDetail
  filter : List FilterControl
  deriving DecidableEq, Repr

namespace Calendars

/-- `select update_date … where calendar_id = … and valid_flag = 1`, first row. -/
def validVersion (db : Calendars) (calendarId : String) : Option Nat :=
  (db.control.find? fun c => c.calendarId = calendarId ∧ c.validFlag).map CalendarControl.updateDate

/-- `select operating_date … where calendar_id = … and update_date = …`. -/
def operatingDates (db : Calendars) (calendarId : String) (updateDate : Nat) : List Nat :=
  (db.detail.filter fun d => d.calendarId = calendarId ∧ d.updateDate = updateDate).map
    CalendarDetail.operatingDate

def validFilter (db : Calendars) (filterId : String) : Option FilterControl :=
  db.filter.find? fun f => f.filterId = filterId ∧ f.validFlag

end Calendars

/-- The arguments of one call of `get_schedule_jobnet`. -/
structure ScheduleCall where
  scheduleId : String
  updateDate : Nat
  scheduledTime : List Char
  calendarId : String
  bootTime : List Char
  deriving DecidableEq, Repr

/-- `ja_log(messageId, 0, NULL, 0, calendarId, scheduleId)` before `FAIL`. -/
structure ScheduleError where
  messageId : String
  calendarId : String
  scheduleId : String
  deriving DecidableEq, Repr

/-- `strcmp(scheduled_time, start_date) <= 0 && strcmp(scheduled_time, end_date) >= 0`. -/
def inSearchRange (startDate endDate scheduledTime : List Char) : Bool :=
  strcmp scheduledTime startDate ≤ 0 ∧ 0 ≤ strcmp scheduledTime endDate

/-- Where the inner search of a filter starts: the first date (as month and
day) and the first `cnt`.
mirrors src/jobarg_server/jaloader/jaloader.c:2231-2236,2267-2295 -/
def filterBase (f : FilterControl) (editMonth : List Char) : List Char × Nat × Nat :=
  match f.baseDateFlag with
  | 0 => (editMonth, 1, 0)
  | 1 => (editMonth, getEndOfMonth editMonth, 0)
  | 2 =>
    let last := getEndOfMonth editMonth
    if f.designatedDay > last then
      if 0 ≤ f.shiftDay then (shiftMonth editMonth 1, 1, 1)
      else (editMonth, last, f.designatedDay - last)
    else (editMonth, f.designatedDay, 0)
  | _ => (editMonth, f.designatedDay, 0)

/-- The inner loop `while (cnt < 30)`; `left` is `30 - cnt`. -/
def filterSearch (dates : List Nat) (shiftDay : Int) :
    (left cnt hit : Nat) → (editDate : List Char) → Option (List Char)
  | 0, _, _, _ => none
  | left + 1, cnt, hit, editDate =>
    let next (hit : Nat) :=
      if shiftDay = 0 then none
      else filterSearch dates shiftDay left (cnt + 1) hit (shiftDays editDate (if 0 ≤ shiftDay then 1 else -1))
    match dates.find? (· = atoi editDate) with
    | some row => if cnt = 0 ∨ shiftDay.natAbs ≤ hit + 1 then some (fmt 1 row) else next (hit + 1)
    | none => next hit

/-- The operating date the inner search selects for a month `YYYYMM`.
mirrors src/jobarg_server/jaloader/jaloader.c:2258-2338 -/
def filterSelect (dates : List Nat) (f : FilterControl) (editMonth : List Char) : Option (List Char) :=
  let (month, day, cnt) := filterBase f editMonth
  filterSearch dates f.shiftDay (30 - cnt) cnt 0 (strlcpy (month ++ fmt 2 day) 9)

/-- Schedule time edit and check of one operating date.
mirrors src/jobarg_server/jaloader/jaloader.c:2145-2151,2343-2353 -/
def scheduleCheck (scheduleId : String) (updateDate : Nat) (startDate endDate : List Char)
    (calendarId : String) (bootTime operatingDate : List Char) : Option ScheduleCall :=
  let scheduledTime := makeScheduledTime operatingDate bootTime
  if inSearchRange startDate endDate scheduledTime then
    some { scheduleId, updateDate, scheduledTime, calendarId, bootTime }
  else none

/-- mirrors src/jobarg_server/jaloader/jaloader.c:2090-2309 -/
def getCalendarDetail (db : Calendars) (scheduleId : String) (updateDate : Nat)
    (startDate endDate : List Char) (calendarId : String) (bootTime : List Char) (objectFlag : Nat) :
    Except ScheduleError (List ScheduleCall) :=
  let check := scheduleCheck scheduleId updateDate startDate endDate calendarId bootTime
  if objectFlag = 0 then
    match db.validVersion calendarId with
    | none => .error ⟨"JALOADER200006", calendarId, scheduleId⟩
    | some jcUpdateDate =>
      let startOpeDate := atoi (strlcpy startDate 9)
      let endOpeDate := atoi (makeEndOperatingDate endDate bootTime)
      let rows := (db.operatingDates calendarId jcUpdateDate).filter
        fun d => d ≤ startOpeDate ∧ endOpeDate ≤ d
      .ok (rows.filterMap fun row => check (fmt 1 row))
  else
    match db.validFilter calendarId with
    | none => .error ⟨"JALOADER200008", calendarId, scheduleId⟩
    | some f =>
      match db.validVersion f.baseCalendarId with
      | none => .error ⟨"JALOADER200006", calendarId, scheduleId⟩
      | some jcUpdateDate =>
        let dates := db.operatingDates f.baseCalendarId jcUpdateDate
        let baseDate := endDate.take 6
        .ok ([-2, -1, 0, 1].filterMap fun months =>
          (filterSelect dates f (shiftMonth baseDate months)).bind check)

/-! ## Operating dates of four-digit years -/

/-- The first day of year 1000. -/
def firstDay : Nat := monthStart 12000

theorem firstDay_eq : firstDay = 365243 := by decide +kernel

theorem dayCode_firstDay : dayCode firstDay = 10000101 := by decide +kernel

/-- A fetched date of a four-digit year is its date text. -/
theorem fmt_dayCode {n : Nat} (hlo : firstDay ≤ n) (hhi : n < lastDay) : fmt 1 (dayCode n) = dateText n := by
  have h1 : dayCode firstDay ≤ dayCode n := dayCode_strictMono.le_iff_le.2 hlo
  rw [dayCode_firstDay] at h1
  exact fmt_eq_dec_of_digits (by omega) (by omega) (dayCode_lt_pow hhi)

theorem atoi_dateText {n : Nat} (h : n < lastDay) : atoi (dateText n) = dayCode n :=
  atoi_dec_of_lt (dayCode_lt_pow h)

/-- On stamps of four-digit years the text comparison is that of the
minutes. -/
theorem inSearchRange_stampText {now span t : Nat} (hspan : (now + span) / 1440 < lastDay)
    (ht : t / 1440 < lastDay) :
    inSearchRange (stampText (now + span)) (stampText now) (stampText t) ↔ now ≤ t ∧ t ≤ now + span := by
  have hn : now / 1440 < lastDay := by omega
  rw [inSearchRange, decide_eq_true_iff]
  unfold stampText
  rw [strcmp_dec_le (stampCode_lt_pow ht) (stampCode_lt_pow hspan),
    strcmp_dec_ge (stampCode_lt_pow ht) (stampCode_lt_pow hn), stampCode_strictMono.le_iff_le,
    stampCode_strictMono.le_iff_le]
  exact and_comm

/-- The check of one operating date: exactly the dates whose scheduled
minute lies in the window pass, also where the sum leaves year 9999. -/
theorem inSearchRange_scheduledTime {now span n hh mm : Nat} (hhh : hh ≤ 99) (hmm : mm ≤ 59)
    (hlo : firstDay ≤ now / 1440) (hspan : (now + span) / 1440 < lastDay) (hn : n < lastDay) :
    inSearchRange (stampText (now + span)) (stampText now) (makeScheduledTime (dateText n) (bootText hh mm)) ↔
      now ≤ bootMinute n hh mm ∧ bootMinute n hh mm ≤ now + span := by
  rcases Nat.lt_or_ge (bootMinute n hh mm / 1440) lastDay with h | h
  · rw [makeScheduledTime_spec hhh hmm h, inSearchRange_stampText hspan h]
  · -- the cut text is before the current time, and the sum behind the window
    obtain ⟨v, hv, hs⟩ := makeScheduledTime_overflow hhh hmm hn h
    have hnow : 100001010000 ≤ stampCode now := by
      have h1 : dayCode firstDay ≤ dayCode (now / 1440) := dayCode_strictMono.le_iff_le.2 hlo
      rw [dayCode_firstDay] at h1
      unfold stampCode
      omega
    have hn : now / 1440 < lastDay := by omega
    rw [hs, inSearchRange, decide_eq_true_iff]
    unfold stampText
    rw [strcmp_dec_ge (by omega) (stampCode_lt_pow hn)]
    constructor
    · intro hc
      omega
    · intro hc
      omega

/-- `operating_date <= start and operating_date >= end` of the select. -/
theorem prefilter_iff {now span n hh mm : Nat} (hhh : hh ≤ 99) (hmm : mm ≤ 59)
    (hlo : firstDay ≤ now / 1440) (hspan : (now + span) / 1440 < lastDay) :
    (dayCode n ≤ atoi (strlcpy (stampText (now + span)) 9) ∧
      atoi (makeEndOperatingDate (stampText now) (bootText hh mm)) ≤ dayCode n) ↔
      n ≤ (now + span) / 1440 ∧ now / 1440 ≤ n + hh / 24 := by
  have hfd := firstDay_eq
  rw [strlcpy, take_stampText, atoi_dateText hspan,
    makeEndOperatingDate_spec hhh hmm (by omega) (by omega), atoi_dateText (by omega),
    dayCode_strictMono.le_iff_le, dayCode_strictMono.le_iff_le]
  omega

/-- The call made for an operating date in the window. -/
def scheduledCall (scheduleId : String) (updateDate : Nat) (calendarId : String) (hh mm n : Nat) : ScheduleCall :=
  { scheduleId, updateDate, scheduledTime := stampText (bootMinute n hh mm), calendarId
    bootTime := bootText hh mm }

theorem scheduleCheck_spec {now span n hh mm : Nat} (scheduleId : String) (updateDate : Nat)
    (calendarId : String) (hhh : hh ≤ 99) (hmm : mm ≤ 59)
    (hlo : firstDay ≤ now / 1440) (hspan : (now + span) / 1440 < lastDay) (hn : n < lastDay) :
    scheduleCheck scheduleId updateDate (stampText (now + span)) (stampText now) calendarId
        (bootText hh mm) (dateText n) =
      if now ≤ bootMinute n hh mm ∧ bootMinute n hh mm ≤ now + span then
        some (scheduledCall scheduleId updateDate calendarId hh mm n)
      else none := by
  have hr := inSearchRange_scheduledTime hhh hmm hlo hspan hn
  by_cases hw : now ≤ bootMinute n hh mm ∧ bootMinute n hh mm ≤ now + span
  · have hlt : bootMinute n hh mm / 1440 < lastDay := by omega
    rw [makeScheduledTime_spec hhh hmm hlt] at hr
    simp only [scheduleCheck, makeScheduledTime_spec hhh hmm hlt, if_pos (hr.2 hw), if_pos hw, scheduledCall]
  · have hf : inSearchRange (stampText (now + span)) (stampText now)
        (makeScheduledTime (dateText n) (bootText hh mm)) = false := by
      simpa using mt hr.1 hw
    simp [scheduleCheck, hf, hw]

/-- **Calendar schedules are loaded exactly.** For operating dates of
four-digit years and a window inside them, the calls are those of the dates
whose scheduled minute lies in the window, in table order. The SQL filter
drops none of them, and each scheduled time up to year 9999 is the text of
the sum. -/
theorem calendar_calls_exact (db : Calendars) (scheduleId : String) (updateDate : Nat) (calendarId : String)
    (version : Nat) (days : List Nat) (hh mm now span : Nat)
    (hv : db.validVersion calendarId = some version)
    (hdays : db.operatingDates calendarId version = days.map dayCode)
    (hrange : ∀ n ∈ days, firstDay ≤ n ∧ n < lastDay)
    (hhh : hh ≤ 99) (hmm : mm ≤ 59)
    (hlo : firstDay ≤ now / 1440) (hspan : (now + span) / 1440 < lastDay) :
    let window := getSearchDate span now
    getCalendarDetail db scheduleId updateDate window.1 window.2 calendarId (bootText hh mm) 0 =
        .ok ((days.filter fun n => now ≤ bootMinute n hh mm ∧ bootMinute n hh mm ≤ now + span).map
          (scheduledCall scheduleId updateDate calendarId hh mm)) ∧
      (∀ n ∈ days, now ≤ bootMinute n hh mm → bootMinute n hh mm ≤ now + span →
        dayCode n ≤ atoi (strlcpy window.1 9) ∧
          atoi (makeEndOperatingDate window.2 (bootText hh mm)) ≤ dayCode n) ∧
      (∀ n ∈ days, bootMinute n hh mm / 1440 < lastDay →
        makeScheduledTime (fmt 1 (dayCode n)) (bootText hh mm) = stampText (bootMinute n hh mm)) := by
  simp only [getSearchDate_spec hspan]
  have hpre : ∀ n, now ≤ bootMinute n hh mm ∧ bootMinute n hh mm ≤ now + span →
      n ≤ (now + span) / 1440 ∧ now / 1440 ≤ n + hh / 24 := by
    intro n hw
    unfold bootMinute at hw
    omega
  refine ⟨?_, fun n _ h1 h2 => (prefilter_iff hhh hmm hlo hspan).2 (hpre n ⟨h1, h2⟩), ?_⟩
  · simp only [getCalendarDetail, if_true, hv, hdays, Except.ok.injEq, List.filter_map, List.filterMap_map]
    rw [List.filterMap_filter, ← List.filterMap_eq_map, List.filterMap_filter]
    apply List.filterMap_congr
    intro n hn
    obtain ⟨h1, h2⟩ := hrange n hn
    simp only [Function.comp, decide_eq_true_eq, prefilter_iff hhh hmm hlo hspan, fmt_dayCode h1 h2,
      scheduleCheck_spec scheduleId updateDate calendarId hhh hmm hlo hspan h2]
    split
    · rfl
    · rename_i hc
      rw [if_neg fun hw => hc (hpre n hw)]
  · intro n hn hlt
    obtain ⟨h1, h2⟩ := hrange n hn
    rw [fmt_dayCode h1 h2, makeScheduledTime_spec hhh hmm hlt]

/-- A calendar with the operating date 2023-12-31. -/
def yearEndCalendar : Calendars :=
  { control := [⟨"CAL", 20230101000000, true⟩]
    detail := [⟨"CAL", 20230101000000, 20231231⟩]
    filter := [] }

/-- Boot time 49:30 of December 31 falls on January 2, 01:30. -/
theorem calendar_calls_exact_yearEnd :
    getCalendarDetail yearEndCalendar "SCH" 1 (getSearchDate 60 1064522940).1 (getSearchDate 60 1064522940).2
        "CAL" (bootText 49 30) 0 =
      .ok [scheduledCall "SCH" 1 "CAL" 49 30 739250] ∧
    (scheduledCall "SCH" 1 "CAL" 49 30 739250).scheduledTime = "202401020130".toList := by
  have hn : dayCode 739250 = 20231231 := by decide +kernel
  refine ⟨?_, by decide +kernel⟩
  have h := calendar_calls_exact yearEndCalendar "SCH" 1 "CAL" 20230101000000 [739250] 49 30 1064522940 60
    (by decide +kernel) (by rw [List.map_singleton, hn]; decide +kernel)
    (by rw [firstDay_eq, lastDay_eq]; decide) (by decide) (by decide)
    (by rw [firstDay_eq]; decide) (by rw [lastDay_eq]; decide)
  rw [h.1]
  decide +kernel

end JobArranger
