import JobArranger.L3Loader.Filter
import Mathlib.Data.List.Sort

/-!
# The filter preview of the manager (`Form/FilterEdit/Designer/Container.xaml.cs`)

The filter editor shows a year calendar with the days its filter selects.
`refreshMonthCalendar` finds them with its own rule: the target date of each
month is looked up in the base calendar, and for a closed one the rows of
the 30 days from it on (or back to it) are sorted and indexed by the shift.
It does so for the twelve months of the year, the December before and the
January after. A .NET exception anywhere in the loop ends it with `false`.

A `DateTime` is its day number (`Gregorian`); an operation that throws
returns `none`. The number in `tbDesignatedDay` is that of
`Convert.ToInt16`, `none` for the empty box.

* `filterSearch_iterate`: the day-by-day search of the loader takes the row
  with the index `|shift_day| - 1` among the operating days it walks over.
* `sorted_rows`: these rows are what the range query of the editor returns.
* `preview_agrees_iff`: when the year shown is that of the loader.
-/
namespace JobArranger

open Decimal Gregorian

/-! ## `DateTime` and `ConvertUtil` -/

/-- `new DateTime(year, month, day)`. -/
def newDateTime (year month day : Nat) : Option Nat :=
  if 1 ≤ year ∧ year ≤ 9999 ∧ 1 ≤ month ∧ month ≤ 12 ∧ 1 ≤ day ∧ day ≤ monthLen (12 * year + (month - 1)) then
    some (monthStart (12 * year + (month - 1)) + (day - 1))
  else none

/-- `DateTime.DaysInMonth(year, month)`. -/
def daysInMonth (year month : Nat) : Option Nat :=
  if 1 ≤ year ∧ year ≤ 9999 ∧ 1 ≤ month ∧ month ≤ 12 then some (monthLen (12 * year + (month - 1))) else none

/-- `date.AddDays(value)`, years 1 to 9999. -/
def addDays (date : Nat) (value : Int) : Option Nat :=
  if (monthStart 12 : Int) ≤ date + value ∧ date + value < lastDay then some (date + value).toNat else none

/-- The number of `date.ToString("yyyyMMdd")`.
mirrors src/frontend/jobarg_manager/common/Utils/ConvertUtil.cs:50-54 -/
def converDate2IntYYYYMMDD (date : Nat) : Nat := atoi (dateText date)

/-- `DateTime.ParseExact(iDate.ToString(), "yyyyMMdd", null)`.
mirrors src/frontend/jobarg_manager/common/Utils/ConvertUtil.cs:56-61 -/
def converIntYYYYMMDD2Date (iDate : Nat) : Option Nat :=
  let str := fmt 1 iDate
  if str.length = 8 then newDateTime (atoi (str.take 4)) (atoi ((str.drop 4).take 2)) (atoi ((str.drop 6).take 2))
  else none

/-- `Regex.Replace(s, @"(\d{4})(\d{2})(\d{2})", @"$1/$2/$3")` on a text of digits. -/
def insertSlashes : List Char → List Char
  | y₁ :: y₂ :: y₃ :: y₄ :: m₁ :: m₂ :: d₁ :: d₂ :: rest =>
    y₁ :: y₂ :: y₃ :: y₄ :: '/' :: m₁ :: m₂ :: '/' :: d₁ :: d₂ :: insertSlashes rest
  | s => s

/-- `DateTime.Parse` on what the replacement leaves: a date `yyyy/MM/dd`, or
digits that are no date. -/
def dateTimeParse (s : List Char) : Option Nat :=
  if s.length = 10 ∧ s[4]? = some '/' ∧ s[7]? = some '/' then
    newDateTime (atoi (s.take 4)) (atoi ((s.drop 5).take 2)) (atoi ((s.drop 8).take 2))
  else none

/-! ## The editor -/

/-- The base day buttons. -/
inductive BaseDate where
  | rbFirstDay | rbLastDay | rbDesignatedDay
  deriving DecidableEq, Repr

/-- What the editor holds; `calendarDetailTable` are the operating dates of
the base calendar, `none` until one is chosen. -/
structure FilterForm where
  calendarDetailTable : Option (List Nat)
  baseDate : BaseDate
  tbDesignatedDay : Option Nat
  cmbShiftDay : Int
  deriving DecidableEq, Repr

namespace FilterForm

/-- The checks of the base calendar and the designated day. The box of the
shift offers -7 to 7.
mirrors src/frontend/jobarg_manager/jobarg_manager/Form/FilterEdit/FilterEdit.xaml.cs:1024-1055 -/
def inputCheck (form : FilterForm) : Bool :=
  form.calendarDetailTable.isSome ∧
    (form.baseDate = .rbDesignatedDay → ∃ day ∈ form.tbDesignatedDay, 1 ≤ day ∧ day ≤ 31)

/-- The columns the editor writes to the filter's row.
mirrors src/frontend/jobarg_manager/jobarg_manager/Form/FilterEdit/FilterEdit.xaml.cs:776-798 -/
def save (form : FilterForm) (row : FilterControl) : FilterControl :=
  match form.baseDate with
  | .rbFirstDay => { row with baseDateFlag := 0, designatedDay := 0, shiftDay := form.cmbShiftDay }
  | .rbLastDay => { row with baseDateFlag := 1, designatedDay := 0, shiftDay := form.cmbShiftDay }
  | .rbDesignatedDay =>
    { row with baseDateFlag := 2, designatedDay := form.tbDesignatedDay.getD 0, shiftDay := form.cmbShiftDay }

/-- `targetDate[i]`.
mirrors src/frontend/jobarg_manager/jobarg_manager/Form/FilterEdit/Designer/Container.xaml.cs:339-352 -/
def targetDate (form : FilterForm) (year month : Nat) : Option Nat :=
  match form.baseDate with
  | .rbFirstDay => (newDateTime year month 1).map converDate2IntYYYYMMDD
  | .rbLastDay =>
    (daysInMonth year month).bind fun last => (newDateTime year month last).map converDate2IntYYYYMMDD
  | .rbDesignatedDay => form.tbDesignatedDay.map fun day => atoi (fmt 4 year ++ fmt 2 month ++ fmt 2 day)

/-- `if ((0 < rows.Length) && (Math.Abs(shiftDay) - 1 < rows.Length))`: the
row set, if there are as many. -/
def setShifted (form : FilterForm) (rows : List Nat) (index : Int) : Option (Option Nat) :=
  if 0 < rows.length ∧ form.cmbShiftDay.natAbs - 1 < rows.length then
    (rows[index.toNat]?.bind converIntYYYYMMDD2Date).map some
  else some none

/-- One round of the loop: the date handed to `SetSelectDate`, `some none`
where none is, `none` at an exception.
mirrors src/frontend/jobarg_manager/jobarg_manager/Form/FilterEdit/Designer/Container.xaml.cs:339-409 -/
def refreshMonth (form : FilterForm) (table : List Nat) (year month : Nat) : Option (Option Nat) :=
  (form.targetDate year month).bind fun target =>
    if target ∈ table then (converIntYYYYMMDD2Date target).map some
    else
      (dateTimeParse (insertSlashes (fmt 1 target))).bind fun dtDate =>
        if 0 < form.cmbShiftDay then
          (addDays dtDate 29).bind fun date =>
            let afterDate := converDate2IntYYYYMMDD date
            form.setShifted ((table.filter fun d => target ≤ d ∧ d ≤ afterDate).mergeSort fun a b => a ≤ b)
              (form.cmbShiftDay - 1)
        else if form.cmbShiftDay < 0 then
          (addDays dtDate (-29)).bind fun date =>
            let beforeDate := converDate2IntYYYYMMDD date
            form.setShifted ((table.filter fun d => d ≤ target ∧ beforeDate ≤ d).mergeSort fun a b => b ≤ a)
              (-1 - form.cmbShiftDay)
        else
          match (table.filter fun d => d = target).head? with
          | none => some none
          | some row => (converIntYYYYMMDD2Date row).map some

/-- Year and month of round `i`. -/
def shownMonth (baseYear i : Nat) : Nat × Nat :=
  if i = 0 then (baseYear - 1, 12) else if i = 13 then (baseYear + 1, 1) else (baseYear, i)

/-- The rounds; an exception ends them, the ranges set so far stay. -/
def refreshMonths (form : FilterForm) (table : List Nat) : List (Nat × Nat) → Bool × List Nat
  | [] => (true, [])
  | (year, month) :: rest =>
    match form.refreshMonth table year month with
    | none => (false, [])
    | some date => ((form.refreshMonths table rest).1, date.toList ++ (form.refreshMonths table rest).2)

/-- The returned flag and the `SelectionRanges` of the month calendar.
mirrors src/frontend/jobarg_manager/jobarg_manager/Form/FilterEdit/Designer/Container.xaml.cs:308-423 -/
def refreshMonthCalendar (form : FilterForm) (baseYear : Nat) : Bool × List Nat :=
  match form.calendarDetailTable with
  | none => (false, [])
  | some table =>
    if form.baseDate = .rbDesignatedDay ∧ form.tbDesignatedDay = none then (false, [])
    else form.refreshMonths table ((List.range 14).map (shownMonth baseYear))

end FilterForm

/-- A base calendar: the operating days, distinct by the primary key of
`ja_calendar_detail_table`. -/
structure BaseCalendar where
  days : List Nat
  distinct : days.Nodup

/-- The column `operating_date`. -/
def BaseCalendar.dates (cal : BaseCalendar) : List Nat := cal.days.map dayCode

/-! ## The loader's search, by rows -/

/-- From the second round on the search selects the operating day with the
index `|shift_day| - 1 - hit` among those it walks over. -/
theorem filterSearch_iterate {days : List Nat} {shift : Int} {next : Nat → Nat} {left cnt hit n : Nat}
    (hwalk : ∀ m ∈ List.iterate next n left, firstDay ≤ m ∧ m < lastDay ∧
      shiftDays (dateText m) (if 0 ≤ shift then 1 else -1) = dateText (next m))
    (hs : shift ≠ 0) (hcnt : 1 ≤ cnt) (hhit : hit < shift.natAbs) :
    filterSearch (days.map dayCode) shift left cnt hit (dateText n) =
      ((List.iterate next n left).filter (· ∈ days))[shift.natAbs - 1 - hit]?.map dateText := by
  induction left generalizing cnt hit n with
  | zero => rfl
  | succ left ih =>
    obtain ⟨hlo, hhi, hstep⟩ := hwalk n List.mem_cons_self
    have hrest : ∀ m ∈ List.iterate next (next n) left, firstDay ≤ m ∧ m < lastDay ∧
        shiftDays (dateText m) (if 0 ≤ shift then 1 else -1) = dateText (next m) :=
      fun m hm => hwalk m (List.mem_cons_of_mem _ hm)
    simp only [filterSearch, find_dateText hhi, hstep, if_neg hs]
    show _ = (((n :: List.iterate next (next n) left).filter (· ∈ days))[shift.natAbs - 1 - hit]?).map dateText
    by_cases hop : n ∈ days
    · simp only [if_pos hop]
      rw [List.filter_cons_of_pos (by simpa using hop)]
      by_cases hsel : shift.natAbs ≤ hit + 1
      · have hidx : shift.natAbs - 1 - hit = 0 := by omega
        rw [if_pos (Or.inr hsel), hidx, fmt_dayCode hlo hhi]
        rfl
      · have hidx : shift.natAbs - 1 - hit = (shift.natAbs - 1 - (hit + 1)) + 1 := by omega
        rw [if_neg (by omega), ih hrest (by omega) (by omega), hidx, List.getElem?_cons_succ]
    · simp only [if_neg hop]
      rw [List.filter_cons_of_neg (by simpa using hop), ih hrest (by omega) hhit]

/-- The day selected from base day `n`, walking by `next`. -/
def selectedDay (days : List Nat) (shift : Int) (next : Nat → Nat) (n : Nat) : Option Nat :=
  if n ∈ days then some n
  else if shift = 0 then none
  else ((List.iterate next n 30).filter (· ∈ days))[shift.natAbs - 1]?

/-- The search from a base day that the month has. -/
theorem filterSearch_baseDay {days : List Nat} {shift : Int} {next : Nat → Nat} {n : Nat}
    (hwalk : ∀ m ∈ List.iterate next n 30, firstDay ≤ m ∧ m < lastDay ∧
      shiftDays (dateText m) (if 0 ≤ shift then 1 else -1) = dateText (next m)) :
    filterSearch (days.map dayCode) shift 30 0 0 (dateText n) = (selectedDay days shift next n).map dateText := by
  obtain ⟨hlo, hhi, hstep⟩ := hwalk n List.mem_cons_self
  rw [selectedDay, filterSearch]
  simp only [find_dateText hhi, hstep]
  by_cases hop : n ∈ days
  · simp only [if_pos hop, true_or, if_true, fmt_dayCode hlo hhi, Option.map_some]
  · simp only [if_neg hop]
    by_cases hs : shift = 0
    · simp only [if_pos hs, Option.map_none]
    · simp only [if_neg hs]
      rw [filterSearch_iterate (fun m hm => hwalk m (List.mem_cons_of_mem _ hm)) hs (by omega) (by omega)]
      show _ = (((n :: List.iterate next (next n) 29).filter (· ∈ days))[shift.natAbs - 1]?).map dateText
      rw [List.filter_cons_of_neg (by simpa using hop), Nat.sub_zero]

/-! ## The days walked over -/

theorem iterate_succ (n k : Nat) : List.iterate (· + 1) n k = List.range' n k := by
  induction k generalizing n with
  | zero => rfl
  | succ k ih => rw [List.iterate, ih, List.range'_succ]

theorem iterate_pred {n k : Nat} (h : k ≤ n + 1) :
    List.iterate (· - 1) n k = (List.range' (n + 1 - k) k).reverse := by
  induction k generalizing n with
  | zero => rfl
  | succ k ih =>
    cases n with
    | zero =>
      obtain rfl : k = 0 := by omega
      rfl
    | succ n =>
      have hlast : n + 1 + 1 - (k + 1) + 1 * k = n + 1 := by omega
      have hstart : n + 1 - k = n + 1 + 1 - (k + 1) := by omega
      rw [List.iterate, List.range'_concat, List.reverse_append, hlast, Nat.add_sub_cancel, ih (by omega), hstart]
      rfl

theorem shift_forward {n m : Nat} (hlo : firstDay ≤ n) (hhi : n + 30 ≤ lastDay - 1)
    (hm : m ∈ List.iterate (· + 1) n 30) :
    firstDay ≤ m ∧ m < lastDay ∧ shiftDays (dateText m) 1 = dateText (m + 1) := by
  rw [iterate_succ, List.mem_range'_1] at hm
  exact ⟨by omega, by omega, shiftDays_dateText (by omega) (by omega) (by omega)⟩

theorem shift_backward {n m : Nat} (hlo : firstDay + 30 ≤ n) (hhi : n < lastDay)
    (hm : m ∈ List.iterate (· - 1) n 30) :
    firstDay ≤ m ∧ m < lastDay ∧ shiftDays (dateText m) (-1) = dateText (m - 1) := by
  rw [iterate_pred (by omega), List.mem_reverse, List.mem_range'_1] at hm
  have hfd := firstDay_eq
  exact ⟨by omega, by omega, shiftDays_dateText (by omega) (by omega) (by omega)⟩

/-! ## The editor's rows -/

/-- A sorted selection of rows is any list of the same rows in this order. -/
theorem sorted_rows {days walked : List Nat} {le : Nat → Nat → Bool} {p : Nat → Bool}
    (htrans : ∀ a b c, le a b → le b c → le a c) (htotal : ∀ a b, le a b || le b a)
    (hanti : ∀ a b, le a b → le b a → a = b)
    (hdistinct : days.Nodup) (hwalked : walked.Nodup)
    (horder : walked.Pairwise fun a b => le (dayCode a) (dayCode b))
    (hmem : ∀ n, n ∈ walked ↔ p (dayCode n)) :
    ((days.map dayCode).filter p).mergeSort le = (walked.filter (· ∈ days)).map dayCode := by
  have hinj : Function.Injective dayCode := dayCode_strictMono.injective
  refine List.Perm.eq_of_pairwise (fun a b _ _ => hanti a b) (List.pairwise_mergeSort htrans htotal _) ?_ ?_
  · exact List.pairwise_map.2 (horder.filter _)
  · refine (List.mergeSort_perm _ _).trans ((List.perm_ext_iff_of_nodup ?_ ?_).2 fun d => ?_)
    · exact (hdistinct.map hinj).filter _
    · exact (hwalked.filter _).map hinj
    · constructor
      · intro h
        obtain ⟨hd, hp⟩ := List.mem_filter.1 h
        obtain ⟨n, hn, rfl⟩ := List.mem_map.1 hd
        exact List.mem_map_of_mem (List.mem_filter.2 ⟨(hmem n).2 hp, by simpa using hn⟩)
      · intro h
        obtain ⟨n, hn, rfl⟩ := List.mem_map.1 h
        obtain ⟨hw, hd⟩ := List.mem_filter.1 hn
        exact List.mem_filter.2 ⟨List.mem_map_of_mem (by simpa using hd), (hmem n).1 hw⟩

theorem rows_after {days : List Nat} (hdistinct : days.Nodup) (n : Nat) :
    ((days.map dayCode).filter fun d => dayCode n ≤ d ∧ d ≤ dayCode (n + 29)).mergeSort (fun a b => a ≤ b) =
      ((List.iterate (· + 1) n 30).filter (· ∈ days)).map dayCode := by
  rw [iterate_succ]
  refine sorted_rows (fun a b c => by simpa using Nat.le_trans) (fun a b => by simpa using Nat.le_total a b)
    (fun a b => by simpa using Nat.le_antisymm) hdistinct List.nodup_range' ?_ ?_
  · have hlt : (List.range' n 30).Pairwise (· < ·) := List.pairwise_lt_range'
    refine hlt.imp fun h => ?_
    simpa using (dayCode_strictMono h).le
  · intro m
    simp only [List.mem_range'_1, decide_eq_true_eq, dayCode_strictMono.le_iff_le]
    omega

theorem rows_before {days : List Nat} (hdistinct : days.Nodup) {n : Nat} (hn : 29 ≤ n) :
    ((days.map dayCode).filter fun d => d ≤ dayCode n ∧ dayCode (n - 29) ≤ d).mergeSort (fun a b => b ≤ a) =
      ((List.iterate (· - 1) n 30).filter (· ∈ days)).map dayCode := by
  rw [iterate_pred (by omega)]
  refine sorted_rows (fun a b c h h' => by simp only [decide_eq_true_eq] at *; omega)
    (fun a b => by simpa using Nat.le_total b a)
    (fun a b h h' => by simp only [decide_eq_true_eq] at *; omega) hdistinct
    (List.nodup_reverse.2 List.nodup_range') ?_ ?_
  · have hlt : (List.range' (n + 1 - 30) 30).Pairwise (· < ·) := List.pairwise_lt_range'
    refine List.pairwise_reverse.2 (hlt.imp fun h => ?_)
    simpa using (dayCode_strictMono h).le
  · intro m
    simp only [List.mem_reverse, List.mem_range'_1, decide_eq_true_eq, dayCode_strictMono.le_iff_le]
    omega

/-! ## Dates and their texts -/

theorem newDateTime_day {n : Nat} (hlo : firstDay ≤ n) (hhi : n < lastDay) :
    newDateTime (monthOf n / 12) (monthOf n % 12 + 1) (mday n) = some n := by
  have hM := monthOf_lt_lastMonth hhi
  have hM0 : 12000 ≤ monthOf n := le_monthOf_iff.2 hlo
  have hindex : 12 * (monthOf n / 12) + (monthOf n % 12 + 1 - 1) = monthOf n := by omega
  have hday : monthStart (monthOf n) + (mday n - 1) = n := by
    have := monthStart_add_mday n
    have := mday_pos n
    omega
  unfold lastMonth at hM
  rw [newDateTime, hindex, hday, if_pos ⟨by omega, by omega, by omega, by omega, mday_pos n, mday_le n⟩]

theorem atoi_year {n : Nat} (h : n < lastDay) : atoi ((dateText n).take 4) = monthOf n / 12 := textYear_dateText h

theorem atoi_month (n : Nat) : atoi (((dateText n).drop 4).take 2) = monthOf n % 12 + 1 := textMon_dateText n

theorem atoi_day (n : Nat) : atoi (((dateText n).drop 6).take 2) = mday n := textDay_dateText n

theorem converDate2Int_eq {n : Nat} (h : n < lastDay) : converDate2IntYYYYMMDD n = dayCode n := atoi_dateText h

/-- `ConvertUtil` reads back the dates of four-digit years. -/
theorem converInt_dayCode {n : Nat} (hlo : firstDay ≤ n) (hhi : n < lastDay) :
    converIntYYYYMMDD2Date (dayCode n) = some n := by
  rw [converIntYYYYMMDD2Date, fmt_dayCode hlo hhi, if_pos (by simp [dateText]), atoi_year hhi, atoi_month, atoi_day, newDateTime_day hlo hhi]

/-- `DateTime.Parse` reads a text of eight digits by its fields. -/
theorem dateTimeParse_dec (c : Nat) :
    dateTimeParse (insertSlashes (dec 8 c)) =
      newDateTime (atoi ((dec 8 c).take 4)) (atoi (((dec 8 c).drop 4).take 2)) (atoi (((dec 8 c).drop 6).take 2)) := by
  rfl

theorem dateTimeParse_dayCode {n : Nat} (hlo : firstDay ≤ n) (hhi : n < lastDay) :
    dateTimeParse (insertSlashes (fmt 1 (dayCode n))) = some n := by
  rw [fmt_dayCode hlo hhi, dateText, dateTimeParse_dec, ← dateText, atoi_year hhi, atoi_month, atoi_day,
    newDateTime_day hlo hhi]

/-! ## Numbers that are no date -/

theorem length_insertSlashes_le (s : List Char) : s.length ≤ (insertSlashes s).length := by
  fun_induction insertSlashes s with
  | case1 y₁ y₂ y₃ y₄ m₁ m₂ d₁ d₂ rest ih =>
    simp only [List.length_cons]
    omega
  | case2 s hs => exact Nat.le_refl _

/-- The slashes come in exactly with eight digits. -/
theorem length_insertSlashes (s : List Char) :
    insertSlashes s = s ∧ s.length < 8 ∨ 8 ≤ s.length ∧ s.length + 2 ≤ (insertSlashes s).length := by
  fun_cases insertSlashes s with
  | case1 y₁ y₂ y₃ y₄ m₁ m₂ d₁ d₂ rest =>
    have := length_insertSlashes_le rest
    simp only [List.length_cons]
    omega
  | case2 s hs =>
    refine .inl ⟨rfl, ?_⟩
    rcases s with _ | ⟨y₁, _ | ⟨y₂, _ | ⟨y₃, _ | ⟨y₄, _ | ⟨m₁, _ | ⟨m₂, _ | ⟨d₁, _ | ⟨d₂, rest⟩⟩⟩⟩⟩⟩⟩⟩
    case cons.cons.cons.cons.cons.cons.cons.cons => exact absurd rfl (hs y₁ y₂ y₃ y₄ m₁ m₂ d₁ d₂ rest)
    all_goals
      simp only [List.length_cons, List.length_nil]
      omega

/-- A number that has not eight digits is no date. -/
theorem no_date_of_length {c : Nat} (h : (fmt 1 c).length ≠ 8) :
    converIntYYYYMMDD2Date c = none ∧ dateTimeParse (insertSlashes (fmt 1 c)) = none := by
  refine ⟨if_neg h, if_neg fun hparse => ?_⟩
  obtain ⟨hsame, hlt⟩ | ⟨hge, hlen⟩ := length_insertSlashes (fmt 1 c)
  · rw [hsame] at hparse
    omega
  · omega

theorem length_fmt (c : Nat) : (fmt 1 c).length = max 1 (Nat.toDigits 10 c).length := by
  rw [fmt, dec_length]

theorem length_fmt_short {c : Nat} (h : c < 10 ^ 7) : (fmt 1 c).length ≠ 8 := by
  have := (Nat.length_toDigits_le_iff (by omega) (by omega)).2 h
  rw [length_fmt]
  omega

theorem length_fmt_long {c : Nat} (h : 10 ^ 8 ≤ c) : (fmt 1 c).length ≠ 8 := by
  have hn : ¬ (Nat.toDigits 10 c).length ≤ 8 := by
    rw [Nat.length_toDigits_le_iff (by omega) (by omega)]
    omega
  rw [length_fmt]
  omega

/-- The number of a date text, whatever the year. -/
theorem atoi_fields {year month day : Nat} (hm : month < 100) (hd : day < 100) :
    atoi (fmt 4 year ++ fmt 2 month ++ fmt 2 day) = (year * 100 + month) * 100 + day := by
  obtain ⟨w, hw, hfit⟩ : ∃ w, fmt 4 year = dec w year ∧ year < 10 ^ w := by
    refine ⟨_, rfl, (Nat.length_toDigits_le_iff (by omega) (by omega)).1 (Nat.le_max_right _ _)⟩
  have hpow : 10 ^ (w + 2 + 2) = 10 ^ w * 10000 := by
    rw [Nat.pow_add, Nat.pow_add, Nat.mul_assoc]
  rw [hw, fmt_eq_dec (by omega) (by omega), fmt_eq_dec (by omega) (by omega), dec_append _ _ _ _ (by omega),
    dec_append _ _ _ _ (by omega), atoi_dec_of_lt (by omega)]
  rfl

/-- A day the month does not have is no date. -/
theorem no_date_of_missing {year month day : Nat} (hy : 1000 ≤ year ∧ year ≤ 9999) (hm : 1 ≤ month ∧ month ≤ 12)
    (hd : day < 100) (hmiss : monthLen (12 * year + (month - 1)) < day) :
    converIntYYYYMMDD2Date ((year * 100 + month) * 100 + day) = none ∧
      dateTimeParse (insertSlashes (fmt 1 ((year * 100 + month) * 100 + day))) = none := by
  obtain ⟨c, hc⟩ : ∃ c, c = (year * 100 + month) * 100 + day := ⟨_, rfl⟩
  rw [← hc]
  have htext : fmt 1 c = dec 8 c := fmt_eq_dec_of_digits (by omega) (by omega) (by omega)
  have hyear : atoi ((dec 8 c).take 4) = year := by
    rw [take_dec 4 4, atoi_dec]
    omega
  have hmonth : atoi (((dec 8 c).drop 4).take 2) = month := by
    rw [drop_dec 4 4, take_dec 2 2, atoi_dec]
    omega
  have hday : atoi (((dec 8 c).drop 6).take 2) = day := by
    rw [drop_dec 6 2, List.take_of_length_le (by simp), atoi_dec]
    omega
  have hnone : newDateTime year month day = none := if_neg (by omega)
  constructor
  · rw [converIntYYYYMMDD2Date, htext, if_pos (dec_length 8 c), hyear, hmonth, hday, hnone]
  · rw [htext, dateTimeParse_dec, hyear, hmonth, hday, hnone]

theorem dayCode_lt_of_year {n : Nat} (h : monthOf n < 12000) : dayCode n < 10 ^ 7 := by
  have := mday_le_31 n
  unfold dayCode monthCode
  omega

theorem newDateTime_eq_some {year month day n : Nat} (h : newDateTime year month day = some n) :
    (1 ≤ year ∧ year ≤ 9999) ∧ (1 ≤ month ∧ month ≤ 12) ∧
      monthOf n = 12 * year + (month - 1) ∧ mday n = day ∧ n < lastDay := by
  obtain ⟨⟨hy1, hy2, hm1, hm2, hd1, hd2⟩, heq⟩ := Option.ite_none_right_eq_some.1 h
  obtain rfl := Option.some.inj heq
  have hsucc := monthStart_succ (12 * year + (month - 1))
  have hof : monthOf (monthStart (12 * year + (month - 1)) + (day - 1)) = 12 * year + (month - 1) :=
    monthOf_eq (by omega) (by omega)
  refine ⟨⟨hy1, hy2⟩, ⟨hm1, hm2⟩, hof, ?_, ?_⟩
  · rw [mday, hof]
    omega
  · refine monthOf_lt_iff.1 ?_
    rw [hof]
    unfold lastMonth
    omega

namespace FilterForm

/-- Outside the years 1000 to 9999 no target is a date of eight digits. -/
theorem targetDate_of_year {form : FilterForm} {year month c : Nat} (hyear : year < 1000 ∨ 9999 < year)
    (hm : 1 ≤ month ∧ month ≤ 12) (hok : form.inputCheck = true) (hc : c ∈ form.targetDate year month) :
    (fmt 1 c).length ≠ 8 := by
  have hdate : ∀ {day n : Nat}, newDateTime year month day = some n → converDate2IntYYYYMMDD n = c →
      (fmt 1 c).length ≠ 8 := by
    intro day n hn hcode
    obtain ⟨hy, hm, hof, -, hlast⟩ := newDateTime_eq_some hn
    rw [converDate2Int_eq hlast] at hcode
    exact length_fmt_short (hcode ▸ dayCode_lt_of_year (by omega))
  simp only [targetDate] at hc
  cases hb : form.baseDate with
  | rbFirstDay =>
    rw [hb] at hc
    obtain ⟨n, hn, hcode⟩ := Option.map_eq_some_iff.1 hc
    exact hdate hn hcode
  | rbLastDay =>
    rw [hb] at hc
    obtain ⟨last, -, hmap⟩ := Option.bind_eq_some_iff.1 hc
    obtain ⟨n, hn, hcode⟩ := Option.map_eq_some_iff.1 hmap
    exact hdate hn hcode
  | rbDesignatedDay =>
    rw [hb] at hc
    obtain ⟨day, hday, hcode⟩ := Option.map_eq_some_iff.1 hc
    obtain ⟨d, hd, hd1, hd31⟩ := (of_decide_eq_true hok).2 hb
    obtain rfl : d = day := Option.some.inj (hd.symm.trans hday)
    rw [atoi_fields (by omega) (by omega)] at hcode
    rcases hyear with h | h
    · exact length_fmt_short (by omega)
    · exact length_fmt_long (by omega)

/-- A target that is no date throws. -/
theorem refreshMonth_throws {form : FilterForm} {table : List Nat} {year month : Nat}
    (h : ∀ c ∈ form.targetDate year month,
      converIntYYYYMMDD2Date c = none ∧ dateTimeParse (insertSlashes (fmt 1 c)) = none) :
    form.refreshMonth table year month = none := by
  rw [refreshMonth]
  cases ht : form.targetDate year month with
  | none => rfl
  | some c =>
    obtain ⟨hconv, hparse⟩ := h c ht
    rw [Option.bind_some, hconv, hparse]
    split <;> rfl

/-! ## A month with a base day -/

/-- The month has the designated day. -/
def HasDay (form : FilterForm) (M : Nat) : Prop :=
  form.baseDate = .rbDesignatedDay → ∀ day ∈ form.tbDesignatedDay, day ≤ monthLen M

theorem targetDate_missing {form : FilterForm} {year month : Nat} (hy : 1000 ≤ year ∧ year ≤ 9999)
    (hm : 1 ≤ month ∧ month ≤ 12) (hok : form.inputCheck = true)
    (hmiss : ¬ form.HasDay (12 * year + (month - 1))) :
    ∀ c ∈ form.targetDate year month,
      converIntYYYYMMDD2Date c = none ∧ dateTimeParse (insertSlashes (fmt 1 c)) = none := by
  intro c hc
  obtain ⟨hb, hlong⟩ := Classical.not_imp.1 hmiss
  obtain ⟨day, hday, hd1, hd31⟩ := (of_decide_eq_true hok).2 hb
  have hlen : monthLen (12 * year + (month - 1)) < day := by
    by_contra hle
    refine hlong fun d hd => ?_
    obtain rfl : day = d := Option.some.inj (hday.symm.trans hd)
    omega
  simp only [targetDate, hb, Option.mem_def.1 hday, Option.map_some, Option.mem_some_iff] at hc
  rw [atoi_fields (by omega) (by omega)] at hc
  exact hc ▸ no_date_of_missing hy hm (by omega) hlen

/-- The base day of the saved filter lies in its month. -/
theorem baseDay_bounds {form : FilterForm} (row : FilterControl) {M : Nat} (hok : form.inputCheck = true)
    (hhas : form.HasDay M) :
    monthStart M ≤ baseDay (form.save row) M ∧ baseDay (form.save row) M < monthStart (M + 1) := by
  have hlen := monthLen_bounds M
  have hsucc := monthStart_succ M
  cases hb : form.baseDate with
  | rbFirstDay =>
    simp only [baseDay, save, hb]
    omega
  | rbLastDay =>
    simp only [baseDay, save, hb]
    omega
  | rbDesignatedDay =>
    obtain ⟨day, hday, hd1, -⟩ := (of_decide_eq_true hok).2 hb
    have hd := hhas hb day hday
    simp only [baseDay, save, hb, Option.mem_def.1 hday, Option.getD_some]
    omega

/-- The loader starts at the base day. -/
theorem filterSelect_baseDay {form : FilterForm} (row : FilterControl) {M : Nat} (dates : List Nat)
    (hM : M < lastMonth) (hok : form.inputCheck = true) (hhas : form.HasDay M) :
    filterSelect dates (form.save row) (monthText M) =
      filterSearch dates form.cmbShiftDay 30 0 0 (dateText (baseDay (form.save row) M)) := by
  have hlen := monthLen_bounds M
  have hsucc := monthStart_succ M
  cases hb : form.baseDate with
  | rbFirstDay =>
    simp only [filterSelect, filterBase, baseDay, save, hb]
    rw [editDate_eq (by omega) (by omega)]
    rfl
  | rbLastDay =>
    have hlast : monthStart M + (monthLen M - 1) = monthStart (M + 1) - 1 := by omega
    simp only [filterSelect, filterBase, baseDay, save, hb, getEndOfMonth_monthText hM]
    rw [editDate_eq (by omega) (Nat.le_refl _), hlast]
  | rbDesignatedDay =>
    obtain ⟨day, hday, hd1, -⟩ := (of_decide_eq_true hok).2 hb
    have hd := hhas hb day hday
    simp only [filterSelect, filterBase, baseDay, save, hb, getEndOfMonth_monthText hM, Option.mem_def.1 hday,
      Option.getD_some, if_neg (Nat.not_lt.2 hd)]
    rw [editDate_eq hd1 hd]

theorem newDateTime_of_day {year month day M : Nat} (hM : M = 12 * year + (month - 1))
    (hy : 1000 ≤ year ∧ year ≤ 9999) (hm : 1 ≤ month ∧ month ≤ 12) (hd : 1 ≤ day ∧ day ≤ monthLen M) :
    newDateTime year month day = some (monthStart M + (day - 1)) := by
  subst hM
  exact if_pos (by omega)

/-- The editor's target date is the base day. -/
theorem targetDate_baseDay {form : FilterForm} (row : FilterControl) {year month M : Nat}
    (hM : M = 12 * year + (month - 1)) (hy : 1000 ≤ year ∧ year ≤ 9999) (hm : 1 ≤ month ∧ month ≤ 12)
    (hok : form.inputCheck = true) (hhas : form.HasDay M) :
    form.targetDate year month = some (dayCode (baseDay (form.save row) M)) := by
  have hlen := monthLen_bounds M
  have hsucc := monthStart_succ M
  have hbase := baseDay_bounds row hok hhas
  have hlast : baseDay (form.save row) M < lastDay := by
    have hend : monthStart (M + 1) ≤ lastDay := monthStart_mono (by unfold lastMonth; omega)
    omega
  rw [← converDate2Int_eq hlast]
  cases hb : form.baseDate with
  | rbFirstDay =>
    simp only [targetDate, baseDay, save, hb]
    rw [newDateTime_of_day hM hy hm (by omega)]
    rfl
  | rbLastDay =>
    have hdays : daysInMonth year month = some (monthLen M) := by
      subst hM
      exact if_pos (by omega)
    have hend : monthStart M + (monthLen M - 1) = monthStart (M + 1) - 1 := by omega
    simp only [targetDate, baseDay, save, hb, hdays, Option.bind_some]
    rw [newDateTime_of_day hM hy hm (by omega), hend]
    rfl
  | rbDesignatedDay =>
    obtain ⟨day, hday, hd1, hd31⟩ := (of_decide_eq_true hok).2 hb
    have hd := hhas hb day hday
    have hof : monthOf (monthStart M + (day - 1)) = M := monthOf_eq (by omega) (by omega)
    have hcode : dayCode (monthStart M + (day - 1)) = (year * 100 + month) * 100 + day := by
      rw [dayCode, mday, hof, monthCode]
      omega
    rw [converDate2Int_eq hlast]
    simp only [targetDate, baseDay, save, hb, Option.mem_def.1 hday, Option.getD_some, Option.map_some]
    rw [atoi_fields (by omega) (by omega), hcode]

/-- The index of a row in the editor. -/
theorem setShifted_rows {form : FilterForm} {walked : List Nat} {index : Int}
    (hindex : index = form.cmbShiftDay.natAbs - 1) (hrange : ∀ n ∈ walked, firstDay ≤ n ∧ n < lastDay) :
    form.setShifted (walked.map dayCode) index = some walked[form.cmbShiftDay.natAbs - 1]? := by
  have hnat : index.toNat = form.cmbShiftDay.natAbs - 1 := by omega
  rw [setShifted, hnat, List.length_map, List.getElem?_map]
  by_cases hlt : form.cmbShiftDay.natAbs - 1 < walked.length
  · obtain ⟨hlo, hhi⟩ := hrange _ (List.getElem_mem hlt)
    rw [if_pos ⟨by omega, hlt⟩, List.getElem?_eq_getElem hlt, Option.map_some, Option.bind_some,
      converInt_dayCode hlo hhi]
    rfl
  · rw [if_neg fun h => hlt h.2, List.getElem?_eq_none (by omega)]

theorem mem_dates {cal : BaseCalendar} {n : Nat} : dayCode n ∈ cal.dates ↔ n ∈ cal.days :=
  List.mem_map_of_injective dayCode_strictMono.injective

/-- An open target date is shown as it is. -/
theorem refreshMonth_open {form : FilterForm} {cal : BaseCalendar} {year month n : Nat}
    (ht : form.targetDate year month = some (dayCode n)) (hlo : firstDay ≤ n) (hhi : n < lastDay)
    (hop : n ∈ cal.days) : form.refreshMonth cal.dates year month = some (some n) := by
  rw [refreshMonth, ht, Option.bind_some, if_pos (mem_dates.2 hop), converInt_dayCode hlo hhi, Option.map_some]

/-- The editor's shift to later days. -/
theorem refreshMonth_forward {form : FilterForm} {cal : BaseCalendar} {year month n : Nat}
    (ht : form.targetDate year month = some (dayCode n)) (hlo : firstDay ≤ n) (hhi : n + 30 ≤ lastDay - 1)
    (hs : 0 ≤ form.cmbShiftDay) :
    form.refreshMonth cal.dates year month = some (selectedDay cal.days form.cmbShiftDay (· + 1) n) := by
  by_cases hop : n ∈ cal.days
  · rw [refreshMonth_open ht hlo (by omega) hop, selectedDay, if_pos hop]
  · have hfd := firstDay_eq
    have hyear1 : monthStart 12 ≤ firstDay := monthStart_mono (by omega)
    have hadd : addDays n 29 = some (n + 29) := by
      rw [addDays, if_pos (by omega)]
      rfl
    rw [refreshMonth, ht, Option.bind_some, if_neg fun h => hop (mem_dates.1 h),
      dateTimeParse_dayCode hlo (by omega), Option.bind_some, selectedDay, if_neg hop]
    by_cases hpos : 0 < form.cmbShiftDay
    · have hrange : ∀ m ∈ (List.iterate (· + 1) n 30).filter (· ∈ cal.days), firstDay ≤ m ∧ m < lastDay := by
        intro m hm
        obtain ⟨h1, h2, -⟩ := shift_forward hlo hhi (List.mem_filter.1 hm).1
        exact ⟨h1, h2⟩
      rw [if_pos hpos, hadd, Option.bind_some, converDate2Int_eq (by omega), BaseCalendar.dates]
      dsimp only
      rw [rows_after cal.distinct, setShifted_rows (by omega) hrange, if_neg (by omega)]
    · have hzero : form.cmbShiftDay = 0 := by omega
      have hnone : cal.dates.filter (fun d => d = dayCode n) = [] := by
        refine List.filter_eq_nil_iff.2 fun d hd heq => hop ?_
        rw [decide_eq_true_eq] at heq
        exact mem_dates.1 (heq ▸ hd)
      rw [if_neg hpos, if_neg (by omega), hnone, if_pos hzero]
      rfl

/-- The editor's shift to earlier days. -/
theorem refreshMonth_backward {form : FilterForm} {cal : BaseCalendar} {year month n : Nat}
    (ht : form.targetDate year month = some (dayCode n)) (hlo : firstDay + 30 ≤ n) (hhi : n < lastDay)
    (hs : form.cmbShiftDay < 0) :
    form.refreshMonth cal.dates year month = some (selectedDay cal.days form.cmbShiftDay (· - 1) n) := by
  by_cases hop : n ∈ cal.days
  · rw [refreshMonth_open ht (by omega) hhi hop, selectedDay, if_pos hop]
  · have hfd := firstDay_eq
    have hyear1 : monthStart 12 ≤ firstDay := monthStart_mono (by omega)
    have hadd : addDays n (-29) = some (n - 29) := by
      rw [addDays, if_pos (by omega)]
      congr 1
      omega
    have hrange : ∀ m ∈ (List.iterate (· - 1) n 30).filter (· ∈ cal.days), firstDay ≤ m ∧ m < lastDay := by
      intro m hm
      obtain ⟨h1, h2, -⟩ := shift_backward hlo hhi (List.mem_filter.1 hm).1
      exact ⟨h1, h2⟩
    rw [refreshMonth, ht, Option.bind_some, if_neg fun h => hop (mem_dates.1 h),
      dateTimeParse_dayCode (by omega) hhi, Option.bind_some, if_neg (by omega), if_pos hs, hadd,
      Option.bind_some, converDate2Int_eq (by omega), BaseCalendar.dates]
    dsimp only
    rw [rows_before cal.distinct (by omega), setShifted_rows (by omega) hrange, selectedDay, if_neg hop,
      if_neg (by omega)]

/-- **One month.** Where the base day exists, the editor selects by the
loader's rule. -/
theorem refreshMonth_baseDay {form : FilterForm} (row : FilterControl) (cal : BaseCalendar) {year month M : Nat}
    (hM : M = 12 * year + (month - 1)) (hm : 1 ≤ month ∧ month ≤ 12)
    (hlo : 12011 ≤ M) (hhi : M < lastMonth - 11) (hok : form.inputCheck = true) (hhas : form.HasDay M) :
    ∃ date, form.refreshMonth cal.dates year month = some date ∧
      date.map dateText = filterSelect cal.dates (form.save row) (monthText M) := by
  have hlast : M < lastMonth := Nat.lt_of_lt_of_le hhi (Nat.sub_le _ _)
  have hy : 1000 ≤ year ∧ year ≤ 9999 := by
    unfold lastMonth at hlast
    omega
  have hend : M + 1 + 11 ≤ lastMonth := by
    unfold lastMonth at hhi ⊢
    omega
  have hbase := baseDay_bounds row hok hhas
  have ht := targetDate_baseDay row hM hy hm hok hhas
  have hfirst : firstDay + 30 ≤ baseDay (form.save row) M := calc
    firstDay + 30 ≤ firstDay + 28 * 11 := Nat.add_le_add_left (by decide) firstDay
    _ ≤ monthStart (12000 + 11) := monthStart_add_le 12000 11
    _ ≤ monthStart M := monthStart_mono hlo
    _ ≤ baseDay (form.save row) M := hbase.1
  have hfar : baseDay (form.save row) M + 30 ≤ lastDay - 1 := by
    have hyear : monthStart (M + 1) + 28 * 11 ≤ lastDay :=
      Nat.le_trans (monthStart_add_le (M + 1) 11) (monthStart_mono hend)
    omega
  rw [filterSelect_baseDay row cal.dates hlast hok hhas, BaseCalendar.dates]
  by_cases hs : 0 ≤ form.cmbShiftDay
  · refine ⟨_, refreshMonth_forward ht (by omega) (by omega) hs, ?_⟩
    rw [filterSearch_baseDay]
    intro m hm
    rw [if_pos hs]
    exact shift_forward (by omega) (by omega) hm
  · refine ⟨_, refreshMonth_backward ht (by omega) (by omega) (by omega), ?_⟩
    rw [filterSearch_baseDay]
    intro m hm
    rw [if_neg hs]
    exact shift_backward (by omega) (by omega) hm

/-! ## The year -/

/-- The month index of a round. -/
def shownIndex (baseYear i : Nat) : Nat := 12 * (shownMonth baseYear i).1 + ((shownMonth baseYear i).2 - 1)

theorem shownMonth_month {i : Nat} (baseYear : Nat) (hi : i < 14) :
    1 ≤ (shownMonth baseYear i).2 ∧ (shownMonth baseYear i).2 ≤ 12 := by
  unfold shownMonth
  split
  · exact ⟨by omega, by omega⟩
  · split
    · exact ⟨by omega, by omega⟩
    · show 1 ≤ i ∧ i ≤ 12
      omega

/-- The rounds run through 14 consecutive months. -/
theorem shownIndex_eq {baseYear i : Nat} (hy : 1 ≤ baseYear) (hi : i < 14) :
    shownIndex baseYear i + 1 = 12 * baseYear + i := by
  unfold shownIndex shownMonth
  split
  · show 12 * (baseYear - 1) + (12 - 1) + 1 = _
    omega
  · split
    · show 12 * (baseYear + 1) + (1 - 1) + 1 = _
      omega
    · show 12 * baseYear + (i - 1) + 1 = _
      omega

/-- No exception: the ranges are what the rounds selected. -/
theorem refreshMonths_of_some {form : FilterForm} {table : List Nat} {select : Nat × Nat → Option (List Char)}
    {months : List (Nat × Nat)}
    (h : ∀ ym ∈ months, ∃ date, form.refreshMonth table ym.1 ym.2 = some date ∧ date.map dateText = select ym) :
    (form.refreshMonths table months).1 = true ∧
      (form.refreshMonths table months).2.map dateText = months.filterMap select := by
  induction months with
  | nil => exact ⟨rfl, rfl⟩
  | cons ym rest ih =>
    obtain ⟨date, hdate, hsel⟩ := h ym List.mem_cons_self
    obtain ⟨h1, h2⟩ := ih fun ym' hym => h ym' (List.mem_cons_of_mem _ hym)
    obtain ⟨year, month⟩ := ym
    simp only [refreshMonths, hdate]
    refine ⟨h1, ?_⟩
    rw [List.map_append, h2, List.filterMap_cons, ← hsel]
    cases date <;> rfl

/-- One exception abandons the calendar. -/
theorem refreshMonths_of_none {form : FilterForm} {table : List Nat} {months : List (Nat × Nat)}
    {ym : Nat × Nat} (hmem : ym ∈ months) (h : form.refreshMonth table ym.1 ym.2 = none) :
    (form.refreshMonths table months).1 = false := by
  induction months with
  | nil => cases hmem
  | cons ym' rest ih =>
    obtain ⟨year, month⟩ := ym'
    rw [refreshMonths]
    cases hm : form.refreshMonth table year month with
    | none => rfl
    | some date =>
      rcases List.mem_cons.1 hmem with rfl | hrest
      · rw [hm] at h
        cases h
      · exact ih hrest

/-- The preview of a year is the loader's: the calendar is not abandoned,
and month by month the date shown is the one the inner search selects. -/
structure PreviewAgrees (form : FilterForm) (dates : List Nat) (row : FilterControl) (baseYear : Nat) : Prop where
  shown : (form.refreshMonthCalendar baseYear).1 = true
  months : ∀ i < 14, ∃ date,
    form.refreshMonth dates (shownMonth baseYear i).1 (shownMonth baseYear i).2 = some date ∧
      date.map dateText = filterSelect dates (form.save row) (monthText (shownIndex baseYear i))
  ranges : (form.refreshMonthCalendar baseYear).2.map dateText =
    (List.range 14).filterMap fun i => filterSelect dates (form.save row) (monthText (shownIndex baseYear i))

/-- The year and its neighbours have four digits, and every month has the
designated day. -/
def Showable (form : FilterForm) (baseYear : Nat) : Prop :=
  (1001 ≤ baseYear ∧ baseYear ≤ 9998) ∧
    (form.baseDate = .rbDesignatedDay →
      ∀ day ∈ form.tbDesignatedDay, day ≤ 28 ∨ day = 29 ∧ isLeap baseYear = true)

theorem monthLen_february (baseYear : Nat) : monthLen (12 * baseYear + 1) = if isLeap baseYear then 29 else 28 := by
  have hmod : (12 * baseYear + 1) % 12 = 1 := by omega
  have hdiv : (12 * baseYear + 1) / 12 = baseYear := by omega
  simp only [monthLen, hmod, hdiv]

theorem le_monthLen_of_ne_one {M : Nat} (h : M % 12 ≠ 1) : 30 ≤ monthLen M := by
  unfold monthLen
  split <;> first | contradiction | omega

theorem Showable.hasDay {form : FilterForm} {baseYear i : Nat} (h : form.Showable baseYear) (hi : i < 14) :
    form.HasDay (shownIndex baseYear i) := by
  intro hb day hday
  have hyear := h.1
  have hindex : shownIndex baseYear i + 1 = 12 * baseYear + i := shownIndex_eq (by omega) hi
  have hlen := monthLen_bounds (shownIndex baseYear i)
  obtain hle | ⟨rfl, hleap⟩ := h.2 hb day hday
  · omega
  · by_cases hfeb : i = 2
    · have hM : shownIndex baseYear i = 12 * baseYear + 1 := by omega
      rw [hM, monthLen_february, if_pos hleap]
    · have := le_monthLen_of_ne_one (M := shownIndex baseYear i) (by omega)
      omega

/-- The accepted form runs the loop. -/
theorem refreshMonthCalendar_eq {form : FilterForm} {table : List Nat} (baseYear : Nat)
    (htable : form.calendarDetailTable = some table) (hok : form.inputCheck = true) :
    form.refreshMonthCalendar baseYear = form.refreshMonths table ((List.range 14).map (shownMonth baseYear)) := by
  have hday : ¬ (form.baseDate = .rbDesignatedDay ∧ form.tbDesignatedDay = none) := by
    intro h
    obtain ⟨day, hday, -⟩ := (of_decide_eq_true hok).2 h.1
    rw [h.2] at hday
    cases hday
  simp only [refreshMonthCalendar, htable, if_neg hday]

/-- Where every month has the base day, the preview is the loader's. -/
theorem previewAgrees_of_showable {form : FilterForm} {cal : BaseCalendar} (row : FilterControl) {baseYear : Nat}
    (htable : form.calendarDetailTable = some cal.dates) (hok : form.inputCheck = true)
    (hshow : form.Showable baseYear) : form.PreviewAgrees cal.dates row baseYear := by
  have hyear := hshow.1
  have hmonth : ∀ i < 14, ∃ date,
      form.refreshMonth cal.dates (shownMonth baseYear i).1 (shownMonth baseYear i).2 = some date ∧
        date.map dateText = filterSelect cal.dates (form.save row) (monthText (shownIndex baseYear i)) := by
    intro i hi
    have hindex : shownIndex baseYear i + 1 = 12 * baseYear + i := shownIndex_eq (by omega) hi
    exact refreshMonth_baseDay row cal rfl (shownMonth_month baseYear hi) (by omega)
      (by unfold lastMonth; omega) hok (hshow.hasDay hi)
  have hrounds : ∀ ym ∈ (List.range 14).map (shownMonth baseYear), ∃ date,
      form.refreshMonth cal.dates ym.1 ym.2 = some date ∧
        date.map dateText = filterSelect cal.dates (form.save row) (monthText (12 * ym.1 + (ym.2 - 1))) := by
    intro ym hym
    obtain ⟨i, hi, rfl⟩ := List.mem_map.1 hym
    exact hmonth i (List.mem_range.1 hi)
  obtain ⟨hshown, hranges⟩ := refreshMonths_of_some hrounds
  refine ⟨?_, hmonth, ?_⟩
  · rw [refreshMonthCalendar_eq baseYear htable hok, hshown]
  · rw [refreshMonthCalendar_eq baseYear htable hok, hranges, List.filterMap_map]
    rfl

/-- Otherwise one round throws. -/
theorem refreshMonthCalendar_false {form : FilterForm} {table : List Nat} {baseYear : Nat}
    (htable : form.calendarDetailTable = some table) (hok : form.inputCheck = true)
    (hshow : ¬ form.Showable baseYear) : (form.refreshMonthCalendar baseYear).1 = false := by
  rw [refreshMonthCalendar_eq baseYear htable hok]
  have hround : ∀ i < 14, (∀ c ∈ form.targetDate (shownMonth baseYear i).1 (shownMonth baseYear i).2,
      converIntYYYYMMDD2Date c = none ∧ dateTimeParse (insertSlashes (fmt 1 c)) = none) →
      (form.refreshMonths table ((List.range 14).map (shownMonth baseYear))).1 = false :=
    fun i hi h => refreshMonths_of_none (List.mem_map_of_mem (List.mem_range.2 hi)) (refreshMonth_throws h)
  by_cases hlow : baseYear ≤ 1000
  · -- the December before has a year of three digits
    refine hround 0 (by omega) fun c hc => no_date_of_length (targetDate_of_year (.inl ?_) (shownMonth_month _ (by omega)) hok hc)
    show baseYear - 1 < 1000
    omega
  by_cases hhigh : 9999 ≤ baseYear
  · refine hround 13 (by omega) fun c hc => no_date_of_length (targetDate_of_year (.inr ?_) (shownMonth_month _ (by omega)) hok hc)
    show 9999 < baseYear + 1
    omega
  -- February does not have the designated day
  refine hround 2 (by omega) ?_
  show ∀ c ∈ form.targetDate baseYear 2, _
  refine targetDate_missing (by omega) (by omega) hok fun hhas => hshow ⟨by omega, fun hb day hday => ?_⟩
  have hle := hhas hb day hday
  have hfeb : 12 * baseYear + (2 - 1) = 12 * baseYear + 1 := rfl
  rw [hfeb, monthLen_february] at hle
  by_cases hleap : isLeap baseYear = true
  · rw [if_pos hleap] at hle
    by_cases h29 : day = 29
    · exact .inr ⟨h29, hleap⟩
    · omega
  · rw [if_neg hleap] at hle
    exact .inl hle

/-- **When the preview shows the loader's days**: in the years 1001 to 9998,
unless the designated day is one February does not have. Then the whole
calendar is abandoned. -/
theorem preview_agrees_iff (form : FilterForm) (cal : BaseCalendar) (row : FilterControl) (baseYear : Nat)
    (htable : form.calendarDetailTable = some cal.dates) (hok : form.inputCheck = true) :
    form.PreviewAgrees cal.dates row baseYear ↔
      (1001 ≤ baseYear ∧ baseYear ≤ 9998) ∧
        (form.baseDate = .rbDesignatedDay →
          ∀ day ∈ form.tbDesignatedDay, day ≤ 28 ∨ day = 29 ∧ isLeap baseYear = true) := by
  constructor
  · intro hagree
    by_contra hshow
    have hfalse := refreshMonthCalendar_false htable hok hshow
    rw [hagree.shown] at hfalse
    cases hfalse
  · exact fun hshow => previewAgrees_of_showable row htable hok hshow

/-- The operating days February 1 and June 20, 2023. -/
def twoDays : BaseCalendar := ⟨[738917, 739056], by decide⟩

def designated (day : Nat) (shift : Int) : FilterForm := ⟨some twoDays.dates, .rbDesignatedDay, some day, shift⟩

def newFilter : FilterControl := ⟨"FIL", false, 0, 0, 0, "CAL"⟩

/-- Day 15 with shift -1 is shown as it will run. -/
theorem preview_agrees_iff_fifteenth : (designated 15 (-1)).PreviewAgrees twoDays.dates newFilter 2023 :=
  (preview_agrees_iff (designated 15 (-1)) twoDays newFilter 2023 rfl (by decide)).2
    ⟨by decide, fun _ day hday => .inl (by cases hday; decide)⟩

/-- For the 31st the calendar of 2023 is abandoned in February with nothing
shown; the loader runs on June 20. -/
theorem preview_abandoned :
    (designated 31 (-1)).inputCheck = true ∧
      (designated 31 (-1)).refreshMonthCalendar 2023 = (false, []) ∧
      filterSelect twoDays.dates ((designated 31 (-1)).save newFilter) (monthText (shownIndex 2023 6)) =
        some "20230620".toList ∧
      ¬ (designated 31 (-1)).PreviewAgrees twoDays.dates newFilter 2023 := by
  have hcal : (designated 31 (-1)).refreshMonthCalendar 2023 = (false, []) := by decide +kernel
  refine ⟨by decide, hcal, by decide +kernel, fun hagree => ?_⟩
  have hshown := hagree.shown
  rw [hcal] at hshown
  cases hshown

end FilterForm

end JobArranger
