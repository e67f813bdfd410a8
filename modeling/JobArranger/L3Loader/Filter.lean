import JobArranger.L3Loader.Calendar

/-!
# Filter schedules

For each of the months from two before to one after the current one,
`get_calendar_detail` selects an operating date of the base calendar: the
base day of the month (first, last or designated day), or for a closed base
day the `|shift_day|`-th operating day after or before it, at most 29 days
away. A selected date whose scheduled time lies in the search window is
passed to `get_schedule_jobnet`.

A date found backwards can lie 29 days before the first of its month.
February has only 28 or 29 days, so the date selected for March can be in
January or on February 1; in January the loop visits no month after
February.

* `filterSearch_backward`: what the backward search selects, as a count of
  operating days.
* `filterSelect_bounds`: how far a selected date lies from its month.
* `filter_complete_iff`: every month whose selected date falls into the
  window is visited, unless the case above occurs.
-/
namespace JobArranger

open Decimal Gregorian

/-! ## Texts the search visits -/

theorem dateText_inj {m n : Nat} (hm : m < lastDay) (hn : n < lastDay) (h : dateText m = dateText n) : m = n := by
  have h1 := congrArg atoi h
  rw [atoi_dateText hm, atoi_dateText hn] at h1
  exact dayCode_strictMono.injective h1

/-- `edit_date` after `k` rounds. -/
def walk (step : Int) (editDate : List Char) : Nat → List Char
  | 0 => editDate
  | k + 1 => walk step (shiftDays editDate step) k

/-- A selected date was visited and is an operating date. -/
theorem filterSearch_visited {dates : List Nat} {shift : Int} {left cnt hit : Nat} {x y : List Char}
    (h : filterSearch dates shift left cnt hit x = some y) :
    ∃ k < left, atoi (walk (if 0 ≤ shift then 1 else -1) x k) ∈ dates ∧
      y = fmt 1 (atoi (walk (if 0 ≤ shift then 1 else -1) x k)) := by
  induction left generalizing cnt hit x with
  | zero => simp [filterSearch] at h
  | succ left ih =>
    simp only [filterSearch] at h
    have hnext : ∀ hit', (if shift = 0 then none
        else filterSearch dates shift left (cnt + 1) hit' (shiftDays x (if 0 ≤ shift then 1 else -1))) = some y →
        ∃ k < left + 1, atoi (walk (if 0 ≤ shift then 1 else -1) x k) ∈ dates ∧
          y = fmt 1 (atoi (walk (if 0 ≤ shift then 1 else -1) x k)) := by
      intro hit' h'
      split at h'
      · simp at h'
      · obtain ⟨k, hk, hw⟩ := ih h'
        exact ⟨k + 1, by omega, hw⟩
    split at h
    · rename_i row hrow
      have hmem := List.mem_of_find?_eq_some hrow
      have heq : row = atoi x := by simpa using List.find?_some hrow
      split at h
      · refine ⟨0, by omega, ?_⟩
        rw [walk, ← heq]
        exact ⟨hmem, by simpa using h.symm⟩
      · exact hnext _ h
    · exact hnext _ h

theorem walk_forward {n k : Nat} (h : n + k < lastDay) : walk 1 (dateText n) k = dateText (n + k) := by
  induction k generalizing n with
  | zero => rfl
  | succ k ih =>
    rw [walk, shiftDays_dateText (m := n + 1) (by omega) (by omega) (by omega), ih (by omega)]
    congr 1
    omega

theorem walk_backward {n k : Nat} (hn : n < lastDay) (h : k ≤ n) :
    walk (-1) (dateText n) k = dateText (n - k) := by
  induction k generalizing n with
  | zero => rfl
  | succ k ih =>
    rw [walk, shiftDays_dateText (m := n - 1) hn (by omega) (by omega), ih (by omega) (by omega)]
    congr 1
    omega

theorem walk_add (step : Int) (x : List Char) (j k : Nat) : walk step x (j + k) = walk step (walk step x j) k := by
  induction j generalizing x with
  | zero => rw [Nat.zero_add, walk]
  | succ j ih => rw [Nat.add_right_comm, walk, walk, ih]

/-- Past 9999-12-31 the text is cut to "10000010", and the search goes on
from there: on December 11, 999. -/
theorem shiftDays_cut :
    shiftDays (dateText (lastDay - 1)) 1 = "10000010".toList ∧
      shiftDays "10000010".toList 1 = dateText (firstDay - 21) := by
  rw [lastDay_eq, firstDay_eq]
  decide +kernel

theorem dayCode_february : dayCode (firstDay + 31) = 10000201 := by decide +kernel

theorem walk_overflow {n k : Nat} (hn : n < lastDay) (hk : k < 30) (h : lastDay ≤ n + k) :
    atoi (walk 1 (dateText n) k) < 10000201 := by
  have hlast : walk 1 (dateText n) (lastDay - 1 - n) = dateText (lastDay - 1) := by
    rw [walk_forward (by omega)]
    congr 1
    omega
  have hsplit : k = (lastDay - 1 - n) + ((k - (lastDay - n)) + 1) := by omega
  rw [hsplit, walk_add, hlast, walk, shiftDays_cut.1]
  cases hj : k - (lastDay - n) with
  | zero => decide
  | succ j =>
    have hfd := firstDay_eq
    have hld := lastDay_eq
    rw [walk, shiftDays_cut.2, walk_forward (by omega), atoi_dateText (by omega), ← dayCode_february]
    exact dayCode_strictMono (by omega)

/-! ## What the backward search selects -/

/-- Operating days from `d` up to, not including, `n`. -/
def opCount (days : List Nat) (d n : Nat) : Nat := (List.range' d (n - d)).countP (· ∈ days)

theorem opCount_succ (days : List Nat) {d n : Nat} (h : d ≤ n) :
    opCount days d (n + 1) = opCount days d n + if n ∈ days then 1 else 0 := by
  have h1 : n + 1 - d = (n - d) + 1 := by omega
  have h2 : d + 1 * (n - d) = n := by omega
  rw [opCount, h1, List.range'_concat, List.countP_append, h2]
  simp [opCount, List.countP_cons]

theorem opCount_pos {days : List Nat} {d n : Nat} (hd : d ∈ days) (h : d < n) : 0 < opCount days d n := by
  refine List.countP_pos_iff.2 ⟨d, ?_, by simpa using hd⟩
  exact List.mem_range'_1.2 ⟨Nat.le_refl _, by omega⟩

theorem find_dateText {days : List Nat} {n : Nat} (hn : n < lastDay) :
    (days.map dayCode).find? (· = atoi (dateText n)) = if n ∈ days then some (dayCode n) else none := by
  rw [atoi_dateText hn]
  split
  · rename_i hmem
    cases hf : (days.map dayCode).find? (· = dayCode n) with
    | none =>
      have := List.find?_eq_none.1 hf (dayCode n) (List.mem_map_of_mem hmem)
      simp at this
    | some r => simpa using List.find?_some hf
  · rename_i hmem
    refine List.find?_eq_none.2 fun r hr => ?_
    obtain ⟨m, hm, rfl⟩ := List.mem_map.1 hr
    intro heq
    obtain rfl : m = n := dayCode_strictMono.injective (by simpa using heq)
    exact hmem hm

/-- Past the base day the backward search selects the operating day that
makes the number of hits reach `|shift_day|`. -/
theorem filterSearch_backward {days : List Nat} {shift : Int} {left cnt hit n d : Nat}
    (hrange : ∀ n ∈ days, firstDay ≤ n ∧ n < lastDay)
    (hs : shift < 0) (hn : n < lastDay) (hleft : left ≤ n) (hcnt : 1 ≤ cnt) (hhit : hit < shift.natAbs)
    (hd : d < lastDay) :
    filterSearch (days.map dayCode) shift left cnt hit (dateText n) = some (dateText d) ↔
      d ≤ n ∧ n < d + left ∧ d ∈ days ∧ hit + opCount days d (n + 1) = shift.natAbs := by
  induction left generalizing cnt hit n with
  | zero =>
    simp only [filterSearch, reduceCtorEq, false_iff]
    omega
  | succ left ih =>
    have hstep : shiftDays (dateText n) (if 0 ≤ shift then 1 else -1) = dateText (n - 1) := by
      rw [if_neg (by omega), shiftDays_dateText (m := n - 1) hn (by omega) (by omega)]
    have hsub : n - 1 + 1 = n := by omega
    simp only [filterSearch, find_dateText hn, hstep, if_neg (show ¬ shift = 0 by omega)]
    by_cases hop : n ∈ days
    · simp only [if_pos hop]
      by_cases hsel : shift.natAbs ≤ hit + 1
      · rw [if_pos (Or.inr hsel), fmt_dayCode (hrange n hop).1 hn]
        constructor
        · intro h
          obtain rfl := dateText_inj hn hd (Option.some.inj h)
          have hc := opCount_succ days (Nat.le_refl n)
          have h0 : opCount days n n = 0 := by simp [opCount]
          rw [if_pos hop] at hc
          exact ⟨Nat.le_refl _, by omega, hop, by omega⟩
        · rintro ⟨hle, -, hmem, hcount⟩
          rcases Nat.lt_or_eq_of_le hle with hlt | rfl
          · have h1 := opCount_pos hmem hlt
            have h2 := opCount_succ days hle
            rw [if_pos hop] at h2
            omega
          · rfl
      · rw [if_neg (by omega), ih (by omega) (by omega) (by omega) (by omega), hsub]
        have hc : d ≤ n → opCount days d (n + 1) = opCount days d n + 1 := by
          intro hle
          rw [opCount_succ days hle, if_pos hop]
        constructor
        · rintro ⟨h1, h2, h3, h4⟩
          exact ⟨by omega, by omega, h3, by rw [hc (by omega)]; omega⟩
        · rintro ⟨h1, h2, h3, h4⟩
          rw [hc h1] at h4
          rcases Nat.lt_or_eq_of_le h1 with hlt | rfl
          · exact ⟨by omega, by omega, h3, by omega⟩
          · have h0 : opCount days d d = 0 := by simp [opCount]
            omega
    · simp only [if_neg hop]
      rw [ih (by omega) (by omega) (by omega) hhit, hsub]
      have hc : d ≤ n → opCount days d (n + 1) = opCount days d n := by
        intro hle
        rw [opCount_succ days hle, if_neg hop, Nat.add_zero]
      constructor
      · rintro ⟨h1, h2, h3, h4⟩
        exact ⟨by omega, by omega, h3, by rw [hc (by omega)]; omega⟩
      · rintro ⟨h1, h2, h3, h4⟩
        rw [hc h1] at h4
        have hne : d ≠ n := fun h => hop (h ▸ h3)
        exact ⟨by omega, by omega, h3, by omega⟩

/-! ## The base day -/

/-- The base day of month `M`, where it has one. -/
def baseDay (f : FilterControl) (M : Nat) : Nat :=
  match f.baseDateFlag with
  | 0 => monthStart M
  | 1 => monthStart (M + 1) - 1
  | _ => monthStart M + (f.designatedDay - 1)

theorem editDate_eq {M day : Nat} (h1 : 1 ≤ day) (h2 : day ≤ monthLen M) :
    strlcpy (monthText M ++ fmt 2 day) 9 = dateText (monthStart M + (day - 1)) := by
  have h31 := (monthLen_bounds M).2
  have hsucc := monthStart_succ M
  have hof : monthOf (monthStart M + (day - 1)) = M := monthOf_eq (by omega) (by omega)
  have hmd : mday (monthStart M + (day - 1)) = day := by
    unfold mday
    rw [hof]
    omega
  rw [monthText, fmt_eq_dec (by omega) (by omega), dec_append _ _ _ _ (by omega), strlcpy,
    List.take_of_length_le (by simp), dateText, dayCode, hof, hmd]
  rfl

/-- Where the inner search for month `M` starts: at the base day; for a
designated day the month does not have, at the first day of the next month
or the last day of this one, with `cnt` already counting. -/
theorem filterSelect_eq (dates : List Nat) (f : FilterControl) {M : Nat} (hM : M < lastMonth)
    (hflag : f.baseDateFlag ≤ 2) (hdes : 1 ≤ f.designatedDay ∧ f.designatedDay ≤ 31) :
    ∃ cnt n, filterSelect dates f (monthText M) = filterSearch dates f.shiftDay (30 - cnt) cnt 0 (dateText n) ∧
      n < lastDay ∧
      (cnt = 0 ∧ n = baseDay f M ∧ monthStart M ≤ n ∧ n < monthStart (M + 1) ∨
       monthLen M < f.designatedDay ∧ 1 ≤ cnt ∧ 0 ≤ f.shiftDay ∧ n = monthStart (M + 1) ∨
       monthLen M < f.designatedDay ∧ 1 ≤ cnt ∧ f.shiftDay < 0 ∧ n + 1 = monthStart (M + 1)) := by
  have hlen := monthLen_bounds M
  have hsucc := monthStart_succ M
  have hend : monthStart (M + 1) ≤ lastDay := monthStart_mono hM
  have hcases : f.baseDateFlag = 0 ∨ f.baseDateFlag = 1 ∨ f.baseDateFlag = 2 := by omega
  simp only [filterSelect, filterBase, getEndOfMonth_monthText hM, baseDay]
  rcases hcases with h | h | h
  · simp only [h]
    rw [editDate_eq (by omega) (by omega)]
    exact ⟨0, _, rfl, by omega, .inl ⟨rfl, by omega, by omega, by omega⟩⟩
  · simp only [h]
    rw [editDate_eq (by omega) (Nat.le_refl _)]
    exact ⟨0, _, rfl, by omega, .inl ⟨rfl, by omega, by omega, by omega⟩⟩
  · simp only [h]
    split
    · rename_i hgt
      -- a month shorter than 31 days is not December
      have hnext : M + 1 < lastMonth := by
        unfold lastMonth at *
        by_contra hc
        have hdec : monthLen 119999 = 31 := by decide
        have : M = 119999 := by omega
        subst this
        omega
      split
      · rename_i hs
        have hlen' := monthLen_bounds (M + 1)
        have hlt : monthStart (M + 1) < lastDay := monthStart_lt hnext
        rw [shiftMonth_monthText hM (N := M + 1) (by omega) hnext, editDate_eq (by omega) (by omega)]
        exact ⟨1, _, rfl, by omega, .inr (.inl ⟨hgt, by omega, hs, by omega⟩)⟩
      · rename_i hs
        rw [editDate_eq (by omega) (Nat.le_refl _)]
        exact ⟨_, _, rfl, by omega, .inr (.inr ⟨hgt, by omega, by omega, by omega⟩)⟩
    · rename_i hle
      rw [editDate_eq hdes.1 (by omega)]
      exact ⟨0, _, rfl, by omega, .inl ⟨rfl, rfl, by omega, by omega⟩⟩

/-- Where a selected date lies, seen from its month: from the base day or
the day the search starts at, at most 29 days in the direction of the shift;
or it was met after the overflow of year 9999. -/
theorem filterSelect_bounds {days : List Nat} {f : FilterControl} {M d : Nat}
    (hrange : ∀ n ∈ days, firstDay ≤ n ∧ n < lastDay)
    (hlo : 12000 ≤ M) (hM : M < lastMonth)
    (hflag : f.baseDateFlag ≤ 2) (hdes : 1 ≤ f.designatedDay ∧ f.designatedDay ≤ 31) (hd : d < lastDay)
    (h : filterSelect (days.map dayCode) f (monthText M) = some (dateText d)) :
    d < firstDay + 31 ∨
      (0 ≤ f.shiftDay ∧ monthStart M ≤ d ∧ d ≤ monthStart (M + 1) + 28) ∨
      (f.shiftDay < 0 ∧ monthStart M ≤ d + 29 ∧ d < monthStart (M + 1)) := by
  obtain ⟨cnt, n, heq, hn, hbase⟩ := filterSelect_eq (days.map dayCode) f hM hflag hdes
  rw [heq] at h
  obtain ⟨k, hk, hmem, hy⟩ := filterSearch_visited h
  have hlen := monthLen_bounds M
  have hsucc := monthStart_succ M
  -- the selected text is that of an operating date
  obtain ⟨e, he, hcode⟩ := List.mem_map.1 hmem
  obtain ⟨he1, he2⟩ := hrange e he
  rw [← hcode, fmt_dayCode he1 he2] at hy
  obtain rfl := dateText_inj hd he2 hy
  by_cases hs : 0 ≤ f.shiftDay
  · simp only [if_pos hs] at hcode
    rcases Nat.lt_or_ge (n + k) lastDay with hlt | hge
    · rw [walk_forward hlt, atoi_dateText hlt] at hcode
      obtain rfl := dayCode_strictMono.injective hcode
      right; left
      omega
    · have hv := walk_overflow hn (by omega) hge
      rw [← hcode] at hv
      rw [← dayCode_february] at hv
      exact .inl (dayCode_strictMono.lt_iff_lt.1 hv)
  · simp only [if_neg hs] at hcode
    have hfirst : firstDay ≤ monthStart M := monthStart_mono hlo
    have hfd := firstDay_eq
    have hkn : k ≤ n := by omega
    rw [walk_backward hn hkn, atoi_dateText (by omega)] at hcode
    obtain rfl := dayCode_strictMono.injective hcode
    right; right
    omega

/-- A closed base day: the backward search goes on from the day before. -/
theorem filterSearch_closed {days : List Nat} {shift : Int} {n : Nat} (hs : shift < 0) (hn : n < lastDay)
    (hpos : 1 ≤ n) (hc : n ∉ days) :
    filterSearch (days.map dayCode) shift 30 0 0 (dateText n) =
      filterSearch (days.map dayCode) shift 29 1 0 (dateText (n - 1)) := by
  have hstep : shiftDays (dateText n) (if 0 ≤ shift then 1 else -1) = dateText (n - 1) := by
    rw [if_neg (by omega), shiftDays_dateText (m := n - 1) hn (by omega) (by omega)]
  rw [filterSearch]
  simp only [find_dateText hn, hstep, if_neg hc, if_neg (show ¬ shift = 0 by omega)]

theorem filterSearch_open {days : List Nat} {shift : Int} {n : Nat}
    (hrange : ∀ n ∈ days, firstDay ≤ n ∧ n < lastDay) (hn : n ∈ days) :
    filterSearch (days.map dayCode) shift 30 0 0 (dateText n) = some (dateText n) := by
  obtain ⟨h1, h2⟩ := hrange n hn
  rw [filterSearch]
  simp only [find_dateText h2, if_pos hn, true_or, if_true, fmt_dayCode h1 h2]

/-! ## The visited months -/

/-- 1970-01-01, the first day of `time()`. -/
def epochDay : Nat := monthStart (12 * 1970)

theorem epochDay_eq : epochDay = 719528 := by decide +kernel

/-- The run that is missed: it is January, the base day of March is not an
operating day, and the operating day `d` that lies `|shift_day|` operating
days before it, at most 29 days, is not after February 1 and is due in the
window. -/
structure MarchMissed (days : List Nat) (f : FilterControl) (hh mm now span d : Nat) : Prop where
  january : monthOf (now / 1440) % 12 = 0
  backward : f.shiftDay < 0
  baseClosed : baseDay f (monthOf (now / 1440) + 2) ∉ days
  operating : d ∈ days
  early : d ≤ monthStart (monthOf (now / 1440) + 1)
  near : baseDay f (monthOf (now / 1440) + 2) ≤ d + 29
  hits : opCount days d (baseDay f (monthOf (now / 1440) + 2)) = f.shiftDay.natAbs
  due : now ≤ bootMinute d hh mm ∧ bootMinute d hh mm ≤ now + span

/-- The filter claim's setting: a filter over a calendar of four-digit
years, a boot time up to 99:59, a window of at most one day. -/
structure FilterInput (days : List Nat) (f : FilterControl) (hh mm now span : Nat) : Prop where
  range : ∀ n ∈ days, firstDay ≤ n ∧ n < lastDay
  flag : f.baseDateFlag ≤ 2
  designated : 1 ≤ f.designatedDay ∧ f.designatedDay ≤ 31
  shift : -7 ≤ f.shiftDay ∧ f.shiftDay ≤ 7
  hour : hh ≤ 99
  minute : mm ≤ 59
  epoch : epochDay ≤ now / 1440
  oneDay : 1 ≤ span ∧ span ≤ 1440
  fourDigits : (now + span) / 1440 < lastDay

section
variable {days : List Nat} {f : FilterControl} {hh mm now span : Nat}

theorem monthLen_march {M : Nat} (h : M % 12 = 0) : monthLen (M + 2) = 31 := by
  have h2 : (M + 2) % 12 = 2 := by omega
  simp [monthLen, h2]

/-- A month two or more ahead whose selected date is due: only March, seen
from January. -/
theorem marchMissed_of_ahead (hin : FilterInput days f hh mm now span) {M d : Nat}
    (hM : M < lastMonth) (hahead : monthOf (now / 1440) + 2 ≤ M)
    (hsel : filterSelect (days.map dayCode) f (monthText M) = some (dateText d))
    (hdue : now ≤ bootMinute d hh mm ∧ bootMinute d hh mm ≤ now + span) :
    MarchMissed days f hh mm now span d := by
  have hepoch := hin.epoch
  have hfour := hin.fourDigits
  have hoff := hin.oneDay
  have hhour := hin.hour
  have hmin := hin.minute
  have hed := epochDay_eq
  have hfd := firstDay_eq
  have hm0 := monthStart_monthOf_le (now / 1440)
  have hm1 := lt_monthStart_succ_monthOf (now / 1440)
  have hlo : 12000 ≤ monthOf (now / 1440) := le_monthOf_iff.2 (by unfold firstDay at hfd; omega)
  -- the window ends before the second day of the next month
  have hdle : d ≤ monthStart (monthOf (now / 1440) + 1) := by
    unfold bootMinute at hdue
    omega
  have hge : firstDay + 31 ≤ d := by
    unfold bootMinute at hdue
    omega
  have hd : d < lastDay := by
    unfold bootMinute at hdue
    omega
  have hb := filterSelect_bounds hin.range (by omega) hM hin.flag hin.designated hd hsel
  have hmono := monthStart_mono hahead
  have hs1 : monthStart (monthOf (now / 1440) + 2) = _ := monthStart_succ (monthOf (now / 1440) + 1)
  have hl1 := monthLen_bounds (monthOf (now / 1440) + 1)
  have hs2 : monthStart (monthOf (now / 1440) + 3) = _ := monthStart_succ (monthOf (now / 1440) + 2)
  have hl2 := monthLen_bounds (monthOf (now / 1440) + 2)
  have hback : f.shiftDay < 0 ∧ monthStart M ≤ d + 29 := by omega
  have hMeq : M = monthOf (now / 1440) + 2 := by
    by_contra hne
    have := monthStart_mono (show monthOf (now / 1440) + 3 ≤ M by omega)
    omega
  subst hMeq
  -- the month between is at most 29 days long
  have hjan : monthOf (now / 1440) % 12 = 0 := by
    have hlen : monthLen (monthOf (now / 1440) + 1) ≤ 29 := by omega
    unfold monthLen at hlen
    split at hlen
    all_goals omega
  obtain ⟨cnt, n, heq, hn, hbase⟩ := filterSelect_eq (days.map dayCode) f hM hin.flag hin.designated
  rw [heq] at hsel
  rcases hbase with ⟨rfl, rfl, hn1, hn2⟩ | ⟨-, -, hnn, -⟩ | ⟨hlen, -⟩
  · by_cases hop : baseDay f (monthOf (now / 1440) + 2) ∈ days
    · rw [filterSearch_open hin.range hop] at hsel
      have := dateText_inj hn hd (Option.some.inj hsel)
      omega
    · rw [Nat.sub_zero, filterSearch_closed hback.1 hn (by omega) hop,
        filterSearch_backward hin.range hback.1 (by omega) (by omega) (by omega) (by omega) hd] at hsel
      obtain ⟨h1, h2, h3, h4⟩ := hsel
      have hsub : baseDay f (monthOf (now / 1440) + 2) - 1 + 1 = baseDay f (monthOf (now / 1440) + 2) := by
        omega
      rw [hsub, Nat.zero_add] at h4
      exact ⟨hjan, hback.1, hop, h3, hdle, by omega, h4, hdue⟩
  · omega
  · have := monthLen_march hjan
    have := hin.designated.2
    omega

/-- No month three or more behind selects a date that is due. -/
theorem not_due_of_behind (hin : FilterInput days f hh mm now span) {M d : Nat}
    (hlo : 12000 ≤ M) (hM : M < lastMonth) (hbehind : M + 3 ≤ monthOf (now / 1440))
    (hsel : filterSelect (days.map dayCode) f (monthText M) = some (dateText d))
    (hdue : now ≤ bootMinute d hh mm ∧ bootMinute d hh mm ≤ now + span) : False := by
  have hepoch := hin.epoch
  have hfour := hin.fourDigits
  have hhour := hin.hour
  have hmin := hin.minute
  have hed := epochDay_eq
  have hfd := firstDay_eq
  have hm0 := monthStart_monthOf_le (now / 1440)
  have hmono := monthStart_mono hbehind
  have hadd : _ ≤ monthStart (M + 3) := monthStart_add_le (M + 1) 2
  have hd : d < lastDay := by
    unfold bootMinute at hdue
    omega
  have hb := filterSelect_bounds hin.range hlo hM hin.flag hin.designated hd hsel
  have hnow : now / 1440 ≤ d + 4 := by
    unfold bootMinute at hdue
    omega
  omega

/-- In the missed case the date selected for March is the one missed. -/
theorem MarchMissed.selected (hin : FilterInput days f hh mm now span) {d : Nat}
    (h : MarchMissed days f hh mm now span d) :
    monthOf (now / 1440) + 2 < lastMonth ∧
      filterSelect (days.map dayCode) f (monthText (monthOf (now / 1440) + 2)) = some (dateText d) := by
  have hepoch := hin.epoch
  have hfour := hin.fourDigits
  have hed := epochDay_eq
  have hback := h.backward
  have hnear := h.near
  have hearly := h.early
  have hM0 : monthOf (now / 1440) < lastMonth := monthOf_lt_lastMonth (by omega)
  have hjan := h.january
  have hM : monthOf (now / 1440) + 2 < lastMonth := by unfold lastMonth at *; omega
  have hm0 := monthStart_monthOf_le (now / 1440)
  have hm1 := lt_monthStart_succ_monthOf (now / 1440)
  have hs1 : monthStart (monthOf (now / 1440) + 2) = _ := monthStart_succ (monthOf (now / 1440) + 1)
  have hl1 := monthLen_bounds (monthOf (now / 1440) + 1)
  have hs2 : monthStart (monthOf (now / 1440) + 3) = _ := monthStart_succ (monthOf (now / 1440) + 2)
  -- March has 31 days, so its base day exists
  have hl2 := monthLen_march hjan
  refine ⟨hM, ?_⟩
  obtain ⟨cnt, n, heq, hn, hbase⟩ := filterSelect_eq (days.map dayCode) f hM hin.flag hin.designated
  rcases hbase with ⟨rfl, rfl, hn1, -⟩ | ⟨hlen, -⟩ | ⟨hlen, -⟩
  · have hsub : baseDay f (monthOf (now / 1440) + 2) - 1 + 1 = baseDay f (monthOf (now / 1440) + 2) := by
      omega
    rw [heq, Nat.sub_zero, filterSearch_closed hback hn (by omega) h.baseClosed,
      filterSearch_backward hin.range hback (by omega) (by omega) (by omega) (by omega)
        (hin.range d h.operating).2, hsub, Nat.zero_add]
    exact ⟨by omega, by omega, h.operating, h.hits⟩
  · have := hin.designated.2
    omega
  · have := hin.designated.2
    omega

/-- A visited month's selected date that is due is passed on. -/
theorem call_of_visited (hin : FilterInput days f hh mm now span) (db : Calendars) (scheduleId : String)
    (updateDate : Nat) (filterId : String) (version objectFlag : Nat) (hobj : objectFlag ≠ 0)
    (hf : db.validFilter filterId = some f) (hv : db.validVersion f.baseCalendarId = some version)
    (hdays : db.operatingDates f.baseCalendarId version = days.map dayCode)
    {M d : Nat} {k : Int} (hM : M < lastMonth) (hk : k ∈ [(-2 : Int), -1, 0, 1])
    (hkM : (monthOf (now / 1440) : Int) + k = M)
    (hsel : filterSelect (days.map dayCode) f (monthText M) = some (dateText d))
    (hdue : now ≤ bootMinute d hh mm ∧ bootMinute d hh mm ≤ now + span) :
    ∃ calls, getCalendarDetail db scheduleId updateDate (getSearchDate span now).1 (getSearchDate span now).2
        filterId (bootText hh mm) objectFlag = .ok calls ∧
      scheduledCall scheduleId updateDate filterId hh mm d ∈ calls := by
  have hfour := hin.fourDigits
  have hepoch := hin.epoch
  have hed := epochDay_eq
  have hfd := firstDay_eq
  have hbase : (stampText now).take 6 = monthText (monthOf (now / 1440)) := by
    rw [← take_dateText, ← take_stampText, List.take_take, Nat.min_eq_left (by omega)]
  have hd : d < lastDay := by
    unfold bootMinute at hdue
    omega
  simp only [getCalendarDetail, if_neg hobj, hf, hv, hdays, getSearchDate_spec hfour, hbase]
  refine ⟨_, rfl, List.mem_filterMap.2 ⟨k, hk, ?_⟩⟩
  rw [shiftMonth_monthText (monthOf_lt_lastMonth (by omega)) hkM hM, hsel, Option.bind_some,
    scheduleCheck_spec _ _ _ hin.hour hin.minute (by omega) hfour hd, if_pos hdue]

/-- No run is lost: every month (of a four-digit year) whose selected date is
due in the window is among the visited ones, and its scheduled time is
passed on. -/
def LosesNoRun (db : Calendars) (scheduleId : String) (updateDate : Nat) (filterId : String) (objectFlag : Nat)
    (days : List Nat) (f : FilterControl) (hh mm now span : Nat) : Prop :=
  ∀ M d, 12000 ≤ M → M < lastMonth →
    filterSelect (days.map dayCode) f (monthText M) = some (dateText d) →
    now ≤ bootMinute d hh mm ∧ bootMinute d hh mm ≤ now + span →
    (∃ k ∈ [(-2 : Int), -1, 0, 1], (monthOf (now / 1440) : Int) + k = M) ∧
    ∃ calls, getCalendarDetail db scheduleId updateDate (getSearchDate span now).1 (getSearchDate span now).2
        filterId (bootText hh mm) objectFlag = .ok calls ∧
      scheduledCall scheduleId updateDate filterId hh mm d ∈ calls

/-- **When filter schedules lose no run**: exactly unless it is January and
the run selected for March is due. -/
theorem filter_complete_iff (hin : FilterInput days f hh mm now span) (db : Calendars) (scheduleId : String)
    (updateDate : Nat) (filterId : String) (version objectFlag : Nat) (hobj : objectFlag ≠ 0)
    (hf : db.validFilter filterId = some f) (hv : db.validVersion f.baseCalendarId = some version)
    (hdays : db.operatingDates f.baseCalendarId version = days.map dayCode) :
    LosesNoRun db scheduleId updateDate filterId objectFlag days f hh mm now span ↔
      ¬ ∃ d, MarchMissed days f hh mm now span d := by
  constructor
  · rintro hall ⟨d, hmiss⟩
    obtain ⟨hM, hsel⟩ := hmiss.selected hin
    have hepoch := hin.epoch
    have hlo : 12 * 1970 ≤ monthOf (now / 1440) := le_monthOf_iff.2 hepoch
    obtain ⟨⟨k, hk, hkM⟩, -⟩ := hall _ d (by omega) hM hsel hmiss.due
    have : k ≤ 1 := by
      simp only [List.mem_cons, List.not_mem_nil, or_false] at hk
      omega
    omega
  · intro hno M d hlo hM hsel hdue
    have hbelow : M < monthOf (now / 1440) + 2 := by
      by_contra hc
      exact hno ⟨d, marchMissed_of_ahead hin hM (by omega) hsel hdue⟩
    have habove : monthOf (now / 1440) < M + 3 := by
      by_contra hc
      exact not_due_of_behind hin hlo hM (by omega) hsel hdue
    have hk : (M : Int) - monthOf (now / 1440) ∈ [(-2 : Int), -1, 0, 1] := by
      simp only [List.mem_cons, List.not_mem_nil, or_false]
      omega
    have hkM : (monthOf (now / 1440) : Int) + ((M : Int) - monthOf (now / 1440)) = M := by omega
    exact ⟨⟨_, hk, hkM⟩, call_of_visited hin db scheduleId updateDate filterId version objectFlag hobj hf hv
      hdays hM hk hkM hsel hdue⟩

end

/-- Two operating days before the first of the month, over a calendar that
is open on January 31 and February 1, 2023. -/
def shiftFilter : FilterControl := ⟨"FIL", true, 0, 1, -2, "CAL"⟩

def winterCalendars : Calendars :=
  { control := [⟨"CAL", 20230101000000, true⟩]
    detail := [⟨"CAL", 20230101000000, 20230131⟩, ⟨"CAL", 20230101000000, 20230201⟩]
    filter := [shiftFilter] }

/-- Two operating days before March 1 is January 31. At 08:00 of that day
the run at 09:00 is due within two hours, but March is not visited. -/
theorem march_run_missed :
    ¬ LosesNoRun winterCalendars "SCH" 1 "FIL" 1 [738916, 738917] shiftFilter 9 0 1064039520 120 := by
  intro h
  obtain ⟨⟨k, hk, hkM⟩, -⟩ := h 24278 738916 (by decide) (by decide) (by decide +kernel) (by decide)
  have hm : monthOf (1064039520 / 1440) = 24276 := by decide +kernel
  rw [hm] at hkM
  simp only [List.mem_cons, List.not_mem_nil, or_false] at hk
  omega

/-- In July nothing is missed. -/
theorem filter_complete_iff_july :
    LosesNoRun winterCalendars "SCH" 1 "FIL" 1 [738916, 738917] shiftFilter 9 0 1064256960 120 := by
  have hcode : [738916, 738917].map dayCode = [20230131, 20230201] := by decide +kernel
  have hin : FilterInput [738916, 738917] shiftFilter 9 0 1064256960 120 :=
    { range := by rw [firstDay_eq, lastDay_eq]; decide
      flag := by decide
      designated := by decide
      shift := by decide
      hour := by decide
      minute := by decide
      epoch := by rw [epochDay_eq]; decide
      oneDay := by decide
      fourDigits := by rw [lastDay_eq]; decide }
  refine (filter_complete_iff hin winterCalendars "SCH" 1 "FIL" 20230101000000 1 (by decide) (by decide)
    (by decide) (by rw [hcode]; decide)).2 ?_
  rintro ⟨d, hmiss⟩
  have hm : monthOf (1064256960 / 1440) % 12 = 6 := by decide +kernel
  have := hmiss.january
  omega

end JobArranger
