import JobArranger.L3Loader.Filter

/-!
# The rule of a filter

What a filter is to select from its base calendar for a month, said without
the loop: the base day if it is an operating day, else the `|shift_day|`-th
operating day after or before it. A designated day the month does not have
lies, seen forwards, one day before the first of the next month, and seen
backwards as many days behind the last day as its number exceeds it. Days
more than 29 days away are not selected.

* `filterSearch_visits`: past the base day the loop selects a row of known
  index among the dates it looks up.
* `filterSelect_rule_iff`: when the loop follows the rule.
-/
namespace JobArranger

open Decimal Gregorian

/-! ## The rule -/

/-- `d` is the `k`-th operating day from `a` on. -/
def NthFrom (days : List Nat) (k a d : Nat) : Prop := a ≤ d ∧ d ∈ days ∧ opCount days a (d + 1) = k

/-- `d` is the `k`-th operating day back from `a`. -/
def NthBack (days : List Nat) (k a d : Nat) : Prop := d ≤ a ∧ d ∈ days ∧ opCount days d (a + 1) = k

/-- The month has the base day. -/
def FilterControl.HasBaseDay (f : FilterControl) (M : Nat) : Prop :=
  f.baseDateFlag = 2 → f.designatedDay ≤ monthLen M

/-- The rule: `d` is the operating day of the filter in month `M`. -/
inductive RuleSelects (days : List Nat) (f : FilterControl) (M : Nat) : Nat → Prop
  | base (has : f.HasBaseDay M) (operating : baseDay f M ∈ days) : RuleSelects days f M (baseDay f M)
  | after {d : Nat} (has : f.HasBaseDay M) (closed : baseDay f M ∉ days) (forward : 0 < f.shiftDay)
      (nth : NthFrom days f.shiftDay.natAbs (baseDay f M + 1) d) (near : d ≤ baseDay f M + 29) :
      RuleSelects days f M d
  | before {d : Nat} (has : f.HasBaseDay M) (closed : baseDay f M ∉ days) (backward : f.shiftDay < 0)
      (nth : NthBack days f.shiftDay.natAbs (baseDay f M - 1) d) (near : baseDay f M ≤ d + 29) :
      RuleSelects days f M d
  | afterMonth {d : Nat} (missing : ¬ f.HasBaseDay M) (forward : 0 < f.shiftDay)
      (nth : NthFrom days f.shiftDay.natAbs (monthStart (M + 1)) d) (near : d < monthStart (M + 1) + 29) :
      RuleSelects days f M d
  | beforeMonth {d : Nat} (missing : ¬ f.HasBaseDay M) (backward : f.shiftDay < 0)
      (nth : NthBack days f.shiftDay.natAbs (monthStart (M + 1) - 1) d) (near : baseDay f M ≤ d + 29) :
      RuleSelects days f M d

/-- The text of a fetched operating date. -/
def operatingText (d : Nat) : List Char := fmt 1 (dayCode d)

theorem operatingText_injective : Function.Injective operatingText := by
  intro d e h
  have hcode := congrArg atoi h
  rw [operatingText, operatingText, atoi_fmt Nat.one_pos, atoi_fmt Nat.one_pos] at hcode
  exact dayCode_strictMono.injective hcode

/-- The inner search selects what the rule says, and nothing where it says
nothing. -/
structure FollowsRule (days : List Nat) (f : FilterControl) (M : Nat) : Prop where
  selects : ∀ d, filterSelect (days.map dayCode) f (monthText M) = some (operatingText d) ↔ RuleSelects days f M d
  selectsNone : filterSelect (days.map dayCode) f (monthText M) = none ↔ ∀ d, ¬ RuleSelects days f M d

/-! ## Rows by index -/

/-- An element of a filtered list, by the number of elements kept before it. -/
theorem getElem?_filter_iff {α : Type} (p : α → Bool) {l : List α} {k : Nat} {x : α} :
    (l.filter p)[k]? = some x ↔ ∃ i, l[i]? = some x ∧ p x ∧ (l.take i).countP p = k := by
  induction l generalizing k with
  | nil => simp
  | cons y l ih =>
    by_cases hy : p y = true
    · rw [List.filter_cons_of_pos hy]
      cases k with
      | zero =>
        constructor
        · intro h
          obtain rfl : y = x := by simpa using h
          exact ⟨0, by simp, hy, by simp⟩
        · rintro ⟨i, hi, -, hcount⟩
          cases i with
          | zero => simpa using hi
          | succ i => simp [hy] at hcount
      | succ k =>
        rw [List.getElem?_cons_succ, ih]
        constructor
        · rintro ⟨i, hi, hx, hcount⟩
          exact ⟨i + 1, by simpa using hi, hx, by simp [hy, hcount]⟩
        · rintro ⟨i, hi, hx, hcount⟩
          cases i with
          | zero => simp at hcount
          | succ i => exact ⟨i, by simpa using hi, hx, by simpa [hy] using hcount⟩
    · rw [List.filter_cons_of_neg hy, ih]
      constructor
      · rintro ⟨i, hi, hx, hcount⟩
        exact ⟨i + 1, by simpa using hi, hx, by simp [hy, hcount]⟩
      · rintro ⟨i, hi, hx, hcount⟩
        cases i with
        | zero =>
          obtain rfl : y = x := by simpa using hi
          exact absurd hx hy
        | succ i => exact ⟨i, by simpa using hi, hx, by simpa [hy] using hcount⟩

@[simp] theorem opCount_empty (days : List Nat) {a b : Nat} (h : b ≤ a) : opCount days a b = 0 := by
  have h0 : b - a = 0 := by omega
  simp [opCount, h0]

/-- The operating days of a stretch, by index from its first day. -/
theorem getElem?_forward (days : List Nat) {k a n d : Nat} :
    ((List.range' a n).filter (· ∈ days))[k]? = some d ↔ NthFrom days (k + 1) a d ∧ d < a + n := by
  rw [getElem?_filter_iff]
  constructor
  · rintro ⟨i, hi, hd, hcount⟩
    obtain ⟨hin, rfl⟩ : i < n ∧ a + i = d := by simpa [List.getElem?_eq_some_iff] using hi
    have hmem : a + i ∈ days := by simpa using hd
    rw [List.take_range'_of_length_ge hin.le] at hcount
    refine ⟨⟨Nat.le_add_right a i, hmem, ?_⟩, Nat.add_lt_add_left hin a⟩
    rw [opCount_succ days (Nat.le_add_right a i), if_pos hmem, opCount, Nat.add_sub_cancel_left, hcount]
  · rintro ⟨⟨hle, hd, hcount⟩, hlt⟩
    obtain ⟨i, rfl⟩ := Nat.exists_eq_add_of_le hle
    have hin : i < n := by omega
    rw [opCount_succ days hle, if_pos hd, opCount, Nat.add_sub_cancel_left] at hcount
    refine ⟨i, by simp [hin], by simpa using hd, ?_⟩
    rw [List.take_range'_of_length_ge hin.le]
    omega

theorem opCount_cons (days : List Nat) {a b : Nat} (h : a < b) :
    opCount days a b = (if a ∈ days then 1 else 0) + opCount days (a + 1) b := by
  have h1 : b - a = (b - (a + 1)) + 1 := by omega
  rw [opCount, h1, List.range'_succ, List.countP_cons, opCount]
  simp [Nat.add_comm]

/-- The same backwards, from its last day. -/
theorem getElem?_backward (days : List Nat) {k a n d : Nat} :
    ((List.range' a n).reverse.filter (· ∈ days))[k]? = some d ↔
      NthBack days (k + 1) (a + n - 1) d ∧ a ≤ d ∧ d < a + n := by
  -- the days before index `i` are those behind `a + n - 1 - i`
  have htake : ∀ i < n, ((List.range' a n).reverse.take i).countP (· ∈ days) = opCount days (a + n - i) (a + n) := by
    intro i hi
    have hlen : n - (n - i) = a + n - (a + n - i) := by omega
    have hstart : a + (n - i) = a + n - i := by omega
    rw [List.take_reverse, List.countP_reverse, List.length_range', List.drop_range', Nat.mul_one, hlen, hstart,
      opCount]
  rw [getElem?_filter_iff]
  constructor
  · rintro ⟨i, hi, hd, hcount⟩
    have hin : i < n := by simpa using (List.getElem?_eq_some_iff.1 hi).1
    rw [List.getElem?_reverse (by simpa using hin)] at hi
    obtain ⟨-, rfl⟩ : _ ∧ a + (n - 1 - i) = d := by simpa [List.getElem?_eq_some_iff] using hi
    have hmem : a + (n - 1 - i) ∈ days := by simpa using hd
    have hsucc : a + (n - 1 - i) + 1 = a + n - i := by omega
    have hend : a + n - 1 + 1 = a + n := by omega
    rw [htake i hin] at hcount
    refine ⟨⟨by omega, hmem, ?_⟩, by omega, by omega⟩
    rw [opCount_cons days (by omega), if_pos hmem, hend, hsucc, hcount, Nat.add_comm]
  · rintro ⟨⟨hle, hd, hcount⟩, hlo, hlt⟩
    have hend : a + n - 1 + 1 = a + n := by omega
    have hsucc : a + n - (a + n - 1 - d) = d + 1 := by omega
    have hin : a + n - 1 - d < n := by omega
    rw [opCount_cons days (by omega), if_pos hd, hend] at hcount
    refine ⟨a + n - 1 - d, ?_, by simpa using hd, by rw [htake _ hin, hsucc]; omega⟩
    rw [List.getElem?_reverse (by simpa using hin), List.getElem?_eq_some_iff]
    refine ⟨by simp; omega, ?_⟩
    rw [List.getElem_range', List.length_range']
    omega

/-! ## The dates the search looks up -/

/-- The numbers of the date texts of `k` rounds. -/
def visited (shiftDay : Int) (editDate : List Char) (k : Nat) : List Nat :=
  (List.iterate (fun date => shiftDays date (if 0 ≤ shiftDay then 1 else -1)) editDate k).map atoi

theorem visited_succ (shiftDay : Int) (editDate : List Char) (k : Nat) :
    visited shiftDay editDate (k + 1) =
      atoi editDate :: visited shiftDay (shiftDays editDate (if 0 ≤ shiftDay then 1 else -1)) k := rfl

theorem find_operating (dates : List Nat) (a : Nat) : dates.find? (· = a) = if a ∈ dates then some a else none := by
  cases hf : dates.find? (· = a) with
  | none =>
    rw [if_neg]
    exact fun hmem => by simpa using List.find?_eq_none.1 hf a hmem
  | some d =>
    obtain rfl : d = a := by simpa using List.find?_some hf
    rw [if_pos (List.mem_of_find?_eq_some hf)]

/-- Past the base day the search selects a row of known index among the
operating dates it looks up. -/
theorem filterSearch_visits {dates : List Nat} {shift : Int} {left cnt hit : Nat} {editDate : List Char}
    (hs : shift ≠ 0) (hcnt : 1 ≤ cnt) (hhit : hit < shift.natAbs) :
    filterSearch dates shift left cnt hit editDate =
      ((visited shift editDate left).filter (· ∈ dates))[shift.natAbs - 1 - hit]?.map (fmt 1) := by
  induction left generalizing cnt hit editDate with
  | zero => rfl
  | succ left ih =>
    simp only [filterSearch, find_operating, visited_succ, if_neg hs]
    by_cases hop : atoi editDate ∈ dates
    · rw [if_pos hop, List.filter_cons_of_pos (by simpa using hop)]
      by_cases hsel : shift.natAbs ≤ hit + 1
      · have hidx : shift.natAbs - 1 - hit = 0 := by omega
        simp only [if_pos (Or.inr hsel), hidx, List.getElem?_cons_zero, Option.map_some]
      · have hidx : shift.natAbs - 1 - hit = (shift.natAbs - 1 - (hit + 1)) + 1 := by omega
        have hround : ¬ (cnt = 0 ∨ shift.natAbs ≤ hit + 1) := by omega
        simp only [if_neg hround, hidx, List.getElem?_cons_succ]
        exact ih (by omega) (by omega)
    · rw [if_neg hop, List.filter_cons_of_neg (by simpa using hop)]
      exact ih (by omega) hhit

/-- The same from a base day that is not operating. -/
theorem filterSearch_closedBase {dates : List Nat} {shift : Int} {editDate : List Char}
    (hs : shift ≠ 0) (hclosed : atoi editDate ∉ dates) :
    filterSearch dates shift 30 0 0 editDate =
      ((visited shift editDate 30).filter (· ∈ dates))[shift.natAbs - 1]?.map (fmt 1) := by
  have hrest : filterSearch dates shift 29 (0 + 1) 0 (shiftDays editDate (if 0 ≤ shift then 1 else -1)) = _ :=
    filterSearch_visits hs (Nat.le_refl 1) (by omega)
  rw [visited_succ, List.filter_cons_of_neg (by simpa using hclosed), filterSearch]
  simp only [find_operating, if_neg hs, if_neg hclosed]
  exact hrest

theorem filter_dayCode (days l : List Nat) :
    (l.map dayCode).filter (· ∈ days.map dayCode) = (l.filter (· ∈ days)).map dayCode := by
  rw [List.filter_map]
  congr 2
  funext m
  simp [dayCode_strictMono.injective.eq_iff]

theorem visited_backward {shift : Int} {n k : Nat} (hs : shift < 0) (hn : n < lastDay) (hk : k ≤ n + 1) :
    visited shift (dateText n) k = ((List.range' (n + 1 - k) k).reverse).map dayCode := by
  induction k generalizing n with
  | zero => rfl
  | succ k ih =>
    have hstart : n + 1 - (k + 1) = n - k := by omega
    have hlast : n - k + 1 * k = n := by omega
    rw [visited_succ, if_neg (by omega), atoi_dateText hn, List.range'_concat, List.reverse_append, hstart, hlast,
      List.reverse_singleton, List.singleton_append, List.map_cons]
    cases k with
    | zero => rfl
    | succ k =>
      have hprev : n - 1 + 1 - (k + 1) = n - (k + 1) := by omega
      rw [shiftDays_dateText (m := n - 1) hn (by omega) (by omega), ih (by omega) (by omega), hprev]

theorem visited_forward {shift : Int} {n k : Nat} (hs : 0 ≤ shift) (hk : n + k ≤ lastDay) :
    visited shift (dateText n) k = (List.range' n k).map dayCode := by
  induction k generalizing n with
  | zero => rfl
  | succ k ih =>
    rw [visited_succ, if_pos hs, atoi_dateText (by omega), List.range'_succ, List.map_cons]
    cases k with
    | zero => rfl
    | succ k => rw [shiftDays_dateText (m := n + 1) (by omega) (by omega) (by omega), ih (by omega)]

theorem visited_append (shift : Int) (editDate : List Char) (i j : Nat) :
    visited shift editDate (i + j) =
      visited shift editDate i ++ visited shift (walk (if 0 ≤ shift then 1 else -1) editDate i) j := by
  induction i generalizing editDate with
  | zero => rw [Nat.zero_add]; rfl
  | succ i ih => rw [Nat.add_right_comm, visited_succ, visited_succ, ih, List.cons_append, walk]

/-- No date: month 0 of year 1000. -/
theorem overflow_not_dayCode (n : Nat) : dayCode n ≠ 10000010 := by
  have h1 := mday_pos n
  have h2 := mday_le_31 n
  unfold dayCode monthCode
  omega

/-- The days looked up behind 9999-12-31, from 999-12-11 on. -/
def wrapped (n k : Nat) : List Nat := List.range' (firstDay - 21) (n + k - lastDay - 1)

/-- The operating dates among those looked up forwards from `n`. -/
theorem visited_filter {days : List Nat} {shift : Int} {n k : Nat} (hs : 0 ≤ shift) (hn : n < lastDay) (hk : k ≤ 30) :
    (visited shift (dateText n) k).filter (· ∈ days.map dayCode) =
      ((List.range' n (min k (lastDay - n)) ++ wrapped n k).filter (· ∈ days)).map dayCode := by
  by_cases hfit : n + k ≤ lastDay
  · have hmin : min k (lastDay - n) = k := by omega
    have hwrap : wrapped n k = [] := by
      have h0 : n + k - lastDay - 1 = 0 := by omega
      rw [wrapped, h0]
      rfl
    rw [visited_forward hs hfit, filter_dayCode, hmin, hwrap, List.append_nil]
  · have hmin : min k (lastDay - n) = lastDay - n := by omega
    have hfd := firstDay_eq
    have hld := lastDay_eq
    -- up to 9999-12-31, the cut text, and on from 999-12-11
    have hsplit : k = (lastDay - n) + (n + k - lastDay) := by omega
    have hcut : walk 1 (dateText n) (lastDay - n) = "10000010".toList := by
      have hlast : lastDay - n = (lastDay - 1 - n) + 1 := by omega
      have hday : n + (lastDay - 1 - n) = lastDay - 1 := by omega
      rw [hlast, walk_add, walk_forward (by omega), hday, walk, walk, shiftDays_cut.1]
    obtain ⟨j, hj⟩ : ∃ j, n + k - lastDay = j + 1 := ⟨n + k - lastDay - 1, by omega⟩
    have hwrap : wrapped n k = List.range' (firstDay - 21) j := by
      rw [wrapped, hj, Nat.add_sub_cancel]
    have hover : atoi "10000010".toList = 10000010 := by decide
    have hnone : 10000010 ∉ days.map dayCode := by
      intro h
      obtain ⟨m, -, hm⟩ := List.mem_map.1 h
      exact overflow_not_dayCode m hm
    have hvisit : visited shift (dateText n) k =
        (List.range' n (lastDay - n)).map dayCode ++ 10000010 :: (List.range' (firstDay - 21) j).map dayCode := by
      rw [hsplit, visited_append, visited_forward hs (by omega), if_pos hs, hcut, hj, visited_succ, if_pos hs,
        shiftDays_cut.2, visited_forward hs (by omega), hover]
    rw [hvisit, hmin, hwrap, List.filter_append, List.filter_append, List.filter_cons_of_neg (by simpa using hnone),
      filter_dayCode, filter_dayCode, List.map_append]


/-! ## When the loop follows the rule -/

theorem getElem?_append_left_iff {α : Type} {l r : List α} {i : Nat} :
    (l ++ r)[i]? = l[i]? ↔ ¬ (l.length ≤ i ∧ i < l.length + r.length) := by
  by_cases h : i < l.length
  · rw [List.getElem?_append_left h]
    simp [Nat.not_le.2 h]
  · have hle : l.length ≤ i := Nat.le_of_not_lt h
    rw [List.getElem?_append_right hle, List.getElem?_eq_none hle, List.getElem?_eq_none_iff]
    omega

/-- With no shift, a designated day the month does not have, and the first
of the next month operating. -/
def MovedUnshifted (days : List Nat) (f : FilterControl) (M : Nat) : Prop :=
  ¬ f.HasBaseDay M ∧ f.shiftDay = 0 ∧ monthStart (M + 1) ∈ days

/-- The search leaves year 9999 and comes to enough operating dates of the
days around the beginning of year 1000. -/
def WrapsAround (days : List Nat) (f : FilterControl) (M : Nat) : Prop :=
  f.HasBaseDay M ∧ baseDay f M ∉ days ∧ 0 < f.shiftDay ∧
    opCount days (baseDay f M) lastDay < f.shiftDay.natAbs ∧
    f.shiftDay.natAbs ≤ opCount days (baseDay f M) lastDay +
      opCount days (firstDay - 21) (firstDay - 21 + (baseDay f M + 29 - lastDay))

/-- Where loop and rule each give a row, they must give the same. -/
theorem followsRule_iff {days : List Nat} {f : FilterControl} {M : Nat} {row rule : Option Nat}
    (hrow : filterSelect (days.map dayCode) f (monthText M) = row.map operatingText)
    (hrule : ∀ d, RuleSelects days f M d ↔ rule = some d) : FollowsRule days f M ↔ row = rule := by
  constructor
  · intro h
    cases rule with
    | none =>
      have hnone := h.selectsNone.2 fun d hd => by cases (hrule d).1 hd
      rw [hrow] at hnone
      simpa using hnone
    | some d =>
      have hsome := (h.selects d).2 ((hrule d).2 rfl)
      rw [hrow, Option.map_eq_some_iff] at hsome
      obtain ⟨e, he, htext⟩ := hsome
      rw [he, operatingText_injective htext]
  · rintro rfl
    constructor
    · intro d
      rw [hrow, hrule, Option.map_eq_some_iff]
      constructor
      · rintro ⟨e, he, htext⟩
        rw [he, operatingText_injective htext]
      · intro hd
        exact ⟨d, hd, rfl⟩
    · rw [hrow, Option.map_eq_none_iff]
      simp only [hrule, ← Option.eq_none_iff_forall_ne_some]

section
variable {days : List Nat} {f : FilterControl} {M : Nat}

/-- The base day lies in its month. -/
theorem baseDay_mem (hflag : f.baseDateFlag ≤ 2) (hdes : 1 ≤ f.designatedDay) (has : f.HasBaseDay M) :
    monthStart M ≤ baseDay f M ∧ baseDay f M < monthStart (M + 1) := by
  have hlen := monthLen_bounds M
  have hsucc := monthStart_succ M
  have hcases : f.baseDateFlag = 0 ∨ f.baseDateFlag = 1 ∨ f.baseDateFlag = 2 := by omega
  unfold baseDay
  rcases hcases with h | h | h
  · simp only [h]
    omega
  · simp only [h]
    omega
  · have hle := has h
    simp only [h]
    omega

theorem filterSelect_has (dates : List Nat) (hM : M < lastMonth) (hflag : f.baseDateFlag ≤ 2)
    (hdes : 1 ≤ f.designatedDay) (has : f.HasBaseDay M) :
    filterSelect dates f (monthText M) = filterSearch dates f.shiftDay 30 0 0 (dateText (baseDay f M)) := by
  have hlen := monthLen_bounds M
  have hsucc := monthStart_succ M
  have hcases : f.baseDateFlag = 0 ∨ f.baseDateFlag = 1 ∨ f.baseDateFlag = 2 := by omega
  simp only [filterSelect, filterBase, getEndOfMonth_monthText hM, baseDay]
  rcases hcases with h | h | h
  · simp only [h]
    rw [editDate_eq (Nat.le_refl 1) (by omega)]
    rfl
  · have hlast : monthStart M + (monthLen M - 1) = monthStart (M + 1) - 1 := by omega
    simp only [h]
    rw [editDate_eq (by omega) (Nat.le_refl _), hlast]
  · simp only [h, if_neg (Nat.not_lt.2 (has h))]
    rw [editDate_eq hdes (has h)]

/-- Where the designated day is missing, it is beyond the month's last day,
and the month is not December. -/
theorem missing_bounds (hM : M < lastMonth) (hdes : f.designatedDay ≤ 31) (missing : ¬ f.HasBaseDay M) :
    f.baseDateFlag = 2 ∧ monthLen M < f.designatedDay ∧ M + 1 < lastMonth := by
  obtain ⟨hflag, hgt⟩ := Classical.not_imp.1 missing
  refine ⟨hflag, by omega, ?_⟩
  unfold lastMonth at *
  by_contra hc
  have hdec : monthLen 119999 = 31 := by decide
  obtain rfl : M = 119999 := by omega
  omega

/-- The last month has 31 days, and before it there are at least two. -/
theorem monthStart_add_31 {M : Nat} (hM : M < lastMonth) : monthStart M + 31 ≤ lastDay := by
  by_cases hdec : M + 1 = lastMonth
  · have hlen : monthLen 119999 = 31 := by decide
    have hsucc := monthStart_succ M
    obtain rfl : M = 119999 := by
      unfold lastMonth at hdec
      omega
    rw [hlen] at hsucc
    exact hsucc.ge
  · have htwo := monthStart_add_le M 2
    have hlast : monthStart (M + 2) ≤ lastDay := monthStart_mono (by omega)
    omega

theorem filterSelect_missing (dates : List Nat) (hM : M < lastMonth) (hdes : f.designatedDay ≤ 31)
    (missing : ¬ f.HasBaseDay M) :
    filterSelect dates f (monthText M) =
      if 0 ≤ f.shiftDay then filterSearch dates f.shiftDay 29 1 0 (dateText (monthStart (M + 1)))
      else filterSearch dates f.shiftDay (30 - (f.designatedDay - monthLen M)) (f.designatedDay - monthLen M) 0
        (dateText (monthStart (M + 1) - 1)) := by
  have hlen := monthLen_bounds M
  have hlen' := monthLen_bounds (M + 1)
  have hsucc := monthStart_succ M
  obtain ⟨hflag, hgt, hnext⟩ := missing_bounds hM hdes missing
  simp only [filterSelect, filterBase, getEndOfMonth_monthText hM, hflag, if_pos hgt]
  by_cases hs : 0 ≤ f.shiftDay
  · simp only [if_pos hs]
    rw [shiftMonth_monthText hM (N := M + 1) (by omega) hnext, editDate_eq (Nat.le_refl 1) (by omega)]
    rfl
  · have hlast : monthStart M + (monthLen M - 1) = monthStart (M + 1) - 1 := by omega
    simp only [if_neg hs]
    rw [editDate_eq (by omega) (Nat.le_refl _), hlast]

/-- The base day is an operating day: both select it. -/
theorem followsRule_base (hM : M < lastMonth) (hflag : f.baseDateFlag ≤ 2) (hdes : 1 ≤ f.designatedDay)
    (has : f.HasBaseDay M) (hop : baseDay f M ∈ days) : FollowsRule days f M := by
  have hlast : baseDay f M < lastDay := Nat.lt_of_lt_of_le (baseDay_mem hflag hdes has).2 (monthStart_mono hM)
  have hrow : filterSelect (days.map dayCode) f (monthText M) = (some (baseDay f M)).map operatingText := by
    rw [filterSelect_has _ hM hflag hdes has, filterSearch]
    simp only [find_dateText hlast, if_pos hop, true_or, if_true]
    rfl
  refine (followsRule_iff hrow fun d => ?_).2 rfl
  constructor
  · intro h
    cases h with
    | base => rfl
    | after _ closed => exact absurd hop closed
    | before _ closed => exact absurd hop closed
    | afterMonth missing => exact absurd has missing
    | beforeMonth missing => exact absurd has missing
  · intro h
    obtain rfl := Option.some.inj h
    exact .base has hop

/-- Backwards from a closed base day. -/
theorem followsRule_before (hM : M < lastMonth) (hpos : 1 ≤ M) (hflag : f.baseDateFlag ≤ 2)
    (hdes : 1 ≤ f.designatedDay) (has : f.HasBaseDay M) (hclosed : baseDay f M ∉ days) (hs : f.shiftDay < 0) :
    FollowsRule days f M := by
  obtain ⟨hlo, hhi⟩ := baseDay_mem hflag hdes has
  have hlast : baseDay f M < lastDay := Nat.lt_of_lt_of_le hhi (monthStart_mono hM)
  have hjanuary : 31 ≤ monthStart M := Nat.le_trans (by decide) (monthStart_mono hpos)
  have hcode : atoi (dateText (baseDay f M)) ∉ days.map dayCode := by
    rw [atoi_dateText hlast]
    simpa [dayCode_strictMono.injective.eq_iff] using hclosed
  have hrow : filterSelect (days.map dayCode) f (monthText M) =
      (((List.range' (baseDay f M + 1 - 30) 30).reverse.filter (· ∈ days))[f.shiftDay.natAbs - 1]?).map
        operatingText := by
    rw [filterSelect_has _ hM hflag hdes has, filterSearch_closedBase (by omega) hcode,
      visited_backward hs hlast (by omega), filter_dayCode, List.getElem?_map, Option.map_map]
    rfl
  refine (followsRule_iff hrow fun d => ?_).2 rfl
  have hone : f.shiftDay.natAbs - 1 + 1 = f.shiftDay.natAbs := by omega
  have hback : baseDay f M + 1 - 30 + 30 - 1 = baseDay f M := by omega
  rw [getElem?_backward, hone, hback]
  constructor
  · intro h
    cases h with
    | base _ operating => exact absurd operating hclosed
    | after _ _ forward => omega
    | before _ _ _ nth near =>
      obtain ⟨hle, hd, hcount⟩ := nth
      have hpred : baseDay f M - 1 + 1 = baseDay f M := by omega
      rw [hpred] at hcount
      refine ⟨⟨by omega, hd, ?_⟩, by omega, by omega⟩
      rw [opCount_succ days (by omega), if_neg hclosed, hcount, Nat.add_zero]
    | afterMonth missing => exact absurd has missing
    | beforeMonth missing => exact absurd has missing
  · rintro ⟨⟨hle, hd, hcount⟩, hnear, hlt⟩
    have hpred : baseDay f M - 1 + 1 = baseDay f M := by omega
    have hne : d ≠ baseDay f M := fun h => hclosed (h ▸ hd)
    rw [opCount_succ days hle, if_neg hclosed, Nat.add_zero] at hcount
    exact .before has hclosed hs ⟨by omega, hd, by rw [hpred, hcount]⟩ (by omega)

/-- Forwards from a closed base day. -/
theorem followsRule_after (hdays : ∀ n ∈ days, n < lastDay) (hM : M < lastMonth) (hflag : f.baseDateFlag ≤ 2)
    (hdes : 1 ≤ f.designatedDay) (has : f.HasBaseDay M) (hclosed : baseDay f M ∉ days) (hs : 0 < f.shiftDay) :
    FollowsRule days f M ↔ ¬ WrapsAround days f M := by
  obtain ⟨hlo, hhi⟩ := baseDay_mem hflag hdes has
  have hlast : baseDay f M < lastDay := Nat.lt_of_lt_of_le hhi (monthStart_mono hM)
  have hcode : atoi (dateText (baseDay f M)) ∉ days.map dayCode := by
    rw [atoi_dateText hlast]
    simpa [dayCode_strictMono.injective.eq_iff] using hclosed
  have hrow : filterSelect (days.map dayCode) f (monthText M) =
      (((List.range' (baseDay f M) (min 30 (lastDay - baseDay f M)) ++ wrapped (baseDay f M) 30).filter
        (· ∈ days))[f.shiftDay.natAbs - 1]?).map operatingText := by
    rw [filterSelect_has _ hM hflag hdes has, filterSearch_closedBase (by omega) hcode,
      visited_filter hs.le hlast (Nat.le_refl 30), List.getElem?_map, Option.map_map]
    rfl
  have hone : f.shiftDay.natAbs - 1 + 1 = f.shiftDay.natAbs := by omega
  have hrule : ∀ d, RuleSelects days f M d ↔
      ((List.range' (baseDay f M) (min 30 (lastDay - baseDay f M))).filter (· ∈ days))[f.shiftDay.natAbs - 1]? =
        some d := by
    intro d
    rw [getElem?_forward, hone]
    constructor
    · intro h
      cases h with
      | base _ operating => exact absurd operating hclosed
      | after _ _ _ nth near =>
        obtain ⟨hle, hd, hcount⟩ := nth
        have hd9999 := hdays d hd
        refine ⟨⟨by omega, hd, ?_⟩, by omega⟩
        rw [opCount_cons days (by omega), if_neg hclosed, Nat.zero_add, hcount]
      | before _ _ backward => omega
      | afterMonth missing => exact absurd has missing
      | beforeMonth missing => exact absurd has missing
    · rintro ⟨⟨hle, hd, hcount⟩, hnear⟩
      have hne : d ≠ baseDay f M := fun h => hclosed (h ▸ hd)
      rw [opCount_cons days (by omega), if_neg hclosed, Nat.zero_add] at hcount
      exact .after has hclosed hs ⟨by omega, hd, hcount⟩ (by omega)
  rw [followsRule_iff hrow hrule, List.filter_append, getElem?_append_left_iff, not_iff_not, WrapsAround]
  simp only [← List.countP_eq_length_filter]
  -- where no day is wrapped both sides are false
  by_cases hfit : baseDay f M + 30 ≤ lastDay
  · have h0 : baseDay f M + 30 - lastDay - 1 = 0 := by omega
    have h1 : baseDay f M + 29 - lastDay = 0 := by omega
    rw [wrapped, h0, h1, Nat.add_zero, opCount_empty days (Nat.le_refl _)]
    simp only [List.range'_zero, List.countP_nil]
    omega
  · have hmin : min 30 (lastDay - baseDay f M) = lastDay - baseDay f M := by omega
    have hwrap : baseDay f M + 30 - lastDay - 1 = baseDay f M + 29 - lastDay := by omega
    rw [hmin, wrapped, hwrap, opCount, opCount, Nat.add_sub_cancel_left]
    constructor
    · intro h
      exact ⟨has, hclosed, hs, by omega, by omega⟩
    · intro h
      omega

/-- A closed base day and no shift: both select nothing. -/
theorem followsRule_closed (hM : M < lastMonth) (hflag : f.baseDateFlag ≤ 2) (hdes : 1 ≤ f.designatedDay)
    (has : f.HasBaseDay M) (hclosed : baseDay f M ∉ days) (hs : f.shiftDay = 0) : FollowsRule days f M := by
  have hlast : baseDay f M < lastDay := Nat.lt_of_lt_of_le (baseDay_mem hflag hdes has).2 (monthStart_mono hM)
  have hrow : filterSelect (days.map dayCode) f (monthText M) = Option.map operatingText none := by
    rw [filterSelect_has _ hM hflag hdes has, filterSearch]
    simp only [find_dateText hlast, if_neg hclosed, if_pos hs, Option.map_none]
  refine (followsRule_iff hrow fun d => ?_).2 rfl
  simp only [reduceCtorEq, iff_false]
  intro h
  cases h with
  | base _ operating => exact hclosed operating
  | after _ _ forward => omega
  | before _ _ backward => omega
  | afterMonth missing => exact missing has
  | beforeMonth missing => exact missing has

/-- A missing designated day and no shift: the loop looks at the first of
the next month, the rule at no day. -/
theorem followsRule_missing (hM : M < lastMonth) (hdes : f.designatedDay ≤ 31) (missing : ¬ f.HasBaseDay M)
    (hs : f.shiftDay = 0) : FollowsRule days f M ↔ monthStart (M + 1) ∉ days := by
  obtain ⟨-, -, hnext⟩ := missing_bounds hM hdes missing
  have hlast : monthStart (M + 1) < lastDay := monthStart_lt hnext
  have hrow : filterSelect (days.map dayCode) f (monthText M) =
      (if monthStart (M + 1) ∈ days then some (monthStart (M + 1)) else none).map operatingText := by
    rw [filterSelect_missing _ hM hdes missing, if_pos hs.ge, filterSearch]
    by_cases hop : monthStart (M + 1) ∈ days
    · have hhit : 1 = 0 ∨ f.shiftDay.natAbs ≤ 0 + 1 := by omega
      simp only [find_dateText hlast, if_pos hop, if_pos hhit]
      rfl
    · simp only [find_dateText hlast, if_neg hop, if_pos hs, Option.map_none]
  have hrule : ∀ d, RuleSelects days f M d ↔ (none : Option Nat) = some d := by
    intro d
    simp only [reduceCtorEq, iff_false]
    intro h
    cases h with
    | base has => exact missing has
    | after has => exact missing has
    | before has => exact missing has
    | afterMonth _ forward => omega
    | beforeMonth _ backward => omega
  rw [followsRule_iff hrow hrule]
  simp

/-- Forwards from a missing designated day. -/
theorem followsRule_afterMonth (hM : M < lastMonth) (hdes : f.designatedDay ≤ 31) (missing : ¬ f.HasBaseDay M)
    (hs : 0 < f.shiftDay) : FollowsRule days f M := by
  obtain ⟨-, -, hnext⟩ := missing_bounds hM hdes missing
  have hfit := monthStart_add_31 hnext
  have hrow : filterSelect (days.map dayCode) f (monthText M) =
      (((List.range' (monthStart (M + 1)) 29).filter (· ∈ days))[f.shiftDay.natAbs - 1]?).map operatingText := by
    rw [filterSelect_missing _ hM hdes missing, if_pos hs.le,
      filterSearch_visits (by omega) (Nat.le_refl 1) (by omega), visited_forward hs.le (by omega), filter_dayCode,
      List.getElem?_map, Option.map_map]
    rfl
  refine (followsRule_iff hrow fun d => ?_).2 rfl
  have hone : f.shiftDay.natAbs - 1 + 1 = f.shiftDay.natAbs := by omega
  rw [getElem?_forward, hone]
  constructor
  · intro h
    cases h with
    | base has => exact absurd has missing
    | after has => exact absurd has missing
    | before has => exact absurd has missing
    | afterMonth _ _ nth near => exact ⟨nth, near⟩
    | beforeMonth _ backward => omega
  · rintro ⟨nth, near⟩
    exact .afterMonth missing hs nth near

/-- Backwards from a missing designated day. -/
theorem followsRule_beforeMonth (hM : M < lastMonth) (hpos : 1 ≤ M) (hdes : f.designatedDay ≤ 31)
    (missing : ¬ f.HasBaseDay M) (hs : f.shiftDay < 0) : FollowsRule days f M := by
  obtain ⟨hflag, hgt, hnext⟩ := missing_bounds hM hdes missing
  have hlen := monthLen_bounds M
  have hsucc := monthStart_succ M
  have hjanuary : 31 ≤ monthStart M := Nat.le_trans (by decide) (monthStart_mono hpos)
  have hlast : monthStart (M + 1) - 1 < lastDay := Nat.lt_of_le_of_lt (Nat.sub_le _ _) (monthStart_lt hnext)
  have hbase : baseDay f M = monthStart M + (f.designatedDay - 1) := by simp only [baseDay, hflag]
  have hrow : filterSelect (days.map dayCode) f (monthText M) =
      (((List.range' (monthStart (M + 1) - 1 + 1 - (30 - (f.designatedDay - monthLen M)))
          (30 - (f.designatedDay - monthLen M))).reverse.filter (· ∈ days))[f.shiftDay.natAbs - 1]?).map
        operatingText := by
    rw [filterSelect_missing _ hM hdes missing, if_neg (by omega),
      filterSearch_visits (by omega) (by omega) (by omega), visited_backward hs hlast (by omega), filter_dayCode,
      List.getElem?_map, Option.map_map]
    rfl
  refine (followsRule_iff hrow fun d => ?_).2 rfl
  have hone : f.shiftDay.natAbs - 1 + 1 = f.shiftDay.natAbs := by omega
  have hback : monthStart (M + 1) - 1 + 1 - (30 - (f.designatedDay - monthLen M)) +
      (30 - (f.designatedDay - monthLen M)) - 1 = monthStart (M + 1) - 1 := by omega
  rw [getElem?_backward, hone, hback]
  constructor
  · intro h
    cases h with
    | base has => exact absurd has missing
    | after has => exact absurd has missing
    | before has => exact absurd has missing
    | afterMonth _ forward => omega
    | beforeMonth _ _ nth near =>
      have hle := nth.1
      exact ⟨nth, by omega, by omega⟩
  · rintro ⟨nth, hnear, hlt⟩
    exact .beforeMonth missing hs nth (by omega)

end

/-- **When the inner search follows the rule**: always, except that without
a shift a missing designated day is moved to the first of the next month.
(In December 9999 the search can also run past the last date there is.) -/
theorem filterSelect_rule_iff (days : List Nat) (f : FilterControl) (M : Nat)
    (hdays : ∀ n ∈ days, n < lastDay) (hM : 1 ≤ M ∧ M < lastMonth)
    (hflag : f.baseDateFlag ≤ 2) (hdes : 1 ≤ f.designatedDay ∧ f.designatedDay ≤ 31) :
    FollowsRule days f M ↔ ¬ MovedUnshifted days f M ∧ ¬ WrapsAround days f M := by
  rcases Int.lt_trichotomy f.shiftDay 0 with hs | hs | hs
  · have hmoved : ¬ MovedUnshifted days f M := fun h => by have := h.2.1; omega
    have hwraps : ¬ WrapsAround days f M := fun h => by have := h.2.2.1; omega
    refine iff_of_true ?_ ⟨hmoved, hwraps⟩
    by_cases has : f.HasBaseDay M
    · by_cases hop : baseDay f M ∈ days
      · exact followsRule_base hM.2 hflag hdes.1 has hop
      · exact followsRule_before hM.2 hM.1 hflag hdes.1 has hop hs
    · exact followsRule_beforeMonth hM.2 hM.1 hdes.2 has hs
  · have hwraps : ¬ WrapsAround days f M := fun h => by have := h.2.2.1; omega
    by_cases has : f.HasBaseDay M
    · refine iff_of_true ?_ ⟨fun h => h.1 has, hwraps⟩
      by_cases hop : baseDay f M ∈ days
      · exact followsRule_base hM.2 hflag hdes.1 has hop
      · exact followsRule_closed hM.2 hflag hdes.1 has hop hs
    · rw [followsRule_missing hM.2 hdes.2 has hs]
      exact ⟨fun h => ⟨fun hm => h hm.2.2, hwraps⟩, fun h hop => h.1 ⟨has, hs, hop⟩⟩
  · have hmoved : ¬ MovedUnshifted days f M := fun h => by have := h.2.1; omega
    by_cases has : f.HasBaseDay M
    · by_cases hop : baseDay f M ∈ days
      · exact iff_of_true (followsRule_base hM.2 hflag hdes.1 has hop) ⟨hmoved, fun h => h.2.1 hop⟩
      · rw [followsRule_after hdays hM.2 hflag hdes.1 has hop hs]
        exact ⟨fun h => ⟨hmoved, h⟩, fun h => h.2⟩
    · exact iff_of_true (followsRule_afterMonth hM.2 hdes.2 has hs) ⟨hmoved, fun h => has h.1⟩

/-- A filter on the 31st, with no shift. -/
def thirtyFirst : FilterControl := ⟨"FIL", true, 2, 31, 0, "CAL"⟩

/-- With shift -1 the April of 2023 is as the rule says. -/
theorem filterSelect_rule_iff_april : FollowsRule [738978] { thirtyFirst with shiftDay := -1 } (12 * 2023 + 3) :=
  (filterSelect_rule_iff [738978] { thirtyFirst with shiftDay := -1 } (12 * 2023 + 3)
    (by rw [lastDay_eq]; simp) (by decide) (by decide) (by decide)).2
    ⟨fun h => absurd h.2.1 (by decide), fun h => absurd h.2.2.1 (by decide)⟩

/-- April has no 31st and the filter no shift, yet May 1 is selected for
April. -/
theorem may_first_selected :
    filterSelect ([739006].map dayCode) thirtyFirst (monthText (12 * 2023 + 3)) = some "20230501".toList ∧
      (∀ d, ¬ RuleSelects [739006] thirtyFirst (12 * 2023 + 3) d) ∧
      ¬ FollowsRule [739006] thirtyFirst (12 * 2023 + 3) := by
  have hrow : filterSelect ([739006].map dayCode) thirtyFirst (monthText (12 * 2023 + 3)) =
      some "20230501".toList := by decide +kernel
  have hnone : ∀ d, ¬ RuleSelects [739006] thirtyFirst (12 * 2023 + 3) d := by
    have hmissing : ¬ thirtyFirst.HasBaseDay (12 * 2023 + 3) := fun h => absurd (h rfl) (by decide)
    intro d h
    cases h with
    | base has => exact hmissing has
    | after has => exact hmissing has
    | before has => exact hmissing has
    | afterMonth _ forward => exact absurd forward (by decide)
    | beforeMonth _ backward => exact absurd backward (by decide)
  refine ⟨hrow, hnone, fun h => ?_⟩
  have h2 := h.selectsNone.2 hnone
  rw [hrow] at h2
  cases h2

end JobArranger
