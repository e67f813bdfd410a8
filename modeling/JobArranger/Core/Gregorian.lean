import Mathlib.Tactic.IntervalCases
import Mathlib.Tactic.Ring
import Mathlib.Order.Monotone.Basic

/-!
# The proleptic Gregorian calendar

Months are counted from January of year 0, days from its first day, minutes
from its first midnight. `monthStart M` is the day number of the first day
of month `M`, `monthOf n` the month that day `n` lies in.

* `monthStart_succ`: consecutive months are `monthLen` apart.
* `monthStart_monthOf_le`, `lt_monthStart_succ_monthOf`, `monthOf_eq`:
  `monthOf` inverts `monthStart`.
* `dayCode_strictMono`, `stampCode_strictMono`: the numbers `YYYYMMDD` and
  `YYYYMMDDhhmm` are ordered as the days and minutes they stand for.
-/
namespace Gregorian

def isLeap (y : Nat) : Bool := y % 4 = 0 ∧ (y % 100 ≠ 0 ∨ y % 400 = 0)

/-- The length of month `M` (months of year 0 first). -/
def monthLen (M : Nat) : Nat :=
  match M % 12 with
  | 1 => if isLeap (M / 12) then 29 else 28
  | 3 | 5 | 8 | 10 => 30
  | _ => 31

/-- Days before January 1 of year `y`. -/
def yearStart (y : Nat) : Nat := 365 * y + (y + 3) / 4 + (y + 399) / 400 - (y + 99) / 100

/-- Days of a common year before month `m` (0 is January). -/
def daysBefore : Nat → Nat
  | 0 => 0 | 1 => 31 | 2 => 59 | 3 => 90 | 4 => 120 | 5 => 151
  | 6 => 181 | 7 => 212 | 8 => 243 | 9 => 273 | 10 => 304 | _ => 334

/-- The day number of the first day of month `M`. -/
def monthStart (M : Nat) : Nat :=
  yearStart (M / 12) + daysBefore (M % 12) + (if isLeap (M / 12) ∧ 2 ≤ M % 12 then 1 else 0)

theorem yearStart_succ (y : Nat) : yearStart (y + 1) = yearStart y + (if isLeap y then 366 else 365) := by
  have h4 : (y + 1 + 3) / 4 = (y + 3) / 4 + (if y % 4 = 0 then 1 else 0) := by split <;> omega
  have h100 : (y + 1 + 99) / 100 = (y + 99) / 100 + (if y % 100 = 0 then 1 else 0) := by split <;> omega
  have h400 : (y + 1 + 399) / 400 = (y + 399) / 400 + (if y % 400 = 0 then 1 else 0) := by
    split <;> omega
  have hle : (y + 99) / 100 ≤ y := by omega
  have hd1 : y % 100 = 0 → y % 4 = 0 := by omega
  have hd2 : y % 400 = 0 → y % 100 = 0 := by omega
  unfold yearStart isLeap
  simp only [Bool.decide_and, Bool.decide_or, Bool.and_eq_true, Bool.or_eq_true, decide_eq_true_eq]
  generalize y % 4 = a at *
  generalize y % 100 = b at *
  generalize y % 400 = c at *
  rw [h4, h100, h400]
  generalize (y + 3) / 4 = p at *
  generalize (y + 99) / 100 = q at *
  generalize (y + 399) / 400 = r at *
  split <;> split <;> split <;> split <;> omega

theorem monthStart_succ (M : Nat) : monthStart (M + 1) = monthStart M + monthLen M := by
  have hm : M % 12 < 12 := Nat.mod_lt _ (by omega)
  by_cases h : M % 12 = 11
  · -- December: the next month is January of the next year
    have hy : (M + 1) / 12 = M / 12 + 1 := by omega
    have hr : (M + 1) % 12 = 0 := by omega
    simp only [monthStart, monthLen, hy, hr, h, yearStart_succ, daysBefore]
    split <;> simp_all
  · have hy : (M + 1) / 12 = M / 12 := by omega
    have hr : (M + 1) % 12 = M % 12 + 1 := by omega
    simp only [monthStart, monthLen, hy, hr]
    generalize M % 12 = m at *
    generalize isLeap (M / 12) = l
    cases l <;> interval_cases m <;> simp_all [daysBefore]

theorem monthLen_bounds (M : Nat) : 28 ≤ monthLen M ∧ monthLen M ≤ 31 := by
  unfold monthLen
  split
  · split <;> omega
  all_goals omega

theorem monthStart_add_le (M k : Nat) : monthStart M + 28 * k ≤ monthStart (M + k) := by
  induction k with
  | zero => simp
  | succ k ih =>
    have := monthStart_succ (M + k)
    have := (monthLen_bounds (M + k)).1
    rw [← Nat.add_assoc]; omega

theorem monthStart_mono {M N : Nat} (h : M ≤ N) : monthStart M ≤ monthStart N := by
  obtain ⟨k, rfl⟩ := Nat.exists_eq_add_of_le h
  have := monthStart_add_le M k
  omega

theorem monthStart_lt {M N : Nat} (h : M < N) : monthStart M < monthStart N := by
  have h1 := monthStart_mono (Nat.succ_le_of_lt h)
  have h2 := monthStart_succ M
  have h3 := (monthLen_bounds M).1
  simp only [Nat.succ_eq_add_one] at h1
  omega

theorem monthStart_year_le (y : Nat) : monthStart (12 * y) ≤ 366 * y := by
  have h1 : monthStart (12 * y) = yearStart y := by
    have hd : 12 * y / 12 = y := by omega
    have hr : 12 * y % 12 = 0 := by omega
    simp [monthStart, hd, hr, daysBefore]
  rw [h1]
  clear h1
  induction y with
  | zero => decide
  | succ y ih =>
    rw [yearStart_succ]
    split <;> omega

/-! ## The month of a day -/

/-- The first month at or after `M` that ends after day `n`. -/
def monthSearch (n : Nat) : Nat → Nat → Nat
  | 0, M => M
  | fuel + 1, M => if n < monthStart (M + 1) then M else monthSearch n fuel (M + 1)

/-- The month that day `n` lies in. No year is longer than 366 days, so the
search starts at January of year `n / 366`. -/
def monthOf (n : Nat) : Nat := monthSearch n n (12 * (n / 366))

theorem monthSearch_spec {n fuel M : Nat} (hM : monthStart M ≤ n) (hf : n ≤ fuel + M) :
    monthStart (monthSearch n fuel M) ≤ n ∧ n < monthStart (monthSearch n fuel M + 1) := by
  induction fuel generalizing M with
  | zero =>
    have h1 := monthStart_add_le 0 (M + 1)
    rw [Nat.zero_add] at h1
    exact ⟨hM, by simp only [monthSearch]; omega⟩
  | succ fuel ih =>
    rw [monthSearch]
    split
    · rename_i h
      exact ⟨hM, h⟩
    · exact ih (by omega) (by omega)

theorem monthOf_spec (n : Nat) : monthStart (monthOf n) ≤ n ∧ n < monthStart (monthOf n + 1) := by
  have h := monthStart_year_le (n / 366)
  exact monthSearch_spec (by omega) (by omega)

theorem monthStart_monthOf_le (n : Nat) : monthStart (monthOf n) ≤ n := (monthOf_spec n).1

theorem lt_monthStart_succ_monthOf (n : Nat) : n < monthStart (monthOf n + 1) := (monthOf_spec n).2

theorem monthOf_lt_iff {n M : Nat} : monthOf n < M ↔ n < monthStart M := by
  have hl := monthStart_monthOf_le n
  have hr := lt_monthStart_succ_monthOf n
  constructor
  · intro h
    have := monthStart_mono (Nat.succ_le_of_lt h)
    simp only [Nat.succ_eq_add_one] at this
    omega
  · intro h
    by_contra hc
    have := monthStart_mono (Nat.le_of_not_lt hc)
    omega

theorem le_monthOf_iff {n M : Nat} : M ≤ monthOf n ↔ monthStart M ≤ n := by
  rw [← Nat.not_lt, monthOf_lt_iff, Nat.not_lt]

theorem monthOf_eq {n M : Nat} (h1 : monthStart M ≤ n) (h2 : n < monthStart (M + 1)) : monthOf n = M := by
  have := le_monthOf_iff.2 h1
  have := monthOf_lt_iff.2 h2
  omega

/-- The day of the month, from 1. -/
def mday (n : Nat) : Nat := n - monthStart (monthOf n) + 1

theorem mday_pos (n : Nat) : 1 ≤ mday n := by unfold mday; omega

theorem mday_le (n : Nat) : mday n ≤ monthLen (monthOf n) := by
  have hl := monthStart_monthOf_le n
  have hr := lt_monthStart_succ_monthOf n
  have := monthStart_succ (monthOf n)
  unfold mday
  omega

theorem mday_le_31 (n : Nat) : mday n ≤ 31 :=
  Nat.le_trans (mday_le n) (monthLen_bounds _).2

theorem monthStart_add_mday (n : Nat) : monthStart (monthOf n) + mday n = n + 1 := by
  have := monthStart_monthOf_le n
  unfold mday
  omega

/-! ## Dates and times as numbers -/

/-- The number `YYYYMM` of month `M`. -/
def monthCode (M : Nat) : Nat := M / 12 * 100 + (M % 12 + 1)

/-- The number `YYYYMMDD` of day `n`. -/
def dayCode (n : Nat) : Nat := monthCode (monthOf n) * 100 + mday n

/-- The number `YYYYMMDDhhmm` of minute `t`. -/
def stampCode (t : Nat) : Nat := dayCode (t / 1440) * 10000 + (t % 1440 / 60 * 100 + t % 60)

theorem monthCode_lt {M N : Nat} (h : M < N) : monthCode M < monthCode N := by
  unfold monthCode; omega

theorem dayCode_strictMono : StrictMono dayCode := by
  intro m n h
  have hm := mday_le_31 m
  have hmo : monthOf m ≤ monthOf n := le_monthOf_iff.2 (by have := monthStart_monthOf_le m; omega)
  unfold dayCode
  rcases Nat.lt_or_eq_of_le hmo with hlt | heq
  · have := monthCode_lt hlt
    omega
  · have h1 := monthStart_add_mday m
    have h2 := monthStart_add_mday n
    rw [heq] at h1 ⊢
    omega

theorem stampCode_strictMono : StrictMono stampCode := by
  intro s t h
  unfold stampCode
  rcases Nat.lt_or_ge (s / 1440) (t / 1440) with hd | hd
  · have := dayCode_strictMono hd
    omega
  · have heq : s / 1440 = t / 1440 := by omega
    rw [heq]
    omega

end Gregorian
