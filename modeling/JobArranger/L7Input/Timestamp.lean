import Mathlib.Tactic.IntervalCases
import JobArranger.Core.Gregorian
import JobArranger.L6Agent.JobDb

/-!
# Timestamps (`jalibs/jastr.c`)

`ja_str2timestamp` fills a text of 8, 10 or 12 bytes up to `YYYYMMDDhhmmss`,
cuts the fields out with `atoi`, checks them and leaves the rest to `mktime`;
`ja_timestamp2str` prints what `localtime` gives. The length of the month is
looked up before the month is checked, so `day` is read wherever two bytes of
the text point to; the answer does not depend on what is found there.

The zone is a pair of functions, and results assume that `localtime` takes
back what `mktime` does to a valid date (no summer time).

* `reads_outside`: what is read outside `day` never matters.
* `timestamp_iff`: the two functions agree with the calendar, and with the
  bounds of `day` exactly when the month field is one of a month.
-/
namespace JobArranger.Timestamp

open Sql (isDigit natVal digits)
open Agent.JobDb (atoi atoi_digits)

/-! ## The two functions -/

/-- The fields of `struct tm` that are set and printed. -/
structure Tm where
  tmYear : Int
  tmMon : Int
  tmMday : Int
  tmHour : Int
  tmMin : Int
  tmSec : Int
  deriving DecidableEq, Repr

/-- `mktime` and `localtime`. -/
structure Zone where
  mktime : Tm → Int
  localtime : Int → Tm

/-- `%.{n}d` -/
def precision (n : Nat) (i : Int) : Text :=
  (if i < 0 then [45] else []) ++ List.replicate (n - (digits i.natAbs).length) 48 ++ digits i.natAbs

/-- mirrors src/jalibs/jastr.c:51-61 -/
def jaTimestamp2str (zone : Zone) (time : Int) : Text :=
  let tmbuf := zone.localtime time
  (precision 4 (tmbuf.tmYear + 1900) ++ precision 2 (tmbuf.tmMon + 1) ++ precision 2 tmbuf.tmMday ++
    precision 2 tmbuf.tmHour ++ precision 2 tmbuf.tmMin ++ precision 2 tmbuf.tmSec).take 14

def day : List Int := [31, 28, 31, 30, 31, 30, 31, 31, 30, 31, 30, 31]

/-- `day[i]`; `beyond` is what the memory around the table holds. -/
def dayAt (beyond : Int → Int) (i : Int) : Int :=
  if 0 ≤ i ∧ i < 12 then day.getD i.toNat 0 else beyond i

/-- The indices at which a call reads `day`, and what it returns. -/
structure Call where
  reads : List Int
  time : Int
  deriving DecidableEq, Repr

/-- What is printed behind a text of this length; `none` for the lengths that
are not a time. -/
def fill (length : Nat) : Option Text :=
  match length with
  | 8 => some (ascii "000000")
  | 10 => some (ascii "0000")
  | 12 => some (ascii "00")
  | 14 => some []
  | _ => none

def tStr (str : Text) : Option Text := (fill str.length).map (str ++ ·)

/-- `zbx_snprintf(buf, n + 1, "%s", t_str + k)` and `atoi(buf)` -/
def field (t : Text) (k n : Nat) : Int := (atoi ((t.drop k).take n)).toInt

/-- One byte (`0`) is no time and no error.
mirrors src/jalibs/jastr.c:76-142 -/
def jaStr2timestamp (zone : Zone) (beyond : Int → Int) (str : Text) : Call :=
  if str.length = 1 then ⟨[], 0⟩
  else match tStr str with
    | none => ⟨[], 0⟩
    | some t =>
      let year := field t 0 4
      let mon := field t 4 2
      let mday := field t 6 2
      let hour := field t 8 2
      let min := field t 10 2
      let sec := field t 12 2
      let maxday := dayAt beyond (mon - 1) +
        if mon = 2 ∧ year % 4 = 0 ∧ (year % 100 ≠ 0 ∨ year % 400 = 0) then 1 else 0
      ⟨[mon - 1],
        if year < 1900 ∨ mon < 1 ∨ mon > 12 then 0
        else if mday < 1 ∨ mday > maxday then 0
        else if hour < 0 ∨ hour > 23 then 0
        else if min < 0 ∨ min > 59 then 0
        else if sec < 0 ∨ sec > 59 then 0
        else zone.mktime ⟨year - 1900, mon - 1, mday, hour, min, sec⟩⟩

/-! ## Valid times -/

/-- A day of the calendar from 1900 on, and a time of day. -/
structure Valid (year mon mday hour min sec : Nat) : Prop where
  from1900 : 1900 ≤ year
  ofYear : 1 ≤ mon ∧ mon ≤ 12
  ofMonth : 1 ≤ mday ∧ mday ≤ Gregorian.monthLen (12 * year + (mon - 1))
  hours : hour ≤ 23
  minutes : min ≤ 59
  seconds : sec ≤ 59

/-- The number `n` digits from `k` on stand for. -/
def number (t : Text) (k n : Nat) : Nat := natVal ((t.drop k).take n)

def ValidStamp (t : Text) : Prop :=
  Valid (number t 0 4) (number t 4 2) (number t 6 2) (number t 8 2) (number t 10 2) (number t 12 2)

/-- `localtime` takes back what `mktime` does to a valid time. -/
def Zone.Inverse (zone : Zone) : Prop :=
  ∀ year mon mday hour min sec : Nat, Valid year mon mday hour min sec →
    zone.localtime (zone.mktime ⟨year - 1900, mon - 1, mday, hour, min, sec⟩) =
      ⟨year - 1900, mon - 1, mday, hour, min, sec⟩

/-- `day` is read within its bounds, and for digits of one of the four
lengths the time is not 0 exactly when they are a valid time, which is then
printed back. -/
structure ParsedExactly (zone : Zone) (beyond : Int → Int) (str : Text) : Prop where
  inTable : ∀ i ∈ (jaStr2timestamp zone beyond str).reads, 0 ≤ i ∧ i < 12
  valid : ∀ t, (∀ b ∈ str, isDigit b = true) → tStr str = some t →
    ((jaStr2timestamp zone beyond str).time ≠ 0 ↔ ValidStamp t)
  back : ∀ t, (∀ b ∈ str, isDigit b = true) → tStr str = some t → ValidStamp t →
    jaTimestamp2str zone (jaStr2timestamp zone beyond str).time = t

/-! ## The fields -/

theorem fill_spec {n : Nat} {z : Text} (h : fill n = some z) : n + z.length = 14 ∧ ∀ b ∈ z, isDigit b = true := by
  unfold fill at h
  split at h
  · obtain rfl := Option.some.inj h
    exact ⟨rfl, by simp [ascii, isDigit]⟩
  · obtain rfl := Option.some.inj h
    exact ⟨rfl, by simp [ascii, isDigit]⟩
  · obtain rfl := Option.some.inj h
    exact ⟨rfl, by simp [ascii, isDigit]⟩
  · obtain rfl := Option.some.inj h
    exact ⟨rfl, by simp⟩
  · exact absurd h (by simp)

/-- What is filled up has fourteen bytes, all digits if the text is digits. -/
theorem tStr_spec {str t : Text} (h : tStr str = some t) :
    t.length = 14 ∧ ((∀ b ∈ str, isDigit b = true) → ∀ b ∈ t, isDigit b = true) := by
  obtain ⟨z, hz, rfl⟩ := Option.map_eq_some_iff.1 h
  obtain ⟨hlen, hzero⟩ := fill_spec hz
  refine ⟨by rw [List.length_append, hlen], ?_⟩
  intro hd b hb
  obtain hl | hr := List.mem_append.1 hb
  · exact hd b hl
  · exact hzero b hr

theorem one_not_tStr {str t : Text} (h : tStr str = some t) : str.length ≠ 1 := by
  intro hone
  rw [tStr, hone] at h
  exact absurd h (by simp [fill])

section
variable {t : Text} (hd : ∀ b ∈ t, isDigit b = true)
include hd

theorem field_digits {k n : Nat} : ∀ b ∈ (t.drop k).take n, isDigit b = true :=
  fun b hb => hd b (List.mem_of_mem_drop (List.mem_of_mem_take hb))

/-- A field of digits is its number. -/
theorem field_eq {k n : Nat} (hn : n ≤ 4) : field t k n = number t k n := by
  have hlt : natVal ((t.drop k).take n) < 10 ^ 4 :=
    (Sql.natVal_lt (field_digits hd)).trans_le (Nat.pow_le_pow_right (by omega) ((List.length_take_le n _).trans hn))
  exact atoi_digits (field_digits hd) (by omega)

/-- A number is printed as the digits it was read from. -/
theorem precision_number {k n : Nat} (hn : 0 < n) (hk : k + n ≤ t.length) :
    precision n (number t k n) = (t.drop k).take n := by
  have hlen : ((t.drop k).take n).length = n := by
    rw [List.length_take, List.length_drop]
    omega
  have hne : (t.drop k).take n ≠ [] := List.length_pos_iff.1 (by omega)
  have h := Sql.zeros_digits (field_digits hd (k := k) (n := n)) hne
  rw [hlen] at h
  have hpos : ¬ (number t k n : Int) < 0 := by omega
  rw [precision, if_neg hpos, List.nil_append]
  exact h

end

/-- The six fields are the whole text. -/
theorem fields_append {t : Text} (h : t.length = 14) :
    (t.drop 0).take 4 ++ (t.drop 4).take 2 ++ (t.drop 6).take 2 ++ (t.drop 8).take 2 ++ (t.drop 10).take 2 ++
      (t.drop 12).take 2 = t := by
  have hcut : ∀ k n, (t.drop k).take n ++ t.drop (k + n) = t.drop k := by
    intro k n
    rw [← List.drop_drop, List.take_append_drop]
  have hlast : (t.drop 12).take 2 = t.drop 12 := List.take_of_length_le (by rw [List.length_drop, h])
  rw [hlast]
  simp only [List.append_assoc, hcut, List.drop_zero, List.take_append_drop]

/-! ## The checks -/

/-- The month field is read, and is the month it is read as. -/
theorem jaStr2timestamp_reads (zone : Zone) (beyond : Int → Int) {str t : Text} (h : tStr str = some t) :
    (jaStr2timestamp zone beyond str).reads = [field t 4 2 - 1] := by
  simp only [jaStr2timestamp, if_neg (one_not_tStr h), h]

/-- For the other lengths nothing is read. -/
theorem jaStr2timestamp_none (zone : Zone) (beyond : Int → Int) {str : Text} (h : tStr str = none) :
    jaStr2timestamp zone beyond str = ⟨[], 0⟩ := by
  simp only [jaStr2timestamp, h, ite_self]

/-- What is read outside the table is never used: the month is refused. -/
theorem reads_outside (zone : Zone) (beyond beyond' : Int → Int) (str : Text) :
    jaStr2timestamp zone beyond str = jaStr2timestamp zone beyond' str := by
  cases h : tStr str with
  | none => rw [jaStr2timestamp_none _ _ h, jaStr2timestamp_none _ _ h]
  | some t =>
    simp only [jaStr2timestamp, if_neg (one_not_tStr h), h]
    by_cases hm : field t 0 4 < 1900 ∨ field t 4 2 < 1 ∨ field t 4 2 > 12
    · rw [if_pos hm, if_pos hm]
    · have hin : 0 ≤ field t 4 2 - 1 ∧ field t 4 2 - 1 < 12 := by omega
      rw [if_neg hm, if_neg hm, dayAt, dayAt, if_pos hin, if_pos hin]

/-- The table and the leap day are the calendar. -/
theorem dayAt_leap (beyond : Int → Int) (year : Nat) {mon : Nat} (h : 1 ≤ mon ∧ mon ≤ 12) :
    (dayAt beyond (mon - 1) +
        if (mon : Int) = 2 ∧ (year : Int) % 4 = 0 ∧ ((year : Int) % 100 ≠ 0 ∨ (year : Int) % 400 = 0) then 1 else 0) =
      (Gregorian.monthLen (12 * year + (mon - 1)) : Int) := by
  have hquot : (12 * year + (mon - 1)) / 12 = year := by omega
  have hrem : (12 * year + (mon - 1)) % 12 = mon - 1 := by omega
  have hleap : ((year : Int) % 4 = 0 ∧ ((year : Int) % 100 ≠ 0 ∨ (year : Int) % 400 = 0)) ↔
      Gregorian.isLeap year = true := by
    simp only [Gregorian.isLeap, decide_eq_true_eq]
    omega
  rw [Gregorian.monthLen, hquot, hrem]
  simp only [hleap]
  obtain ⟨hlo, hhi⟩ := h
  interval_cases mon <;> simp [dayAt, day]
  split <;> rfl

/-- The checks accept exactly the valid times. -/
theorem time_eq (zone : Zone) (beyond : Int → Int) {str t : Text} (h : tStr str = some t)
    (hd : ∀ b ∈ str, isDigit b = true) :
    (ValidStamp t → (jaStr2timestamp zone beyond str).time =
        zone.mktime ⟨number t 0 4 - 1900, number t 4 2 - 1, number t 6 2, number t 8 2, number t 10 2, number t 12 2⟩) ∧
      (¬ ValidStamp t → (jaStr2timestamp zone beyond str).time = 0) := by
  have hdt := (tStr_spec h).2 hd
  simp only [jaStr2timestamp, if_neg (one_not_tStr h), h, field_eq hdt, show (2 : Nat) ≤ 4 by omega, Nat.le_refl]
  unfold ValidStamp
  generalize number t 0 4 = year, number t 4 2 = mon, number t 6 2 = mday, number t 8 2 = hour,
    number t 10 2 = min, number t 12 2 = sec
  by_cases hm : 1 ≤ mon ∧ mon ≤ 12
  · rw [dayAt_leap beyond year hm]
    constructor
    · intro hv
      obtain ⟨hyear, -, hmday, hhour, hmin, hsec⟩ := hv
      rw [if_neg (by omega), if_neg (by omega), if_neg (by omega), if_neg (by omega), if_neg (by omega)]
    · intro hv
      split_ifs with h1 h2 h3 h4 h5
      · rfl
      · rfl
      · rfl
      · rfl
      · rfl
      · exact absurd ⟨by omega, hm, by omega, by omega, by omega, by omega⟩ hv
  · constructor
    · exact fun hv => absurd hv.ofYear hm
    · intro _
      rw [if_pos (by omega)]

/-- The time of a valid stamp is printed as the stamp. -/
theorem jaTimestamp2str_mktime {zone : Zone} (hz : zone.Inverse) {t : Text} (hlen : t.length = 14)
    (hd : ∀ b ∈ t, isDigit b = true) (hv : ValidStamp t) :
    jaTimestamp2str zone (zone.mktime
      ⟨number t 0 4 - 1900, number t 4 2 - 1, number t 6 2, number t 8 2, number t 10 2, number t 12 2⟩) = t := by
  have hyear : (number t 0 4 : Int) - 1900 + 1900 = number t 0 4 := by omega
  have hmon : (number t 4 2 : Int) - 1 + 1 = number t 4 2 := by omega
  rw [jaTimestamp2str, hz _ _ _ _ _ _ hv]
  simp only [hyear, hmon]
  rw [precision_number hd (k := 0) (n := 4) (by omega) (by omega),
    precision_number hd (k := 4) (n := 2) (by omega) (by omega),
    precision_number hd (k := 6) (n := 2) (by omega) (by omega),
    precision_number hd (k := 8) (n := 2) (by omega) (by omega),
    precision_number hd (k := 10) (n := 2) (by omega) (by omega),
    precision_number hd (k := 12) (n := 2) (by omega) (by omega), fields_append hlen,
    List.take_of_length_le (by omega)]

/-- With `localtime` the inverse of `mktime`, and for a text that is not the
epoch: times are parsed exactly, and `day` is read within its bounds if and
only if the month field is one of a month. -/
theorem timestamp_iff (zone : Zone) (beyond : Int → Int) (str : Text) (hz : zone.Inverse)
    (hepoch : tStr str ≠ some (jaTimestamp2str zone 0)) :
    ParsedExactly zone beyond str ↔ ∀ t, tStr str = some t → 1 ≤ field t 4 2 ∧ field t 4 2 ≤ 12 := by
  constructor
  · intro h t ht
    have hin := h.inTable (field t 4 2 - 1) (by rw [jaStr2timestamp_reads zone beyond ht]; exact List.mem_singleton_self _)
    omega
  · intro h
    have hback : ∀ t, (∀ b ∈ str, isDigit b = true) → tStr str = some t → ValidStamp t →
        jaTimestamp2str zone (jaStr2timestamp zone beyond str).time = t := by
      intro t hd ht hv
      obtain ⟨hlen, hdt⟩ := tStr_spec ht
      rw [(time_eq zone beyond ht hd).1 hv]
      exact jaTimestamp2str_mktime hz hlen (hdt hd) hv
    refine ⟨?_, ?_, hback⟩
    · intro i hi
      cases ht : tStr str with
      | none =>
        rw [jaStr2timestamp_none _ _ ht] at hi
        exact absurd hi List.not_mem_nil
      | some t =>
        rw [jaStr2timestamp_reads zone beyond ht, List.mem_singleton] at hi
        have := h t ht
        omega
    · intro t hd ht
      constructor
      · intro hne
        by_contra hv
        exact hne ((time_eq zone beyond ht hd).2 hv)
      · intro hv hzero
        -- the epoch is printed as the epoch, so the text is not valid
        have hprint := hback t hd ht hv
        rw [hzero] at hprint
        exact hepoch (by rw [ht, hprint])

/-! ## Universal time -/

def epochDay : Nat := Gregorian.monthStart (12 * 1970)

/-- The zone of universal time, without leap seconds. -/
def utc : Zone where
  mktime tm :=
    let days : Int := Gregorian.monthStart (12 * (tm.tmYear + 1900) + tm.tmMon).toNat + (tm.tmMday - 1)
    86400 * (days - epochDay) + (3600 * tm.tmHour + 60 * tm.tmMin + tm.tmSec)
  localtime time :=
    let secs := (time + 86400 * epochDay).toNat
    let days := secs / 86400
    ⟨Gregorian.monthOf days / 12 - 1900, Gregorian.monthOf days % 12, Gregorian.mday days,
      secs % 86400 / 3600, secs % 3600 / 60, secs % 60⟩

theorem utc_inverse : utc.Inverse := by
  intro year mon mday hour min sec hv
  obtain ⟨-, hmon, hmday, hhour, hmin, hsec⟩ := hv
  have hmonth : (12 * ((year : Int) - 1900 + 1900) + ((mon : Int) - 1)).toNat = 12 * year + (mon - 1) := by omega
  simp only [utc, hmonth]
  generalize hM : 12 * year + (mon - 1) = M at *
  have hsecs : (86400 * ((Gregorian.monthStart M + ((mday : Int) - 1)) - epochDay) +
      (3600 * (hour : Int) + 60 * min + sec) + 86400 * epochDay).toNat =
      86400 * (Gregorian.monthStart M + (mday - 1)) + (3600 * hour + 60 * min + sec) := by
    generalize epochDay = e
    omega
  rw [hsecs]
  have hdays : (86400 * (Gregorian.monthStart M + (mday - 1)) + (3600 * hour + 60 * min + sec)) / 86400 =
      Gregorian.monthStart M + (mday - 1) := by omega
  have hM' : Gregorian.monthOf (Gregorian.monthStart M + (mday - 1)) = M :=
    Gregorian.monthOf_eq (by omega) (by rw [Gregorian.monthStart_succ]; omega)
  rw [hdays, Gregorian.mday, hM']
  simp only [Tm.mk.injEq]
  omega

/-- The leap day of 2024 is parsed exactly. -/
theorem timestamp_iff_leap_day :
    utc.Inverse ∧ tStr (ascii "20240229") ≠ some (jaTimestamp2str utc 0) ∧
      (ParsedExactly utc (fun _ => 0) (ascii "20240229") ↔
        ∀ t, tStr (ascii "20240229") = some t → 1 ≤ field t 4 2 ∧ field t 4 2 ≤ 12) := by
  have hepoch : tStr (ascii "20240229") ≠ some (jaTimestamp2str utc 0) := by decide +kernel
  exact ⟨utc_inverse, hepoch, timestamp_iff utc (fun _ => 0) (ascii "20240229") utc_inverse hepoch⟩

/-- The month 13 reads behind the table. -/
theorem month_thirteen_outside :
    utc.Inverse ∧ tStr (ascii "20241301") ≠ some (jaTimestamp2str utc 0) ∧
      jaStr2timestamp utc (fun _ => 0) (ascii "20241301") = ⟨[12], 0⟩ ∧
      ¬ ParsedExactly utc (fun _ => 0) (ascii "20241301") := by
  have hcall : jaStr2timestamp utc (fun _ => 0) (ascii "20241301") = ⟨[12], 0⟩ := by decide +kernel
  refine ⟨utc_inverse, by decide +kernel, hcall, ?_⟩
  intro h
  have := h.inTable 12 (by rw [hcall]; exact List.mem_singleton_self 12)
  omega

end JobArranger.Timestamp
