import JobArranger.L2Status.Flow
import JobArranger.L6Agent.JobDb

/-!
# The exit code of a jobnet (`jarun/jaruniconend.c`)

The END icon has a stop code, a number or a `$` reference to a variable.
`ja_stop_code_conv` turns its text into a code from 0 to 255 in one pass,
which leaves at the first non-digit, with 0, or at the fourth digit after
the leading zeros, with 255. `jarun_icon_end` publishes it as `JOB_EXIT_CD`.

* `convLoop_spec`: what the pass answers, by the digits before the first
  non-digit.
* `exit_code_iff`: the code is by the rule unless a non-digit stands behind
  digits worth 1000 or more.
-/
namespace JobArranger.ExitCode

open Tables
open Sql (isDigit natVal)
open Agent.JobDb (atoi atoi_digits)

/-! ## The conversion -/

/-- The loop of `ja_stop_code_conv`; `none` when it ends at the NUL.
mirrors src/jobarg_server/jarun/jaruniconend.c:66-80 -/
def convLoop (sw : Bool) (cnt : Nat) : Text → Option Int
  | [] => none
  | b :: s =>
    if isDigit b = false then some 0
    else
      let sw := sw || b != 48
      let cnt := if sw then cnt + 1 else cnt
      if 3 < cnt then some 255 else convLoop sw cnt s

/-- mirrors src/jobarg_server/jarun/jaruniconend.c:50-93 -/
def jaStopCodeConv (str : Text) : Int :=
  if str = [] then 0
  else match convLoop false 0 str with
    | some code => code
    | none =>
      let num := (atoi str).toInt
      if num > 255 then 255 else if num < 0 then 0 else num

/-! ## The END icon -/

/-- Row of `ja_run_icon_end_table`. -/
structure IconEndRow where
  innerJobnetId : Id
  jobnetStopCode : Text
  deriving DecidableEq, Repr

/-- mirrors src/jalibs/javalue.c:335-372 (`none` is `FAIL`) -/
def jaGetValueBefore (t : Tables) (innerJobId : Id) (name : Text) : Option Text :=
  (t.before.find? fun r => r.owner == innerJobId && ascii r.valueName == name).map (·.value)

/-- mirrors src/jalibs/javalue.c:292-320 (`none` is `FAIL`) -/
def jaCpyValue (t : Tables) (innerJobId : Id) (valueSrc : Text) : Option Text :=
  match valueSrc with
  | 36 :: c :: rest => if c = 36 then some (c :: rest) else jaGetValueBefore t innerJobId (c :: rest)
  | _ => some valueSrc

/-- `JOB_EXIT_CD` is written and the icon ends. -/
def publish (t : Tables) (innerJobId innerJobnetId : Id) (code : Int) : Tables × Ret :=
  andThen (jaSetValueAfter t innerJobId innerJobnetId "JOB_EXIT_CD" (intText code)) fun t => jaSetEnd t innerJobId true

/-- mirrors src/jobarg_server/jarun/jaruniconend.c:108-146 -/
def jarunIconEnd (t : Tables) (row : Option IconEndRow) (innerJobId : Id) : Tables × Ret :=
  match row with
  | none => jaSetRunerr t innerJobId 2
  | some row =>
    match jaCpyValue t innerJobId row.jobnetStopCode with
    | none => jaSetRunerr t innerJobId 2
    | some stopCodeValue => publish t innerJobId row.innerJobnetId (jaStopCodeConv stopCodeValue)

/-! ## The rule -/

/-- 0 for anything but digits, else the value, at most 255. -/
def exitCode (s : Text) : Int := if s ≠ [] ∧ s.all isDigit then min 255 (natVal s) else 0

/-- The conversion follows the rule, and so does every END icon whose stop
code is this text. -/
structure ByRule (s : Text) : Prop where
  code : jaStopCodeConv s = exitCode s
  published : ∀ t row i, jaCpyValue t i row.jobnetStopCode = some s →
    jarunIconEnd t (some row) i = publish t i row.innerJobnetId (exitCode s)

theorem jarunIconEnd_of_value {t : Tables} {row : IconEndRow} {i : Id} {s : Text}
    (h : jaCpyValue t i row.jobnetStopCode = some s) :
    jarunIconEnd t (some row) i = publish t i row.innerJobnetId (jaStopCodeConv s) := by
  simp only [jarunIconEnd, h]

/-! ## The pass over the digits -/

/-- The value read so far and then the digits `s`. -/
def valueFrom (v : Nat) (s : Text) : Nat := s.foldl (fun v b => 10 * v + (b.toNat - 48)) v

@[simp] theorem valueFrom_nil (v : Nat) : valueFrom v [] = v := rfl

@[simp] theorem valueFrom_cons (v : Nat) (b : UInt8) (s : Text) :
    valueFrom v (b :: s) = valueFrom (10 * v + (b.toNat - 48)) s := by
  unfold valueFrom
  rw [List.foldl_cons]

theorem valueFrom_zero (s : Text) : valueFrom 0 s = natVal s := rfl

theorem le_valueFrom (v : Nat) (s : Text) : v ≤ valueFrom v s := by
  induction s generalizing v with
  | nil => exact Nat.le_refl v
  | cons b s ih =>
    have hv : v ≤ 10 * v + (b.toNat - 48) := by omega
    exact hv.trans (ih _)

/-- The counter is the number of digits of the value, leading zeros apart. -/
structure Counted (sw : Bool) (cnt v : Nat) : Prop where
  started : sw = true ↔ v ≠ 0
  digits : cnt = if v = 0 then 0 else if v < 10 then 1 else if v < 100 then 2 else 3
  small : v < 1000

theorem digit_zero {b : UInt8} (h : isDigit b = true) : b = 48 ↔ b.toNat - 48 = 0 := by
  obtain ⟨hlo, -⟩ := Sql.isDigit_bounds h
  rw [← UInt8.toNat_inj]
  show b.toNat = 48 ↔ b.toNat - 48 = 0
  omega

/-- One more digit keeps the count while the value is below 1000, and makes
it four when the value is no longer. -/
theorem Counted.step {sw : Bool} {cnt v : Nat} (h : Counted sw cnt v) {b : UInt8} (hb : isDigit b = true) :
    let v' := 10 * v + (b.toNat - 48)
    let sw' := sw || b != 48
    let cnt' := if sw' = true then cnt + 1 else cnt
    (3 < cnt' ↔ 1000 ≤ v') ∧ (v' < 1000 → Counted sw' cnt' v') := by
  intro v' sw' cnt'
  obtain ⟨-, hhi⟩ := Sql.isDigit_bounds hb
  obtain ⟨hsw, hcnt, hsmall⟩ := h
  have hsw' : sw' = true ↔ v' ≠ 0 := by
    simp only [sw', v', Bool.or_eq_true, bne_iff_ne, hsw, ne_eq, digit_zero hb]
    omega
  have hcnt' : cnt' = if v' = 0 then 0 else cnt + 1 := by
    by_cases hv : v' = 0
    · simp [cnt', show sw' = false by simpa [hv] using hsw', hv, hcnt, show v = 0 by omega]
    · simp [cnt', hsw'.2 hv, hv]
  constructor
  · rw [hcnt', hcnt]
    split_ifs <;> omega
  · intro hlt
    refine ⟨hsw', ?_, hlt⟩
    rw [hcnt', hcnt]
    split_ifs <;> omega

/-- **The pass.** The fourth digit after the leading zeros answers 255, a
non-digit before it 0. -/
theorem convLoop_spec {s : Text} {sw : Bool} {cnt v : Nat} (h : Counted sw cnt v) :
    convLoop sw cnt s =
      if 1000 ≤ valueFrom v (s.takeWhile isDigit) then some 255
      else if s.all isDigit then none else some 0 := by
  induction s generalizing sw cnt v with
  | nil =>
    have := h.small
    simp [convLoop, show ¬ 1000 ≤ v by omega]
  | cons b s ih =>
    cases hb : isDigit b with
    | false =>
      have := h.small
      simp [convLoop, hb, show ¬ 1000 ≤ v by omega]
    | true =>
      obtain ⟨hfour, hnext⟩ := h.step hb
      simp only [convLoop, hb, Bool.true_eq_false, if_false, List.takeWhile_cons_of_pos, valueFrom_cons, List.all_cons,
        Bool.true_and, hfour]
      by_cases hv : 1000 ≤ 10 * v + (b.toNat - 48)
      · rw [if_pos hv, if_pos (Nat.le_trans hv (le_valueFrom _ _))]
      · rw [if_neg hv]
        exact ih (hnext (by omega))

theorem jaStopCodeConv_eq (s : Text) :
    jaStopCodeConv s = if 1000 ≤ natVal (s.takeWhile isDigit) then 255 else exitCode s := by
  have hloop := convLoop_spec (s := s) (v := 0) (show Counted false 0 0 from ⟨by simp, by simp, by omega⟩)
  rw [valueFrom_zero] at hloop
  by_cases hs : s = []
  · subst hs
    rfl
  rw [jaStopCodeConv, if_neg hs, hloop]
  by_cases hbig : 1000 ≤ natVal (s.takeWhile isDigit)
  · simp [hbig]
  cases hall : s.all isDigit with
  | false => simp [hbig, exitCode, hall]
  | true =>
    have hd : ∀ b ∈ s, isDigit b = true := List.all_eq_true.1 hall
    rw [List.takeWhile_eq_self_iff.2 hd] at hbig ⊢
    simp only [hbig, if_false, if_true, exitCode, hs, hall, atoi_digits hd (by omega), ne_eq, not_false_eq_true,
      and_self]
    split_ifs <;> omega

/-! ## The rule -/

/-- The code is by the rule exactly for the texts of digits and for those
whose digits before the first non-digit are worth less than 1000. -/
theorem exit_code_iff (s : Text) : ByRule s ↔ s.all isDigit = true ∨ natVal (s.takeWhile isDigit) < 1000 := by
  have hrule : ByRule s ↔ jaStopCodeConv s = exitCode s := by
    constructor
    · exact ByRule.code
    · exact fun h => ⟨h, fun t row i hv => by rw [jarunIconEnd_of_value hv, h]⟩
  rw [hrule, jaStopCodeConv_eq]
  by_cases hbig : 1000 ≤ natVal (s.takeWhile isDigit)
  · rw [if_pos hbig]
    cases hall : s.all isDigit with
    | false => simp [exitCode, hall, hbig]
    | true =>
      have hs : s ≠ [] := by
        rintro rfl
        simp [natVal] at hbig
      rw [List.takeWhile_eq_self_iff.2 (List.all_eq_true.1 hall)] at hbig
      simp only [exitCode, hs, hall, ne_eq, not_false_eq_true, and_self, if_true, true_or, iff_true]
      omega
  · rw [if_neg hbig]
    exact iff_of_true rfl (.inr (by omega))

/-- With the same characters the letter in front gives 0 and behind 255. -/
theorem letter_behind_digits :
    exitCode (ascii "1234x") = 0 ∧ jaStopCodeConv (ascii "1234x") = 255 ∧ jaStopCodeConv (ascii "x1234") = 0 ∧
      ¬ ByRule (ascii "1234x") := by
  have hcode : jaStopCodeConv (ascii "1234x") = 255 := by decide +kernel
  have hrule : exitCode (ascii "1234x") = 0 := by decide +kernel
  refine ⟨hrule, hcode, by decide +kernel, ?_⟩
  intro h
  have := h.code
  rw [hcode, hrule] at this
  omega

end JobArranger.ExitCode
