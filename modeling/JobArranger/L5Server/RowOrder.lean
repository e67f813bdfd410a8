import JobArranger.L5Server.IconOnce
import Mathlib.Data.Fintype.EquivFin

/-!
# The order of the rows in `jajobnet_run`

The select of `jajobnet_run` names no order. The counters do not depend on
the order, `icon_end_id` does: it is the last finished END icon fetched, and
`jajobnet_run_sync` copies its JOB_EXIT_CD to the jobnet icon.

With the test flag off a second finished END icon is an error, so that there
is one such icon at most. With the test flag on it is not.

* `lastEnd`: `icon_end_id`.
* `row_order_iff`: the order matters exactly for a level in test mode that
  ends with two finished END icons.
-/
namespace JobArranger

open Tables

def Job.isStart (j : Job) : Bool := j.jobType = .startIcon

/-- An END icon in END. -/
def Job.finishedEnd (j : Job) : Bool := j.jobType = .endIcon ∧ j.status = .ended

/-- An icon `end_cnt` counts. -/
def Job.done (j : Job) : Bool :=
  j.status = .ended ∨ (j.status = .runErr ∨ j.status = .abort) ∧ j.continueFlag

/-! ## The rows in the order they come -/

def countRows (rows : List Job) : Option RunCounts := rows.foldlM RunCounts.add {}

/-- What `jajobnet_run` passes on. -/
def decisionOn (rows : List Job) (status : Status) (timeoutFlag : Bool) : RunDecision :=
  match countRows rows with
  | none => .error
  | some c => runDecision c status timeoutFlag

/-- `jajobnet_run` on the rows its select returns.
mirrors src/jobarg_server/jajobnet/jajobnetrun.c:185-367 -/
def jajobnetRunOn (rows : List Job) (t : Tables) (innerJobnetId iconJobnetId : Id) (status : Status)
    (timeoutFlag : Bool) : Tables × Ret :=
  match countRows rows with
  | none => jajobnetRunSyncWith jaFlow t innerJobnetId iconJobnetId 0 .endErr false
  | some c =>
    match runDecision c status timeoutFlag with
    | .error => jajobnetRunSyncWith jaFlow t innerJobnetId iconJobnetId c.iconEndId .endErr false
    | .keep => (t, .succeed)
    | .renew status timeoutFlag =>
      jajobnetRunSyncWith jaFlow t innerJobnetId iconJobnetId c.iconEndId status timeoutFlag

/-- Elsewhere the rows come in the order of the table. -/
theorem jajobnetRunOn_jobsOf (t : Tables) (n icon : Id) (status : Status) (timeoutFlag : Bool) :
    jajobnetRunOn (jobsOf t n) t n icon status timeoutFlag = jajobnetRun t n icon status timeoutFlag := rfl

/-! ## One pass over the rows -/

/-- `icon_end_id` after the rows. -/
def lastEnd (i : Id) (rows : List Job) : Id :=
  rows.foldl (fun i j => if j.finishedEnd then j.innerJobId else i) i

theorem lastEnd_concat (i : Id) (rows : List Job) {e : Job} (he : e.finishedEnd) :
    lastEnd i (rows ++ [e]) = e.innerJobId := by
  simp [lastEnd, List.foldl_append, he]

/-- `icon_end_id` is a finished END icon, or was never set. -/
theorem lastEnd_mem (i : Id) (rows : List Job) :
    (lastEnd i rows = i ∧ ∀ j ∈ rows, j.finishedEnd = false) ∨
      ∃ e ∈ rows, e.finishedEnd ∧ lastEnd i rows = e.innerJobId := by
  induction rows generalizing i with
  | nil => exact .inl ⟨rfl, by simp⟩
  | cons j rows ih =>
    have hstep : lastEnd i (j :: rows) = lastEnd (if j.finishedEnd then j.innerJobId else i) rows := rfl
    rw [hstep]
    obtain ⟨hid, hnone⟩ | ⟨e, he, hfin, hid⟩ := ih (if j.finishedEnd then j.innerJobId else i)
    · cases hj : j.finishedEnd with
      | true => exact .inr ⟨j, List.mem_cons_self, hj, by rw [hj, if_pos rfl] at hid; exact hid⟩
      | false =>
        refine .inl ⟨by simpa [hj] using hid, fun k hk => ?_⟩
        obtain rfl | hk := List.mem_cons.1 hk
        · exact hj
        · exact hnone k hk
    · exact .inr ⟨e, List.mem_cons_of_mem _ he, hfin, hid⟩

theorem RunCounts.add_none_iff {c : RunCounts} {j : Job} :
    c.add j = none ↔
      j.status = .endErr ∨ (j.testFlag = false ∧ 1 < c.endIconsEnd + if j.finishedEnd then 1 else 0) := by
  unfold RunCounts.add Job.finishedEnd
  cases j.status with
  | endErr => simp
  | begin | ready | run => simp [and_comm]
  | ended => by_cases ht : j.jobType = .endIcon <;> simp [ht, and_comm]
  | runErr | abort => cases j.continueFlag <;> simp [and_comm]

/-- What a fetched row leaves in the variables that are not counters. -/
theorem RunCounts.add_last {c c' : RunCounts} {j : Job} (h : c.add j = some c') :
    c'.testFlag = j.testFlag ∧ c'.iconEndId = if j.finishedEnd then j.innerJobId else c.iconEndId := by
  unfold RunCounts.add at h
  obtain ⟨d, hd, hc⟩ := Option.bind_eq_some_iff.1 h
  split at hc
  · cases hc
  obtain rfl := Option.some.inj hc
  unfold Job.finishedEnd
  cases hs : j.status with
  | endErr => simp [hs] at hd
  | begin | ready | run =>
    simp only [hs, Option.some.injEq] at hd
    subst hd
    simp
  | ended =>
    simp only [hs] at hd
    split at hd
    all_goals
      rename_i ht
      obtain rfl := Option.some.inj hd
      simp [ht]
  | runErr | abort =>
    simp only [hs] at hd
    split at hd
    all_goals
      obtain rfl := Option.some.inj hd
      simp

section
variable {b : Bool}

/-- The two early exits, for rows with one test flag. -/
theorem foldlM_add_none_iff {rows : List Job} (hb : ∀ j ∈ rows, j.testFlag = b) {c₀ : RunCounts}
    (h₀ : b = false → c₀.endIconsEnd ≤ 1) :
    rows.foldlM RunCounts.add c₀ = none ↔
      (∃ j ∈ rows, j.status = .endErr) ∨ (b = false ∧ 1 < c₀.endIconsEnd + rows.countP Job.finishedEnd) := by
  induction rows generalizing c₀ with
  | nil =>
    have : b = false → ¬ 1 < c₀.endIconsEnd := fun h => Nat.not_lt.2 (h₀ h)
    simpa using this
  | cons j rows ih =>
    have hj : j.testFlag = b := hb j List.mem_cons_self
    rw [List.foldlM_cons, List.countP_cons]
    cases hadd : c₀.add j with
    | none =>
      have := RunCounts.add_none_iff.1 hadd
      rw [hj] at this
      refine iff_of_true rfl ?_
      obtain herr | ⟨hfalse, hlt⟩ := this
      · exact .inl ⟨j, List.mem_cons_self, herr⟩
      · exact .inr ⟨hfalse, by omega⟩
    | some c₁ =>
      have hgo : ¬(j.status = .endErr ∨
          (b = false ∧ 1 < c₀.endIconsEnd + if j.finishedEnd then 1 else 0)) := by
        rw [← hj, ← RunCounts.add_none_iff, hadd]
        simp
      obtain ⟨hok, hfew⟩ := not_or.1 hgo
      have hends : c₁.endIconsEnd = c₀.endIconsEnd + if j.finishedEnd then 1 else 0 := by
        rw [(RunCounts.add_spec hadd).endsEnd, List.countP_cons, List.countP_nil, Job.finishedEnd]
        simp
      have hone : b = false → c₁.endIconsEnd ≤ 1 := by
        intro hfalse
        rw [hends]
        exact Nat.not_lt.1 fun hlt => hfew ⟨hfalse, hlt⟩
      refine (ih (fun k hk => hb k (List.mem_cons_of_mem _ hk)) hone).trans ?_
      rw [hends, List.exists_mem_cons_iff]
      have hsum : c₀.endIconsEnd + (if j.finishedEnd then 1 else 0) + rows.countP Job.finishedEnd =
          c₀.endIconsEnd + (rows.countP Job.finishedEnd + if j.finishedEnd then 1 else 0) := by omega
      simp [hok, hsum]

theorem foldlM_add_last {rows : List Job} (hb : ∀ j ∈ rows, j.testFlag = b) {c₀ c : RunCounts}
    (h : rows.foldlM RunCounts.add c₀ = some c) :
    c.iconEndId = lastEnd c₀.iconEndId rows ∧ c.testFlag = if rows = [] then c₀.testFlag else b := by
  induction rows generalizing c₀ with
  | nil =>
    obtain rfl := Option.some.inj h
    exact ⟨rfl, rfl⟩
  | cons j rows ih =>
    obtain ⟨c₁, h₁, h₂⟩ := Option.bind_eq_some_iff.1 h
    obtain ⟨htest, hid⟩ := RunCounts.add_last h₁
    obtain ⟨hend, hflag⟩ := ih (fun k hk => hb k (List.mem_cons_of_mem _ hk)) h₂
    refine ⟨by rw [hend, hid]; rfl, ?_⟩
    rw [hflag, htest, hb j List.mem_cons_self]
    simp

end

/-! ## The counters and the order -/

section
variable {b : Bool} {r₁ r₂ : List Job}

/-- Only `icon_end_id` depends on the order. -/
theorem countRows_perm (hb : ∀ j ∈ r₁, j.testFlag = b) (hp : r₁.Perm r₂) :
    countRows r₂ = (countRows r₁).map fun c => { c with iconEndId := lastEnd 0 r₂ } := by
  have hb₂ : ∀ j ∈ r₂, j.testFlag = b := fun j hj => hb j (hp.mem_iff.2 hj)
  have h₀ : b = false → ({} : RunCounts).endIconsEnd ≤ 1 := fun _ => Nat.zero_le 1
  have hnone : countRows r₂ = none ↔ countRows r₁ = none := by
    rw [countRows, countRows, foldlM_add_none_iff hb₂ h₀, foldlM_add_none_iff hb h₀, hp.countP_eq]
    simp only [hp.mem_iff]
  cases h₁ : countRows r₁ with
  | none => exact hnone.2 h₁
  | some c₁ =>
    obtain ⟨c₂, h₂⟩ : ∃ c, countRows r₂ = some c :=
      Option.ne_none_iff_exists'.1 fun h => by simp [hnone.1 h] at h₁
    have e₁ := foldlM_add_spec h₁
    have e₂ := foldlM_add_spec h₂
    obtain ⟨-, htest₁⟩ := foldlM_add_last hb h₁
    obtain ⟨hid, htest₂⟩ := foldlM_add_last hb₂ h₂
    have hnil : r₁ = [] ↔ r₂ = [] := ⟨fun h => (h ▸ hp).nil_eq.symm, fun h => (h ▸ hp).eq_nil⟩
    have hstart : c₂.startIcons = c₁.startIcons := by rw [e₁.start, e₂.start, hp.countP_eq]
    have hends : c₂.endIcons = c₁.endIcons := by rw [e₁.ends, e₂.ends, hp.countP_eq]
    have hready : c₂.readyCnt = c₁.readyCnt := by rw [e₁.ready, e₂.ready, hp.countP_eq]
    have hrun : c₂.runCnt = c₁.runCnt := by rw [e₁.run, e₂.run, hp.countP_eq]
    have hrunerr : c₂.runerrCnt = c₁.runerrCnt := by rw [e₁.runerr, e₂.runerr, hp.countP_eq]
    have hendsEnd : c₂.endIconsEnd = c₁.endIconsEnd := by rw [e₁.endsEnd, e₂.endsEnd, hp.countP_eq]
    have htimeout : c₂.timeoutCnt = c₁.timeoutCnt := by rw [e₁.timeout, e₂.timeout, hp.countP_eq]
    have hcount : c₂.count = c₁.count := by rw [e₁.count, e₂.count, hp.length_eq]
    have hended : c₂.endCnt = c₁.endCnt := by
      have h₁ := e₁.ended
      have h₂ := e₂.ended
      rw [hp.countP_eq] at h₁
      omega
    have htest : c₂.testFlag = c₁.testFlag := by
      rw [htest₁, htest₂]
      simp only [hnil]
    rw [h₂, Option.map_some, ← hid, ← hstart, ← hends, ← hready, ← hrun, ← hrunerr, ← hendsEnd, ← htimeout, ← hcount,
      ← hended, ← htest]

theorem decisionOn_perm (hb : ∀ j ∈ r₁, j.testFlag = b) (hp : r₁.Perm r₂) (status : Status) (timeoutFlag : Bool) :
    decisionOn r₂ status timeoutFlag = decisionOn r₁ status timeoutFlag := by
  rw [decisionOn, countRows_perm hb hp, decisionOn]
  cases countRows r₁ <;> rfl

end

/-! ## END -/

/-- What END takes with the test flag off. -/
structure Finished (rows : List Job) : Prop where
  start : rows.countP Job.isStart = 1
  ends : rows.countP Job.finishedEnd = 1
  quiet : ∀ j ∈ rows, j.status ≠ .endErr ∧ j.status ≠ .ready ∧ j.status ≠ .run ∧ j.errored = false

/-- The order of the rows of level `n` does not matter to `jajobnet_run`, as
`process_jajobnet` calls it, and the jobnet ends when it should. -/
structure OrderFree (n : Id) (rows : List Job) : Prop where
  same : ∀ {r₁ r₂ : List Job}, r₁.Perm rows → r₂.Perm rows → ∀ t, (jobsOf t n).Perm rows →
    ∀ icon status timeoutFlag, status = .run ∨ status = .runErr →
      commit t (jajobnetRunOn r₁ t n icon status timeoutFlag) =
        commit t (jajobnetRunOn r₂ t n icon status timeoutFlag)
  ended : (∀ j ∈ rows, j.testFlag = false) → ∀ {r : List Job}, r.Perm rows →
    ∀ status timeoutFlag, status = .run ∨ status = .runErr →
      ((∃ tf, decisionOn r status timeoutFlag = .renew .ended tf) ↔ Finished rows)

/-- A level in test mode that ends with two finished END icons. `ja_joblog`
refuses level 0. -/
structure Ambiguous (n : Id) (rows : List Job) : Prop where
  level : n ≠ 0
  test : ∀ j ∈ rows, j.testFlag = true
  done : ∀ j ∈ rows, j.done
  start : rows.countP Job.isStart = 1
  ends : ∃ e ∈ rows, ∃ e' ∈ rows, e.finishedEnd ∧ e'.finishedEnd ∧ e.innerJobId ≠ e'.innerJobId

theorem resetStatus_not_ended (c : RunCounts) {status : Status} (h : status = .run ∨ status = .runErr) :
    resetStatus c status ≠ .ended := by
  obtain rfl | rfl := h <;> by_cases he : c.runerrCnt = 0 <;> simp [resetStatus, he]
  split <;> simp

theorem runDecision_ended_iff {c : RunCounts} {status : Status} (h : status = .run ∨ status = .runErr)
    (timeoutFlag : Bool) :
    (∃ tf, runDecision c status timeoutFlag = .renew .ended tf) ↔
      c.startIcons = 1 ∧ c.endIcons ≠ 0 ∧ if c.testFlag then c.count = c.endCnt
        else 0 < c.endIconsEnd ∧ c.readyCnt = 0 ∧ c.runCnt = 0 ∧ c.runerrCnt = 0 := by
  have hreset : ∀ (p : Prop) [Decidable p] (tf tf' : Bool),
      (if p then .renew (resetStatus c status) tf else .keep) ≠ RunDecision.renew .ended tf' := by
    intro p _ tf tf'
    split
    · simp [resetStatus_not_ended c h]
    · simp
  unfold runDecision
  by_cases hs : c.startIcons = 1
  · by_cases he : c.endIcons = 0
    · simp [hs, he]
    · cases ht : c.testFlag with
      | true => by_cases hd : c.count = c.endCnt <;> simp [hs, he, hd, hreset]
      | false =>
        by_cases hend : 0 < c.endIconsEnd
        · by_cases hquiet : c.readyCnt = 0 ∧ c.runCnt = 0 ∧ c.runerrCnt = 0
          · obtain ⟨hready, hrun, hrunerr⟩ := hquiet
            simp [hs, he, hend, hready, hrun, hrunerr]
          · have hbusy : 0 < c.readyCnt ∨ 0 < c.runCnt ∨ 0 < c.runerrCnt := by omega
            simp [hs, he, hend, hbusy, hquiet]
        · simp [hs, he, hend, hreset]
  · simp [hs]

/-- The counters that have to be 0 are, when no icon is in their states. -/
theorem CountsOf.quiet {rows : List Job} {c : RunCounts} (h : CountsOf rows {} c) :
    (c.readyCnt = 0 ∧ c.runCnt = 0 ∧ c.runerrCnt = 0) ↔
      ∀ j ∈ rows, j.status ≠ .endErr ∧ j.status ≠ .ready ∧ j.status ≠ .run ∧ j.errored = false := by
  have hready : c.readyCnt = rows.countP (·.status = .ready) := by simpa using h.ready
  have hrun : c.runCnt = rows.countP (·.status = .run) := by simpa using h.run
  have hrunerr : c.runerrCnt = rows.countP Job.errored := by simpa using h.runerr
  rw [hready, hrun, hrunerr, List.countP_eq_zero, List.countP_eq_zero, List.countP_eq_zero]
  constructor
  · intro ⟨h₁, h₂, h₃⟩ j hj
    exact ⟨h.noEnderr j hj, by simpa using h₁ j hj, by simpa using h₂ j hj, by simpa using h₃ j hj⟩
  · intro hq
    exact ⟨fun j hj => by simpa using (hq j hj).2.1, fun j hj => by simpa using (hq j hj).2.2.1,
      fun j hj => by simpa using (hq j hj).2.2.2⟩

theorem finishedEnd_le (rows : List Job) :
    rows.countP Job.finishedEnd ≤ rows.countP fun j => decide (j.jobType = .endIcon) := by
  refine List.countP_mono_left fun j _ hj => ?_
  simp only [Job.finishedEnd, decide_eq_true_eq] at hj ⊢
  exact hj.1

/-- **The end of a level, test flag off.** -/
theorem decisionOn_finished {rows : List Job} (hb : ∀ j ∈ rows, j.testFlag = false) {status : Status}
    (h : status = .run ∨ status = .runErr) (timeoutFlag : Bool) :
    (∃ tf, decisionOn rows status timeoutFlag = .renew .ended tf) ↔ Finished rows := by
  have hnone := foldlM_add_none_iff hb (show false = false → ({} : RunCounts).endIconsEnd ≤ 1 from fun _ => Nat.zero_le 1)
  unfold decisionOn countRows
  cases hc : rows.foldlM RunCounts.add {} with
  | none =>
    refine iff_of_false (by simp) fun hfin => ?_
    obtain ⟨j, hj, herr⟩ | ⟨-, htwo⟩ := hnone.1 hc
    · exact (hfin.quiet j hj).1 herr
    · rw [hfin.ends] at htwo
      exact absurd htwo (by decide)
  | some c =>
    have hcount := foldlM_add_spec hc
    have htest : c.testFlag = false := by
      have := (foldlM_add_last hb hc).2
      rw [this]
      split <;> rfl
    have hone : rows.countP Job.finishedEnd ≤ 1 := by
      by_contra hlt
      have := hnone.2 (.inr ⟨rfl, by simpa using hlt⟩)
      rw [hc] at this
      cases this
    have hstart : c.startIcons = rows.countP Job.isStart := hcount.start.trans (Nat.zero_add _)
    have hends : c.endIcons = rows.countP fun j => decide (j.jobType = .endIcon) :=
      hcount.ends.trans (Nat.zero_add _)
    have hfin : c.endIconsEnd = rows.countP Job.finishedEnd := hcount.endsEnd.trans (Nat.zero_add _)
    have hle := finishedEnd_le rows
    refine (runDecision_ended_iff h timeoutFlag).trans ?_
    simp only [htest, Bool.false_eq_true, if_false, hcount.quiet, hstart]
    constructor
    · intro ⟨h₁, _, hpos, hquiet⟩
      exact ⟨h₁, by omega, hquiet⟩
    · intro ⟨h₁, hend, hquiet⟩
      exact ⟨h₁, by omega, by omega, hquiet⟩

theorem Job.done_iff (j : Job) :
    j.done ↔ j.status ≠ .begin ∧ j.status ≠ .endErr ∧ j.status ≠ .ready ∧ j.status ≠ .run ∧ j.errored = false := by
  unfold Job.done Job.errored
  cases j.status <;> cases j.continueFlag <;> simp

theorem CountsOf.done {rows : List Job} {c : RunCounts} (h : CountsOf rows {} c) :
    c.count = c.endCnt ↔ ∀ j ∈ rows, j.done := by
  have hsum := h.ended
  have hzero : c.count = c.endCnt ↔ rows.countP (·.status = .begin) = 0 ∧
      c.readyCnt = 0 ∧ c.runCnt = 0 ∧ c.runerrCnt = 0 := by
    simp only at hsum
    omega
  rw [hzero, h.quiet, List.countP_eq_zero]
  constructor
  · intro ⟨hbegin, hquiet⟩ j hj
    exact j.done_iff.2 ⟨by simpa using hbegin j hj, hquiet j hj⟩
  · intro hdone
    exact ⟨fun j hj => by simpa using (j.done_iff.1 (hdone j hj)).1, fun j hj => (j.done_iff.1 (hdone j hj)).2⟩

/-- In test mode a level ends when all icons are done. -/
theorem decisionOn_done {rows : List Job} (hb : ∀ j ∈ rows, j.testFlag = true) {status : Status}
    (h : status = .run ∨ status = .runErr) (timeoutFlag : Bool) :
    (∃ tf, decisionOn rows status timeoutFlag = .renew .ended tf) ↔
      rows.countP Job.isStart = 1 ∧ (∃ j ∈ rows, j.jobType = .endIcon) ∧ ∀ j ∈ rows, j.done := by
  have hnone := foldlM_add_none_iff hb (show true = false → ({} : RunCounts).endIconsEnd ≤ 1 from nofun)
  unfold decisionOn countRows
  cases hc : rows.foldlM RunCounts.add {} with
  | none =>
    refine iff_of_false (by simp) fun ⟨_, _, hdone⟩ => ?_
    obtain ⟨j, hj, herr⟩ | ⟨hoff, -⟩ := hnone.1 hc
    · simpa [Job.done, herr] using hdone j hj
    · cases hoff
  | some c =>
    have hcount := foldlM_add_spec hc
    have hstart : c.startIcons = rows.countP Job.isStart := hcount.start.trans (Nat.zero_add _)
    have hends : c.endIcons = rows.countP fun j => decide (j.jobType = .endIcon) :=
      hcount.ends.trans (Nat.zero_add _)
    have hone : c.endIcons ≠ 0 ↔ ∃ j ∈ rows, j.jobType = .endIcon := by
      rw [hends, Ne, List.countP_eq_zero]
      simp
    refine (runDecision_ended_iff h timeoutFlag).trans ?_
    rw [hstart, hone]
    by_cases hnil : rows = []
    · simp [hnil]
    · have htest : c.testFlag = true := by
        rw [(foldlM_add_last hb hc).2, if_neg hnil]
      rw [htest, if_pos rfl, hcount.done]

/-! ## `icon_end_id` and the synchronisation -/

/-- `icon_end_id` is read for END only. -/
theorem jajobnetRunSync_iconEnd {status : Status} (h : status ≠ .ended) (flow : FlowFn) (t : Tables)
    (n icon i i' : Id) (timeoutFlag : Bool) :
    jajobnetRunSyncWith flow t n icon i status timeoutFlag = jajobnetRunSyncWith flow t n icon i' status timeoutFlag := by
  cases status with
  | ended => exact absurd rfl h
  | _ => rfl

section
variable {b : Bool} {r₁ r₂ : List Job}

theorem jajobnetRunOn_congr (hb : ∀ j ∈ r₁, j.testFlag = b) (hp : r₁.Perm r₂) {n icon : Id} {status : Status}
    {timeoutFlag : Bool}
    (h : lastEnd 0 r₁ = lastEnd 0 r₂ ∨ ¬∃ tf, decisionOn r₁ status timeoutFlag = .renew .ended tf) (t : Tables) :
    jajobnetRunOn r₁ t n icon status timeoutFlag = jajobnetRunOn r₂ t n icon status timeoutFlag := by
  unfold jajobnetRunOn
  unfold decisionOn at h
  rw [countRows_perm hb hp]
  cases hc : countRows r₁ with
  | none => rfl
  | some c =>
    rw [hc] at h
    have hdecision : runDecision { c with iconEndId := lastEnd 0 r₂ } status timeoutFlag =
        runDecision c status timeoutFlag := rfl
    simp only [Option.map_some, hdecision]
    obtain hid | hend := h
    · rw [← hid, ← (foldlM_add_last hb hc).1]
    · cases hd : runDecision c status timeoutFlag with
      | error => exact jajobnetRunSync_iconEnd (by simp) _ _ _ _ _ _ _
      | keep => rfl
      | renew s tf =>
        refine jajobnetRunSync_iconEnd ?_ _ _ _ _ _ _ _
        rintro rfl
        exact hend ⟨tf, hd⟩

/-- Two orders with different last END icons have two such icons. -/
theorem two_ends (hp : r₁.Perm r₂) (h : lastEnd 0 r₁ ≠ lastEnd 0 r₂) :
    ∃ e ∈ r₁, ∃ e' ∈ r₁, e.finishedEnd ∧ e'.finishedEnd ∧ e.innerJobId ≠ e'.innerJobId := by
  obtain ⟨hid₁, hno⟩ | ⟨e, he, hfin, hid₁⟩ := lastEnd_mem 0 r₁
  · obtain ⟨hid₂, -⟩ | ⟨e', he', hfin', -⟩ := lastEnd_mem 0 r₂
    · exact absurd (hid₁.trans hid₂.symm) h
    · have := hno e' (hp.mem_iff.2 he')
      rw [hfin'] at this
      cases this
  · obtain ⟨-, hno⟩ | ⟨e', he', hfin', hid₂⟩ := lastEnd_mem 0 r₂
    · have := hno e (hp.mem_iff.1 he)
      rw [hfin] at this
      cases this
    · exact ⟨e, he, e', hp.mem_iff.2 he', hfin, hfin', by rw [← hid₁, ← hid₂]; exact h⟩

theorem jajobnetRunOn_ended (hb : ∀ j ∈ r₁, j.testFlag = b) {status : Status} {timeoutFlag tf : Bool}
    (h : decisionOn r₁ status timeoutFlag = .renew .ended tf) (t : Tables) (n icon : Id) :
    jajobnetRunOn r₁ t n icon status timeoutFlag =
      jajobnetRunSyncWith jaFlow t n icon (lastEnd 0 r₁) .ended tf := by
  unfold decisionOn at h
  unfold jajobnetRunOn
  cases hc : countRows r₁ with
  | none => simp [hc] at h
  | some c =>
    simp only [hc] at h
    simp only [h, (foldlM_add_last hb hc).1]

end

/-- The end of level 0 is rolled back. -/
theorem commit_level_zero (t : Tables) (icon i : Id) (timeoutFlag : Bool) :
    commit t (jajobnetRunSyncWith jaFlow t 0 icon i .ended timeoutFlag) = t := rfl

theorem Finished.one_end {rows : List Job} (h : Finished rows) {e e' : Job} (he : e ∈ rows) (he' : e' ∈ rows)
    (hfin : e.finishedEnd) (hfin' : e'.finishedEnd) : e = e' := by
  obtain ⟨x, hx⟩ := List.length_eq_one_iff.1 (List.countP_eq_length_filter ▸ h.ends)
  have hmem : ∀ j ∈ rows, j.finishedEnd → j = x := by
    intro j hj hf
    have : j ∈ rows.filter Job.finishedEnd := List.mem_filter.2 ⟨hj, hf⟩
    rw [hx] at this
    exact List.mem_singleton.1 this
  rw [hmem e he hfin, hmem e' he' hfin']

theorem Finished.perm {r r' : List Job} (hp : r.Perm r') : Finished r ↔ Finished r' := by
  have hto : ∀ {r r' : List Job}, r.Perm r' → Finished r → Finished r' := fun hp h =>
    ⟨hp.countP_eq _ ▸ h.start, hp.countP_eq _ ▸ h.ends, fun j hj => h.quiet j (hp.mem_iff.2 hj)⟩
  exact ⟨hto hp, hto hp.symm⟩

theorem orderFree_of {n : Id} {rows : List Job} {b : Bool} (hb : ∀ j ∈ rows, j.testFlag = b)
    (h : ¬Ambiguous n rows) : OrderFree n rows where
  same := by
    intro r₁ r₂ h₁ h₂ t _ icon status timeoutFlag hstatus
    have hb₁ : ∀ j ∈ r₁, j.testFlag = b := fun j hj => hb j (h₁.mem_iff.1 hj)
    have hb₂ : ∀ j ∈ r₂, j.testFlag = b := fun j hj => hb j (h₂.mem_iff.1 hj)
    have hp : r₁.Perm r₂ := h₁.trans h₂.symm
    by_cases hlast : lastEnd 0 r₁ = lastEnd 0 r₂
    · rw [jajobnetRunOn_congr hb₁ hp (.inl hlast)]
    by_cases hended : ∃ tf, decisionOn r₁ status timeoutFlag = .renew .ended tf
    · obtain ⟨e, he, e', he', hfin, hfin', hne⟩ := two_ends hp hlast
      cases b with
      | false =>
        -- a second finished END icon has left the loop
        have hone := ((decisionOn_finished hb₁ hstatus timeoutFlag).1 hended).one_end he he' hfin hfin'
        exact absurd (congrArg Job.innerJobId hone) hne
      | true =>
        obtain ⟨hstart, -, hdone⟩ := (decisionOn_done hb₁ hstatus timeoutFlag).1 hended
        have hn : n = 0 := by
          by_contra hn
          exact h ⟨hn, hb, fun j hj => hdone j (h₁.mem_iff.2 hj), h₁.countP_eq _ ▸ hstart,
            e, h₁.mem_iff.1 he, e', h₁.mem_iff.1 he', hfin, hfin', hne⟩
        obtain ⟨tf, hd⟩ := hended
        have hd₂ := (decisionOn_perm hb₁ hp status timeoutFlag).trans hd
        rw [hn, jajobnetRunOn_ended hb₁ hd, jajobnetRunOn_ended hb₂ hd₂, commit_level_zero, commit_level_zero]
    · rw [jajobnetRunOn_congr hb₁ hp (.inr hended)]
  ended := by
    intro hoff r hr status timeoutFlag hstatus
    exact (decisionOn_finished (fun j hj => hoff j (hr.mem_iff.1 hj)) hstatus timeoutFlag).trans (Finished.perm hr)

/-! ## Two orders of an ambiguous level -/

def netRow (n icon : Id) : Jobnet :=
  { innerJobnetId := n, innerJobnetMainId := n, innerJobId := icon, updateDate := 0, runType := .test,
    mainFlag := false, timeoutFlag := false, status := .run, scheduledTime := 0, multipleStartUp := .on,
    jobnetId := "", jobnetName := "", userName := "" }

/-- The jobnet icon of level `n`, which stands in level `n + 1`. -/
def iconRow (n k : Id) : Job :=
  { innerJobId := k, innerJobnetId := n + 1, innerJobnetMainId := n + 1, invoFlag := true, jobType := .jobnet,
    testFlag := true, methodFlag := .normal, timeoutFlag := false, status := .run, bootCount := 1, endCount := 1,
    jobId := "", continueFlag := false }

def exitCodeRow (seq : Nat) (owner n : Id) (code : Text) : ValueRow := ⟨seq, owner, n, "JOB_EXIT_CD", code⟩

/-- The level under the icon `k`; the END icons `e` and `e'` have different
exit codes. -/
def endTables (n k : Id) (rows : List Job) (e e' : Id) : Tables :=
  { Tables.empty with
    jobs := rows ++ [iconRow n k]
    jobnets := [netRow n k, netRow (n + 1) 0]
    iconJobnets := [⟨k, n + 1, n, ""⟩]
    after := [exitCodeRow 1 e n (ascii "0"), exitCodeRow 2 e' n (ascii "1")]
    nextSeq := 3 }

section
variable {n k e e' : Id} {rows : List Job}

theorem jobsOf_endTables (hn : ∀ j ∈ rows, j.innerJobnetId = n) :
    jobsOf (endTables n k rows e e') n = rows := by
  have hrows : rows.filter (fun j => j.innerJobnetId == n) = rows :=
    List.filter_eq_self.2 fun j hj => by simpa using hn j hj
  simp [jobsOf, endTables, List.filter_append, hrows, iconRow]

theorem endTables_loggable (hk : k ≠ 0) (hnew : ∀ j ∈ rows, j.innerJobId ≠ k) :
    Loggable (endTables n k rows e e') k where
  id := hk
  ready := by
    refine ⟨iconRow n k, ⟨?_, ⟨netRow (n + 1) 0, by simp [endTables], rfl⟩, nofun⟩, rfl⟩
    have hno : rows.find? (fun j => j.innerJobId == k) = none :=
      List.find?_eq_none.2 fun j hj => by simpa using hnew j hj
    simp [Tables.job?, Table.lookup, endTables, List.find?_append, hno, iconRow]
  afterSeq := by simp [endTables, exitCodeRow]

end

/-- The end of a stored jobnet. -/
theorem syncJobnet_ended {t : Tables} {n : Id} {r : Jobnet} (hr : t.jobnet? n = some r) (hn : n ≠ 0)
    (timeoutFlag : Bool) :
    ∃ log, syncJobnet t n .ended timeoutFlag =
      ({ setJobnet t n .ended timeoutFlag with jobnetAfter := cleanRows t.jobnetAfter n, log }, .succeed) := by
  have hok := jaJoblog_jobnet (t := (jaCleanValueJobnetAfter t n).1) hr hn .jobnetEnd
  obtain ⟨log, hlog⟩ := jaJoblog_eq (jaCleanValueJobnetAfter t n).1 .jobnetEnd n 0
  refine ⟨log, ?_⟩
  change andThen (jaJoblog (jaCleanValueJobnetAfter t n).1 .jobnetEnd n 0) _ = _
  rw [show jaJoblog (jaCleanValueJobnetAfter t n).1 .jobnetEnd n 0 = (_, Ret.succeed) from Prod.ext hlog hok,
    andThen_succeed]
  rfl

/-- One row of a name is not cleaned away. -/
theorem cleanRows_single {rows : List ValueRow} {owner : Id} {r : ValueRow}
    (h : (rows.filter fun r => r.owner == owner) = [r]) (hr : r.valueName ≠ "") : cleanRows rows owner = rows := by
  simp [cleanRows, h, cleanLoop, hr]

theorem jaSetEnderr_after (t : Tables) (i : Id) (msg : Bool) :
    (jaSetEnderr t i msg).1.after = cleanRows t.after i := by
  have hlog := jaJoblog_after (jaCleanValueAfter t i).1 .jobErrEnd 0 i
  cases msg with
  | false => rfl
  | true =>
    change (andThen (jaJoblog (jaCleanValueAfter t i).1 .jobErrEnd 0 i) _).1.after = _
    cases h : jaJoblog (jaCleanValueAfter t i).1 .jobErrEnd 0 i with
    | mk t₁ r =>
      rw [h] at hlog
      cases r <;> exact hlog

/-- The exit code copied to a jobnet icon without flows. -/
theorem syncIcon_code {t : Tables} {k i net : Id} {link : IconJobnet} {code : Text} (hl : Loggable t k)
    (hf : flowsFrom t k = []) (hlink : t.iconJobnet? k = some link) (hnet : link.innerJobnetId = net) (h0 : net ≠ 0)
    (hcode : jaGetValueAfter t i "JOB_EXIT_CD" = some code) (hnone : ∀ r ∈ t.after, r.owner ≠ k)
    (hseq : ∀ r ∈ t.after, r.seqNo ≠ t.nextSeq) (timeoutFlag : Bool) :
    ∃ t', syncIconWith jaFlow t k i .ended timeoutFlag = (t', .succeed) ∧
      t'.after = t.after ++ [exitCodeRow t.nextSeq k net (filterValue code)] := by
  obtain ⟨j, hj, hid⟩ := hl.ready
  let t₁ : Tables :=
    { t with after := t.after ++ [exitCodeRow t.nextSeq k net (filterValue code)], nextSeq := t.nextSeq + 1 }
  have hset : jaSetValueAfter t k net "JOB_EXIT_CD" code = (t₁, .succeed) := by
    simp [t₁, jaSetValueAfter, hl.id, h0, insertRows, exitCodeRow]
  have hone : (t₁.after.filter fun r => r.owner == k) = [exitCodeRow t.nextSeq k net (filterValue code)] := by
    have : (t.after.filter fun r => r.owner == k) = [] :=
      List.filter_eq_nil_iff.2 fun r hr => by simpa using hnone r hr
    rw [List.filter_append, this]
    simp [exitCodeRow]
  have hclean : cleanRows t₁.after k = t₁.after := cleanRows_single hone (by simp [exitCodeRow])
  have hl₁ : Loggable (jaCleanValueAfter t₁ k).1 k := by
    refine ⟨hl.id, ⟨j, ⟨hj.row, hj.jobnet, hj.agentless⟩, hid⟩, ?_⟩
    change ((cleanRows t₁.after k).map ValueRow.seqNo).Nodup
    rw [hclean, List.map_append, List.nodup_append]
    refine ⟨hl.afterSeq, by simp, fun a ha b hb => ?_⟩
    obtain ⟨r, hr, rfl⟩ := List.mem_map.1 ha
    obtain rfl := List.mem_singleton.1 hb
    exact hseq r hr
  obtain ⟨t', ht', -⟩ := jaSetEnderr_ok hl₁
  have hf₁ : flowsFrom t₁ k = [] := hf
  refine ⟨t', ?_, ?_⟩
  · simp only [syncIconWith, hlink, Option.map_some, Option.getD_some, hnet, hcode, hset, andThen_succeed]
    rw [jaFlow_no_flows hf₁, ht']
  · have := jaSetEnderr_after (jaCleanValueAfter t₁ k).1 k true
    rw [ht'] at this
    rw [this]
    change cleanRows (cleanRows t₁.after k) k = _
    rw [hclean, hclean]

section
variable {n k : Id} {rows : List Job}

/-- With `x` fetched last, the icon gets the exit code of `x`. -/
theorem endTables_commit (hn : n ≠ 0) (hk : k ≠ 0) (hnew : ∀ j ∈ rows, j.innerJobId ≠ k) {e e' x : Id} (he : e ≠ k)
    (he' : e' ≠ k) {code : Text} (hcode : jaGetValueAfter (endTables n k rows e e') x "JOB_EXIT_CD" = some code)
    (timeoutFlag : Bool) :
    (commit (endTables n k rows e e')
        (jajobnetRunSyncWith jaFlow (endTables n k rows e e') n k x .ended timeoutFlag)).after =
      (endTables n k rows e e').after ++ [exitCodeRow 3 k (n + 1) (filterValue code)] := by
  have hrow : (endTables n k rows e e').jobnet? n = some (netRow n k) := by
    simp [Tables.jobnet?, Table.lookup, endTables, netRow]
  obtain ⟨log, hsync⟩ := syncJobnet_ended hrow hn timeoutFlag
  have hl : Loggable { setJobnet (endTables n k rows e e') n .ended timeoutFlag with
      jobnetAfter := cleanRows (endTables n k rows e e').jobnetAfter n, log } k :=
    (endTables_loggable hk hnew).congr rfl (Table.map_update _ _ _ _ fun _ => rfl) rfl rfl
  have hlink : (endTables n k rows e e').iconJobnet? k = some ⟨k, n + 1, n, ""⟩ := by
    simp [Tables.iconJobnet?, Table.lookup, endTables]
  have howner : ∀ r ∈ (endTables n k rows e e').after, r.owner ≠ k := by
    simp [endTables, exitCodeRow, he, he']
  have hseq : ∀ r ∈ (endTables n k rows e e').after, r.seqNo ≠ 3 := by
    simp [endTables, exitCodeRow]
  obtain ⟨t', ht', hafter⟩ := syncIcon_code hl rfl hlink rfl (Nat.succ_ne_zero n) hcode howner hseq timeoutFlag
  rw [jajobnetRunSyncWith, hsync, andThen_succeed, if_neg hk, ht']
  exact hafter

theorem not_orderFree (hlevel : ∀ j ∈ rows, j.innerJobnetId = n) (h : Ambiguous n rows) : ¬OrderFree n rows := by
  obtain ⟨e, he, e', he', hfin, hfin', hne⟩ := h.ends
  obtain ⟨k, hk⟩ := Infinite.exists_notMem_finset (0 :: rows.map Job.innerJobId).toFinset
  simp only [List.mem_toFinset, List.mem_cons, List.mem_map, not_or, not_exists, not_and] at hk
  obtain ⟨hk0, hnew⟩ := hk
  have hnew : ∀ j ∈ rows, j.innerJobId ≠ k := hnew
  let t := endTables n k rows e.innerJobId e'.innerJobId
  -- each of the two END icons may come last
  have hlast : ∀ {x : Job}, x ∈ rows → x.finishedEnd → ∀ {code : Text},
      jaGetValueAfter t x.innerJobId "JOB_EXIT_CD" = some code → ∃ r : List Job, r.Perm rows ∧
        (commit t (jajobnetRunOn r t n k .run false)).after =
          t.after ++ [exitCodeRow 3 k (n + 1) (filterValue code)] := by
    intro x hx hxfin code hcode
    have hp : (rows.erase x ++ [x]).Perm rows :=
      List.perm_append_comm.trans (List.perm_cons_erase hx).symm
    have hb : ∀ j ∈ rows.erase x ++ [x], j.testFlag = true := fun j hj => h.test j (hp.mem_iff.1 hj)
    have hend : x.jobType = .endIcon := by
      have := hxfin
      simp only [Job.finishedEnd, decide_eq_true_eq] at this
      exact this.1
    obtain ⟨tf, hd⟩ := (decisionOn_done hb (.inl rfl) false).2
      ⟨(hp.countP_eq _).trans h.start, ⟨x, by simp, hend⟩, fun j hj => h.done j (hp.mem_iff.1 hj)⟩
    refine ⟨_, hp, ?_⟩
    rw [jajobnetRunOn_ended hb hd, lastEnd_concat _ _ hxfin]
    exact endTables_commit h.level hk0 hnew (hnew e he) (hnew e' he') hcode tf
  obtain ⟨r, hr, hcode⟩ := hlast he hfin
    (show jaGetValueAfter t e.innerJobId "JOB_EXIT_CD" = some (ascii "0") by
      simp [t, jaGetValueAfter, endTables, exitCodeRow])
  obtain ⟨r', hr', hcode'⟩ := hlast he' hfin'
    (show jaGetValueAfter t e'.innerJobId "JOB_EXIT_CD" = some (ascii "1") by
      simp [t, jaGetValueAfter, endTables, exitCodeRow, hne])
  intro hfree
  have hsame := hfree.same hr hr' t (by rw [jobsOf_endTables hlevel]) k .run false (.inl rfl)
  rw [hsame, hcode', List.append_cancel_left_eq] at hcode
  simp only [exitCodeRow, List.cons.injEq, ValueRow.mk.injEq, true_and, and_true] at hcode
  exact absurd hcode (by decide)

end

/-! ## A branch with two ends, in test mode -/

def testIcon (i n : Id) (ty : JobType) (s : Status) : Job :=
  { innerJobId := i, innerJobnetId := n, innerJobnetMainId := 1, invoFlag := true, jobType := ty, testFlag := true,
    methodFlag := .normal, timeoutFlag := false, status := s, bootCount := 1, endCount := 1, jobId := "",
    continueFlag := false }

def oneEnd : List Job := [testIcon 4 2 .startIcon .ended, testIcon 5 2 .endIcon .ended]

def twoEnds : List Job := oneEnd ++ [testIcon 6 2 .endIcon .ended]

/-- Jobnet 1, in test mode: START, the icon 2 of jobnet 2, END. -/
def branchTables : Tables :=
  { Tables.empty with
    jobs := [testIcon 1 1 .startIcon .ended, testIcon 2 1 .jobnet .run, testIcon 3 1 .endIcon .begin] ++ twoEnds
    flows := [⟨1, 1, 1, 2, .normal⟩, ⟨2, 1, 2, 3, .normal⟩, ⟨3, 2, 4, 5, .normal⟩, ⟨4, 2, 4, 6, .normal⟩]
    jobnets := [{ netRow 1 0 with mainFlag := true }, { netRow 2 2 with innerJobnetMainId := 1 }]
    iconJobnets := [⟨2, 1, 2, ""⟩]
    after := [exitCodeRow 1 5 2 (ascii "0"), exitCodeRow 2 6 2 (ascii "1")]
    nextSeq := 3 }

end JobArranger
