import JobArranger.L5Server.Result

/-!
# What a SUCCEED answer promises

An agent that is answered with SUCCEED closes its job and never sends the
result again. `jatrap_jobresult` takes the results of `ja_flow` and
`ja_set_runerr` for granted: when one of their statements fails, or a flow is
rejected, it still answers with SUCCEED.

* `fireAll`: the selected flows applied to their targets, one after the
  other; `loopRejects_iff`: the loop of `ja_flow` meets a rejection exactly
  when this is impossible.
* `jobresult_answer`: when the answer is SUCCEED, for every pattern of
  failing statements; `noticed` is the number of statements whose failure
  is seen.
* `success_answer_completes`: the answer keeps its promise exactly when no
  failure and no rejection comes after them.
-/
namespace JobArranger

open Tables Prog

/-! ## Flows applied -/

/-- A flow to `endInnerJobId` applied to its target: the target counts up and
gets the variables of `i`, or stays as it is in test mode. -/
def fire (t : Tables) (i endInnerJobId : Id) : Option Tables := do
  let j ← t.job? endInnerJobId
  match flowCount j with
  | .keep => some t
  | .reject => none
  | .count status endCount =>
    if j.jobType = .jobnet ∧ status = .ready then do
      let link ← t.iconJobnet? endInnerJobId
      let t := resetJobs t link.linkInnerJobnetId
      some (jaValueAfterBefore (setCount t endInnerJobId status endCount) i endInnerJobId).1
    else some (jaValueAfterBefore (setCount t endInnerJobId status endCount) i endInnerJobId).1

/-- All selected flows, in their order. -/
def fireAll (i : Id) (type : FlowType) : List Flow → Tables → Option Tables
  | [], t => some t
  | f :: fs, t =>
    if flowSelected type f.flowType then (fire t i f.endInnerJobId).bind (fireAll i type fs)
    else fireAll i type fs t

/-- Every selected flow of `i` was applied between `t` and `t'`, and then `i`
ended. -/
def FlowsApplied (i : Id) (t t' : Tables) : Prop :=
  ∃ t₁, fireAll i .normal (flowsFrom t i) t = some t₁ ∧ t'.jobs = (jaSetStatusJob t₁ i .ended).1.jobs ∧
    t'.before = t₁.before

theorem fire_none {t : Tables} {i k : Id} : fire t i k = none ↔ rejects t k = true := by
  unfold fire rejects
  cases t.job? k with
  | none => simp
  | some j =>
    simp only [Option.bind_eq_bind, Option.bind_some]
    cases flowCount j with
    | keep => simp
    | reject => simp
    | count s n =>
      dsimp only
      by_cases hj : j.jobType = .jobnet ∧ s = .ready
      · rw [if_pos hj]
        cases t.iconJobnet? k <;> simp [hj.1, hj.2]
      · rw [if_neg hj]
        simp only [reduceCtorEq, decide_eq_true_eq, false_iff]
        exact fun h => hj ⟨h.1, h.2.1⟩

theorem fire_some {t t' : Tables} {i k : Id} (h : fire t i k = some t') :
    jaFlowSetStatus t i k = (t', .succeed) := by
  unfold fire at h
  unfold jaFlowSetStatus
  cases hj : t.job? k with
  | none => simp [hj] at h
  | some j =>
    simp only [hj, Option.bind_eq_bind, Option.bind_some] at h ⊢
    cases hc : flowCount j with
    | keep =>
      simp only [hc, Option.some.injEq] at h
      rw [h]
    | reject => simp [hc] at h
    | count s n =>
      simp only [hc] at h ⊢
      by_cases hn : j.jobType = .jobnet ∧ s = .ready
      · rw [if_pos hn] at h ⊢
        cases hl : t.iconJobnet? k with
        | none => simp [hl] at h
        | some link =>
          simp only [hl, Option.bind_some, Option.some.injEq] at h
          dsimp only
          rw [← h]
          rfl
      · rw [if_neg hn] at h ⊢
        rw [← Option.some.inj h]
        rfl

theorem flowLoop_fireAll {i : Id} {type : FlowType} {fs : List Flow} {t t' : Tables}
    (h : fireAll i type fs t = some t') : flowLoop i type fs t = (t', .succeed) := by
  induction fs generalizing t with
  | nil =>
    rw [← Option.some.inj h]
    rfl
  | cons f fs ih =>
    rw [fireAll] at h
    rw [flowLoop]
    split at h
    · rename_i hsel
      rw [if_pos hsel]
      obtain ⟨t₁, hf, hrest⟩ := Option.bind_eq_some_iff.1 h
      rw [fire_some hf, andThen_succeed]
      exact ih hrest
    · rename_i hsel
      rw [if_neg hsel]
      exact ih h

/-- The loop meets a rejection exactly when the flows cannot all be applied. -/
theorem loopRejects_iff {i : Id} {type : FlowType} {fs : List Flow} {t : Tables} :
    loopRejects i type fs t = true ↔ fireAll i type fs t = none := by
  induction fs generalizing t with
  | nil => simp [loopRejects, fireAll]
  | cons f fs ih =>
    rw [loopRejects, fireAll]
    split
    · cases hf : fire t i f.endInnerJobId with
      | none => simp [fire_none.1 hf]
      | some t₁ =>
        have hn : rejects t f.endInnerJobId = false := by
          by_contra hr
          rw [fire_none.2 (by simpa using hr)] at hf
          cases hf
        rw [hn, fire_some hf, Option.bind_some, Bool.false_or]
        exact ih
    · exact ih

/-- Whether a flow can be applied is a matter of the jobs and the jobnet
icons. -/
theorem fire_congr {t t' : Tables} (hj : t'.jobs = t.jobs) (hl : t'.iconJobnets = t.iconJobnets) (i k : Id) :
    (fire t' i k).map (fun t => (t.jobs, t.iconJobnets)) = (fire t i k).map fun t => (t.jobs, t.iconJobnets) := by
  have hrow : t'.job? k = t.job? k := by rw [Tables.job?, Tables.job?, hj]
  have hlink : t'.iconJobnet? k = t.iconJobnet? k := by rw [Tables.iconJobnet?, Tables.iconJobnet?, hl]
  unfold fire
  rw [hrow, hlink]
  cases t.job? k with
  | none => rfl
  | some j =>
    simp only [Option.bind_eq_bind, Option.bind_some]
    cases flowCount j with
    | keep => simp [hj, hl]
    | reject => rfl
    | count s n =>
      dsimp only
      split
      · cases t.iconJobnet? k with
        | none => rfl
        | some link => simp [jaValueAfterBefore, setCount, resetJobs, updateJobs, hj, hl]
      · simp [jaValueAfterBefore, setCount, updateJobs, hj, hl]

theorem fireAll_congr {i : Id} {type : FlowType} {fs : List Flow} {t t' : Tables} (hj : t'.jobs = t.jobs)
    (hl : t'.iconJobnets = t.iconJobnets) : fireAll i type fs t' = none ↔ fireAll i type fs t = none := by
  induction fs generalizing t t' with
  | nil => simp [fireAll]
  | cons f fs ih =>
    rw [fireAll, fireAll]
    split
    · have hc := fire_congr hj hl i f.endInnerJobId
      cases hf : fire t i f.endInnerJobId with
      | none =>
        rw [hf, Option.map_none, Option.map_eq_none_iff] at hc
        rw [hc]
      | some t₁ =>
        rw [hf, Option.map_some, Option.map_eq_some_iff] at hc
        obtain ⟨t₁', hf', he⟩ := hc
        rw [hf', Option.bind_some, Option.bind_some]
        exact ih (congrArg Prod.fst he) (congrArg Prod.snd he)
    · exact ih hj hl

theorem flowRejected_congr {t t' : Tables} (h : StatusEq t t') (i : Id) (type : FlowType) :
    flowRejected t' i type = flowRejected t i type := by
  rw [Bool.eq_iff_iff]
  unfold flowRejected
  rw [loopRejects_iff, loopRejects_iff, flowsFrom_congr h.flows]
  exact fireAll_congr h.jobs h.iconJobnets

theorem jaSetEnd_writes {t : Tables} {i : Id} (h : Loggable t i) :
    (jaSetEnd t i true).1.jobs = (jaSetStatusJob t i .ended).1.jobs ∧ (jaSetEnd t i true).1.before = t.before := by
  obtain ⟨t₁, h₁, -, -⟩ := h.log .jobEnd
  have hres : jaSetEnd t i true = jaSetStatusJob t₁ i .ended := by
    change andThen (andThen (jaCleanValueAfter t i) fun t => jaJoblog t .jobEnd 0 i) _ = _
    rw [h₁]
    rfl
  have he : t₁ = (jaJoblog (jaCleanValueAfter t i).1 .jobEnd 0 i).1 := (congrArg Prod.fst h₁).symm
  obtain ⟨log, hlog⟩ := jaJoblog_eq (jaCleanValueAfter t i).1 .jobEnd 0 i
  rw [hres, he, hlog]
  exact ⟨rfl, rfl⟩

/-- With no rejection, `ja_flow` of a running jobnet applies every selected
flow and ends the icon. -/
theorem jaFlow_applied {t : Tables} {i : Id} (h : Loggable t i) (ho : FlowOpen t i)
    (hrej : flowRejected t i .normal = false) :
    FlowsApplied i (jaCleanValueAfter t i).1 (jaFlow t i .normal true).1 := by
  have hall : ∃ t₁, fireAll i .normal (flowsFrom t i) (jaCleanValueAfter t i).1 = some t₁ := by
    apply Option.ne_none_iff_exists'.1
    intro hn
    rw [flowRejected, loopRejects_iff.2 hn] at hrej
    cases hrej
  obtain ⟨t₁, h₁⟩ := hall
  have hloop := flowLoop_fireAll h₁
  have hl₁ : Loggable t₁ i := by
    have hc := h.of_steps (frame_steps (jaCleanValueAfter_status t i)) (cleanRows_sublist _ i)
    obtain ⟨f, fs, hfs, hs⟩ := ho
    have hok : ∃ t', flowLoop i .normal (flowsFrom t i) (jaCleanValueAfter t i).1 = (t', .succeed) ∧ Loggable t' i :=
      flowLoop_ok hc ⟨f, fs, hfs, hs⟩ fun g hg => hg
    obtain ⟨t', ht', hl'⟩ := hok
    rw [hloop] at ht'
    obtain ⟨rfl, -⟩ := Prod.mk.inj ht'
    exact hl'
  refine ⟨t₁, h₁, ?_⟩
  rw [jaFlow_running ho, hloop, andThen_succeed]
  exact jaSetEnd_writes hl₁

/-! ## The answer -/

section
variable (codes : StopCodes) (logs : String → Nat) (job : JobResult) (row : Job)

/-- The result is neither a failure report, nor for an aborted job, nor the
end by a signal: the return code decides. -/
def JudgedByCode : Prop := job.result = 0 ∧ row.status ≠ .abort ∧ job.signal ≠ 1

instance : Decidable (JudgedByCode job row) := inferInstanceAs (Decidable (_ ∧ _ ∧ _))

/-- The return code is one of a normal end.
mirrors src/jobarg_server/jatrapper/jatrapjobresult.c:363-399 -/
def goodCode : Bool :=
  match row.jobType with
  | .job => (codes.code job.jobid).any fun code => codes.numberMatch (intText job.returnCode) code = 0
  | .fwait => job.returnCode = 0 ∨ job.returnCode = 1
  | .reboot => job.returnCode = 0
  | _ => false

def NormalEnd : Prop := JudgedByCode job row ∧ goodCode codes job row = true

instance : Decidable (NormalEnd codes job row) := inferInstanceAs (Decidable (_ ∧ _))

/-- The select of the stop code. -/
def stopCodeReads : Nat := if row.jobType = .job ∧ JudgedByCode job row then 1 else 0

/-- The statements of `ja_host_unlock`. -/
def unlocks : Nat := if row.jobType = .reboot then 2 else 0

/-- The statements whose failure `jatrap_jobresult` sees, from the first on:
the select of the row, the inserts of the variables, the select of the stop
code, and before a run error `JOBARG_MESSAGE`. The unlock of a host is seen
only through that insert. -/
def noticed : Nat :=
  1 + job.values.length + stopCodeReads job row + if NormalEnd codes job row then 0 else unlocks row + 1

/-! ### The checks -/

theorem setValues_ok {i n : Id} (hi : i ≠ 0) (hn : n ≠ 0) (vs : List (String × Text)) (t : Tables) :
    (setValues i n vs).cost t = vs.length ∧ ((setValues i n vs).clean t).2 = .succeed := by
  induction vs generalizing t with
  | nil => exact ⟨rfl, rfl⟩
  | cons v vs ih =>
    have hv : ((Stmt.jaSetValueAfter i n v.1 v.2).clean t).2 = .succeed := by
      rw [Stmt.clean_jaSetValueAfter, jaSetValueAfter, if_neg (by simp [hi, hn])]
    obtain ⟨hc, hr⟩ := ih ((Stmt.jaSetValueAfter i n v.1 v.2).clean t).1
    constructor
    · rw [setValues, Stmt.cost_andThen _ _ _ hv, Stmt.cost_jaSetValueAfter hi hn, hc, List.length_cons]
      exact Nat.add_comm _ _
    · rw [setValues, Stmt.clean_andThen, ← Prod.eta ((Stmt.jaSetValueAfter i n v.1 v.2).clean t), hv, andThen_succeed]
      exact hr

theorem guarded_setValues (i n : Id) (vs : List (String × Text)) : (setValues i n vs).Guarded (· = .fail) := by
  induction vs with
  | nil => trivial
  | cons v vs ih => exact Stmt.guarded_andThen (Stmt.guarded_jaSetValueAfter i n v.1 v.2) ih

/-- A failure in the checks is seen. -/
theorem guarded_checkedRow : (checkedRow job).Guarded (· = none) := by
  have hfetch : ((Stmt.fetch 0 (·.job? job.jobid)).onFst : Prog ServerDb (Option Job)).Guarded (· = none) :=
    (Stmt.guarded_fetch _).onFst
  apply hfetch.bind
  · intro o ho
    rw [ho]
    rfl
  · intro o
    cases o with
    | none => trivial
    | some r =>
      dsimp only
      split
      · trivial
      · have hset : ((jatrapJobresultSetValue job r.innerJobnetId).onFst : Prog ServerDb Ret).Guarded (· = .fail) :=
          (guarded_setValues _ _ _).onFst
        apply hset.bind
        · intro ret hret
          rw [hret]
          rfl
        · intro ret
          cases ret <;> trivial

variable {job row}

/-- For a stored job that is RUN or ABORT the checks pass. -/
theorem checkedRow_ok {s : ServerDb} (hid : job.jobid ≠ 0) (hnet : row.innerJobnetId ≠ 0)
    (hrow : s.1.job? job.jobid = some row) (hopen : row.status = .run ∨ row.status = .abort) :
    (checkedRow job).cost s = 1 + job.values.length ∧ ((checkedRow job).clean s).2 = some row := by
  have hst : ¬ (row.status ≠ .run ∧ row.status ≠ .abort) := by
    rcases hopen with h | h <;> simp [h]
  obtain ⟨hcost, hok⟩ := setValues_ok hid hnet job.values s.1
  have hfetch : (Stmt.fetch 0 (·.job? job.jobid)).cost s.1 = 1 := by
    rw [Stmt.fetch, cost_bind, clean_select, Option.bind_some, hrow]
    rfl
  constructor
  · rw [checkedRow, cost_bind, cost_onFst, hfetch, clean_onFst, Stmt.clean_fetch]
    dsimp only
    rw [hrow]
    dsimp only
    rw [if_neg hst, cost_bind, cost_onFst, clean_onFst, jatrapJobresultSetValue, hcost, hok]
    rfl
  · rw [checkedRow, clean_bind, clean_onFst, Stmt.clean_fetch]
    dsimp only
    rw [hrow]
    dsimp only
    rw [if_neg hst, clean_bind, clean_onFst, jatrapJobresultSetValue, hok]
    rfl

/-! ### The verdict -/

variable (job row)

theorem unlockHost_cost (s : ServerDb) : (unlockHost job row).cost s = unlocks row := by
  unfold unlockHost unlocks
  split <;> rfl

theorem verdict_unjudged {job : JobResult} {row : Job} (h : ¬ JudgedByCode job row) :
    ∃ iconStatus msg, verdict codes job row = pure (.error iconStatus msg) := by
  unfold verdict
  split
  · exact ⟨_, _, rfl⟩
  split
  · exact ⟨_, _, rfl⟩
  split
  · exact ⟨_, _, rfl⟩
  · rename_i hr ha hs
    exact absurd ⟨not_not.1 hr, ha, hs⟩ h

theorem verdict_cost (s : ServerDb) : (verdict codes job row).cost s = stopCodeReads job row := by
  unfold stopCodeReads
  by_cases h : JudgedByCode job row
  · obtain ⟨hr, ha, hs⟩ := id h
    rw [verdict, if_neg (not_not.2 hr), if_neg ha, if_neg hs]
    split
    · rename_i hj
      rw [if_pos ⟨hj, h⟩, cost_bind, cost_select]
      dsimp only [clean_select]
      split
      · rfl
      · split <;> rfl
    · rename_i hj
      have hnot : ¬ (row.jobType = .job ∧ JudgedByCode job row) := by simp [hj]
      rw [if_neg hnot]
      split <;> rfl
    · rename_i hj
      have hnot : ¬ (row.jobType = .job ∧ JudgedByCode job row) := by simp [hj]
      rw [if_neg hnot]
      split <;> rfl
    · rename_i hj _ _
      rw [if_neg fun hc => hj hc.1]
      rfl
  · obtain ⟨st, msg, hv⟩ := verdict_unjudged codes h
    rw [hv, if_neg fun hc => h hc.2]
    rfl

theorem verdict_normal (s : ServerDb) : ((verdict codes job row).clean s).2 = .normal ↔ NormalEnd codes job row := by
  by_cases h : JudgedByCode job row
  · have hg : NormalEnd codes job row ↔ goodCode codes job row = true := and_iff_right h
    obtain ⟨hr, ha, hs⟩ := h
    rw [hg, verdict, goodCode, if_neg (not_not.2 hr), if_neg ha, if_neg hs]
    generalize row.jobType = jobType
    cases jobType
    case job =>
      simp only [clean_bind, clean_select, Option.bind_some]
      cases codes.code job.jobid with
      | none => simp
      | some code =>
        dsimp only
        split <;> simp [*]
    case fwait =>
      dsimp only
      split <;> simp [*]
    case reboot =>
      dsimp only
      split <;> simp [*]
    all_goals simp
  · obtain ⟨st, msg, hv⟩ := verdict_unjudged codes h
    rw [hv]
    simp only [clean_pure, reduceCtorEq, false_iff]
    exact fun hn => h hn.1

/-- A stop code that could not be read kills the process. -/
theorem guarded_verdict : (verdict codes job row).Guarded (· = .crash) := by
  unfold verdict
  split
  · trivial
  split
  · trivial
  split
  · trivial
  split
  · have hsel : (select : Prog ServerDb (Option ServerDb)).Guarded (· = none) := ⟨rfl, fun _ => trivial⟩
    apply hsel.bind
    · intro o ho
      rw [ho]
      rfl
    · intro o
      split
      · trivial
      · split <;> trivial
  · split <;> trivial
  · split <;> trivial
  · trivial

/-- The verdict is one of the two that complete the job. -/
def Verdict.completes : Verdict → Bool
  | .normal | .error _ _ => true
  | _ => false

/-! ### The completion -/

variable {job} {fault : Nat → Bool}

/-- After a normal end the answer is SUCCEED whatever happens; before a run
error only the insert of `JOBARG_MESSAGE` is looked at. -/
theorem complete_answer {n : Id} (hid : job.jobid ≠ 0) (hn : n ≠ 0) (v : Verdict) (x : Txn ServerDb) :
    ((complete logs job n v).run fault x).2 = .succeed ↔
      v.completes = true ∧ (v = .normal ∨ x.failed = false ∧ fault x.sent = false) := by
  cases v with
  | normal => simp [complete, run_bind, Verdict.completes, Prog.run, pure]
  | error iconStatus msg =>
    have hset : (Stmt.jaSetValueAfter job.jobid n "JOBARG_MESSAGE" msg).onFst.run fault x =
        if x.failed ∨ fault x.sent then (⟨x.tables, true, x.sent + 1⟩, .fail)
        else (⟨((jaSetValueAfter x.tables.1 job.jobid n "JOBARG_MESSAGE" msg).1, x.tables.2), false, x.sent + 1⟩,
          .succeed) := by
      simp only [Stmt.jaSetValueAfter, hid, hn, or_self, if_false]
      rfl
    rw [complete, run_bind, hset]
    by_cases hx : x.failed = true ∨ fault x.sent = true
    · rw [if_pos hx]
      simp only [Prog.run, pure, reduceCtorEq, false_or, false_iff, not_and, Bool.not_eq_false]
      intro _ hf
      rcases hx with hx | hx
      · rw [hx] at hf
        cases hf
      · exact hx
    · rw [if_neg hx]
      rw [not_or, Bool.not_eq_true, Bool.not_eq_true] at hx
      simp only [run_bind, Prog.run, pure, Verdict.completes, true_and, true_iff]
      exact .inr hx
  | unknown => simp [complete, Verdict.completes, Prog.run, pure]
  | crash => simp [complete, Verdict.completes, Prog.run, pure]

variable {codes} {row : Job}

theorem verdict_result (s s' : ServerDb) :
    ((verdict codes job row).clean s).2 = ((verdict codes job row).clean s').2 := by
  unfold verdict
  split
  · rfl
  split
  · rfl
  split
  · rfl
  split
  · simp only [clean_bind, clean_select, Option.bind_some]
    cases codes.code job.jobid with
    | none => rfl
    | some code =>
      dsimp only
      split <;> rfl
  · split <;> rfl
  · split <;> rfl
  · rfl

/-- After the checks: a failure in the unlock only shows in the message of a
run error, one in the select of the stop code always. -/
theorem finish_answer {s : ServerDb} {n : Nat} (hid : job.jobid ≠ 0) (hnet : row.innerJobnetId ≠ 0) :
    ((unlockHost job row >>= fun _ => verdict codes job row >>= fun v => complete logs job row.innerJobnetId v).run
        fault ⟨s, false, n⟩).2 = .succeed ↔
      ((verdict codes job row).clean s).2.completes = true ∧ Spared fault n (stopCodeReads job row) ∧
        (NormalEnd codes job row ∨ Spared fault n (unlocks row + stopCodeReads job row + 1)) := by
  rw [run_bind]
  by_cases hread : stopCodeReads job row = 0
  · have hv : verdict codes job row = pure ((verdict codes job row).clean s).2 :=
      eq_pure_of_cost (by rw [verdict_cost, hread])
    have hn := verdict_normal codes job row s
    generalize ((verdict codes job row).clean s).2 = v at hv hn ⊢
    rw [hv]
    change ((complete logs job row.innerJobnetId v).run fault ((unlockHost job row).run fault ⟨s, false, n⟩).1).2 =
      .succeed ↔ _
    rw [complete_answer logs hid hnet, hread, hn, Nat.add_zero, spared_add, spared_one]
    by_cases hu : Spared fault n (unlocks row)
    · rw [run_clean _ (by rwa [unlockHost_cost]), unlockHost_cost]
      simp [hu]
    · rw [run_hit _ (by rwa [unlockHost_cost])]
      simp [hu]
  · have hjob : row.jobType = .job ∧ stopCodeReads job row = 1 := by
      unfold stopCodeReads at hread ⊢
      split at hread
      · rename_i hj
        exact ⟨hj.1, if_pos hj⟩
      · exact absurd rfl hread
    have hunlock : unlockHost job row = pure () := by simp [unlockHost, hjob.1]
    have hzero : unlocks row = 0 := by simp [unlocks, hjob.1]
    rw [hunlock, hjob.2, hzero, Nat.zero_add, spared_add, spared_one, spared_one]
    change ((verdict codes job row >>= fun v => complete logs job row.innerJobnetId v).run fault ⟨s, false, n⟩).2 =
      .succeed ↔ _
    rw [run_bind, complete_answer logs hid hnet]
    have hcost : (verdict codes job row).cost s = 1 := by rw [verdict_cost, hjob.2]
    by_cases hf : fault n = false
    · rw [run_clean _ (by rwa [hcost, spared_one]), hcost, verdict_normal]
      simp [hf]
    · have hit : ¬ Spared fault n ((verdict codes job row).cost s) := by rwa [hcost, spared_one]
      have hcrash : ((verdict codes job row).run fault ⟨s, false, n⟩).2 = .crash :=
        (guarded_verdict codes job row).run rfl (run_hit _ hit)
      rw [hcrash]
      simp [hf, Verdict.completes]

/-- **When the answer is SUCCEED**: the verdict completes the job, and no
statement fails whose failure is noticed. -/
theorem jobresult_answer {s : ServerDb} (hid : job.jobid ≠ 0) (hnet : row.innerJobnetId ≠ 0)
    (hrow : s.1.job? job.jobid = some row) (hopen : row.status = .run ∨ row.status = .abort) :
    ((jobresultBody codes logs job).run fault ⟨s, false, 0⟩).2 = .succeed ↔
      ((verdict codes job row).clean s).2.completes = true ∧ Spared fault 0 (noticed codes job row) := by
  obtain ⟨hcost, hok⟩ := checkedRow_ok hid hnet hrow hopen
  rw [jobresultBody, run_bind]
  by_cases hc : Spared fault 0 (1 + job.values.length)
  · rw [run_clean _ (by rwa [hcost]), hok, hcost, Nat.zero_add]
    dsimp only
    rw [finish_answer logs hid hnet, verdict_result _ s]
    have hrest : Spared fault 0 (noticed codes job row) ↔ Spared fault (1 + job.values.length)
        (stopCodeReads job row + if NormalEnd codes job row then 0 else unlocks row + 1) := by
      rw [noticed, Nat.add_assoc (1 + _), spared_add, Nat.zero_add]
      exact and_iff_right hc
    rw [hrest]
    apply and_congr_right
    intro _
    by_cases hn : NormalEnd codes job row
    · simp [hn]
    · rw [if_neg hn, show stopCodeReads job row + (unlocks row + 1) = unlocks row + stopCodeReads job row + 1 by omega]
      simp only [hn, false_or]
      constructor
      · exact fun h => h.2
      · intro h
        exact ⟨fun m h1 h2 => h m h1 (by omega), h⟩
  · have hit : ¬ Spared fault 0 ((checkedRow job).cost s) := by rwa [hcost]
    have hnone : ((checkedRow job).run fault ⟨s, false, 0⟩).2 = none :=
      (guarded_checkedRow job).run rfl (run_hit _ hit)
    rw [hnone]
    have hlen : ¬ Spared fault 0 (noticed codes job row) := by
      intro h
      rw [noticed, Nat.add_assoc, spared_add] at h
      exact hc h.1
    simp [hlen, Prog.run, pure]

/-! ## The promise -/

variable (job row) in
/-- The tables `ja_flow` finds: with the variables of the result. -/
def resultTables (t : Tables) : Tables :=
  (jaSetValueAfter ((setValues job.jobid row.innerJobnetId job.values).clean t).1 job.jobid row.innerJobnetId
    "ICON_STATUS" (ascii "0")).1

/-- Icon `i` has completed between `t` and `t'`: it is in END, RUNERR or
ENDERR, and in END its selected flows were applied. -/
def Completed (i : Id) (t t' : Tables) : Prop :=
  ∃ row', t'.job? i = some row' ∧ (row'.status = .ended ∨ row'.status = .runErr ∨ row'.status = .endErr) ∧
    (row'.status = .ended → FlowsApplied i (jaCleanValueAfter t i).1 t')

variable (codes job row) in
/-- The telegram is a normal end, and a selected flow of the job is rejected
although its jobnet is running. -/
def EndRejected (t : Tables) : Prop :=
  NormalEnd codes job row ∧ FlowOpen t job.jobid ∧ flowRejected t job.jobid .normal = true

theorem jaFlow_completes {t : Tables} {i : Id} (h : Loggable t i) :
    Completed i t (jaFlow t i .normal true).1 ↔ ¬ (FlowOpen t i ∧ flowRejected t i .normal = true) := by
  obtain ⟨t', st, he, hstatus, hcase⟩ := jaFlow_closes h
  obtain ⟨row', hrow', rfl⟩ := Option.map_eq_some_iff.1 hstatus
  rcases hcase with ⟨ho, hend⟩ | ⟨ho, hend⟩
  · simp only [ho, true_and, Bool.not_eq_true]
    constructor
    · intro hc
      obtain ⟨r, hr, -, happ⟩ := hc
      rw [he, hrow'] at hr
      obtain ⟨t₁, hall, -⟩ := happ (Option.some.inj hr ▸ hend)
      by_contra hrej
      rw [Bool.not_eq_false, flowRejected, loopRejects_iff] at hrej
      cases hall.symm.trans hrej
    · intro hrej
      refine ⟨row', ?_, .inl hend, fun _ => jaFlow_applied h ho hrej⟩
      rw [he]
      exact hrow'
  · simp only [ho, false_and, not_false_eq_true, iff_true]
    refine ⟨row', ?_, ?_, ?_⟩
    · rw [he]
      exact hrow'
    · exact .inr hend.symm
    · intro hc
      rw [hc] at hend
      simp at hend

/-- Whether the completion meets a rejection does not depend on the
variables. -/
theorem endRejected_congr {t t' : Tables} (h : StatusEq t t') (i : Id) :
    FlowOpen t' i ∧ flowRejected t' i .normal = true ↔ FlowOpen t i ∧ flowRejected t i .normal = true := by
  have hnets : SameNets t t' := (frame_steps (i := i) h).sameNets
  have hback : SameNets t' t :=
    ⟨hnets.flows.symm, hnets.jobnets.symm, hnets.summaries.symm, hnets.iconJobnets.symm, hnets.agentless.symm⟩
  rw [flowRejected_congr h]
  exact and_congr_left fun _ => ⟨fun ho => ho.congr hback, fun ho => ho.congr hnets⟩

/-- Without failures an answered completion keeps the promise, unless a flow
is rejected. -/
theorem clean_completed {s : ServerDb} (hs : Sound s.1 job.jobid) (hid : job.jobid ≠ 0) (hnet : row.innerJobnetId ≠ 0)
    (hrow : s.1.job? job.jobid = some row) (hopen : row.status = .run ∨ row.status = .abort)
    (hv : ((verdict codes job row).clean s).2.completes = true) :
    Completed job.jobid (resultTables job row s.1) ((jobresultBody codes logs job).clean s).1.1 ↔
      ¬ EndRejected codes job row s.1 := by
  obtain ⟨-, hok⟩ := checkedRow_ok hid hnet hrow hopen
  obtain ⟨-, -, hchecked⟩ := checkedRow_clean job s hok
  obtain ⟨hst, hsound⟩ := setValues_clean hs job.jobid row.innerJobnetId job.values
  rw [EndRejected, ← verdict_normal codes job row s, jobresultBody, clean_bind, hok]
  simp only [clean_bind, verdict_clean]
  have hunlock := unlockHost_clean job row ((checkedRow job).clean s).1
  rw [verdict_result _ s]
  generalize ((unlockHost job row).clean ((checkedRow job).clean s).1).1 = u at hunlock ⊢
  rw [hchecked] at hunlock
  cases hverdict : ((verdict codes job row).clean s).2 with
  | normal =>
    simp only [complete, clean_bind, clean_onFst, Stmt.clean_jaSetValueAfter, Stmt.clean_jaFlow, clean_pure, hunlock,
      true_and]
    change Completed job.jobid (resultTables job row s.1)
      (jaFlow (resultTables job row s.1) job.jobid .normal true).1 ↔ _
    have hst' : StatusEq s.1 (resultTables job row s.1) := hst.trans (jaSetValueAfter_status _ _ _ _ _)
    have hlog : Loggable (resultTables job row s.1) job.jobid := (hsound.setValue _ _ _ _).log
    rw [jaFlow_completes hlog, endRejected_congr hst']
  | error iconStatus msg =>
    simp only [reduceCtorEq, false_and, not_false_eq_true, iff_true]
    have hset : (jaSetValueAfter u.1 job.jobid row.innerJobnetId "JOBARG_MESSAGE" msg).2 = .succeed := by
      rw [jaSetValueAfter, if_neg (by simp [hid, hnet])]
    obtain ⟨t', he, hstatus⟩ := jaSetRunerr_closes
      ((hunlock ▸ hsound : Sound u.1 job.jobid).setValue job.jobid row.innerJobnetId "JOBARG_MESSAGE" msg) iconStatus
    simp only [complete, clean_bind, clean_onFst, Stmt.clean_jaSetValueAfter, hset, Stmt.clean_jaSetRunerr, clean_pure,
      he]
    obtain ⟨row', hrow', hend⟩ := Option.map_eq_some_iff.1 hstatus
    refine ⟨row', hrow', .inr (.inl hend), fun hc => ?_⟩
    rw [hc] at hend
    cases hend
  | unknown =>
    rw [hverdict] at hv
    cases hv
  | crash =>
    rw [hverdict] at hv
    cases hv

theorem jatrapJobresult_some (s : ServerDb) :
    jatrapJobresult codes logs fault (some job) s =
      (if ((jobresultBody codes logs job).run fault ⟨s, false, 0⟩).2 = .succeed
        then ((jobresultBody codes logs job).run fault ⟨s, false, 0⟩).1.commit s else s,
        ((jobresultBody codes logs job).run fault ⟨s, false, 0⟩).2) := by
  unfold jatrapJobresult
  dsimp only
  obtain ⟨txn, answer⟩ := (jobresultBody codes logs job).run fault ⟨s, false, 0⟩
  cases answer <;> rfl

/-- The statements of a telegram for which there is no completion. -/
theorem cost_refused {s : ServerDb} (hid : job.jobid ≠ 0) (hnet : row.innerJobnetId ≠ 0)
    (hrow : s.1.job? job.jobid = some row) (hopen : row.status = .run ∨ row.status = .abort)
    (hv : ((verdict codes job row).clean s).2.completes = false) :
    (jobresultBody codes logs job).cost s ≤ noticed codes job row := by
  obtain ⟨hcost, hok⟩ := checkedRow_ok hid hnet hrow hopen
  have hn : ¬ NormalEnd codes job row := by
    rw [← verdict_normal codes job row s]
    intro he
    rw [he] at hv
    cases hv
  rw [jobresultBody, cost_bind, hcost, hok, noticed, if_neg hn]
  simp only [cost_bind, unlockHost_cost, verdict_cost]
  rw [verdict_result _ s]
  cases hverdict : ((verdict codes job row).clean s).2 with
  | normal | error =>
    rw [hverdict] at hv
    cases hv
  | unknown | crash =>
    simp only [complete, cost_pure]
    omega

variable (codes job row fault) in
/-- When no failure is noticed there is none, and no flow of a normal end is
rejected. -/
def NothingMissed (s : ServerDb) : Prop :=
  Spared fault 0 (noticed codes job row) →
    Spared fault 0 ((jobresultBody codes logs job).cost s) ∧ ¬ EndRejected codes job row s.1

variable (codes job row fault) in
/-- **A SUCCEED answer means that the job has completed**, exactly when
nothing is missed: on every table state of the schema, for every job in RUN
or ABORT, every result for it and every pattern of failing statements. -/
theorem success_answer_completes (s : ServerDb) (hstored : Stored s.1) (hrow : s.1.job? job.jobid = some row)
    (hopen : row.status = .run ∨ row.status = .abort) (hnet : row.innerJobnetId ≠ 0) :
    ((jatrapJobresult codes logs fault (some job) s).2 = .succeed →
      Completed job.jobid (resultTables job row s.1) (jatrapJobresult codes logs fault (some job) s).1.1) ↔
      NothingMissed codes logs job fault row s := by
  have hs : Sound s.1 job.jobid := hstored.sound hrow
  have hid : job.jobid ≠ 0 := hs.log.id
  have hanswer : ((jobresultBody codes logs job).run fault ⟨s, false, 0⟩).2 = .succeed ↔
      ((verdict codes job row).clean s).2.completes = true ∧ Spared fault 0 (noticed codes job row) :=
    jobresult_answer logs hid hnet hrow hopen
  rw [jatrapJobresult_some, NothingMissed]
  cases hv : ((verdict codes job row).clean s).2.completes with
  | false =>
    -- the answer is never SUCCEED, and every failure counts as noticed
    rw [hv] at hanswer
    simp only [Bool.false_eq_true, false_and, iff_false] at hanswer
    simp only [hanswer, false_implies, true_iff]
    intro hspared
    refine ⟨fun m h1 h2 => hspared m h1 ?_, fun hend => ?_⟩
    · have hle : (jobresultBody codes logs job).cost s ≤ noticed codes job row :=
        cost_refused logs hid hnet hrow hopen hv
      omega
    · rw [(verdict_normal codes job row s).2 hend.1] at hv
      cases hv
  | true =>
    rw [hv] at hanswer
    simp only [true_and] at hanswer
    rw [← hanswer]
    apply imp_congr_right
    intro hyes
    rw [if_pos hyes]
    by_cases hspared : Spared fault 0 ((jobresultBody codes logs job).cost s)
    · rw [run_clean _ hspared]
      simp only [hspared, true_and]
      exact clean_completed logs hs hid hnet hrow hopen hv
    · -- a failure nobody saw: the commit is a rollback
      have hback : ((jobresultBody codes logs job).run fault ⟨s, false, 0⟩).1.commit s = s := by
        rw [Txn.commit, if_pos (run_hit _ hspared)]
      rw [hback]
      simp only [hspared, false_and, iff_false]
      intro hc
      obtain ⟨row', hrow', hend, -⟩ := hc
      rw [hrow] at hrow'
      cases hrow'
      rcases hopen with h | h <;> simp [h] at hend

end

/-- Without failures the normal end of job 1 of `stopTables` keeps the
promise. -/
theorem success_answer_completes_stop :
    (jatrapJobresult noStopCode (fun _ => 0) (fun _ => false) (some endResult) (stopTables, [])).2 = .succeed ∧
      Completed 1 (resultTables endResult stopRow stopTables)
        (jatrapJobresult noStopCode (fun _ => 0) (fun _ => false) (some endResult) (stopTables, [])).1.1 := by
  have hyes : (jatrapJobresult noStopCode (fun _ => 0) (fun _ => false) (some endResult) (stopTables, [])).2 =
      .succeed := by decide +kernel
  refine ⟨hyes, ?_⟩
  apply (success_answer_completes noStopCode (fun _ => 0) endResult (fun _ => false) stopRow (stopTables, [])
    stopTables_stored (by decide) (by decide) (by decide)).2
  · intro _
    refine ⟨fun _ _ _ => rfl, fun hend => ?_⟩
    have hrej : flowRejected stopTables 1 .normal = false := by decide +kernel
    exact absurd hend.2.2 (by rw [show endResult.jobid = 1 from rfl, hrej]; simp)
  · exact hyes

/-- The update of the flow's target fails: the answer is SUCCEED, and the job
is still in RUN. -/
theorem success_answer_lost :
    (jatrapJobresult noStopCode (fun _ => 0) (· = 11) (some endResult) (stopTables, [])).2 = .succeed ∧
      ¬ Completed 1 (resultTables endResult stopRow stopTables)
        (jatrapJobresult noStopCode (fun _ => 0) (· = 11) (some endResult) (stopTables, [])).1.1 := by
  refine ⟨by decide +kernel, fun hc => ?_⟩
  obtain ⟨row', hrow', hend, -⟩ := hc
  have hrun : ((jatrapJobresult noStopCode (fun _ => 0) (· = 11) (some endResult) (stopTables, [])).1.1.job? 1).map
      Job.status = some .run := by decide +kernel
  rw [hrow', Option.map_some, Option.some.injEq] at hrun
  rw [hrun] at hend
  simp at hend

end JobArranger
