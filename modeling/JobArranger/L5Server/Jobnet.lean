import JobArranger.L2Status.Flow

/-!
# Jobnets (`jobarg_server/jajobnet/*.c`, `jarun/jaruniconjobnet.c`)

The jobnet process runs `process_jajobnet_summary` and then
`process_jajobnet`, each over the stored rows of one select, one transaction
a row. A sub-jobnet hangs on a jobnet icon: `jarun_icon_jobnet` makes it
READY, `jajobnet_ready` starts its START icon, and `jajobnet_run` derives
its status from the icons and passes every change on to the icon
(`jajobnet_run_sync`), or to the summary for a main jobnet.

* `RunCounts`: the counters of the fetch loop of `jajobnet_run`.
* `runDecision`: which status `jajobnet_run` passes on, from the counters
  and the jobnet row alone.
* `jajobnetRunWith`: `jajobnet_run` over any `ja_flow`, so that the calls of
  `ja_flow` can be seen.
* `jajobnetKill`: the abort; the calls that stop a running icon on its agent
  are a parameter.
-/
namespace JobArranger

open Tables

/-! ## `jajobnet_run` -/

/-- The first switch of `jajobnet_run_sync`: the jobnet row.
mirrors src/jobarg_server/jajobnet/jajobnetrun.c:73-98 -/
def syncJobnet (t : Tables) (innerJobnetId : Id) (status : Status) (timeoutFlag : Bool) : Tables × Ret :=
  match status with
  | .run =>
    (t.updateJobnets (·.innerJobnetId == innerJobnetId) fun n => { n with status := .run, timeoutFlag },
      .succeed)
  | .ended => jaSetEndJobnet t innerJobnetId
  | .runErr => jaSetRunerrJobnet t innerJobnetId
  | .endErr => jaSetEnderrJobnet t innerJobnetId
  | _ => (t, .fail)

/-- The summary of a main jobnet.
mirrors src/jobarg_server/jajobnet/jajobnetrun.c:101-122 -/
def syncSummary (t : Tables) (innerJobnetId : Id) (status : Status) (timeoutFlag : Bool) : Tables × Ret :=
  let jobStatus : SummaryJobStatus := match status with
    | .runErr | .endErr => .error
    | _ => if timeoutFlag then .timeout else .normal
  jaSetJobstatus t innerJobnetId (if status = .ended then .ended else .run) jobStatus

/-- The type of `ja_flow(inner_job_id, flow_type, msg_flag)`. -/
abbrev FlowFn := Tables → Id → FlowType → Bool → Tables × Ret

/-- The jobnet icon of a sub-jobnet, with `ja_flow` as `flow`.
mirrors src/jobarg_server/jajobnet/jajobnetrun.c:124-166 -/
def syncIconWith (flow : FlowFn) (t : Tables) (iconJobnetId iconEndId : Id) (status : Status)
    (timeoutFlag : Bool) : Tables × Ret :=
  match status with
  | .run =>
    (t.updateJobs (·.innerJobId == iconJobnetId) fun j => { j with status := .run, timeoutFlag }, .succeed)
  | .ended =>
    let iconInnerJobnetId := ((t.iconJobnet? iconJobnetId).map IconJobnet.innerJobnetId).getD 0
    match jaGetValueAfter t iconEndId "JOB_EXIT_CD" with
    | none => (t, .fail)
    | some exitCode =>
      andThen (jaSetValueAfter t iconJobnetId iconInnerJobnetId "JOB_EXIT_CD" exitCode) fun t =>
        flow t iconJobnetId .normal true
  | .runErr => jaSetRunerrWith (fun t => flow t iconJobnetId .normal false) t iconJobnetId 2
  | .endErr => jaSetEnderr t iconJobnetId false
  | _ => (t, .fail)

/-- mirrors src/jobarg_server/jajobnet/jajobnetrun.c:51-170 -/
def jajobnetRunSyncWith (flow : FlowFn) (t : Tables) (innerJobnetId iconJobnetId iconEndId : Id)
    (status : Status) (timeoutFlag : Bool) : Tables × Ret :=
  andThen (syncJobnet t innerJobnetId status timeoutFlag) fun t =>
    if iconJobnetId = 0 then syncSummary t innerJobnetId status timeoutFlag
    else syncIconWith flow t iconJobnetId iconEndId status timeoutFlag

/-- The counters of `jajobnet_run`. -/
structure RunCounts where
  iconEndId : Id := 0
  testFlag : Bool := false
  count : Nat := 0
  readyCnt : Nat := 0
  runCnt : Nat := 0
  runerrCnt : Nat := 0
  endCnt : Nat := 0
  startIcons : Nat := 0
  endIcons : Nat := 0
  endIconsEnd : Nat := 0
  timeoutCnt : Nat := 0
  deriving DecidableEq, Repr

/-- One fetched row; `none` is `goto error`.
mirrors src/jobarg_server/jajobnet/jajobnetrun.c:219-279 -/
def RunCounts.add (c : RunCounts) (j : Job) : Option RunCounts :=
  let c := { c with
    testFlag := j.testFlag
    count := c.count + 1
    timeoutCnt := c.timeoutCnt + if j.timeoutFlag then 1 else 0
    startIcons := c.startIcons + if j.jobType = .startIcon then 1 else 0
    endIcons := c.endIcons + if j.jobType = .endIcon then 1 else 0 }
  let counted : Option RunCounts := match j.status with
    | .begin => some c
    | .ready => some { c with readyCnt := c.readyCnt + 1 }
    | .run => some { c with runCnt := c.runCnt + 1 }
    | .ended =>
      if j.jobType = .endIcon then
        some { c with endCnt := c.endCnt + 1, iconEndId := j.innerJobId, endIconsEnd := c.endIconsEnd + 1 }
      else some { c with endCnt := c.endCnt + 1 }
    | .runErr | .abort =>
      if j.continueFlag then some { c with endCnt := c.endCnt + 1 }
      else some { c with runerrCnt := c.runerrCnt + 1 }
    | .endErr => none
  counted.bind fun c => if 1 < c.endIconsEnd ∧ c.testFlag = false then none else some c

/-- `select … from ja_run_job_table where inner_jobnet_id = …`. -/
def jobsOf (t : Tables) (innerJobnetId : Id) : List Job :=
  t.jobs.filter fun j => j.innerJobnetId == innerJobnetId

def countJobs (t : Tables) (innerJobnetId : Id) : Option RunCounts :=
  (jobsOf t innerJobnetId).foldlM RunCounts.add {}

/-- What `jajobnet_run` passes on: an error, nothing, or a status and a
timeout flag. -/
inductive RunDecision where
  | error
  | keep
  | renew (status : Status) (timeoutFlag : Bool)
  deriving DecidableEq, Repr

/-- The status part: RUN and RUNERR follow `runerr_cnt`. -/
def resetStatus (c : RunCounts) (status : Status) : Status :=
  if status = .run ∧ 0 < c.runerrCnt then .runErr
  else if status = .runErr ∧ c.runerrCnt = 0 then .run
  else status

/-- mirrors src/jobarg_server/jajobnet/jajobnetrun.c:293-361 -/
def runDecision (c : RunCounts) (status : Status) (timeoutFlag : Bool) : RunDecision :=
  if c.startIcons ≠ 1 then .error
  else if c.endIcons = 0 then .error
  else if c.testFlag = false ∧ 0 < c.endIconsEnd ∧
      (0 < c.readyCnt ∨ 0 < c.runCnt ∨ 0 < c.runerrCnt) then .error
  else
    let ended : Bool := if c.testFlag then c.count = c.endCnt else 0 < c.endIconsEnd
    let renewStatus := if ended then .ended else resetStatus c status
    let renewTimeout : Bool := 0 < c.timeoutCnt
    -- END is passed on even when the row already says so
    if ended ∨ renewStatus ≠ status ∨ renewTimeout ≠ timeoutFlag then .renew renewStatus renewTimeout
    else .keep

/-- `jajobnet_run`, with `ja_flow` as `flow`.
mirrors src/jobarg_server/jajobnet/jajobnetrun.c:185-367 -/
def jajobnetRunWith (flow : FlowFn) (t : Tables) (innerJobnetId iconJobnetId : Id) (status : Status)
    (timeoutFlag : Bool) : Tables × Ret :=
  match countJobs t innerJobnetId with
  | none => jajobnetRunSyncWith flow t innerJobnetId iconJobnetId 0 .endErr false
  | some c =>
    match runDecision c status timeoutFlag with
    | .error => jajobnetRunSyncWith flow t innerJobnetId iconJobnetId c.iconEndId .endErr false
    | .keep => (t, .succeed)
    | .renew status timeoutFlag =>
      jajobnetRunSyncWith flow t innerJobnetId iconJobnetId c.iconEndId status timeoutFlag

def jajobnetRun : Tables → Id → Id → Status → Bool → Tables × Ret := jajobnetRunWith jaFlow

/-- What `jajobnet_run` passes on, with the loop's error exit. -/
def decision (t : Tables) (n : Id) (status : Status) (timeoutFlag : Bool) : RunDecision :=
  match countJobs t n with
  | none => .error
  | some c => runDecision c status timeoutFlag

/-- `continue_flag` of the icon, as `ja_set_runerr` reads it. -/
def continues (t : Tables) (icon : Id) : Bool := ((t.job? icon).map Job.continueFlag).getD false

/-! ## `jajobnet_ready` -/

/-- The jobnet variables a start writes; their results are not checked.
mirrors src/jobarg_server/jajobnet/jajobnetready.c:68-93 -/
def readyValues (t : Tables) (n : Jobnet) (bootTime : Text) : Tables :=
  let set (t : Tables) (name : String) (value : Text) : Tables :=
    (jaSetValueJobnetBefore t n.innerJobnetId name value).1
  let t := set t "JOBNET_ID" (ascii n.jobnetId)
  let t := set t "JOBNET_NAME" (ascii n.jobnetName)
  let t := set t "USER_NAME" (ascii n.userName)
  let t := set t "MANAGEMENT_ID" (ascii (toString n.innerJobnetId))
  if n.mainFlag then
    let t := set t "JOBNET_BOOT_TIME" bootTime
    if n.scheduledTime = 0 then set t "JOBNET_SCHEDULED_TIME" []
    else set t "JOBNET_SCHEDULED_TIME" (ascii (toString n.scheduledTime))
  else t

/-- `bootTime` is the current time.
mirrors src/jobarg_server/jajobnet/jajobnetready.c:50-130 -/
def jajobnetReady (t : Tables) (innerJobnetId : Id) (bootTime : Text) : Tables × Ret :=
  match t.jobnet? innerJobnetId with
  | none => jaSetEnderrJobnet t innerJobnetId
  | some n =>
    andThen (jaSetRunJobnet (readyValues t n bootTime) innerJobnetId) fun t =>
      match t.jobs.filter fun j => j.innerJobnetId == innerJobnetId && j.jobType == .startIcon with
      | [start] =>
        andThen (jaValueBeforeJobnetOut t innerJobnetId start.innerJobId) fun t =>
          jaSetStatusJob t start.innerJobId .ready
      | _ => jaSetEnderrJobnet t innerJobnetId

/-! ## Starting and aborting -/

/-- mirrors src/jobarg_server/jajobnet/jajobnetsummaryready.c:45-65 -/
def jajobnetSummaryReady (t : Tables) (innerJobnetId : Id) : Tables × Ret :=
  andThen (jaSetStatusJobnet t innerJobnetId .ready) fun t => jaSetStatusJobnetSummary t innerJobnetId .run

/-- mirrors src/jobarg_server/jarun/jaruniconjobnet.c:49-86 -/
def jarunIconJobnet (t : Tables) (innerJobId : Id) : Tables × Ret :=
  match t.iconJobnet? innerJobId with
  | none => jaSetRunerr t innerJobId 2
  | some link =>
    match jaSetStatusJobnet t link.linkInnerJobnetId .ready with
    | (t, .fail) => jaSetRunerr t innerJobId 2
    | (t, .succeed) =>
      match jaValueBeforeJobnetIn t innerJobId link.linkInnerJobnetId with
      | (t, .fail) => jaSetRunerr t innerJobId 2
      | (t, .succeed) =>
        if jaGetStatusJobnet t link.linkInnerJobnetId ≠ some .ready then jaSetRunerr t innerJobId 2
        else (t, .succeed)

/-- The three updates and the delete of `jajobnet_kill`.
mirrors src/jobarg_server/jajobnet/jajobnetkill.c:78-112 -/
def killUpdates (t : Tables) (m : Id) : Tables :=
  let t := t.updateJobs (fun j => j.innerJobnetMainId == m && j.status == .ready) fun j =>
    { j with status := .begin }
  let t := t.updateJobs (fun j => j.innerJobnetMainId == m && j.jobType == .jobnet &&
    (j.status == .run || j.status == .runErr)) fun j => { j with status := .endErr }
  let t := t.updateJobnets (fun n => n.innerJobnetMainId == m &&
    (n.status == .run || n.status == .runErr)) fun n => { n with status := .endErr }
  { t with sessions := t.sessions.filter fun s => !(s.innerJobnetMainId == m) }

/-- The jobs still READY or RUN. -/
def liveJobs (t : Tables) (m : Id) : List Job :=
  t.jobs.filter fun j => j.innerJobnetMainId == m && (j.status == .ready || j.status == .run)

/-- `stop` is `jarun_icon_job(…, KILL)`, `jajob_icon_extjob_kill`,
`jarun_icon_fwait(…, KILL)` or `jajob_icon_less_abort`, by job type.
mirrors src/jobarg_server/jajobnet/jajobnetkill.c:52-159 -/
def jajobnetKill (stop : Tables → Job → Tables) (t : Tables) (m : Id) : Tables × Ret :=
  let t := killUpdates t m
  let live := liveJobs t m
  if live = [] then jaSetJobstatus t m .endErr .error
  else
    (live.foldl (fun t j => if j.status = .run ∧
      (j.jobType = .job ∨ j.jobType = .extjob ∨ j.jobType = .fwait ∨ j.jobType = .less)
      then stop t j else t) t, .succeed)

/-! ## Transactions -/

/-- `DBcommit` on `SUCCEED`, `DBrollback` else. -/
def commit (t : Tables) (r : Tables × Ret) : Tables :=
  match r with
  | (t', .succeed) => t'
  | (_, .fail) => t

/-- A transaction is rolled back, or its writes are committed. -/
theorem commit_cases (t : Tables) (r : Tables × Ret) : commit t r = t ∨ (r.2 = .succeed ∧ commit t r = r.1) := by
  obtain ⟨t', ret⟩ := r
  cases ret with
  | succeed => exact .inr ⟨rfl, rfl⟩
  | fail => exact .inl rfl

/-- One row of `process_jajobnet`: the jobnet, its icon, and the timeout flag
and status of the select.
mirrors src/jobarg_server/jajobnet/jajobnet.c:155-180 -/
def processJajobnetRow (t : Tables) (innerJobnetId iconJobnetId : Id) (timeoutFlag : Bool) (status : Status)
    (bootTime : Text) : Tables :=
  match status with
  | .ready => commit t (jajobnetReady t innerJobnetId bootTime)
  | .run | .runErr => commit t (jajobnetRun t innerJobnetId iconJobnetId status timeoutFlag)
  | _ => t

/-- One row of `process_jajobnet_summary`.
mirrors src/jobarg_server/jajobnet/jajobnet.c:79-110 -/
def processSummaryRow (stop : Tables → Job → Tables) (t : Tables) (innerJobnetId : Id) (status : Status)
    (jobnetAbortFlag : Bool) : Tables :=
  match status with
  | .ready => commit t (jajobnetSummaryReady t innerJobnetId)
  | .run =>
    if jobnetAbortFlag then
      let (t', ret) := jajobnetKill stop t innerJobnetId
      -- the log line is written whatever the kill returned
      commit t ((jaJoblog t' .jobnetErrEnd innerJobnetId 0).1, ret)
    else t
  | _ => t

/-! ## The counters -/

/-- An icon whose error stops its jobnet. -/
def Job.errored (j : Job) : Bool := (j.status = .runErr ∨ j.status = .abort) ∧ j.continueFlag = false

/-- What the fetch loop has counted, from `c₀`. -/
structure CountsOf (js : List Job) (c₀ c : RunCounts) : Prop where
  start : c.startIcons = c₀.startIcons + js.countP (·.jobType = .startIcon)
  ends : c.endIcons = c₀.endIcons + js.countP (·.jobType = .endIcon)
  ready : c.readyCnt = c₀.readyCnt + js.countP (·.status = .ready)
  run : c.runCnt = c₀.runCnt + js.countP (·.status = .run)
  runerr : c.runerrCnt = c₀.runerrCnt + js.countP Job.errored
  endsEnd : c.endIconsEnd = c₀.endIconsEnd + js.countP fun j => j.jobType = .endIcon ∧ j.status = .ended
  timeout : c.timeoutCnt = c₀.timeoutCnt + js.countP Job.timeoutFlag
  count : c.count = c₀.count + js.length
  ended : c.endCnt + js.countP (·.status = .begin) + c.readyCnt + c.runCnt + c.runerrCnt + c₀.count =
    c₀.endCnt + c₀.readyCnt + c₀.runCnt + c₀.runerrCnt + c.count
  noEnderr : ∀ j ∈ js, j.status ≠ .endErr

theorem RunCounts.add_spec {c c' : RunCounts} {j : Job} (h : c.add j = some c') : CountsOf [j] c c' := by
  unfold RunCounts.add at h
  obtain ⟨d, hd, hc⟩ := Option.bind_eq_some_iff.1 h
  split at hc
  · cases hc
  obtain rfl := Option.some.inj hc
  cases hs : j.status with
  | endErr => simp [hs] at hd
  | begin | ready | run =>
    simp only [hs, Option.some.injEq] at hd
    subst hd
    constructor <;> simp [hs, Job.errored, List.countP_cons]
    omega
  | ended | runErr | abort =>
    simp only [hs] at hd
    split at hd
    all_goals
      rename_i ht
      obtain rfl := Option.some.inj hd
      constructor <;> simp [hs, ht, Job.errored, List.countP_cons]
      omega

theorem CountsOf.trans {js js' : List Job} {c₀ c₁ c : RunCounts} (h : CountsOf js c₀ c₁)
    (h' : CountsOf js' c₁ c) : CountsOf (js ++ js') c₀ c where
  start := by rw [h'.start, h.start, List.countP_append]; omega
  ends := by rw [h'.ends, h.ends, List.countP_append]; omega
  ready := by rw [h'.ready, h.ready, List.countP_append]; omega
  run := by rw [h'.run, h.run, List.countP_append]; omega
  runerr := by rw [h'.runerr, h.runerr, List.countP_append]; omega
  endsEnd := by rw [h'.endsEnd, h.endsEnd, List.countP_append]; omega
  timeout := by rw [h'.timeout, h.timeout, List.countP_append]; omega
  count := by rw [h'.count, h.count, List.length_append]; omega
  ended := by
    have h1 := h.ended
    have h2 := h'.ended
    rw [List.countP_append]
    omega
  noEnderr := by
    intro j hj
    rcases List.mem_append.1 hj with hj | hj
    · exact h.noEnderr j hj
    · exact h'.noEnderr j hj

theorem foldlM_add_spec {js : List Job} {c₀ c : RunCounts} (h : js.foldlM RunCounts.add c₀ = some c) :
    CountsOf js c₀ c := by
  induction js generalizing c₀ with
  | nil =>
    obtain rfl := Option.some.inj h
    constructor <;> simp
  | cons j js ih =>
    obtain ⟨c₁, h1, h2⟩ := Option.bind_eq_some_iff.1 h
    exact (RunCounts.add_spec h1).trans (ih h2)

theorem countJobs_spec {t : Tables} {n : Id} {c : RunCounts} (h : countJobs t n = some c) :
    CountsOf (jobsOf t n) {} c := foldlM_add_spec h

/-- Without icons in END or ENDERR the loop reaches its end. -/
theorem foldlM_add_some {js : List Job} (h : ∀ j ∈ js, j.status ≠ .endErr ∧ j.status ≠ .ended)
    {c₀ : RunCounts} (h0 : c₀.endIconsEnd = 0) : ∃ c, js.foldlM RunCounts.add c₀ = some c := by
  induction js generalizing c₀ with
  | nil => exact ⟨c₀, rfl⟩
  | cons j js ih =>
    obtain ⟨he, hd⟩ := h j List.mem_cons_self
    have hadd : ∃ c₁, c₀.add j = some c₁ := by
      refine Option.isSome_iff_exists.1 ?_
      unfold RunCounts.add
      cases hs : j.status with
      | endErr => exact absurd hs he
      | ended => exact absurd hs hd
      | begin | ready | run => simp [h0]
      | runErr | abort => cases hc : j.continueFlag <;> simp [h0]
    obtain ⟨c₁, h1⟩ := hadd
    have h2 : c₁.endIconsEnd = 0 := by
      rw [(RunCounts.add_spec h1).endsEnd, h0]
      simp [hd]
    obtain ⟨c, hc⟩ := ih (fun k hk => h k (List.mem_cons_of_mem _ hk)) h2
    exact ⟨c, by rw [List.foldlM_cons, h1]; exact hc⟩

/-- When a status is passed on: END with nothing READY, RUN or in error
(every icon done, in test mode), else the status that follows `runerr_cnt`. -/
theorem runDecision_renew {c : RunCounts} {status s : Status} {timeoutFlag tf : Bool}
    (h : runDecision c status timeoutFlag = .renew s tf) :
    c.startIcons = 1 ∧ c.endIcons ≠ 0 ∧
      ((s = .ended ∧ if c.testFlag then c.count = c.endCnt
          else c.readyCnt = 0 ∧ c.runCnt = 0 ∧ c.runerrCnt = 0) ∨
        s = resetStatus c status) := by
  unfold runDecision at h
  split at h
  · cases h
  rename_i hstart
  split at h
  · cases h
  rename_i hend
  split at h
  · cases h
  rename_i hbusy
  refine ⟨not_not.1 hstart, hend, ?_⟩
  have hs : (if (if c.testFlag then decide (c.count = c.endCnt) else decide (0 < c.endIconsEnd)) = true
      then Status.ended else resetStatus c status) = s := by
    dsimp only at h
    by_cases hcond : (if c.testFlag then decide (c.count = c.endCnt) else decide (0 < c.endIconsEnd)) = true ∨
        (if (if c.testFlag then decide (c.count = c.endCnt) else decide (0 < c.endIconsEnd)) = true
          then Status.ended else resetStatus c status) ≠ status ∨ decide (0 < c.timeoutCnt) ≠ timeoutFlag
    · rw [if_pos hcond] at h
      exact (RunDecision.renew.inj h).1
    · rw [if_neg hcond] at h
      cases h
  by_cases hended : (if c.testFlag then decide (c.count = c.endCnt) else decide (0 < c.endIconsEnd)) = true
  · rw [if_pos hended] at hs
    refine .inl ⟨hs.symm, ?_⟩
    cases htest : c.testFlag with
    | true => simpa [htest] using hended
    | false =>
      simp only [htest, Bool.false_eq_true, if_false, decide_eq_true_eq] at hended ⊢
      simp only [htest, true_and] at hbusy
      omega
  · rw [if_neg hended] at hs
    exact .inr hs.symm

/-! ## What a synchronisation writes -/

/-- The jobnet row with a status passed on by `jajobnet_run_sync`; the
timeout flag is stored with RUN only. -/
def Jobnet.sync (n : Jobnet) (status : Status) (timeoutFlag : Bool) : Jobnet :=
  if status = .run then { n with status, timeoutFlag } else { n with status }

def setJobnet (t : Tables) (n : Id) (status : Status) (timeoutFlag : Bool) : Tables :=
  t.updateJobnets (·.innerJobnetId == n) fun r => r.sync status timeoutFlag

theorem StatusEq.updateJobnets {t t' : Tables} (h : StatusEq t t') (p : Jobnet → Bool) (f : Jobnet → Jobnet) :
    StatusEq (t.updateJobnets p f) (t'.updateJobnets p f) :=
  ⟨h.jobs, h.flows, congrArg (Table.update p f) h.jobnets, h.summaries, h.iconJobnets, h.agentless⟩

theorem StatusEq.updateJobs {t t' : Tables} (h : StatusEq t t') (p : Job → Bool) (f : Job → Job) :
    StatusEq (t.updateJobs p f) (t'.updateJobs p f) :=
  ⟨congrArg (Table.update p f) h.jobs, h.flows, h.jobnets, h.summaries, h.iconJobnets, h.agentless⟩

theorem StatusEq.updateSummaries {t t' : Tables} (h : StatusEq t t') (p : Summary → Bool)
    (f : Summary → Summary) : StatusEq (t.updateSummaries p f) (t'.updateSummaries p f) :=
  ⟨h.jobs, h.flows, h.jobnets, congrArg (Table.update p f) h.summaries, h.iconJobnets, h.agentless⟩

theorem jaSetJobstatus_writes (t : Tables) (n : Id) (s : Status) (js : SummaryJobStatus) :
    StatusEq (t.updateSummaries (·.innerJobnetId == n) fun x => { x with status := s, jobStatus := js })
      (jaSetJobstatus t n s js).1 := by
  unfold jaSetJobstatus
  dsimp only
  split <;> exact ⟨rfl, rfl, rfl, rfl, rfl, rfl⟩

/-- The jobnet row is written, nothing else the status logic reads. -/
theorem syncJobnet_spec {t t' : Tables} {n : Id} {status : Status} {timeoutFlag : Bool}
    (h : syncJobnet t n status timeoutFlag = (t', .succeed)) :
    StatusEq (setJobnet t n status timeoutFlag) t' := by
  have hclean : StatusEq t (jaCleanValueJobnetAfter t n).1 := ⟨rfl, rfl, rfl, rfl, rfl, rfl⟩
  cases status with
  | run =>
    obtain ⟨rfl, -⟩ := Prod.mk.inj h
    exact .rfl' _
  | ended =>
    have hlog := jaJoblog_status (jaCleanValueJobnetAfter t n).1 .jobnetEnd n 0
    simp only [syncJobnet, jaSetEndJobnet] at h
    rw [show jaCleanValueJobnetAfter t n = ((jaCleanValueJobnetAfter t n).1, .succeed) from rfl,
      andThen_succeed] at h
    cases hl : jaJoblog (jaCleanValueJobnetAfter t n).1 .jobnetEnd n 0 with
    | mk t₁ r =>
      rw [hl] at h hlog
      cases r with
      | fail => cases h
      | succeed =>
        obtain ⟨rfl, -⟩ := Prod.mk.inj h
        exact (hclean.trans hlog).updateJobnets _ _
  | runErr =>
    obtain ⟨rfl, -⟩ := Prod.mk.inj h
    exact hclean.updateJobnets _ _
  | endErr =>
    obtain ⟨rfl, -⟩ := Prod.mk.inj h
    exact hclean.updateJobnets _ _
  | begin => cases h
  | ready => cases h
  | abort => cases h

theorem readyValues_status (t : Tables) (n : Jobnet) (bootTime : Text) :
    StatusEq t (readyValues t n bootTime) := by
  have hset : ∀ {t t' : Tables} (name : String) (value : Text), StatusEq t t' →
      StatusEq t (jaSetValueJobnetBefore t' n.innerJobnetId name value).1 := fun name value h =>
    h.trans (jaSetValueJobnetBefore_status _ _ name value)
  have h := hset "MANAGEMENT_ID" (ascii (toString n.innerJobnetId))
    (hset "USER_NAME" (ascii n.userName) (hset "JOBNET_NAME" (ascii n.jobnetName)
      (hset "JOBNET_ID" (ascii n.jobnetId) (.rfl' t))))
  unfold readyValues
  dsimp only
  split
  · split
    · exact hset _ _ (hset _ _ h)
    · exact hset _ _ (hset _ _ h)
  · exact h

theorem jaSetRunJobnet_spec {t t' : Tables} {n : Id} (h : jaSetRunJobnet t n = (t', .succeed)) :
    StatusEq (jaSetStatusJobnet t n .run).1 t' := by
  have hlog := jaJoblog_status (jaCleanValueJobnetBefore t n).1 .jobnetStart n 0
  simp only [jaSetRunJobnet] at h
  rw [show jaCleanValueJobnetBefore t n = ((jaCleanValueJobnetBefore t n).1, .succeed) from rfl,
    andThen_succeed] at h
  cases hl : jaJoblog (jaCleanValueJobnetBefore t n).1 .jobnetStart n 0 with
  | mk t₁ r =>
    rw [hl] at h hlog
    cases r with
    | fail => cases h
    | succeed =>
      obtain ⟨rfl, -⟩ := Prod.mk.inj h
      have hclean : StatusEq t (jaCleanValueJobnetBefore t n).1 := ⟨rfl, rfl, rfl, rfl, rfl, rfl⟩
      exact (hclean.trans hlog).updateJobnets _ _

/-- A committed start: the jobnet is in RUN and its START icon READY, or the
jobnet is in ENDERR. -/
theorem jajobnetReady_spec {t t' : Tables} {n : Id} {bootTime : Text}
    (h : jajobnetReady t n bootTime = (t', .succeed)) :
    StatusEq (jaSetStatusJobnet t n .endErr).1 t' ∨
      ∃ start ∈ t.jobs, start.innerJobnetId = n ∧ start.jobType = .startIcon ∧
        StatusEq (jaSetStatusJob (jaSetStatusJobnet t n .run).1 start.innerJobId .ready).1 t' := by
  unfold jajobnetReady at h
  split at h
  · obtain ⟨rfl, -⟩ := Prod.mk.inj h
    exact .inl ⟨rfl, rfl, rfl, rfl, rfl, rfl⟩
  rename_i r _
  cases hrun : jaSetRunJobnet (readyValues t r bootTime) n with
  | mk t₁ ret =>
    rw [hrun] at h
    cases ret with
    | fail => cases h
    | succeed =>
      have h₁ : StatusEq (jaSetStatusJobnet t n .run).1 t₁ :=
        ((readyValues_status t r bootTime).updateJobnets _ _).trans (jaSetRunJobnet_spec hrun)
      rw [andThen_succeed] at h
      split at h
      · rename_i start hstart
        obtain ⟨rfl, -⟩ := Prod.mk.inj h
        have hmem : start ∈ t₁.jobs.filter fun j => j.innerJobnetId == n && j.jobType == .startIcon :=
          hstart ▸ List.mem_cons_self
        simp only [List.mem_filter, Bool.and_eq_true, beq_iff_eq] at hmem
        obtain ⟨hmem, hn, hty⟩ := hmem
        rw [h₁.jobs] at hmem
        have hout : StatusEq t₁ (jaValueBeforeJobnetOut t₁ n start.innerJobId).1 :=
          ⟨rfl, rfl, rfl, rfl, rfl, rfl⟩
        exact .inr ⟨start, hmem, hn, hty, (h₁.trans hout).updateJobs _ _⟩
      · obtain ⟨rfl, -⟩ := Prod.mk.inj h
        have htwice : ∀ l : List Jobnet, Table.update (·.innerJobnetId == n) (fun r => { r with status := .endErr })
            (Table.update (·.innerJobnetId == n) (fun r => { r with status := .run }) l) =
            Table.update (·.innerJobnetId == n) (fun r => { r with status := .endErr }) l := by
          intro l
          simp only [Table.update, List.map_map]
          refine List.map_congr_left fun r _ => ?_
          by_cases hr : r.innerJobnetId = n <;> simp [hr]
        have h₂ := h₁.updateJobnets (·.innerJobnetId == n) fun r => { r with status := .endErr }
        exact .inl ⟨h₂.jobs, h₂.flows, h₂.jobnets.trans (htwice t.jobnets), h₂.summaries, h₂.iconJobnets,
          h₂.agentless⟩

/-- Apart from RUN, the icon is only written through `ja_flow`,
`ja_set_runerr` and `ja_set_enderr`. -/
theorem syncIcon_steps (t : Tables) (icon iconEnd : Id) {status : Status} (hs : status ≠ .run)
    (timeoutFlag : Bool) : FlowSteps icon t (syncIconWith jaFlow t icon iconEnd status timeoutFlag).1 := by
  cases status with
  | run => exact absurd rfl hs
  | ended =>
    simp only [syncIconWith]
    split
    · exact .refl
    · exact andThen_steps (frame_steps (jaSetValueAfter_status t _ _ _ _)) fun t₁ _ => jaFlow_steps t₁ icon _ _
  | runErr => exact jaSetRunerr_steps t icon 2
  | endErr => exact jaSetEnderr_steps t icon false
  | begin => exact .refl
  | ready => exact .refl
  | abort => exact .refl

/-- The writes of a committed synchronisation of a sub-jobnet: first the
jobnet row, then its icon. -/
theorem jajobnetRunSync_icon {t t' : Tables} {n icon iconEnd : Id} {status : Status} {timeoutFlag : Bool}
    (hi : icon ≠ 0)
    (h : jajobnetRunSyncWith jaFlow t n icon iconEnd status timeoutFlag = (t', .succeed)) :
    ∃ t₁, StatusEq (setJobnet t n status timeoutFlag) t₁ ∧
      syncIconWith jaFlow t₁ icon iconEnd status timeoutFlag = (t', .succeed) := by
  unfold jajobnetRunSyncWith at h
  cases hs : syncJobnet t n status timeoutFlag with
  | mk t₁ r =>
    cases r with
    | fail => rw [hs] at h; cases h
    | succeed =>
      rw [hs, andThen_succeed, if_neg hi] at h
      exact ⟨t₁, syncJobnet_spec hs, h⟩

/-- The two ways through `jajobnet_run`. -/
theorem jajobnetRunWith_cases (flow : FlowFn) (t : Tables) (n icon : Id) (status : Status) (timeoutFlag : Bool) :
    (decision t n status timeoutFlag = .keep ∧
      jajobnetRunWith flow t n icon status timeoutFlag = (t, .succeed)) ∨
    ∃ iconEnd s tf, (decision t n status timeoutFlag = .renew s tf ∨
        decision t n status timeoutFlag = .error ∧ s = .endErr ∧ tf = false) ∧
      jajobnetRunWith flow t n icon status timeoutFlag = jajobnetRunSyncWith flow t n icon iconEnd s tf := by
  unfold decision jajobnetRunWith
  cases countJobs t n with
  | none => exact .inr ⟨0, .endErr, false, .inr ⟨rfl, rfl, rfl⟩, rfl⟩
  | some c =>
    dsimp only
    cases runDecision c status timeoutFlag with
    | error => exact .inr ⟨c.iconEndId, .endErr, false, .inr ⟨rfl, rfl, rfl⟩, rfl⟩
    | keep => exact .inl ⟨rfl, rfl⟩
    | renew s tf => exact .inr ⟨c.iconEndId, s, tf, .inl rfl, rfl⟩

end JobArranger
