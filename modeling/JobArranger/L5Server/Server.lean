import JobArranger.Core.LTS
import JobArranger.L5Server.Boot
import JobArranger.L5Server.Jobnet

/-!
# The server's processes

`process_jarun`, `process_jajob`, `jatrap_jobresult`, the jobnet process
(`process_jajobnet_summary` and `process_jajobnet`) and the boot process
(`jobnet_boot` and `jobnet_purge`) run at the same time and only meet in the
tables. A label is one committed transaction. The jobnet and boot processes
work through the stored rows of a select, so their rows can be stale; there
is one process of each (`CONFIG_JAJOBNET_FORKS`, `CONFIG_JABOOT_FORKS`).

What running or completing an icon writes to the status tables is
`IconStep`: all icons but the jobnet icon end in `ja_flow`, `ja_set_runerr`,
an abort or a timeout flag, in the transaction that runs them or in a later
one of `process_jajob`, `jatrap_jobresult` or a forked child.

* `ServerStep`: the transactions.
* `JarunWrites`, `JobnetWrites`, `SummaryWrites`, `BootWrites`: everything a
  row of each process can write to the status tables. The invariants of the
  server are checked against these.
-/
namespace JobArranger

open Tables

/-! ## Running icons -/

/-- One write of the code that runs or completes icon `i`. -/
inductive IconStep (i : Id) : Tables → Tables → Prop where
  | flow {t t' : Tables} : FlowStep i t t' → IconStep i t t'
  /-- `JA_JOB_STATUS_ABORT` -/
  | abort (t : Tables) : IconStep i t (jaSetStatusJob t i .abort).1
  | timeout (t : Tables) :
      IconStep i t (t.updateJobs (·.innerJobId == i) fun j => { j with timeoutFlag := true })
  /-- a release icon, or a user, sets the method of icon `k` -/
  | method (t : Tables) (k : Id) (m : Method) :
      IconStep i t (t.updateJobs (·.innerJobId == k) fun j => { j with methodFlag := m })

abbrev IconSteps (i : Id) : Tables → Tables → Prop := Relation.ReflTransGen (IconStep i)

/-- The code of icon `i`: `jarun_value_before`, which only writes variables,
and the `jarun_icon_*` function of its type. -/
structure IconCode (i : Id) where
  valueBefore : Tables → Tables × Ret
  run : Tables → Tables × Ret
  valueBefore_frame : ∀ t, StatusEq t (valueBefore t).1
  run_steps : ∀ t, IconSteps i t (run t).1

/-- `ja_set_run_job_id` only writes columns that are left out.
mirrors src/jobarg_server/jarun/jarunnormal.c:67-169 -/
def jarunNormal {i : Id} (code : IconCode i) (t : Tables) (jobType : JobType) : Tables × Ret :=
  andThen (code.valueBefore t) fun t =>
  andThen (jaSetRun t i) fun t =>
  andThen (jaValueBeforeAfter t i) fun t =>
  match jobType with
  | .jobnet => jarunIconJobnet t i
  | _ => code.run t

/-- mirrors src/jobarg_server/jarun/jarunskip.c:52-79 -/
def jarunSkip {i : Id} (code : IconCode i) (t : Tables) (jobType : JobType) : Tables × Ret :=
  andThen (code.valueBefore t) fun t =>
  andThen (jaJoblog t .jobSkip 0 i) fun t =>
  andThen (jaValueBeforeAfter t i) fun t =>
  match jobType with
  | .startIcon | .endIcon | .m | .w | .ifIcon | .ifend | .l => jaSetRunerr t i 2
  | _ => jaFlow t i .normal true

/-- One row of `process_jarun`, after `select … for update` found it READY;
`method` is the `method_flag` of the first select.
mirrors src/jobarg_server/jarun/jarun.c:103-137 -/
def processJarunRow {i : Id} (code : IconCode i) (t : Tables) (j : Job) (method : Method) : Tables :=
  match method with
  | .normal => commit t (jarunNormal code (jaJoblog t .jobStart j.innerJobnetId i).1 j.jobType)
  | .wait => t
  | .skip => commit t (jarunSkip code t j.jobType)
  | .abort => t
  | .rerun => commit t (jarunNormal code (jaJoblog t .jobRerun j.innerJobnetId i).1 j.jobType)

/-- The calls `jajobnet_kill` makes for the running icons. -/
structure StopCode where
  run : Tables → Job → Tables
  steps : ∀ t j, IconSteps j.innerJobId t (run t j)

/-! ## `jobnet_purge` -/

/-- The jobnets a purge of `m` deletes. -/
def purged (t : Tables) (m n : Id) : Bool :=
  t.jobnets.any fun r => r.innerJobnetMainId == m && r.innerJobnetId == n

/-- The jobs deleted with them. -/
def purgedJob (t : Tables) (m i : Id) : Bool :=
  t.jobs.any fun j => j.innerJobId == i && purged t m j.innerJobnetId

/-- `delete from ja_run_jobnet_table where inner_jobnet_main_id = m`, with
the rows the foreign keys delete. -/
def deleteInstance (t : Tables) (m : Id) : Tables :=
  { t with
    jobs := t.jobs.filter fun j => !purged t m j.innerJobnetId
    flows := t.flows.filter fun f => !purged t m f.innerJobnetId
    jobnets := t.jobnets.filter fun r => !(r.innerJobnetMainId == m)
    summaries := t.summaries.filter fun s => !purged t m s.innerJobnetId
    iconJobnets := t.iconJobnets.filter fun l => !purgedJob t m l.innerJobId
    agentless := t.agentless.filter fun a => !purgedJob t m a.innerJobId
    before := t.before.filter fun r => !purgedJob t m r.owner
    after := t.after.filter fun r => !purgedJob t m r.owner
    jobnetBefore := t.jobnetBefore.filter fun r => !purged t m r.owner
    jobnetAfter := t.jobnetAfter.filter fun r => !purged t m r.owner }

/-- The row `jobnet_purge` is at deletes the instance.
mirrors src/jobarg_server/jaboot/jaboot.c:630-648 -/
def purges (t : Tables) (m : Id) (status : Status) : Bool :=
  !(status = .endErr ∧ 0 < getRunningJobs t m)

/-- mirrors src/jobarg_server/jaboot/jaboot.c:624-662 -/
def purgeRow (t : Tables) (m : Id) (status : Status) : Tables :=
  if purges t m status then deleteInstance t m else t

/-! ## The system -/

structure ServerState where
  tables : Tables
  /-- stored rows of `process_jajobnet_summary` -/
  summaryTodo : List Summary
  /-- stored rows of `process_jajobnet` -/
  jobnetTodo : List Jobnet
  /-- stored rows of `jobnet_boot` -/
  bootTodo : List Summary
  /-- stored rows of `jobnet_purge` -/
  purgeTodo : List Summary

inductive ServerLabel where
  | jarun (i : Id) (code : IconCode i) (method : Method)
  /-- a transaction of `process_jajob`, `jatrap_jobresult` or a forked child -/
  | icon (i : Id) (t : Tables)
  /-- a user sets `jobnet_abort_flag` -/
  | requestAbort (m : Id)
  | summarySelect
  | summaryRow (stop : StopCode)
  | jobnetSelect
  | jobnetRow (bootTime : Text)
  | bootSelect (now : Nat)
  | bootRow (now : Nat)
  /-- `expired` is `end_time <= …` -/
  | purgeSelect (expired : Summary → Bool)
  | purgeRow

/-- The select of `process_jajobnet_summary`. -/
def summaryRows (t : Tables) : List Summary :=
  t.summaries.filter fun x => x.status = .ready ∨ x.status = .run

/-- The select of `process_jajobnet`. -/
def jobnetRows (t : Tables) : List Jobnet :=
  t.jobnets.filter fun r => r.status = .ready ∨ r.status = .run ∨ r.status = .runErr

/-- The select of `jobnet_purge`. -/
def purgeRows (t : Tables) (expired : Summary → Bool) : List Summary :=
  t.summaries.filter fun x => (x.status = .ended ∨ x.status = .endErr) ∧ expired x

def ServerStep (s : ServerState) : ServerLabel → ServerState → Prop
  | .jarun i code method, s' => ∃ j ∈ s.tables.jobs, j.innerJobId = i ∧ j.status = .ready ∧
      s' = { s with tables := processJarunRow code s.tables j method }
  | .icon i t', s' => IconSteps i s.tables t' ∧ s' = { s with tables := t' }
  | .requestAbort m, s' => s' = { s with tables := s.tables.updateSummaries (·.innerJobnetId == m) fun x =>
      { x with jobnetAbortFlag := true } }
  | .summarySelect, s' => s.summaryTodo = [] ∧ s.jobnetTodo = [] ∧
      s' = { s with summaryTodo := summaryRows s.tables }
  | .summaryRow stop, s' => ∃ e es, s.summaryTodo = e :: es ∧
      s' = { s with summaryTodo := es, tables :=
        processSummaryRow stop.run s.tables e.innerJobnetId e.status e.jobnetAbortFlag }
  | .jobnetSelect, s' => s.summaryTodo = [] ∧ s.jobnetTodo = [] ∧
      s' = { s with jobnetTodo := jobnetRows s.tables }
  | .jobnetRow bootTime, s' => ∃ e es, s.jobnetTodo = e :: es ∧
      s' = { s with jobnetTodo := es, tables :=
        processJajobnetRow s.tables e.innerJobnetId e.innerJobId e.timeoutFlag e.status bootTime }
  | .bootSelect now, s' => s.bootTodo = [] ∧ s.purgeTodo = [] ∧
      s' = { s with bootTodo := bootRows s.tables now }
  | .bootRow now, s' => ∃ e es, s.bootTodo = e :: es ∧
      s' = { s with bootTodo := es, tables := bootRow s.tables now e }
  | .purgeSelect expired, s' => s.bootTodo = [] ∧ s.purgeTodo = [] ∧
      s' = { s with purgeTodo := purgeRows s.tables expired }
  | .purgeRow, s' => ∃ e es, s.purgeTodo = e :: es ∧
      s' = { s with purgeTodo := es, tables := purgeRow s.tables e.innerJobnetId e.status }

/-! ## What `process_jarun` writes -/

/-- `jarun_icon_jobnet` makes the linked jobnet READY, or the icon fails. -/
theorem jarunIconJobnet_cases (t : Tables) (i : Id) :
    FlowSteps i t (jarunIconJobnet t i).1 ∨
      ∃ link, t.iconJobnet? i = some link ∧
        StatusEq (jaSetStatusJobnet t link.linkInnerJobnetId .ready).1 (jarunIconJobnet t i).1 := by
  cases hl : t.iconJobnet? i with
  | none =>
    simp only [jarunIconJobnet, hl]
    exact .inl (jaSetRunerr_steps t i 2)
  | some link =>
    let t₁ := (jaSetStatusJobnet t link.linkInnerJobnetId .ready).1
    let t₂ := (jaValueBeforeJobnetIn t₁ i link.linkInnerJobnetId).1
    have heq : jarunIconJobnet t i = if jaGetStatusJobnet t₂ link.linkInnerJobnetId ≠ some .ready
        then jaSetRunerr t₂ i 2 else (t₂, .succeed) := by
      simp only [jarunIconJobnet, hl]
      rfl
    rw [heq]
    split
    · rename_i hstatus
      -- the jobnet has no row, so nothing was made READY
      have hnone : t.jobnet? link.linkInnerJobnetId = none := by
        cases hr : t.jobnet? link.linkInnerJobnetId with
        | none => rfl
        | some r =>
          refine absurd ?_ hstatus
          change (t₁.jobnet? link.linkInnerJobnetId).map Jobnet.status = _
          rw [jobnet?_jaSetStatusJobnet hr]
          rfl
      have hframe : StatusEq t t₂ := ⟨rfl, rfl, Table.update_missing hnone _, rfl, rfl, rfl⟩
      exact .inl ((frame_steps hframe).trans (jaSetRunerr_steps t₂ i 2))
    · exact .inr ⟨link, rfl, rfl, rfl, rfl, rfl, rfl, rfl⟩

/-- The writes of one row of `process_jarun` for icon `i`. -/
inductive JarunWrites (i : Id) (t : Tables) : Tables → Prop where
  | skip {t' : Tables} : FlowSteps i t t' → JarunWrites i t t'
  | icon {t₁ t' : Tables} : StatusEq (jaSetStatusJob t i .run).1 t₁ → IconSteps i t₁ t' → JarunWrites i t t'
  | jobnet {t₁ t' : Tables} {link : IconJobnet} : StatusEq (jaSetStatusJob t i .run).1 t₁ →
      t.iconJobnet? i = some link →
      StatusEq (jaSetStatusJobnet t₁ link.linkInnerJobnetId .ready).1 t' → JarunWrites i t t'

theorem FlowSteps.iconSteps {i : Id} {t t' : Tables} (h : FlowSteps i t t') : IconSteps i t t' :=
  Relation.ReflTransGen.mono (fun _ _ => IconStep.flow) t t' h

theorem jarunNormal_writes {i : Id} (code : IconCode i) (t : Tables) (jobType : JobType)
    (h : (jarunNormal code t jobType).2 = .succeed) : JarunWrites i t (jarunNormal code t jobType).1 := by
  have hfail : ∀ {r : Tables × Ret}, r.2 = .fail → r.2 = .succeed → False := by
    intro r h1 h2
    rw [h1] at h2
    cases h2
  unfold jarunNormal at h ⊢
  rcases andThen_cases (code.valueBefore t) _ with hf | ⟨-, he⟩
  · exact (hfail hf h).elim
  rw [he]
  let t₁ := (jaValueBeforeAfter (jaSetRun (code.valueBefore t).1 i).1 i).1
  have hrun : StatusEq (jaSetStatusJob t i .run).1 t₁ := by
    have hclean : StatusEq (code.valueBefore t).1 (jaCleanValueBefore (code.valueBefore t).1 i).1 :=
      ⟨rfl, rfl, rfl, rfl, rfl, rfl⟩
    have hset := (((code.valueBefore_frame t).trans hclean).updateJobs (·.innerJobId == i) fun j =>
      { j with status := .run })
    exact hset.trans ⟨rfl, rfl, rfl, rfl, rfl, rfl⟩
  change JarunWrites i t (match jobType with | .jobnet => jarunIconJobnet t₁ i | _ => code.run t₁).1
  split
  · rcases jarunIconJobnet_cases t₁ i with hs | ⟨link, hl, hst⟩
    · exact .icon hrun hs.iconSteps
    · refine .jobnet hrun ?_ hst
      rw [Tables.iconJobnet?, hrun.iconJobnets] at hl
      exact hl
  · exact .icon hrun (code.run_steps t₁)

theorem jarunSkip_steps {i : Id} (code : IconCode i) (t : Tables) (jobType : JobType) :
    FlowSteps i t (jarunSkip code t jobType).1 := by
  unfold jarunSkip
  refine andThen_steps (frame_steps (code.valueBefore_frame t)) fun t₁ _ => ?_
  refine andThen_steps (frame_steps (jaJoblog_status t₁ _ _ _)) fun t₂ _ => ?_
  have hvals : StatusEq t₂ (jaValueBeforeAfter t₂ i).1 := ⟨rfl, rfl, rfl, rfl, rfl, rfl⟩
  refine andThen_steps (frame_steps hvals) fun t₃ _ => ?_
  split
  all_goals first
    | exact jaSetRunerr_steps t₃ i 2
    | exact jaFlow_steps t₃ i .normal true

theorem JarunWrites.of_frame {i : Id} {t t₁ t' : Tables} (hf : StatusEq t t₁) (h : JarunWrites i t₁ t') :
    JarunWrites i t t' := by
  cases h with
  | skip h => exact .skip ((frame_steps hf).trans h)
  | icon h1 h2 => exact .icon ((hf.updateJobs _ _).trans h1) h2
  | jobnet h1 h2 h3 =>
    refine .jobnet ((hf.updateJobs _ _).trans h1) ?_ h3
    rw [Tables.iconJobnet?, hf.iconJobnets] at h2
    exact h2

theorem processJarunRow_writes {i : Id} (code : IconCode i) (t : Tables) (j : Job) (method : Method) :
    JarunWrites i t (processJarunRow code t j method) := by
  have hnormal : ∀ msg, JarunWrites i t
      (commit t (jarunNormal code (jaJoblog t msg j.innerJobnetId i).1 j.jobType)) := by
    intro msg
    rcases commit_cases t (jarunNormal code (jaJoblog t msg j.innerJobnetId i).1 j.jobType) with h | ⟨hs, h⟩
    · rw [h]
      exact .skip .refl
    · rw [h]
      exact .of_frame (jaJoblog_status t _ _ _) (jarunNormal_writes code _ _ hs)
  unfold processJarunRow
  cases method with
  | normal => exact hnormal .jobStart
  | rerun => exact hnormal .jobRerun
  | wait => exact .skip .refl
  | abort => exact .skip .refl
  | skip =>
    rcases commit_cases t (jarunSkip code t j.jobType) with h | ⟨-, h⟩
    · simp only [h]
      exact .skip .refl
    · simp only [h]
      exact .skip (jarunSkip_steps code t j.jobType)

/-! ## What `process_jajobnet` writes -/

/-- From RUN or RUNERR, `s` is passed on under the decision `d`. -/
def PassedOn (status : Status) (d : RunDecision) (s : Status) : Prop :=
  (status = .run ∨ status = .runErr) ∧ ((∃ tf, d = .renew s tf) ∨ (d = .error ∧ s = .endErr))

/-- The writes of one row of `process_jajobnet`: jobnet `n` on `icon`, with
the `status` of the select. -/
inductive JobnetWrites (t : Tables) (n icon : Id) (status : Status) (d : RunDecision) : Tables → Prop where
  | frame {t' : Tables} : StatusEq t t' → JobnetWrites t n icon status d t'
  | startErr {t' : Tables} : StatusEq (jaSetStatusJobnet t n .endErr).1 t' → JobnetWrites t n icon status d t'
  | start {t' : Tables} {start : Job} : start ∈ t.jobs → start.innerJobnetId = n → start.jobType = .startIcon →
      StatusEq (jaSetStatusJob (jaSetStatusJobnet t n .run).1 start.innerJobId .ready).1 t' →
      JobnetWrites t n icon status d t'
  | main {t' : Tables} {s : Status} {tf : Bool} (js : SummaryJobStatus) : icon = 0 → PassedOn status d s →
      StatusEq ((setJobnet t n s tf).updateSummaries (·.innerJobnetId == n) fun x =>
        { x with status := if s = .ended then .ended else .run, jobStatus := js }) t' →
      JobnetWrites t n icon status d t'
  | run {t' : Tables} {tf : Bool} : icon ≠ 0 → PassedOn status d .run →
      StatusEq ((setJobnet t n .run tf).updateJobs (·.innerJobId == icon) fun j =>
        { j with status := .run, timeoutFlag := tf }) t' → JobnetWrites t n icon status d t'
  | ended {t₁ t' : Tables} {tf : Bool} : icon ≠ 0 → PassedOn status d .ended →
      StatusEq (setJobnet t n .ended tf) t₁ → FlowSteps icon t₁ t' → JobnetWrites t n icon status d t'
  | runErr {t₁ t' : Tables} {tf : Bool} : icon ≠ 0 → PassedOn status d .runErr →
      StatusEq (setJobnet t n .runErr tf) t₁ → FlowSteps icon t₁ t' →
      (continues t icon = false → StatusEq (jaSetStatusJob t₁ icon .runErr).1 t') →
      JobnetWrites t n icon status d t'
  | endErr {t' : Tables} {tf : Bool} : icon ≠ 0 → PassedOn status d .endErr →
      StatusEq (jaSetStatusJob (setJobnet t n .endErr tf) icon .endErr).1 t' →
      JobnetWrites t n icon status d t'

/-- Without `continue_flag`, `ja_set_runerr` only writes the status. -/
theorem jaSetRunerr_halts {t t' : Tables} {i : Id} (hc : continues t i = false) (st : Int)
    (h : jaSetRunerr t i st = (t', .succeed)) : StatusEq (jaSetStatusJob t i .runErr).1 t' := by
  unfold jaSetRunerr jaSetRunerrWith at h
  rw [show jaCleanValueAfter t i = ((jaCleanValueAfter t i).1, .succeed) from rfl, andThen_succeed] at h
  have hlog := jaJoblog_status (jaCleanValueAfter t i).1 .jobErrEnd 0 i
  cases hl : jaJoblog (jaCleanValueAfter t i).1 .jobErrEnd 0 i with
  | mk t₁ r =>
    rw [hl] at h hlog
    cases r with
    | fail => cases h
    | succeed =>
      have hst : StatusEq t t₁ := (jaCleanValueAfter_status t i).trans hlog
      have hrow : t₁.job? i = t.job? i := by rw [Tables.job?, Tables.job?, hst.jobs]
      have hf : ((t₁.job? i).map Job.continueFlag).getD false = false := by rw [hrow]; exact hc
      simp only [andThen_succeed, hf, true_or, if_true] at h
      obtain ⟨rfl, -⟩ := Prod.mk.inj h
      exact (hst.trans (writeIconStatus_status t₁ _ _ _ _)).updateJobs _ _

theorem jaSetEnderr_writes {t t' : Tables} {i : Id} (h : jaSetEnderr t i false = (t', .succeed)) :
    StatusEq (jaSetStatusJob t i .endErr).1 t' := by
  obtain ⟨rfl, -⟩ := Prod.mk.inj h
  exact (jaCleanValueAfter_status t i).updateJobs _ _

theorem jajobnetRunSync_writes {t t' : Tables} {n icon iconEnd : Id} {status s : Status} {d : RunDecision}
    {tf : Bool} (hd : PassedOn status d s) (h : jajobnetRunSyncWith jaFlow t n icon iconEnd s tf = (t', .succeed)) :
    JobnetWrites t n icon status d t' := by
  by_cases hi : icon = 0
  · unfold jajobnetRunSyncWith at h
    cases hs : syncJobnet t n s tf with
    | mk t₁ r =>
      cases r with
      | fail => rw [hs] at h; cases h
      | succeed =>
        rw [hs, andThen_succeed, if_pos hi] at h
        have ht' : (syncSummary t₁ n s tf).1 = t' := congrArg Prod.fst h
        rw [← ht']
        exact .main _ hi hd (((syncJobnet_spec hs).updateSummaries _ _).trans (jaSetJobstatus_writes t₁ n _ _))
  · obtain ⟨t₁, hst, hicon⟩ := jajobnetRunSync_icon hi h
    cases s with
    | run =>
      obtain ⟨rfl, -⟩ := Prod.mk.inj hicon
      exact .run hi hd (hst.updateJobs _ _)
    | ended =>
      have hended : Status.ended ≠ .run := nofun
      have hsteps := syncIcon_steps t₁ icon iconEnd hended tf
      rw [hicon] at hsteps
      exact .ended hi hd hst hsteps
    | runErr =>
      have herr : Status.runErr ≠ .run := nofun
      have hsteps := syncIcon_steps t₁ icon iconEnd herr tf
      rw [hicon] at hsteps
      refine .runErr hi hd hst hsteps fun hc => jaSetRunerr_halts ?_ 2 hicon
      rw [continues, Tables.job?, hst.jobs]
      exact hc
    | endErr => exact .endErr hi hd ((hst.updateJobs _ _).trans (jaSetEnderr_writes hicon))
    | begin | ready | abort => cases hicon

theorem processJajobnetRow_writes (t : Tables) (n icon : Id) (timeoutFlag : Bool) (status : Status)
    (bootTime : Text) :
    JobnetWrites t n icon status (decision t n status timeoutFlag)
      (processJajobnetRow t n icon timeoutFlag status bootTime) := by
  have hrun : status = .run ∨ status = .runErr → JobnetWrites t n icon status (decision t n status timeoutFlag)
      (commit t (jajobnetRun t n icon status timeoutFlag)) := by
    intro hactive
    rcases commit_cases t (jajobnetRun t n icon status timeoutFlag) with h | ⟨hs, h⟩
    · rw [h]
      exact .frame (.rfl' t)
    rw [h]
    rcases jajobnetRunWith_cases jaFlow t n icon status timeoutFlag with ⟨-, he⟩ | ⟨iconEnd, s, tf, hd, he⟩
    · rw [jajobnetRun, he]
      exact .frame (.rfl' t)
    · have hpass : PassedOn status (decision t n status timeoutFlag) s := by
        refine ⟨hactive, ?_⟩
        rcases hd with hd | ⟨hd, hs, -⟩
        · exact .inl ⟨tf, hd⟩
        · exact .inr ⟨hd, hs⟩
      rw [jajobnetRun, he] at hs ⊢
      exact jajobnetRunSync_writes hpass (Prod.ext rfl hs)
  cases status with
  | ready =>
    simp only [processJajobnetRow]
    rcases commit_cases t (jajobnetReady t n bootTime) with h | ⟨hs, h⟩
    · rw [h]
      exact .frame (.rfl' t)
    · rw [h]
      rcases jajobnetReady_spec (Prod.ext rfl hs) with hst | ⟨start, hm, hn, hty, hst⟩
      · exact .startErr hst
      · exact .start hm hn hty hst
  | run => exact hrun (.inl rfl)
  | runErr => exact hrun (.inr rfl)
  | begin | ended | endErr | abort => exact .frame (.rfl' t)

/-! ## What `process_jajobnet_summary` writes -/

/-- One of the jobs `js` is stopped. -/
def StopStep (js : List Job) (t t' : Tables) : Prop :=
  ∃ j ∈ js, j.jobType ≠ .jobnet ∧ IconSteps j.innerJobId t t'

/-- The writes of one row of `process_jajobnet_summary` for instance `m`. -/
inductive SummaryWrites (t : Tables) (m : Id) : Tables → Prop where
  | frame {t' : Tables} : StatusEq t t' → SummaryWrites t m t'
  | start {t' : Tables} : StatusEq ((t.updateJobnets (·.innerJobnetId == m) fun r => { r with status := .ready })
      |>.updateSummaries (·.innerJobnetId == m) fun x => { x with status := .run }) t' → SummaryWrites t m t'
  | killed {t' : Tables} : liveJobs (killUpdates t m) m = [] →
      StatusEq ((killUpdates t m).updateSummaries (·.innerJobnetId == m) fun x =>
        { x with status := .endErr, jobStatus := .error }) t' → SummaryWrites t m t'
  | stopping {t₁ t' : Tables} :
      Relation.ReflTransGen (StopStep (liveJobs (killUpdates t m) m)) (killUpdates t m) t₁ →
      StatusEq t₁ t' → SummaryWrites t m t'

theorem stops_steps (stop : StopCode) {live js : List Job} (hjs : ∀ j ∈ js, j ∈ live) (t : Tables) :
    Relation.ReflTransGen (StopStep live) t (js.foldl (fun t j => if j.status = .run ∧
      (j.jobType = .job ∨ j.jobType = .extjob ∨ j.jobType = .fwait ∨ j.jobType = .less)
      then stop.run t j else t) t) := by
  induction js generalizing t with
  | nil => exact .refl
  | cons j js ih =>
    rw [List.foldl_cons]
    have hrest := ih (fun k hk => hjs k (List.mem_cons_of_mem _ hk))
    split
    · rename_i hj
      refine .head ⟨j, hjs j List.mem_cons_self, ?_, stop.steps t j⟩ (hrest _)
      rintro hty
      rw [hty] at hj
      simp at hj
    · exact hrest t

/-- An abort with nothing left to stop ends the instance. -/
theorem processSummaryRow_killed (stop : StopCode) {t : Tables} {m : Id}
    (h : liveJobs (killUpdates t m) m = []) :
    StatusEq ((killUpdates t m).updateSummaries (·.innerJobnetId == m) fun x =>
        { x with status := .endErr, jobStatus := .error }) (processSummaryRow stop.run t m .run true) := by
  have hkill : jajobnetKill stop.run t m = jaSetJobstatus (killUpdates t m) m .endErr .error := by
    simp only [jajobnetKill, h, if_true]
  simp only [processSummaryRow, if_true]
  rw [hkill]
  exact (jaSetJobstatus_writes _ m _ _).trans (jaJoblog_status _ _ _ _)

theorem processSummaryRow_writes (stop : StopCode) (t : Tables) (m : Id) (status : Status) (abortFlag : Bool) :
    SummaryWrites t m (processSummaryRow stop.run t m status abortFlag) := by
  cases status with
  | ready => exact .start ⟨rfl, rfl, rfl, rfl, rfl, rfl⟩
  | run =>
    cases abortFlag with
    | false => exact .frame (.rfl' t)
    | true =>
      by_cases hlive : liveJobs (killUpdates t m) m = []
      · exact .killed hlive (processSummaryRow_killed stop hlive)
      · simp only [processSummaryRow, if_true, jajobnetKill, hlive, if_false]
        exact .stopping (stops_steps stop (fun _ h => h) _) (jaJoblog_status _ _ _ _)
  | begin | ended | runErr | endErr | abort => exact .frame (.rfl' t)

/-! ## What `jobnet_boot` writes -/

/-- The writes of one row of `jobnet_boot` for instance `m`. -/
inductive BootWrites (t : Tables) (m : Id) : Tables → Prop where
  | frame {t' : Tables} : StatusEq t t' → BootWrites t m t'
  | late {t' : Tables} {start : Job} : start ∈ t.jobs → start.innerJobnetId = m → start.jobType = .startIcon →
      StatusEq (((jaSetStatusJob t start.innerJobId .runErr).1.updateJobnets (·.innerJobnetId == m) fun r =>
        { r with status := .runErr }).updateSummaries (·.innerJobnetId == m) fun x =>
          { x with status := .run, jobStatus := .error, loadStatus := .delay }) t' → BootWrites t m t'
  | skip {t' : Tables} : StatusEq ((t.updateJobnets (·.innerJobnetId == m) fun r => { r with status := .ended })
      |>.updateSummaries (·.innerJobnetId == m) fun x => { x with status := .ended, loadStatus := .skip }) t' →
      BootWrites t m t'
  | delay {t' : Tables} : StatusEq (t.updateSummaries (·.innerJobnetId == m) fun x =>
      { x with loadStatus := .delay }) t' → BootWrites t m t'
  | start {t' : Tables} : StatusEq (t.updateSummaries (·.innerJobnetId == m) fun x =>
      { x with status := .ready, loadStatus := .normal }) t' → BootWrites t m t'

theorem errorStateJobnet_writes (t : Tables) (m : Id) :
    (errorStateJobnet t m).2 = .succeed → BootWrites t m (errorStateJobnet t m).1 := by
  unfold errorStateJobnet
  split
  · intro h
    cases h
  rename_i start hfind
  have hstart := List.find?_some hfind
  simp only [decide_eq_true_eq] at hstart
  dsimp only
  split
  · intro h
    cases h
  split
  · intro h
    cases h
  · intro _
    exact .late (List.mem_of_find?_eq_some hfind) hstart.1 hstart.2 (jaJoblog_status _ _ _ _)

theorem skipStateJobnet_writes (t : Tables) (m : Id) :
    (skipStateJobnet t m).2 = .succeed → BootWrites t m (skipStateJobnet t m).1 := by
  unfold skipStateJobnet
  split
  · intro h
    cases h
  dsimp only
  split
  · intro h
    cases h
  · intro _
    exact .skip (.rfl' _)

theorem startJobnet_writes (t : Tables) (m : Id) :
    (startJobnet t m).2 = .succeed → BootWrites t m (startJobnet t m).1 := by
  unfold startJobnet
  split
  · intro h
    cases h
  · intro _
    exact .start (.rfl' _)

theorem bootRow_writes (t : Tables) (now : Nat) (row : Summary) :
    BootWrites t row.innerJobnetId (bootRow t now row) := by
  have hcommit : ∀ r : Tables × Ret, (r.2 = .succeed → BootWrites t row.innerJobnetId r.1) →
      BootWrites t row.innerJobnetId (commit t r) := by
    intro r hr
    rcases commit_cases t r with h | ⟨hs, h⟩
    · rw [h]
      exact .frame (.rfl' t)
    · rw [h]
      exact hr hs
  show BootWrites t row.innerJobnetId (commit t _)
  apply hcommit
  cases bootAct t now row with
  | late => exact errorStateJobnet_writes t _
  | skip => exact skipStateJobnet_writes t _
  | delay => exact fun _ => .delay (.rfl' _)
  | start => exact startJobnet_writes t _

end JobArranger
