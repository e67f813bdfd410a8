import JobArranger.L5Server.Start

/-!
# Watching running jobs

`process_jajob` reads a list of the RUN jobs, then takes them one by one:
`DBbegin`, `select … for update`, which locks the row without looking at its
status, an act by job type and the `method_flag` of the list, `DBcommit`.
Whatever has finished the job between the list and the lock is not seen.

* `Watched`: the tables of a transaction with the acts it has performed on
  the job; the helpers of `process_jajob` are written over it.
* `processRow_ends`: a row completes its job at most once, unless an abort
  and a time-out check both find the icon row missing (`StoppedTwice`).
* `MonitorInv`: what is listed or locked is RUN, when no commit takes a
  listed job out of RUN (`KeepsRunning`).
* `acts_on_running`: the law for these runs; `finished_job_aborted` is a run
  outside them.

The requests themselves are sent by forked processes; a forked process that
cannot reach the agent and writes RUNERR is one of the other commits.
-/
namespace JobArranger

open Tables Locks

/-! ## One row -/

inductive JobAct where
  /-- status ABORT -/
  | abort
  /-- `ja_set_runerr`: status RUNERR, and the flows when `continue_flag` is on -/
  | runerr
  /-- `ja_flow`: the flows, and status END -/
  | flow
  /-- a request to kill the job is on its way -/
  | kill
  deriving DecidableEq, Repr

/-- The tables inside a transaction, and what it has done to the job. -/
structure Watched where
  tables : Tables
  acts : List JobAct

namespace Watched

def runerr (w : Watched) (i : Id) : Watched × Ret :=
  (⟨(jaSetRunerr w.tables i 2).1, w.acts ++ [.runerr]⟩, (jaSetRunerr w.tables i 2).2)

def flow (w : Watched) (i : Id) : Watched × Ret :=
  (⟨(jaFlow w.tables i .normal true).1, w.acts ++ [.flow]⟩, (jaFlow w.tables i .normal true).2)

def abort (w : Watched) (i : Id) : Watched := ⟨(jaSetStatusJob w.tables i .abort).1, w.acts ++ [.abort]⟩

def kill (w : Watched) : Watched := ⟨w.tables, w.acts ++ [.kill]⟩

/-- Variables written with the result ignored. -/
def values (w : Watched) (i n : Id) (vs : List (String × Text)) : Watched :=
  ⟨vs.foldl (fun t v => (jaSetValueAfter t i n v.1 v.2).1) w.tables, w.acts⟩

end Watched

/-- `JA_CMD_*` of an extended job. -/
inductive ExtCommand where
  | week | zbxsender | sleep | time | other
  deriving DecidableEq, Repr

/-- `ja_zbxsender_result_check`: sent, failed, or no verdict in the file yet. -/
inductive SenderResult where
  | sent (line : Text)
  | failed
  | waiting
  deriving DecidableEq, Repr

/-- What the helpers find outside the modelled tables. -/
structure World where
  /-- the row of `ja_run_icon_job_table`, `_extjob_`, `_fwait_` or `_reboot_table` -/
  iconRow : Bool
  /-- `stop_flag != 0` -/
  stopFlag : Bool
  /-- `ja_host_getname` succeeds -/
  hostName : Bool
  hostLocked : Bool
  /-- `ja_cpy_value` of the file name succeeds -/
  fileName : Bool
  /-- there is a stop command -/
  command : Bool
  forked : Bool
  /-- `timeout_cnt == 0` in this pass -/
  timeoutTurn : Bool
  /-- `ja_timeout_check` succeeds -/
  timedOut : Bool
  commandId : ExtCommand
  sender : SenderResult
  /-- `wait_count >= CONFIG_EXTJOB_WAITTIME` -/
  waitedOut : Bool
  /-- the result file, when it can be loaded -/
  resultData : Option Text
  /-- `wait_time <= now_time` -/
  elapsed : Bool
  /-- `session_id` of the agentless icon -/
  sessionId : String
  /-- the process of the session is there -/
  sessionAlive : Bool
  /-- the update of `force_stop` changes a row -/
  stopSet : Bool
  deriving DecidableEq, Repr

/-- The icon row the helpers of a job type select. -/
def World.hasIcon (x : World) (t : Tables) (jobType : JobType) (i : Id) : Bool :=
  match jobType with
  | .less => (Table.lookup IconAgentless.innerJobId i t.agentless).isSome
  | _ => x.iconRow

section
variable (x : World)

/-- `jarun_icon_job` with method KILL, or ABORT (`stop`), which sends the stop
command. mirrors src/jobarg_server/jarun/jaruniconjob.c:118-232 -/
def jarunIconJobStop (stop : Bool) (w : Watched) (i : Id) : Watched × Ret :=
  if x.iconRow = false ∨ x.hostName = false then w.runerr i
  else if stop ∧ ((w.tables.job? i).isNone ∨ x.command = false) then (w.abort i).runerr i
  else if x.forked = false then (w.abort i).runerr i
  else ((w.abort i).kill, .succeed)

/-- mirrors src/jobarg_server/jajob/jajobiconjob.c:53-82 -/
def jajobIconJobAbort (w : Watched) (i : Id) : Watched × Ret :=
  if x.iconRow = false then w.runerr i else jarunIconJobStop x x.stopFlag w i

/-- The time-out check of job, reboot and agentless icons: the icon row, the
comparison of the times, the flag and its log row. -/
def jajobIconTimeout (jobType : JobType) (w : Watched) (row : Job) : Watched × Ret :=
  if x.hasIcon w.tables jobType row.innerJobId = false then w.runerr row.innerJobId
  else if x.timedOut = false then (w, .succeed)
  else
    let t := w.tables.updateJobs (·.innerJobId == row.innerJobId) fun j => { j with timeoutFlag := true }
    (⟨(jaJoblog t .jobTimeout row.innerJobnetId row.innerJobId).1, w.acts⟩, .succeed)

/-- mirrors src/jobarg_server/jajob/jajobiconjob.c:100-164 -/
def jajobIconJobTimeout (w : Watched) (row : Job) : Watched × Ret := jajobIconTimeout x .job w row

/-- mirrors src/jobarg_server/jajob/jajobiconreboot.c:56-120 -/
def jajobIconRebootTimeout (w : Watched) (row : Job) : Watched × Ret := jajobIconTimeout x .reboot w row

/-- mirrors src/jobarg_server/jajob/jajobiconless.c:147-214 -/
def jajobIconLessTimeout (w : Watched) (row : Job) : Watched × Ret := jajobIconTimeout x .less w row

/-- The variables of a failed or overdue zabbix_sender. -/
def senderFailed (w : Watched) (i n : Id) : Watched :=
  w.values i n [("JOB_EXIT_CD", ascii "255"), ("STD_ERR", []), ("STD_OUT", x.resultData.getD [])]

/-- mirrors src/jobarg_server/jajob/jajobiconextjob.c:159-272 -/
def jajobIconExtjob (w : Watched) (i n : Id) : Watched × Ret :=
  if x.iconRow = false then w.runerr i
  else match x.commandId with
    | .week => (w, .succeed)
    | .zbxsender =>
      match x.sender with
      | .sent line => (w.values i n [("JOB_EXIT_CD", ascii "0"), ("STD_OUT", line), ("STD_ERR", [])]).flow i
      | .failed => (senderFailed x w i n).runerr i
      | .waiting => if x.waitedOut then (senderFailed x w i n).runerr i else (w, .succeed)
    | .sleep | .time => if x.elapsed then w.flow i else (w, .succeed)
    | .other => (w, .succeed)

/-- mirrors src/jobarg_server/jajob/jajobiconextjob.c:288-321 -/
def jajobIconExtjobKill (w : Watched) (i : Id) : Watched × Ret :=
  if x.iconRow = false then w.runerr i
  else if x.commandId = .week then (w, .succeed)
  else w.runerr i

/-- `jarun_agent` with method KILL.
mirrors src/jobarg_server/jarun/jarunagent.c:57-109 -/
def jarunAgentKill (w : Watched) (i : Id) : Watched × Ret :=
  if x.hostName = false then w.runerr i
  else if x.hostLocked then (w, .fail)
  else if x.forked = false then (w.abort i, .fail)
  else ((w.abort i).kill, .succeed)

/-- `jarun_icon_fwait` with method KILL.
mirrors src/jobarg_server/jarun/jaruniconfwait.c:56-116 -/
def jarunIconFwaitKill (w : Watched) (i : Id) : Watched × Ret :=
  if x.iconRow = false ∨ x.fileName = false then w.runerr i else jarunAgentKill x w i

/-- `jarun_icon_reboot` with method KILL, whose code is that of
`JA_JOB_METHOD_ABORT`. mirrors src/jobarg_server/jarun/jaruniconreboot.c:57-137 -/
def jarunIconRebootKill (w : Watched) (i : Id) : Watched × Ret :=
  if x.iconRow = false ∨ x.hostName = false then w.runerr i
  else if x.forked = false then (w.abort i, .fail)
  else ((w.abort i).kill, .succeed)

/-- mirrors src/jobarg_server/jajob/jajobiconless.c:55-131 -/
def jajobIconLessAbort (w : Watched) (row : Job) : Watched × Ret :=
  if x.hasIcon w.tables .less row.innerJobId = false then w.runerr row.innerJobId
  else match w.tables.jobnet? row.innerJobnetId with
    | none => w.runerr row.innerJobId
    | some net =>
      let isSession := fun s : Session => s.sessionId == x.sessionId && s.innerJobnetMainId == net.innerJobnetMainId
      if w.tables.sessions.any isSession = false then (w, .succeed)
      else if x.sessionAlive = false then
        -- the session process is down: its row goes, and the job fails
        (⟨{ w.tables with sessions := w.tables.sessions.filter fun s => !isSession s }, w.acts⟩ :
          Watched).runerr row.innerJobId
      else if x.stopSet = false then w.runerr row.innerJobId
      else (w.kill, .succeed)

/-- Whether the time-out check of a listed row is due. -/
def World.timeoutDue (row : Job) : Bool := !row.timeoutFlag && x.timeoutTurn

/-- `if (method_flag == ABORT) abort; if (timeout is due) timeout;`, both
results ignored. -/
def stopThenTimeout (abort timeout : Watched → Watched) (w : Watched) (row : Job) : Watched × Ret :=
  let w := if row.methodFlag = .abort then abort w else w
  (if x.timeoutDue row then timeout w else w, .succeed)

/-- The switch of `process_jajob` over a listed row.
mirrors src/jobarg_server/jajob/jajob.c:88-137 -/
def processRow (t : Tables) (row : Job) : Watched × Ret :=
  let i := row.innerJobId
  match row.jobType with
  | .job => stopThenTimeout x (fun w => (jajobIconJobAbort x w i).1)
      (fun w => (jajobIconJobTimeout x w row).1) ⟨t, []⟩ row
  | .extjob =>
    if row.methodFlag = .abort then jajobIconExtjobKill x ⟨t, []⟩ i
    else jajobIconExtjob x ⟨t, []⟩ i row.innerJobnetId
  | .fwait => (if row.methodFlag = .abort then (jarunIconFwaitKill x ⟨t, []⟩ i).1 else ⟨t, []⟩, .succeed)
  | .reboot => stopThenTimeout x (fun w => (jarunIconRebootKill x w i).1)
      (fun w => (jajobIconRebootTimeout x w row).1) ⟨t, []⟩ row
  | .less => stopThenTimeout x (fun w => (jajobIconLessAbort x w row).1)
      (fun w => (jajobIconLessTimeout x w row).1) ⟨t, []⟩ row
  | _ => (⟨t, []⟩, .succeed)

end

/-! ### How often a row completes its job -/

/-- How many acts complete the job and fire its flows. -/
def ends (acts : List JobAct) : Nat := acts.countP fun a => a = .runerr ∨ a = .flow

@[simp] theorem ends_nil : ends [] = 0 := rfl

namespace Watched
variable (w : Watched) (i : Id)

@[simp] theorem ends_runerr : ends (w.runerr i).1.acts = ends w.acts + 1 := by
  simp [runerr, ends]

@[simp] theorem ends_flow : ends (w.flow i).1.acts = ends w.acts + 1 := by
  simp [flow, ends]

@[simp] theorem ends_abort : ends (w.abort i).acts = ends w.acts := by
  simp [abort, ends]

@[simp] theorem ends_kill : ends w.kill.acts = ends w.acts := by
  simp [kill, ends]

@[simp] theorem ends_values (n : Id) (vs : List (String × Text)) : ends (w.values i n vs).acts = ends w.acts := rfl

@[simp] theorem runerr_agentless : (w.runerr i).1.tables.agentless = w.tables.agentless :=
  (jaSetRunerr_steps w.tables i 2).sameNets.agentless

@[simp] theorem abort_agentless : (w.abort i).tables.agentless = w.tables.agentless := rfl

@[simp] theorem kill_agentless : w.kill.tables.agentless = w.tables.agentless := rfl

end Watched

section
variable (x : World) (w : Watched) (i : Id) (row : Job)

theorem jarunIconJobStop_ends (stop : Bool) : ends (jarunIconJobStop x stop w i).1.acts ≤ ends w.acts + 1 := by
  unfold jarunIconJobStop
  split
  · simp
  · split
    · simp
    · split <;> simp

theorem jajobIconJobAbort_ends : ends (jajobIconJobAbort x w i).1.acts ≤ ends w.acts + 1 := by
  unfold jajobIconJobAbort
  split
  · simp
  · exact jarunIconJobStop_ends x w i _

theorem jarunIconRebootKill_ends : ends (jarunIconRebootKill x w i).1.acts ≤ ends w.acts + 1 := by
  unfold jarunIconRebootKill
  split
  · simp
  · split <;> simp

theorem jarunIconFwaitKill_ends : ends (jarunIconFwaitKill x w i).1.acts ≤ ends w.acts + 1 := by
  unfold jarunIconFwaitKill jarunAgentKill
  split
  · simp
  · split
    · simp
    · split
      · simp
      · split <;> simp

theorem jajobIconExtjob_ends (n : Id) : ends (jajobIconExtjob x w i n).1.acts ≤ ends w.acts + 1 := by
  unfold jajobIconExtjob senderFailed
  split
  · simp
  · split
    · simp
    · split
      · simp
      · simp
      · split <;> simp
    · split <;> simp
    · split <;> simp
    · simp

theorem jajobIconExtjobKill_ends : ends (jajobIconExtjobKill x w i).1.acts ≤ ends w.acts + 1 := by
  unfold jajobIconExtjobKill
  split
  · simp
  · split <;> simp

theorem jajobIconLessAbort_ends : ends (jajobIconLessAbort x w row).1.acts ≤ ends w.acts + 1 := by
  unfold jajobIconLessAbort
  split
  · simp
  · split
    · simp
    · dsimp only
      split
      · simp
      · split
        · simp
        · split <;> simp

/-- A time-out check that finds the icon row completes nothing. -/
theorem jajobIconTimeout_ends (jobType : JobType) (h : x.hasIcon w.tables jobType row.innerJobId = true) :
    ends (jajobIconTimeout x jobType w row).1.acts = ends w.acts := by
  simp only [jajobIconTimeout, h, Bool.true_eq_false, if_false]
  split <;> rfl

theorem jajobIconTimeout_ends_le (jobType : JobType) :
    ends (jajobIconTimeout x jobType w row).1.acts ≤ ends w.acts + 1 := by
  cases h : x.hasIcon w.tables jobType row.innerJobId with
  | true =>
    rw [jajobIconTimeout_ends x w row jobType h]
    exact Nat.le_succ _
  | false => simp [jajobIconTimeout, h]

/-- Aborting a job leaves the agentless rows alone. -/
theorem jajobIconLessAbort_agentless : (jajobIconLessAbort x w row).1.tables.agentless = w.tables.agentless := by
  unfold jajobIconLessAbort
  split
  · simp
  · split
    · simp
    · dsimp only
      split
      · rfl
      · split
        · simp
        · split <;> simp

end

/-- An abort and a time-out check in the same row, both without their icon
row: each of them sets RUNERR. -/
def StoppedTwice (x : World) (t : Tables) (row : Job) : Prop :=
  (row.jobType = .job ∨ row.jobType = .reboot ∨ row.jobType = .less) ∧ row.methodFlag = .abort ∧
    x.timeoutDue row = true ∧ x.hasIcon t row.jobType row.innerJobId = false

instance (x : World) (t : Tables) (row : Job) : Decidable (StoppedTwice x t row) := by
  unfold StoppedTwice; exact inferInstance

/-- The shape of job, reboot and agentless rows: the abort completes the job
at most once, the check only when the icon row is missing. -/
theorem stopThenTimeout_ends {x : World} {abort : Watched → Watched} {t : Tables} {row : Job} {jobType : JobType}
    (habort : ends (abort ⟨t, []⟩).acts ≤ 1)
    (hicon : x.hasIcon (abort ⟨t, []⟩).tables jobType row.innerJobId = x.hasIcon t jobType row.innerJobId)
    (h : ¬ (row.methodFlag = .abort ∧ x.timeoutDue row = true ∧ x.hasIcon t jobType row.innerJobId = false)) :
    ends (stopThenTimeout x abort (fun w => (jajobIconTimeout x jobType w row).1) ⟨t, []⟩ row).1.acts ≤ 1 := by
  unfold stopThenTimeout
  by_cases hm : row.methodFlag = .abort
  · rw [if_pos hm]
    by_cases hd : x.timeoutDue row = true
    · have hrow : x.hasIcon t jobType row.innerJobId = true := by
        simpa [hm, hd] using h
      simp only [hd, if_true]
      rw [jajobIconTimeout_ends x _ row jobType (hicon.trans hrow)]
      exact habort
    · simpa [hd] using habort
  · rw [if_neg hm]
    by_cases hd : x.timeoutDue row = true
    · simpa [hd] using jajobIconTimeout_ends_le x ⟨t, []⟩ row jobType
    · simp [hd]

/-- **A row completes its job at most once**, except where two helpers miss
the icon row. -/
theorem processRow_ends {x : World} {t : Tables} {row : Job} (h : ¬ StoppedTwice x t row) :
    ends (processRow x t row).1.acts ≤ 1 := by
  unfold StoppedTwice at h
  unfold processRow
  cases ht : row.jobType with
  | job =>
    refine stopThenTimeout_ends (jajobIconJobAbort_ends x ⟨t, []⟩ row.innerJobId) rfl ?_
    simpa [ht] using h
  | reboot =>
    refine stopThenTimeout_ends (jarunIconRebootKill_ends x ⟨t, []⟩ row.innerJobId) rfl ?_
    simpa [ht] using h
  | less =>
    refine stopThenTimeout_ends (jajobIconLessAbort_ends x ⟨t, []⟩ row) ?_ ?_
    · simp only [World.hasIcon, jajobIconLessAbort_agentless]
    · simpa [ht] using h
  | extjob =>
    dsimp only
    split
    · exact jajobIconExtjobKill_ends x ⟨t, []⟩ row.innerJobId
    · exact jajobIconExtjob_ends x ⟨t, []⟩ row.innerJobId row.innerJobnetId
  | fwait =>
    dsimp only
    split
    · exact jarunIconFwaitKill_ends x ⟨t, []⟩ row.innerJobId
    · simp
  | _ => simp

/-! ## The processes -/

/-- `status = RUN` -/
def isRun (t : Tables) (i : Id) : Bool := (t.job? i).any fun j => j.status = .run

theorem isRun_cell {t t' : Tables} {i : Id} (h : cell t' i = cell t i) : isRun t' i = isRun t i := by
  have hjob := congrArg Cell.job h
  exact congrArg (fun o : Option Job => o.any fun j => j.status = .run) hjob

theorem isRun_status {t : Tables} {i : Id} (h : isRun t i = true) : (t.job? i).map Job.status = some .run := by
  unfold isRun at h
  cases hj : t.job? i with
  | none => simp [hj] at h
  | some j => simpa [hj] using h

/-- A finished row: the committed status of its job while the row was locked,
and what was done to the job. -/
structure RowDone where
  status : Option Status
  acts : List JobAct
  deriving DecidableEq, Repr

/-- `todo p` are the rows of its list process `p` has not fetched yet, `held p`
the row it is working on. -/
structure MonitorState (P : Type) where
  tables : Tables
  lock : Id → Option P
  todo : P → List Job
  held : P → Option Job
  done : List RowDone

inductive MonitorLabel (P : Type) where
  | select (p : P)
  | lock (p : P)
  /-- the switch, on the view `t`, and `DBcommit` or `DBrollback` -/
  | finish (p : P) (x : World) (t t' : Tables)
  /-- a commit of any other process -/
  | other (t' : Tables)

/-- What is left of the acts when the transaction ends: a rollback takes all
back but the requests already sent. -/
def performed (r : Watched × Ret) : List JobAct :=
  match r.2 with
  | .succeed => r.1.acts
  | .fail => r.1.acts.filter (· = .kill)

section
variable {P : Type} [DecidableEq P]

/-- `who` commits `t'`: the primary key stays, and so do the rows others have
locked. -/
structure MonitorState.Commits (s : MonitorState P) (who : Option P) (t' : Tables) : Prop where
  keyed : (t'.jobs.map Job.innerJobId).Nodup
  respects : Respects s.lock who (cell s.tables) (cell t')

/-- mirrors src/jobarg_server/jajob/jajob.c:59-148 -/
def MonitorStep (s : MonitorState P) : MonitorLabel P → MonitorState P → Prop
  | .select p, s' => s.held p = none ∧ s.todo p = [] ∧
      s' = { s with todo := Function.update s.todo p (s.tables.jobs.filter fun j => j.status = .run) }
  | .lock p, s' => ∃ row rest, s.held p = none ∧ s.todo p = row :: rest ∧ s.lock row.innerJobId = none ∧
      s' = { s with
        todo := Function.update s.todo p rest
        held := Function.update s.held p (some row)
        lock := acquire s.lock row.innerJobId p }
  | .finish p x t t', s' => ∃ row, s.held p = some row ∧
      cell t row.innerJobId = cell s.tables row.innerJobId ∧
      ((processRow x t row).2 = .succeed →
        cell t' row.innerJobId = cell (processRow x t row).1.tables row.innerJobId) ∧
      ((processRow x t row).2 = .fail → t' = s.tables) ∧
      s.Commits (some p) t' ∧
      s' = { s with
        tables := t'
        lock := release s.lock row.innerJobId
        held := Function.update s.held p none
        done := ⟨(s.tables.job? row.innerJobId).map Job.status, performed (processRow x t row)⟩ :: s.done }
  | .other t', s' => s.Commits none t' ∧ s' = { s with tables := t' }

structure MonitorInit (s : MonitorState P) : Prop where
  lock : ∀ i, s.lock i = none
  keyed : (s.tables.jobs.map Job.innerJobId).Nodup
  todo : ∀ p, s.todo p = []
  held : ∀ p, s.held p = none
  done : s.done = []

variable (P) in
def monitorSystem : LTS (MonitorState P) (MonitorLabel P) where
  init := MonitorInit
  step := MonitorStep

/-- Whatever is done to a job is done while its locked row is RUN, and the
job is completed at most once. -/
def ActsOnRunning (s : MonitorState P) : Prop :=
  ∀ d ∈ s.done, d.acts ≠ [] → d.status = some .run ∧ ends d.acts ≤ 1

/-- `t'` takes no job out of RUN that a process has on its list. -/
def KeepsRunning (s : MonitorState P) (t' : Tables) : Prop :=
  ∀ p, ∀ row ∈ s.todo p, isRun s.tables row.innerJobId = true → isRun t' row.innerJobId = true

/-- No commit takes a listed job out of RUN, and no row is stopped twice. -/
def ListStaysRunning (s : MonitorState P) : MonitorLabel P → Prop
  | .finish p x t t' => KeepsRunning s t' ∧ ∀ row, s.held p = some row → ¬ StoppedTwice x t row
  | .other t' => KeepsRunning s t'
  | _ => True

structure MonitorInv (s : MonitorState P) : Prop where
  keyed : (s.tables.jobs.map Job.innerJobId).Nodup
  todo : ∀ p, ∀ row ∈ s.todo p, isRun s.tables row.innerJobId = true
  locked : ∀ p row, s.held p = some row → s.lock row.innerJobId = some p
  held : ∀ p row, s.held p = some row → isRun s.tables row.innerJobId = true
  law : ActsOnRunning s

/-- The rows of the select are RUN when they are read. -/
theorem isRun_select {t : Tables} (hk : (t.jobs.map Job.innerJobId).Nodup) {row : Job}
    (hr : row ∈ t.jobs.filter fun j => j.status = .run) : isRun t row.innerJobId = true := by
  obtain ⟨hm, hs⟩ := List.mem_filter.1 hr
  rw [isRun, Tables.job?, Table.lookup_eq hk hm]
  exact hs

variable {s s' : MonitorState P}

theorem MonitorInv.select (h : MonitorInv s) {p : P} (hs : MonitorStep s (.select p) s') : MonitorInv s' := by
  obtain ⟨-, -, rfl⟩ := hs
  refine ⟨h.keyed, ?_, h.locked, h.held, h.law⟩
  apply (Function.forall_update_iff s.todo fun _ l => ∀ row ∈ l, isRun s.tables row.innerJobId = true).2
  exact ⟨fun row hr => isRun_select h.keyed hr, fun q _ => h.todo q⟩

theorem MonitorInv.lock (h : MonitorInv s) {p : P} (hs : MonitorStep s (.lock p) s') : MonitorInv s' := by
  obtain ⟨row, rest, -, htodo, hfree, rfl⟩ := hs
  have hlist : ∀ r ∈ row :: rest, isRun s.tables r.innerJobId = true := by
    rw [← htodo]
    exact h.todo p
  refine ⟨h.keyed, ?_, ?_, ?_, h.law⟩
  · apply (Function.forall_update_iff s.todo fun _ l => ∀ r ∈ l, isRun s.tables r.innerJobId = true).2
    exact ⟨fun r hr => hlist r (List.mem_cons_of_mem _ hr), fun q _ => h.todo q⟩
  · apply (Function.forall_update_iff s.held fun q o => ∀ r, o = some r →
      acquire s.lock row.innerJobId p r.innerJobId = some q).2
    refine ⟨fun r hr => ?_, fun q _ r hq => acquire_held hfree (h.locked q r hq)⟩
    rw [← Option.some.inj hr]
    exact acquire_self _ _ _
  · apply (Function.forall_update_iff s.held fun _ o => ∀ r, o = some r →
      isRun s.tables r.innerJobId = true).2
    refine ⟨fun r hr => ?_, fun q _ r hq => h.held q r hq⟩
    rw [← Option.some.inj hr]
    exact hlist row List.mem_cons_self

omit [DecidableEq P] in
/-- Who else holds a row finds it as it was. -/
theorem MonitorInv.keeps (h : MonitorInv s) {who : Option P} {t' : Tables} (hc : s.Commits who t') {q : P}
    {row : Job} (hq : s.held q = some row) (hne : who ≠ some q) : isRun t' row.innerJobId = true := by
  rw [isRun_cell (hc.respects.held (h.locked q row hq) hne)]
  exact h.held q row hq

theorem MonitorInv.finish (h : MonitorInv s) {p : P} {x : World} {t t' : Tables}
    (hs : MonitorStep s (.finish p x t t') s') (hk : ListStaysRunning s (.finish p x t t')) : MonitorInv s' := by
  obtain ⟨row, hrow, -, -, -, hcom, rfl⟩ := hs
  refine ⟨hcom.keyed, ?_, ?_, ?_, ?_⟩
  · exact fun q r hr => hk.1 q r hr (h.todo q r hr)
  · apply (Function.forall_update_iff s.held fun q o => ∀ r, o = some r →
      release s.lock row.innerJobId r.innerJobId = some q).2
    exact ⟨by simp, fun q hqp r hq => release_held (h.locked p row hrow) (h.locked q r hq) hqp⟩
  · apply (Function.forall_update_iff s.held fun _ o => ∀ r, o = some r → isRun t' r.innerJobId = true).2
    exact ⟨by simp, fun q hqp r hq => h.keeps hcom hq (by simpa using Ne.symm hqp)⟩
  · intro d hd hacts
    rcases List.mem_cons.1 hd with rfl | hd
    · refine ⟨isRun_status (h.held p row hrow), ?_⟩
      -- a rollback leaves no completion at all
      have hle : ends (performed (processRow x t row)) ≤ ends (processRow x t row).1.acts := by
        unfold performed
        split
        · exact Nat.le_refl _
        · exact List.Sublist.countP_le List.filter_sublist
      exact hle.trans (processRow_ends (hk.2 row hrow))
    · exact h.law d hd hacts

theorem MonitorInv.other (h : MonitorInv s) {t' : Tables} (hs : MonitorStep s (.other t') s')
    (hk : KeepsRunning s t') : MonitorInv s' := by
  obtain ⟨hcom, rfl⟩ := hs
  refine ⟨hcom.keyed, ?_, h.locked, ?_, h.law⟩
  · exact fun q row hr => hk q row hr (h.todo q row hr)
  · exact fun q row hq => h.keeps hcom hq (by simp)

theorem monitorInv_inductive : ((monitorSystem P).restrict ListStaysRunning).Inductive MonitorInv where
  init s hs := by
    refine ⟨hs.keyed, ?_, ?_, ?_, ?_⟩
    · simp [hs.todo]
    · simp [hs.held]
    · simp [hs.held]
    · simp [ActsOnRunning, hs.done]
  step s l s' h hs := by
    obtain ⟨hs, hk⟩ := hs
    cases l with
    | select p => exact h.select hs
    | lock p => exact h.lock hs
    | finish p x t t' => exact h.finish hs hk
    | other t' => exact h.other hs hk

/-- **`process_jajob` acts on running jobs only** in the runs where nothing
takes a listed job out of RUN. -/
theorem acts_on_running (s : MonitorState P)
    (hr : ((monitorSystem P).restrict ListStaysRunning).Reachable s) : ActsOnRunning s :=
  (monitorInv_inductive.reachable s hr).law

end

/-! ## A late result -/

/-- Job 1 is RUN with a stop requested; 1 → 2 leads to the end icon. -/
def stopTables : Tables :=
  { Tables.empty with
    jobs := [⟨1, 1, 1, false, .job, false, .abort, false, .run, 1, 1, "A", false⟩,
             ⟨2, 1, 1, false, .endIcon, false, .normal, false, .begin, 1, 0, "END", false⟩]
    flows := [⟨1, 1, 1, 2, .normal⟩]
    jobnets := [⟨1, 1, 0, 0, .normal, true, false, .run, 0, .on, "NET", "NET", "user"⟩] }

/-- The icon row is there, the host answers, no time-out check. -/
def killWorld : World :=
  ⟨true, false, true, false, true, true, true, false, false, .other, .waiting, false, none, false, "", false, false⟩

def stopState : MonitorState Unit := ⟨stopTables, fun _ => none, fun _ => [], fun _ => none, []⟩

theorem stopState_init : MonitorInit stopState :=
  ⟨fun _ => rfl, by decide, fun _ => rfl, fun _ => rfl, rfl⟩

/-- The row of job 1 as it is on the list. -/
def stopRow : Job := ⟨1, 1, 1, false, .job, false, .abort, false, .run, 1, 1, "A", false⟩

theorem commits_only {s : MonitorState Unit} {t' : Tables} (hk : (t'.jobs.map Job.innerJobId).Nodup) :
    s.Commits (some ()) t' :=
  ⟨hk, fun _ _ _ hne => absurd rfl hne⟩

theorem acts_on_running_stopState :
    ∃ s, ((monitorSystem Unit).restrict ListStaysRunning).Reachable s ∧
      s.done = [⟨some .run, [.abort, .kill]⟩] ∧ ActsOnRunning s := by
  have hreach : ∃ s, ((monitorSystem Unit).restrict ListStaysRunning).Reachable s ∧
      s.done = [⟨some .run, [.abort, .kill]⟩] :=
    ⟨_, ⟨stopState, [.select (), .lock (), .finish () killWorld stopTables
      (processRow killWorld stopTables stopRow).1.tables], stopState_init,
      .cons ⟨⟨rfl, rfl, rfl⟩, trivial⟩ (.cons ⟨⟨stopRow, [], rfl, rfl, rfl, rfl⟩, trivial⟩
        (.cons ⟨⟨stopRow, rfl, rfl, fun _ => rfl, fun h => absurd h (by decide), commits_only (by decide), rfl⟩,
          ⟨fun _ row hr => absurd hr (List.not_mem_nil (a := row)), fun _ hrow => by cases hrow; decide⟩⟩
          (.nil _)))⟩, rfl⟩
  obtain ⟨s, hr, hdone⟩ := hreach
  exact ⟨s, hr, hdone, acts_on_running s hr⟩

/-- The result of job 1 comes after the list and before the lock: the job is
in END and is set to ABORT. -/
theorem finished_job_aborted :
    ∃ s, (monitorSystem Unit).Reachable s ∧ s.done = [⟨some .ended, [.abort, .kill]⟩] ∧
      (s.tables.job? 1).map Job.status = some .abort ∧ ¬ ActsOnRunning s := by
  refine ⟨_, ⟨stopState, [.select (), .other (jaFlow stopTables 1 .normal true).1, .lock (),
    .finish () killWorld (jaFlow stopTables 1 .normal true).1
      (processRow killWorld (jaFlow stopTables 1 .normal true).1 stopRow).1.tables], stopState_init,
    .cons ⟨rfl, rfl, rfl⟩ (.cons ⟨⟨by decide, fun _ _ hq => by cases hq⟩, rfl⟩
      (.cons ⟨stopRow, [], rfl, rfl, rfl, rfl⟩
        (.cons ⟨stopRow, rfl, rfl, fun _ => rfl, fun h => absurd h (by decide), commits_only (by decide), rfl⟩ (.nil _))))⟩,
    by decide, by decide, ?_⟩
  intro h
  have hrun := (h ⟨some .ended, [.abort, .kill]⟩ (by decide) (by decide)).1
  cases hrun

end JobArranger
