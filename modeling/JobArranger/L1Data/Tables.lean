import JobArranger.Core.Table

/-!
# The run tables

The job server keeps every started jobnet in the `ja_run_*` tables
(database/mysql/MySQL_JA_CREATE_TABLE.sql); loader, boot, jobnet, job and
trapper processes only communicate through them. `Tables` holds the rows
of the tables the modelled functions read or write, each a list in the
order an unordered `select` returns it.

Numeric codes are inductive types (jainclude/jacommon.h:76-181). The job
and jobnet status codes agree on 0..5, so both columns use `Status`; only
jobs are ever `abort`.

Columns no modelled function reads (start and end times, points, users,
memo, virtual times) are left out.
-/
namespace JobArranger

/-- `zbx_uint64_t` row ids. -/
abbrev Id := Nat

/-- Bytes of a variable value (no NUL). -/
abbrev Text := List UInt8

/-- `JA_MAX_STRING_LEN` (jacommon.h:43). -/
def maxStringLen : Nat := 1024

/-- `JA_JOB_STATUS_*` / `JA_JOBNET_STATUS_*` (jacommon.h:90-95,145-151). -/
inductive Status where
  | begin | ready | run | ended | runErr | endErr | abort
  deriving DecidableEq, Repr

/-- `JA_JOB_TYPE_*` (jacommon.h:122-142). -/
inductive JobType where
  | startIcon | endIcon | ifIcon | value | job | jobnet | m | w | l | extjob | calc | task | info
  | ifend | fcopy | fwait | reboot | rel | less | link | abort
  deriving DecidableEq, Repr

/-- `JA_JOB_METHOD_*` (jacommon.h:154-158). -/
inductive Method where
  | normal | wait | skip | abort | rerun
  deriving DecidableEq, Repr

/-- `JA_FLOW_TYPE_*` (jacommon.h:179-181). -/
inductive FlowType where
  | normal | onTrue | onFalse
  deriving DecidableEq, Repr

/-- `JA_JOBNET_RUN_TYPE_*` (jacommon.h:78-83). -/
inductive RunType where
  | normal | immediate | wait | test | scheduled | jobalone
  deriving DecidableEq, Repr

/-- `JA_JOBNET_MULTIPLE_*` (jacommon.h:98-100). -/
inductive MultipleStartUp where
  | on | skip | delay
  deriving DecidableEq, Repr

/-- `JA_SUMMARY_JOB_STATUS_*` (jacommon.h:104-106). -/
inductive SummaryJobStatus where
  | normal | timeout | error
  deriving DecidableEq, Repr

/-- `JA_SUMMARY_LOAD_STATUS_*` (jacommon.h:109-112). -/
inductive LoadStatus where
  | normal | error | delay | skip
  deriving DecidableEq, Repr

/-- `JA_SUMMARY_START_PENDING_*` (jacommon.h:115-117). -/
inductive StartPending where
  | unset | on | off
  deriving DecidableEq, Repr

/-- Messages of the job run log (jainclude/jajoblog.h). -/
inductive LogMsg where
  | jobnetStart | jobnetEnd | jobStart | jobEnd | jobTimeout | jobSkip | jobRerun
  | jobnetStartErr | jobErrEnd | jobnetErrEnd
  deriving DecidableEq, Repr

/-- `SUCCEED` / `FAIL`. -/
inductive Ret where
  | succeed | fail
  deriving DecidableEq, Repr

/-- Row of `ja_run_job_table`. -/
structure Job where
  innerJobId : Id
  innerJobnetId : Id
  innerJobnetMainId : Id
  invoFlag : Bool
  jobType : JobType
  testFlag : Bool
  methodFlag : Method
  timeoutFlag : Bool
  status : Status
  bootCount : Nat
  endCount : Nat
  jobId : String
  continueFlag : Bool
  deriving DecidableEq, Repr

/-- Row of `ja_run_flow_table`. -/
structure Flow where
  innerFlowId : Id
  innerJobnetId : Id
  startInnerJobId : Id
  endInnerJobId : Id
  flowType : FlowType
  deriving DecidableEq, Repr

/-- Row of `ja_run_jobnet_table`. `innerJobId` is the jobnet icon the
jobnet hangs on, 0 for a main jobnet. -/
structure Jobnet where
  innerJobnetId : Id
  innerJobnetMainId : Id
  innerJobId : Id
  updateDate : Nat
  runType : RunType
  mainFlag : Bool
  timeoutFlag : Bool
  status : Status
  scheduledTime : Nat
  multipleStartUp : MultipleStartUp
  jobnetId : String
  jobnetName : String
  userName : String
  deriving DecidableEq, Repr

/-- Row of `ja_run_jobnet_summary_table`: one per started main jobnet. -/
structure Summary where
  innerJobnetId : Id
  runType : RunType
  status : Status
  jobStatus : SummaryJobStatus
  jobnetAbortFlag : Bool
  loadStatus : LoadStatus
  scheduledTime : Nat
  multipleStartUp : MultipleStartUp
  jobnetId : String
  startPendingFlag : StartPending
  deriving DecidableEq, Repr

/-- Row of `ja_run_icon_jobnet_table`. -/
structure IconJobnet where
  innerJobId : Id
  innerJobnetId : Id
  linkInnerJobnetId : Id
  linkJobnetId : String
  deriving DecidableEq, Repr

/-- Row of `ja_run_icon_agentless_table`; `sessionClose` is
`session_flag = JA_SESSION_FLAG_CLOSE`. -/
structure IconAgentless where
  innerJobId : Id
  sessionClose : Bool
  deriving DecidableEq, Repr

/-- Row of one of the four variable tables; `owner` is `inner_job_id`, in
the jobnet tables `inner_jobnet_id`. -/
structure ValueRow where
  seqNo : Nat
  owner : Id
  innerJobnetId : Id
  valueName : String
  value : Text
  deriving DecidableEq, Repr

/-- Row of `ja_session_table`. -/
structure Session where
  sessionId : String
  innerJobnetMainId : Id
  innerJobId : Id
  deriving DecidableEq, Repr

/-- Row of `ja_run_log_table` without its time stamp. A jobnet message has
no job columns; `result` is `(return_code, std_out, std_err)`, written only
at the end of job and agentless icons. -/
structure LogRow where
  message : LogMsg
  innerJobnetId : Id
  innerJobnetMainId : Id
  innerJobId : Option Id
  updateDate : Nat
  methodFlag : Method
  jobnetStatus : Status
  jobStatus : Option Status
  runType : RunType
  jobnetId : String
  jobnetName : String
  jobId : Option String
  userName : String
  result : Option (Text × Text × Text)
  deriving DecidableEq, Repr

structure Tables where
  jobs : List Job
  flows : List Flow
  jobnets : List Jobnet
  summaries : List Summary
  iconJobnets : List IconJobnet
  agentless : List IconAgentless
  before : List ValueRow
  after : List ValueRow
  jobnetBefore : List ValueRow
  jobnetAfter : List ValueRow
  sessions : List Session
  log : List LogRow
  /-- next `AUTO_INCREMENT` value of the variable tables -/
  nextSeq : Nat
  deriving DecidableEq, Repr

namespace Tables

def empty : Tables := ⟨[], [], [], [], [], [], [], [], [], [], [], [], 1⟩

def job? (t : Tables) (i : Id) : Option Job := Table.lookup Job.innerJobId i t.jobs

def jobnet? (t : Tables) (n : Id) : Option Jobnet := Table.lookup Jobnet.innerJobnetId n t.jobnets

def summary? (t : Tables) (n : Id) : Option Summary :=
  Table.lookup Summary.innerJobnetId n t.summaries

def iconJobnet? (t : Tables) (i : Id) : Option IconJobnet :=
  Table.lookup IconJobnet.innerJobId i t.iconJobnets

/-- `update ja_run_job_table set f where p`. -/
def updateJobs (t : Tables) (p : Job → Bool) (f : Job → Job) : Tables :=
  { t with jobs := Table.update p f t.jobs }

/-- `update ja_run_jobnet_table set f where p`. -/
def updateJobnets (t : Tables) (p : Jobnet → Bool) (f : Jobnet → Jobnet) : Tables :=
  { t with jobnets := Table.update p f t.jobnets }

/-- `update ja_run_jobnet_summary_table set f where p`. -/
def updateSummaries (t : Tables) (p : Summary → Bool) (f : Summary → Summary) : Tables :=
  { t with summaries := Table.update p f t.summaries }

theorem job?_updateJobs (t : Tables) (p : Job → Bool) (f : Job → Job) (i : Id)
    (hf : ∀ j, (f j).innerJobId = j.innerJobId) :
    (t.updateJobs p f).job? i = (t.job? i).map fun j => if p j then f j else j :=
  Table.lookup_update Job.innerJobId i p f t.jobs hf

theorem jobnet?_updateJobnets (t : Tables) (p : Jobnet → Bool) (f : Jobnet → Jobnet) (n : Id)
    (hf : ∀ r, (f r).innerJobnetId = r.innerJobnetId) :
    (t.updateJobnets p f).jobnet? n = (t.jobnet? n).map fun r => if p r then f r else r :=
  Table.lookup_update Jobnet.innerJobnetId n p f t.jobnets hf

/-- `if (… == FAIL) return FAIL;`: go on only after `SUCCEED`, keeping the
writes made so far. -/
def andThen (r : Tables × Ret) (k : Tables → Tables × Ret) : Tables × Ret :=
  match r with
  | (t, .succeed) => k t
  | (t, .fail) => (t, .fail)

@[simp] theorem andThen_succeed (t : Tables) (k : Tables → Tables × Ret) :
    andThen (t, .succeed) k = k t := rfl

/-- A property both parts keep, the first from `t`, is kept by their
sequence. -/
theorem andThen_keeps {P : Tables → Prop} {r : Tables × Ret} {k : Tables → Tables × Ret}
    (hr : P r.1) (hk : ∀ t, P t → P (k t).1) : P (andThen r k).1 := by
  obtain ⟨t, ret⟩ := r
  cases ret with
  | succeed => exact hk t hr
  | fail => exact hr

/-- After `SUCCEED` the rest ran, after `FAIL` nothing more. -/
theorem andThen_cases (r : Tables × Ret) (k : Tables → Tables × Ret) :
    (andThen r k).2 = .fail ∨ (r.2 = .succeed ∧ andThen r k = k r.1) := by
  obtain ⟨t, ret⟩ := r
  cases ret with
  | succeed => exact .inr ⟨rfl, rfl⟩
  | fail => exact .inl rfl

end Tables
end JobArranger
