import JobArranger.L1Data.Tables
import Mathlib.Logic.Function.Basic

/-!
# Expanding a jobnet definition (`jobarg_server/jaloader/jaloader.c`)

A started jobnet is a copy of its definition in the run tables.
`load_job_definition` copies the icons and flows of one jobnet;
`load_sub_jobnet_definition` rescans the run jobs for jobnet icons that are
not expanded yet (`invo_flag` OFF) and expands each of them, until a scan
finds none. Ids come from `ja_index_table` (`jalibs/jaindex.c`).

A function that returns `FAIL` is `none`: `load_jobnet_definition` rolls
the whole load back. Inserts check the primary and foreign keys of the
schema. An `insert … select` or `update` reports the rows it matched.
`DBselect` results are stored, so a scan does not see rows inserted while
it is read.

The icon tables whose rows no modelled function reads later (command,
condition, variable and file tables) are only kept on the definition side,
where a missing row makes the load fail.
-/
namespace JobArranger

/-- Key of an icon of a jobnet version. -/
structure DefKey where
  jobnetId : String
  jobId : String
  updateDate : Nat
  deriving DecidableEq, Repr

/-- Row of `ja_jobnet_control_table`. -/
structure JobnetDef where
  jobnetId : String
  updateDate : Nat
  validFlag : Bool
  userName : String
  jobnetName : String
  multipleStartUp : MultipleStartUp
  deriving DecidableEq, Repr

/-- Row of `ja_job_control_table`. -/
structure JobDef where
  key : DefKey
  jobType : JobType
  methodFlag : Method
  continueFlag : Bool
  deriving DecidableEq, Repr

/-- Row of `ja_flow_control_table`. -/
structure FlowDef where
  jobnetId : String
  startJobId : String
  endJobId : String
  updateDate : Nat
  flowType : FlowType
  deriving DecidableEq, Repr

/-- `JA_SESSION_FLAG_*`. -/
inductive SessionFlag where
  | onetime | connect | continue | close
  deriving DecidableEq, Repr

/-- The definition tables. `icons` holds the keys of every icon table that
is only checked for presence, `jobCommands` those of `ja_job_command_table`. -/
structure Defs where
  jobnets : List JobnetDef
  jobs : List JobDef
  flows : List FlowDef
  iconJobnets : List (DefKey × String)
  iconEnds : List (DefKey × Bool)
  iconAgentless : List (DefKey × SessionFlag)
  icons : List (JobType × DefKey)
  jobCommands : List DefKey
  deriving DecidableEq, Repr

namespace Defs

/-- `where jobnet_id = … and update_date = …`. -/
def jobsOf (d : Defs) (jobnetId : String) (updateDate : Nat) : List JobDef :=
  d.jobs.filter fun j => j.key.jobnetId == jobnetId && j.key.updateDate == updateDate

def flowsOf (d : Defs) (jobnetId : String) (updateDate : Nat) : List FlowDef :=
  d.flows.filter fun f => f.jobnetId == jobnetId && f.updateDate == updateDate

/-- The valid version of a jobnet (`valid_flag = 1`). -/
def valid (d : Defs) (jobnetId : String) : Option JobnetDef :=
  d.jobnets.find? fun n => n.jobnetId == jobnetId && n.validFlag

end Defs

/-! ## Ids -/

/-- `JA_RUN_ID_*`. -/
inductive CountId where
  | jobnetLd | jobnetEx | job | flow | session
  deriving DecidableEq, Repr

/-- Largest id handed out and first id after it.
mirrors src/jalibs/jaindex.c:77-103 -/
def CountId.range : CountId → Nat × Nat
  | .jobnetLd => (1499999999999999999, 1)
  | .jobnetEx => (1699999999999999999, 1600000000000000000)
  | .job | .flow | .session => (9200000000000000000, 1)

/-- The run tables and `ja_index_table`. -/
structure Loader where
  tables : Tables
  nextid : CountId → Option Nat

namespace Loader

/-- `none` is the error value 0. After the last id the counter restarts and
is not advanced past the id it returns.
mirrors src/jalibs/jaindex.c:53-124 -/
def getNextId (s : Loader) (c : CountId) : Option (Loader × Id) :=
  match s.nextid c with
  | none => none
  | some v =>
    let (id, next) := if c.range.1 < v then (c.range.2, c.range.2) else (v, v + 1)
    if id = 0 then none
    else some ({ s with nextid := Function.update s.nextid c (some next) }, id)

/-! ## Inserts -/

def insertJob (s : Loader) (j : Job) : Option Loader :=
  if (s.tables.job? j.innerJobId).isSome ∨ (s.tables.jobnet? j.innerJobnetId).isNone then none
  else some { s with tables := { s.tables with jobs := s.tables.jobs ++ [j] } }

def insertFlow (s : Loader) (f : Flow) : Option Loader :=
  if (Table.lookup Flow.innerFlowId f.innerFlowId s.tables.flows).isSome ∨
      (s.tables.jobnet? f.innerJobnetId).isNone then none
  else some { s with tables := { s.tables with flows := s.tables.flows ++ [f] } }

def insertJobnet (s : Loader) (n : Jobnet) : Option Loader :=
  if (s.tables.jobnet? n.innerJobnetId).isSome then none
  else some { s with tables := { s.tables with jobnets := s.tables.jobnets ++ [n] } }

def insertIconJobnet (s : Loader) (r : IconJobnet) : Option Loader :=
  if (s.tables.iconJobnet? r.innerJobId).isSome then none
  else some { s with tables := { s.tables with iconJobnets := s.tables.iconJobnets ++ [r] } }

def insertAgentless (s : Loader) (r : IconAgentless) : Option Loader :=
  if (Table.lookup IconAgentless.innerJobId r.innerJobId s.tables.agentless).isSome then none
  else some { s with tables := { s.tables with agentless := s.tables.agentless ++ [r] } }

def setMethod (s : Loader) (innerJobId : Id) (method : Method) : Loader :=
  { s with tables := s.tables.updateJobs (·.innerJobId == innerJobId) fun j =>
      { j with methodFlag := method } }

def setInvo (s : Loader) (innerJobId : Id) : Loader :=
  { s with tables := s.tables.updateJobs (·.innerJobId == innerJobId) fun j => { j with invoFlag := true } }

/-! ## Icons -/

/-- mirrors src/jobarg_server/jaloader/jaloader.c:661-710 -/
def loadIconEnd (d : Defs) (s : Loader) (innerJobId : Id) (key : DefKey) : Option Loader :=
  match d.iconEnds.find? (·.1 == key) with
  | none => none
  | some (_, jobnetStopFlag) => some (if jobnetStopFlag then s.setMethod innerJobId .wait else s)

/-- The second row of a duplicate definition would break the primary key.
mirrors src/jobarg_server/jaloader/jaloader.c:898-930 -/
def loadIconJobnet (d : Defs) (s : Loader) (innerJobnetId innerJobId : Id) (key : DefKey) :
    Option Loader :=
  match s.getNextId .jobnetLd with
  | none => none
  | some (s, linkInnerJobnetId) =>
    match d.iconJobnets.filter (·.1 == key) with
    | [(_, linkJobnetId)] =>
      s.insertIconJobnet ⟨innerJobId, innerJobnetId, linkInnerJobnetId, linkJobnetId⟩
    | _ => none

/-- mirrors src/jobarg_server/jaloader/jaloader.c:1313-1379 -/
def loadIconLess (d : Defs) (s : Loader) (innerJobId : Id) (key : DefKey) : Option Loader :=
  match d.iconAgentless.find? (·.1 == key) with
  | none => none
  | some (_, sessionFlag) =>
    match (if sessionFlag = .onetime then s.getNextId .session else some (s, 0)) with
    | none => none
    | some (s, _) => s.insertAgentless ⟨innerJobId, sessionFlag = .close⟩

/-- The switch over the icon type.
mirrors src/jobarg_server/jaloader/jaloader.c:1554-1645 -/
def loadIcon (d : Defs) (runType : RunType) (s : Loader) (innerJobnetId innerJobId : Id) (jd : JobDef) :
    Option Loader :=
  match jd.jobType with
  | .startIcon => some (if runType = .wait then s.setMethod innerJobId .wait else s)
  | .endIcon => loadIconEnd d s innerJobId jd.key
  | .jobnet => loadIconJobnet d s innerJobnetId innerJobId jd.key
  | .less => loadIconLess d s innerJobId jd.key
  | .job => if d.icons.contains (.job, jd.key) && d.jobCommands.contains jd.key then some s else none
  -- no case in the switch
  | .m | .w | .l | .ifend | .abort => some s
  | type => if d.icons.contains (type, jd.key) then some s else none

/-- mirrors src/jobarg_server/jaloader/jaloader.c:556-582 -/
def getBootCount (d : Defs) (key : DefKey) : Nat :=
  ((d.flowsOf key.jobnetId key.updateDate).filter fun f => f.endJobId == key.jobId).length

/-- The `inner_job_id_fs_link` of a job icon takes an id too.
mirrors src/jobarg_server/jaloader/jaloader.c:1481-1490 -/
def fsLinkId (s : Loader) (jobType : JobType) : Option (Loader × Id) :=
  if jobType = .job then s.getNextId .job else some (s, 0)

/-- One row of the icon loop.
mirrors src/jobarg_server/jaloader/jaloader.c:1469-1651 -/
def loadJob (d : Defs) (innerJobnetMainId innerJobnetId : Id) (testFlag : Bool) (runType : RunType)
    (s : Loader) (jd : JobDef) : Option Loader := do
  let (s, innerJobId) ← s.getNextId .job
  let (s, _) ← s.fsLinkId jd.jobType
  let s ← s.insertJob
    { innerJobId, innerJobnetId, innerJobnetMainId, invoFlag := false, jobType := jd.jobType, testFlag
      methodFlag := jd.methodFlag, timeoutFlag := false, status := .begin
      bootCount := getBootCount d jd.key, endCount := 0, jobId := jd.key.jobId
      continueFlag := jd.continueFlag }
  loadIcon d runType s innerJobnetId innerJobId jd

/-- mirrors src/jobarg_server/jaloader/jaloader.c:511-540 -/
def getFlowInnerJobId (s : Loader) (innerJobnetId : Id) (jobId : String) : Option Id :=
  (s.tables.jobs.find? fun j => j.innerJobnetId == innerJobnetId && j.jobId == jobId).map
    (·.innerJobId)

/-- One row of the flow loop.
mirrors src/jobarg_server/jaloader/jaloader.c:1661-1700 -/
def loadFlow (innerJobnetId : Id) (s : Loader) (fd : FlowDef) : Option Loader := do
  let (s, innerFlowId) ← s.getNextId .flow
  let startInnerJobId ← s.getFlowInnerJobId innerJobnetId fd.startJobId
  let endInnerJobId ← s.getFlowInnerJobId innerJobnetId fd.endJobId
  s.insertFlow ⟨innerFlowId, innerJobnetId, startInnerJobId, endInnerJobId, fd.flowType⟩

/-- mirrors src/jobarg_server/jaloader/jaloader.c:1446-1693 -/
def loadJobDefinition (d : Defs) (s : Loader) (innerJobnetMainId innerJobnetId : Id) (jobnetId : String)
    (updateDate : Nat) (testFlag : Bool) (runType : RunType) : Option Loader := do
  let s ← (d.jobsOf jobnetId updateDate).foldlM
    (loadJob d innerJobnetMainId innerJobnetId testFlag runType) s
  (d.flowsOf jobnetId updateDate).foldlM (loadFlow innerJobnetId) s

/-! ## Sub-jobnets -/

/-- The jobnet icons still to expand. -/
def pending (s : Loader) (innerJobnetMainId : Id) : List Id :=
  (s.tables.jobs.filter fun j => j.innerJobnetMainId == innerJobnetMainId && j.jobType == .jobnet &&
    !j.invoFlag).map (·.innerJobId)

/-- One row of the scan: expand the jobnet of icon `innerJobId`.
mirrors src/jobarg_server/jaloader/jaloader.c:1746-1845 -/
def expandIcon (d : Defs) (innerJobnetMainId : Id) (runType : RunType) (s : Loader) (innerJobId : Id) :
    Option Loader := do
  let row2 ← s.tables.iconJobnet? innerJobId
  let row3 ← d.valid row2.linkJobnetId
  let s ← s.insertJobnet
    { innerJobnetId := row2.linkInnerJobnetId, innerJobnetMainId, innerJobId
      updateDate := row3.updateDate, runType, mainFlag := false, timeoutFlag := false
      status := .begin, scheduledTime := 0, multipleStartUp := row3.multipleStartUp
      jobnetId := row3.jobnetId, jobnetName := row3.jobnetName, userName := row3.userName }
  let s ← loadJobDefinition d s innerJobnetMainId row2.linkInnerJobnetId row3.jobnetId row3.updateDate
    (runType = .test) .normal
  return s.setInvo innerJobId

/-- `load_sub_jobnet_definition` with at most `fuel` scans; `none` when it
is still running, `some none` when it returned `FAIL`.
mirrors src/jobarg_server/jaloader/jaloader.c:1713-1852 -/
def loadSubJobnetDefinition (d : Defs) (innerJobnetMainId : Id) (runType : RunType) :
    Nat → Loader → Option (Option Loader)
  | 0, _ => none
  | fuel + 1, s =>
    match s.pending innerJobnetMainId with
    | [] => some (some s)
    | ids =>
      match ids.foldlM (expandIcon d innerJobnetMainId runType) s with
      | none => some none
      | some s => loadSubJobnetDefinition d innerJobnetMainId runType fuel s

end Loader
end JobArranger
