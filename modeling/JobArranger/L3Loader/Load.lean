import JobArranger.Core.Conn
import JobArranger.L3Loader.Calendar
import JobArranger.L3Loader.Define

/-!
# The loader, statement by statement (`jobarg_server/jaloader/jaloader.c`)

`jobnet_load_schedule` calls `load_jobnet_definition` for every jobnet of
every scheduled time in the window. It looks for a registered run of the
same jobnet, time, schedule and calendar, and otherwise expands the
definition in one transaction: each exit with `FAIL` rolls back.

A program that the database may fail at any statement; `DBselect` that
fails yields no row. `load_sub_jobnet_definition` scans at most `fuel`
times, `running` when it has not returned by then.

The rows of the icon tables, which no modelled function reads, are kept as
what they are copies of.
-/
namespace JobArranger.Load

open Decimal

/-- The columns of `ja_run_jobnet_table` that only the loader sets. -/
structure Head where
  initialScheduledTime : Nat
  scheduleId : String
  calendarId : String
  bootTime : List Char

/-- Their defaults. -/
def Head.unset : Head := ⟨0, "", "", []⟩

inductive CopyTable where
  | icon (type : JobType) | command | value | valueCon
  deriving DecidableEq

/-- Row of `ja_schedule_control_table`. -/
structure ScheduleControl where
  scheduleId : String
  updateDate : Nat
  validFlag : Bool

/-- Row of `ja_schedule_detail_table`. -/
structure ScheduleDetail where
  scheduleId : String
  updateDate : Nat
  calendarId : String
  bootTime : List Char
  objectFlag : Nat

/-- Row of `ja_schedule_jobnet_table`. -/
structure ScheduleJobnet where
  scheduleId : String
  updateDate : Nat
  jobnetId : String

/-- The run tables (`loader`, `heads`, `copies`) and the definition tables. -/
structure LoadDb where
  loader : Loader
  heads : Id → Option Head
  copies : List (CopyTable × Id × Id × DefKey)
  defs : Defs
  calendars : Calendars
  schedules : List ScheduleControl
  details : List ScheduleDetail
  jobnets : List ScheduleJobnet

/-- What a function of the loader returns; `noValidFlag` is the global
`no_valid_flag`, set by a missing valid version. -/
inductive Outcome where
  | succeed
  | fail (noValidFlag : Bool)
  | running
  deriving DecidableEq

/-! ## Statements -/

/-- An insert or update: whether it was carried out and met a row. -/
def insert (g : LoadDb → Option LoadDb) : Prog LoadDb Bool :=
  .stmt (fun s => (g s).getD s) fun o => .ret (o.bind g).isSome

/-- The same for the tables of `Loader`. -/
def onLoader (g : Loader → Option Loader) (s : LoadDb) : Option LoadDb :=
  (g s.loader).map fun loader => { s with loader }

/-- `insert … select` into an icon table, from the definitions `has`. -/
def copy (table : CopyTable) (innerJobnetId innerJobId : Id) (key : DefKey) (has : Defs → Bool) :
    LoadDb → Option LoadDb := fun s =>
  if has s.defs then some { s with copies := s.copies ++ [(table, innerJobId, innerJobnetId, key)] } else none

/-- One loop over fetched rows that ends at the first failure. -/
def forRows {β : Type} (f : β → Prog LoadDb Outcome) : List β → Prog LoadDb Outcome
  | [] => pure .succeed
  | row :: rows => do
    match ← f row with
    | .succeed => forRows f rows
    | out => pure out

/-- `return FAIL` on a failed statement. -/
def check (ok : Bool) (k : Prog LoadDb Outcome) : Prog LoadDb Outcome := if ok then k else pure (.fail false)

/-- `none` is the error value 0; a row read as 0 is taken for it by the
callers. The update counts on from the row it meets.
mirrors src/jalibs/jaindex.c:53-124 -/
def getNextId (c : CountId) : Prog LoadDb (Option Id) := do
  match (← Prog.select).bind fun s => s.loader.nextid c with
  | none => pure none
  | some v =>
    let set (next : Nat → Nat) (s : Loader) : Option Loader :=
      (s.nextid c).map fun w => { s with nextid := Function.update s.nextid c (some (next w)) }
    if c.range.1 < v then
      let ok ← insert (onLoader (set fun _ => c.range.2))
      pure (if ok then some c.range.2 else none)
    else
      let ok ← insert (onLoader (set (· + 1)))
      pure (if ok ∧ v ≠ 0 then some v else none)

/-! ## Icons -/

/-- `update ja_run_job_table set method_flag = WAIT where inner_job_id = …`. -/
def setWait (innerJobId : Id) : Prog LoadDb Bool :=
  insert (onLoader fun s => if (s.tables.job? innerJobId).isSome then some (s.setMethod innerJobId .wait) else none)

/-- mirrors src/jobarg_server/jaloader/jaloader.c:665-722 -/
def loadIconEnd (innerJobnetId innerJobId : Id) (key : DefKey) : Prog LoadDb Outcome := do
  check (← insert (copy (.icon .endIcon) innerJobnetId innerJobId key fun d => d.iconEnds.any (·.1 == key))) do
  match (← Prog.select).bind fun s => s.defs.iconEnds.find? (·.1 == key) with
  | none => pure (.fail false)
  | some (_, jobnetStopFlag) =>
    if jobnetStopFlag then check (← setWait innerJobId) (pure .succeed) else pure .succeed

/-- The icons that are one `insert … select`: `load_icon_if`,
`load_icon_value`, `load_icon_extjob`, `load_icon_calc`, `load_icon_task`,
`load_icon_info`, `load_icon_fcopy`, `load_icon_fwait`, `load_icon_reboot`,
`load_icon_rel` and `load_icon_link`.
mirrors src/jobarg_server/jaloader/jaloader.c:742-810,949-1293,1399-1425 -/
def loadIconCopy (type : JobType) (innerJobnetId innerJobId : Id) (key : DefKey) : Prog LoadDb Outcome := do
  check (← insert (copy (.icon type) innerJobnetId innerJobId key fun d => d.icons.contains (type, key))) (pure .succeed)

/-- mirrors src/jobarg_server/jaloader/jaloader.c:602-645 -/
def loadValue (innerJobnetId innerJobId : Id) (key : DefKey) : Prog LoadDb Outcome := do
  check (← insert (copy .value innerJobnetId innerJobId key fun _ => true)) do
  check (← insert (copy .valueCon innerJobnetId innerJobId key fun _ => true)) (pure .succeed)

/-- mirrors src/jobarg_server/jaloader/jaloader.c:830-878 -/
def loadIconJob (innerJobnetId innerJobId : Id) (key : DefKey) : Prog LoadDb Outcome := do
  check (← insert (copy (.icon .job) innerJobnetId innerJobId key fun d => d.icons.contains (.job, key))) do
  check (← insert (copy .command innerJobnetId innerJobId key fun d => d.jobCommands.contains key)) do
  loadValue innerJobnetId innerJobId key

/-- mirrors src/jobarg_server/jaloader/jaloader.c:898-929 -/
def loadIconJobnet (innerJobnetId innerJobId : Id) (key : DefKey) : Prog LoadDb Outcome := do
  match ← getNextId .jobnetLd with
  | none => pure (.fail false)
  | some linkInnerJobnetId =>
    check (← insert fun s => match s.defs.iconJobnets.filter (·.1 == key) with
      | [(_, linkJobnetId)] => onLoader (fun l =>
          l.insertIconJobnet ⟨innerJobId, innerJobnetId, linkInnerJobnetId, linkJobnetId⟩) s
      | _ => none) (pure .succeed)

/-- mirrors src/jobarg_server/jaloader/jaloader.c:1313-1379 -/
def loadIconLess (innerJobId : Id) (key : DefKey) : Prog LoadDb Outcome := do
  match (← Prog.select).bind fun s => s.defs.iconAgentless.find? (·.1 == key) with
  | none => pure (.fail false)
  | some (_, sessionFlag) =>
    let session ← if sessionFlag = .onetime then getNextId .session else pure (some 0)
    check session.isSome do
    check (← insert fun s => match s.defs.iconAgentless.find? (·.1 == key) with
      | some (_, flag) => onLoader (fun l => l.insertAgentless ⟨innerJobId, flag = .close⟩) s
      | none => none) (pure .succeed)

/-- The switch over the icon type.
mirrors src/jobarg_server/jaloader/jaloader.c:1554-1651 -/
def loadIcon (runType : RunType) (innerJobnetId innerJobId : Id) (jd : JobDef) : Prog LoadDb Outcome := do
  match jd.jobType with
  | .startIcon =>
    if runType = .wait then check (← setWait innerJobId) (pure .succeed) else pure .succeed
  | .endIcon => loadIconEnd innerJobnetId innerJobId jd.key
  | .jobnet => loadIconJobnet innerJobnetId innerJobId jd.key
  | .less => loadIconLess innerJobId jd.key
  | .job => loadIconJob innerJobnetId innerJobId jd.key
  -- no case in the switch
  | .m | .w | .l | .ifend | .abort => pure .succeed
  | type => loadIconCopy type innerJobnetId innerJobId jd.key

/-! ## Jobnets -/

/-- mirrors src/jobarg_server/jaloader/jaloader.c:556-582 -/
def getBootCount (key : DefKey) : Prog LoadDb (Option Nat) := do
  return (← Prog.select).map fun s => Loader.getBootCount s.defs key

/-- One row of the icon loop.
mirrors src/jobarg_server/jaloader/jaloader.c:1469-1651 -/
def loadJob (innerJobnetMainId innerJobnetId : Id) (testFlag : Bool) (runType : RunType) (jd : JobDef) :
    Prog LoadDb Outcome := do
  match ← getNextId .job with
  | none => pure (.fail false)
  | some innerJobId =>
    let link ← if jd.jobType = .job then getNextId .job else pure (some 0)
    check link.isSome do
    match ← getBootCount jd.key with
    | none => pure (.fail false)
    | some bootCount =>
      check (← insert (onLoader fun s => s.insertJob
        { innerJobId, innerJobnetId, innerJobnetMainId, invoFlag := false, jobType := jd.jobType, testFlag
          methodFlag := jd.methodFlag, timeoutFlag := false, status := .begin, bootCount, endCount := 0
          jobId := jd.key.jobId, continueFlag := jd.continueFlag })) do
      loadIcon runType innerJobnetId innerJobId jd

/-- mirrors src/jobarg_server/jaloader/jaloader.c:511-538 -/
def getFlowInnerJobId (innerJobnetId : Id) (jobId : String) : Prog LoadDb (Option Id) := do
  return (← Prog.select).bind fun s => s.loader.getFlowInnerJobId innerJobnetId jobId

/-- One row of the flow loop.
mirrors src/jobarg_server/jaloader/jaloader.c:1661-1688 -/
def loadFlow (innerJobnetId : Id) (fd : FlowDef) : Prog LoadDb Outcome := do
  match ← getNextId .flow with
  | none => pure (.fail false)
  | some innerFlowId =>
    match ← getFlowInnerJobId innerJobnetId fd.startJobId with
    | none => pure (.fail false)
    | some startInnerJobId =>
      match ← getFlowInnerJobId innerJobnetId fd.endJobId with
      | none => pure (.fail false)
      | some endInnerJobId =>
        check (← insert (onLoader fun s =>
          s.insertFlow ⟨innerFlowId, innerJobnetId, startInnerJobId, endInnerJobId, fd.flowType⟩)) (pure .succeed)

/-- mirrors src/jobarg_server/jaloader/jaloader.c:1446-1693 -/
def loadJobDefinition (innerJobnetMainId innerJobnetId : Id) (jobnetId : String) (updateDate : Nat)
    (testFlag : Bool) (runType : RunType) : Prog LoadDb Outcome := do
  let jobs := (← Prog.select).elim [] fun s => s.defs.jobsOf jobnetId updateDate
  match ← forRows (loadJob innerJobnetMainId innerJobnetId testFlag runType) jobs with
  | .succeed =>
    let flows := (← Prog.select).elim [] fun s => s.defs.flowsOf jobnetId updateDate
    forRows (loadFlow innerJobnetId) flows
  | out => pure out

/-- The row of a jobnet; only the loader's main jobnets have a `Head`. -/
def insertJobnet (n : Jobnet) (head : Option Head) : Prog LoadDb Bool :=
  insert fun s => (s.loader.insertJobnet n).map fun loader =>
    { s with loader, heads := Function.update s.heads n.innerJobnetId head }

/-- One row of the scan: expand the jobnet of icon `innerJobId`.
mirrors src/jobarg_server/jaloader/jaloader.c:1746-1845 -/
def expandIcon (innerJobnetMainId : Id) (runType : RunType) (innerJobId : Id) : Prog LoadDb Outcome := do
  match (← Prog.select).bind fun s => s.loader.tables.iconJobnet? innerJobId with
  | none => pure (.fail false)
  | some row2 =>
    match (← Prog.select).bind fun s => s.defs.valid row2.linkJobnetId with
    | none => pure (.fail true)
    | some row3 =>
      check (← insertJobnet
        { innerJobnetId := row2.linkInnerJobnetId, innerJobnetMainId, innerJobId
          updateDate := row3.updateDate, runType, mainFlag := false, timeoutFlag := false
          status := .begin, scheduledTime := 0, multipleStartUp := row3.multipleStartUp
          jobnetId := row3.jobnetId, jobnetName := row3.jobnetName, userName := row3.userName } none) do
      match ← loadJobDefinition innerJobnetMainId row2.linkInnerJobnetId row3.jobnetId row3.updateDate
          (runType = .test) .normal with
      | .succeed =>
        check (← insert (onLoader fun s =>
          if (s.tables.job? innerJobId).isSome then some (s.setInvo innerJobId) else none)) (pure .succeed)
      | out => pure out

/-- mirrors src/jobarg_server/jaloader/jaloader.c:1713-1852 -/
def loadSubJobnetDefinition (innerJobnetMainId : Id) (runType : RunType) : Nat → Prog LoadDb Outcome
  | 0 => pure .running
  | fuel + 1 => do
    match (← Prog.select).elim [] fun s => s.loader.pending innerJobnetMainId with
    | [] => pure .succeed
    | rows =>
      match ← forRows (expandIcon innerJobnetMainId runType) rows with
      | .succeed => loadSubJobnetDefinition innerJobnetMainId runType fuel
      | out => pure out

/-! ## Scheduled starts -/

/-- What makes two scheduled runs the same. -/
structure Key where
  jobnetId : String
  initialScheduledTime : Nat
  scheduleId : String
  calendarId : String
  deriving DecidableEq

structure KeyRow where
  innerJobnetId : Id
  runType : RunType
  mainFlag : Bool
  key : Key
  deriving DecidableEq

/-- `ja_run_jobnet_table`, as far as the search for a registered run goes. -/
def LoadDb.keyRows (s : LoadDb) : List KeyRow :=
  s.loader.tables.jobnets.map fun n =>
    let head := (s.heads n.innerJobnetId).getD .unset
    ⟨n.innerJobnetId, n.runType, n.mainFlag,
      ⟨n.jobnetId, head.initialScheduledTime, head.scheduleId, head.calendarId⟩⟩

/-- `run_type = NORMAL and main_flag = MAIN`. -/
def KeyRow.scheduled (r : KeyRow) : Bool := r.runType = .normal ∧ r.mainFlag

def keyOf (jobnetId : String) (call : ScheduleCall) : Key :=
  ⟨jobnetId, atoi call.scheduledTime, call.scheduleId, call.calendarId⟩

/-- The row of the main jobnet and its summary. -/
def mainRow (main : Id) (row : JobnetDef) (call : ScheduleCall) : Jobnet where
  innerJobnetId := main
  innerJobnetMainId := main
  innerJobId := 0
  updateDate := row.updateDate
  runType := .normal
  mainFlag := true
  timeoutFlag := false
  status := .begin
  scheduledTime := atoi call.scheduledTime
  multipleStartUp := row.multipleStartUp
  jobnetId := row.jobnetId
  jobnetName := row.jobnetName
  userName := row.userName

def headOf (call : ScheduleCall) : Head := ⟨atoi call.scheduledTime, call.scheduleId, call.calendarId, call.bootTime⟩

def insertSummary (main : Id) (row : JobnetDef) (call : ScheduleCall) : Prog LoadDb Bool :=
  insert (onLoader fun s =>
    if (s.tables.summary? main).isSome ∨ (s.tables.jobnet? main).isNone then none
    else some { s with tables := { s.tables with summaries := s.tables.summaries ++
      [⟨main, .normal, .begin, .normal, false, .normal, atoi call.scheduledTime, row.multipleStartUp, row.jobnetId,
        .unset⟩] } })

/-- mirrors src/jobarg_server/jaloader/jaloader.c:1872-2029 -/
def loadJobnetDefinition (fuel : Nat) (jobnetId : String) (call : ScheduleCall) : Cmd LoadDb Outcome := do
  match ← Cmd.select with
  | none => return .fail false
  | some s =>
    if 0 < (s.keyRows.filter fun r => r.scheduled ∧ r.key = keyOf jobnetId call).length then return .succeed
    else .begin do
      match ← (getNextId .jobnetLd).cmd with
      | none => .rollback (.ret (.fail false))
      | some main =>
        match (← Cmd.select).bind fun s => s.defs.valid jobnetId with
        | none => .rollback (.ret (.fail true))
        | some row =>
          if ← (insertJobnet (mainRow main row call) (headOf call)).cmd then
            if ← (insertSummary main row call).cmd then
              match ← (loadJobDefinition main main row.jobnetId row.updateDate false .normal).cmd with
              | .fail v => .rollback (.ret (.fail v))
              | .running => .ret .running
              | .succeed =>
                match ← (loadSubJobnetDefinition main .normal fuel).cmd with
                | .fail v => .rollback (.ret (.fail v))
                | .running => .ret .running
                | .succeed => .commit (.ret .succeed)
            else .rollback (.ret (.fail false))
          else .rollback (.ret (.fail false))

/-- One loop over fetched rows whose results are ignored, up to
`no_valid_flag` (`none`: a row is still running). -/
def each {β : Type} (f : β → Cmd LoadDb (Option Bool)) : List β → Cmd LoadDb (Option Bool)
  | [] => pure (some false)
  | row :: rows => do
    match ← f row with
    | none => pure none
    | some noValidFlag => return (← each f rows).map (noValidFlag || ·)

def Outcome.noValid : Outcome → Option Bool
  | .succeed => some false
  | .fail noValidFlag => some noValidFlag
  | .running => none

/-- mirrors src/jobarg_server/jaloader/jaloader.c:2048-2070 -/
def getScheduleJobnet (fuel : Nat) (call : ScheduleCall) : Cmd LoadDb (Option Bool) := do
  let rows := (← Cmd.select).elim [] fun s =>
    s.jobnets.filter fun j => j.scheduleId = call.scheduleId ∧ j.updateDate = call.updateDate
  each (fun j => do return (← loadJobnetDefinition fuel j.jobnetId call).noValid) rows

/-- mirrors src/jobarg_server/jaloader/jaloader.c:2092-2309 -/
def getCalendarDetail (fuel : Nat) (startDate endDate : List Char) (row : ScheduleDetail) :
    Cmd LoadDb (Option Bool) := do
  match ← Cmd.select with
  | none => return some true
  | some s =>
    match JobArranger.getCalendarDetail s.calendars row.scheduleId row.updateDate startDate endDate row.calendarId
        row.bootTime row.objectFlag with
    | .error _ => return some true
    | .ok calls => each (getScheduleJobnet fuel) calls

/-- mirrors src/jobarg_server/jaloader/jaloader.c:2327-2348 -/
def getScheduleDetail (fuel : Nat) (startDate endDate : List Char) (row : ScheduleControl) :
    Cmd LoadDb (Option Bool) := do
  let rows := (← Cmd.select).elim [] fun s =>
    s.details.filter fun d => d.scheduleId = row.scheduleId ∧ d.updateDate = row.updateDate
  each (getCalendarDetail fuel startDate endDate) rows

/-- `update ja_schedule_control_table set valid_flag = OFF`. -/
def invalidate (row : ScheduleControl) : Prog LoadDb Bool :=
  insert fun s =>
    if s.schedules.any fun c => c.scheduleId = row.scheduleId ∧ c.updateDate = row.updateDate then
      some { s with schedules := s.schedules.map fun c =>
        if c.scheduleId = row.scheduleId ∧ c.updateDate = row.updateDate then { c with validFlag := false } else c }
    else none

/-- One pass; `span` and `now` are `load_span` and the time.
mirrors src/jobarg_server/jaloader/jaloader.c:2363-2405 -/
def jobnetLoadSchedule (fuel : Nat) (pass : Nat × Nat) : Cmd LoadDb (Option Bool) := do
  let (startDate, endDate) := getSearchDate pass.1 pass.2
  let rows := (← Cmd.select).elim [] fun s => s.schedules.filter (·.validFlag)
  each (fun row => do
    match ← getScheduleDetail fuel startDate endDate row with
    | none => return none
    | some false => return some false
    | some true => .begin do
      if ← (invalidate row).cmd then .commit (.ret (some false)) else .rollback (.ret (some false))) rows

end JobArranger.Load
