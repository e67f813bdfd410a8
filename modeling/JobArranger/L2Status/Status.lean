import JobArranger.L1Data.Value

/-!
# Status writes and the job log (`jalibs/jastatus.c`, `jalibs/jajoblog.c`)

Every status change of a job, jobnet or summary goes through the functions
here. Each returns the tables with the writes it made and `SUCCEED` or
`FAIL`; a caller that sees `FAIL` rolls back. `FAIL` comes from the logic
only (a row that is not there, a log insert that wrote nothing): SQL
statements themselves do not fail in this model.

`ja_set_runerr` calls `ja_flow` and `ja_flow` calls `ja_set_runerr`, the
second time always with `-99`, which never reaches `ja_flow` again. So
`jaSetRunerrWith` takes the continuation, and `L2Status.Flow` ties the
knot.

* `LogReady`: what `ja_joblog` needs of a job to write its row. The schema's
  foreign keys and the loader provide it.
* `jaJoblog_job`: with it, an end message is always written.
* `StatusEq` frames: which functions leave which tables alone.
-/
namespace JobArranger

open Tables

/-! ## The job log -/

/-- The kind of insert: jobnet message, job message, or end of a job or
agentless icon with its output. `none` is `FAIL`.
mirrors src/jalibs/jajoblog.c:107-181 -/
def joblogSqlFlag (t : Tables) (msg : LogMsg) (innerJobId : Id) : Option (Fin 3) :=
  if innerJobId = 0 then some 0
  else if msg ≠ .jobEnd ∧ msg ≠ .jobErrEnd then some 1
  else match t.job? innerJobId with
    | none => none
    | some j =>
      let counted : Option (Fin 3) :=
        if (t.after.filter fun r => r.owner == innerJobId &&
            (r.valueName == "JOB_EXIT_CD" || r.valueName == "STD_OUT" ||
              r.valueName == "STD_ERR")).length = 3
        then some 2 else some 1
      match j.jobType with
      | .job => counted
      | .less => match Table.lookup IconAgentless.innerJobId innerJobId t.agentless with
        | none => none
        | some a => if a.sessionClose then some 1 else counted
      | _ => some 1

/-- Insert of a jobnet message. -/
abbrev sqlJobnet : Fin 3 := 0

/-- Insert of a job message. -/
abbrev sqlJob : Fin 3 := 1

/-- Insert of a job message with the output. -/
abbrev sqlResult : Fin 3 := 2

def jobLogRow (msg : LogMsg) (a : Jobnet) (b : Job) (result : Option (Text × Text × Text)) : LogRow :=
  ⟨msg, a.innerJobnetId, a.innerJobnetMainId, some b.innerJobId, a.updateDate, b.methodFlag, a.status,
    some b.status, a.runType, a.jobnetId, a.jobnetName, some b.jobId, a.userName, result⟩

def jobnetLogRow (msg : LogMsg) (a : Jobnet) : LogRow :=
  ⟨msg, a.innerJobnetId, a.innerJobnetMainId, none, a.updateDate, .normal, a.status, none, a.runType,
    a.jobnetId, a.jobnetName, none, a.userName, none⟩

/-- `from ja_run_jobnet_table a, ja_run_job_table b where a.inner_jobnet_id
= b.inner_jobnet_id and b.inner_job_id = … and b.inner_jobnet_id = …`. -/
def joblogJoin (t : Tables) (innerJobId innerJobnetId : Id) : List (Jobnet × Job) :=
  (t.jobnets.flatMap fun a => t.jobs.map fun b => (a, b)).filter fun p =>
    p.1.innerJobnetId == p.2.innerJobnetId && p.2.innerJobId == innerJobId &&
      p.2.innerJobnetId == innerJobnetId

/-- The rows the `insert … select` writes.
mirrors src/jalibs/jajoblog.c:184-252 -/
def joblogRows (t : Tables) (msg : LogMsg) (innerJobId innerJobnetId : Id) (sqlFlag : Fin 3) :
    List LogRow :=
  match sqlFlag with
  | 1 => (joblogJoin t innerJobId innerJobnetId).map fun p => jobLogRow msg p.1 p.2 none
  | 2 =>
    let values (name : String) : List Text := (rowsOf t.after innerJobId name).map (·.value)
    (joblogJoin t innerJobId innerJobnetId).flatMap fun p =>
      (values "JOB_EXIT_CD").flatMap fun c => (values "STD_OUT").flatMap fun d =>
        (values "STD_ERR").map fun e => jobLogRow msg p.1 p.2 (some (c, d, e))
  | _ =>
    (t.jobnets.filter fun a => a.innerJobnetId == innerJobnetId).map fun a => jobnetLogRow msg a

/-- mirrors src/jalibs/jajoblog.c:54-268 -/
def jaJoblog (t : Tables) (msg : LogMsg) (innerJobnetId innerJobId : Id) : Tables × Ret :=
  if innerJobnetId = 0 ∧ innerJobId = 0 then (t, .fail)
  else
    let net : Option Id :=
      if innerJobnetId = 0 then (t.job? innerJobId).map (·.innerJobnetId) else some innerJobnetId
    match net with
    | none => (t, .fail)
    | some n =>
      match joblogSqlFlag t msg innerJobId with
      | none => (t, .fail)
      | some flag =>
        -- an error end of a jobnet is logged once: the earlier row goes
        let t := if flag = 0 ∧ msg = .jobnetErrEnd then
            { t with log := t.log.filter fun r => !(r.innerJobnetId == n && r.message == msg) }
          else t
        match joblogRows t msg innerJobId n flag with
        | [] => (t, .fail)
        | rows => ({ t with log := t.log ++ rows }, .succeed)

/-! ## Summary, jobnet and job status -/

/-- mirrors src/jalibs/jastatus.c:53-95 -/
def jaSetJobstatus (t : Tables) (innerJobnetId : Id) (status : Status) (jobstatus : SummaryJobStatus) :
    Tables × Ret :=
  let t := if status = .ended ∨ status = .endErr then
      { t with sessions := t.sessions.filter fun s => !(s.innerJobnetMainId == innerJobnetId) }
    else t
  (t.updateSummaries (·.innerJobnetId == innerJobnetId) fun s =>
    { s with status, jobStatus := jobstatus }, .succeed)

/-- mirrors src/jalibs/jastatus.c:110-166 -/
def jaSetStatusJobnetSummary (t : Tables) (innerJobnetId : Id) (status : Status) : Tables × Ret :=
  let t := if status = .ended ∨ status = .endErr then
      { t with sessions := t.sessions.filter fun s => !(s.innerJobnetMainId == innerJobnetId) }
    else t
  (t.updateSummaries (·.innerJobnetId == innerJobnetId) fun s => { s with status }, .succeed)

/-- mirrors src/jalibs/jastatus.c:181-222 -/
def jaSetStatusJobnet (t : Tables) (innerJobnetId : Id) (status : Status) : Tables × Ret :=
  (t.updateJobnets (·.innerJobnetId == innerJobnetId) fun n => { n with status }, .succeed)

/-- mirrors src/jalibs/jastatus.c:237-278 -/
def jaSetStatusJob (t : Tables) (innerJobId : Id) (status : Status) : Tables × Ret :=
  (t.updateJobs (·.innerJobId == innerJobId) fun j => { j with status }, .succeed)

/-- mirrors src/jalibs/jastatus.c:329-350 (`none` is `-1`) -/
def jaGetStatusJobnet (t : Tables) (innerJobnetId : Id) : Option Status :=
  (t.jobnet? innerJobnetId).map (·.status)

/-- mirrors src/jalibs/jastatus.c:401-415 -/
def jaSetRunJobnet (t : Tables) (innerJobnetId : Id) : Tables × Ret :=
  andThen (jaCleanValueJobnetBefore t innerJobnetId) fun t =>
  andThen (jaJoblog t .jobnetStart innerJobnetId 0) fun t =>
  jaSetStatusJobnet t innerJobnetId .run

/-- mirrors src/jalibs/jastatus.c:430-444 -/
def jaSetEndJobnet (t : Tables) (innerJobnetId : Id) : Tables × Ret :=
  andThen (jaCleanValueJobnetAfter t innerJobnetId) fun t =>
  andThen (jaJoblog t .jobnetEnd innerJobnetId 0) fun t =>
  jaSetStatusJobnet t innerJobnetId .ended

/-- mirrors src/jalibs/jastatus.c:459-473 -/
def jaSetRunerrJobnet (t : Tables) (innerJobnetId : Id) : Tables × Ret :=
  andThen (jaCleanValueJobnetAfter t innerJobnetId) fun t =>
  jaSetStatusJobnet t innerJobnetId .runErr

/-- mirrors src/jalibs/jastatus.c:488-499 -/
def jaSetEnderrJobnet (t : Tables) (innerJobnetId : Id) : Tables × Ret :=
  andThen (jaCleanValueJobnetAfter t innerJobnetId) fun t =>
  jaSetStatusJobnet t innerJobnetId .endErr

/-- mirrors src/jalibs/jastatus.c:514-528 -/
def jaSetRun (t : Tables) (innerJobId : Id) : Tables × Ret :=
  andThen (jaCleanValueBefore t innerJobId) fun t => jaSetStatusJob t innerJobId .run

/-- mirrors src/jalibs/jastatus.c:543-563 -/
def jaSetEnd (t : Tables) (innerJobId : Id) (msgFlag : Bool) : Tables × Ret :=
  if msgFlag = false then (t, .succeed)
  else
    andThen (jaCleanValueAfter t innerJobId) fun t =>
    andThen (jaJoblog t .jobEnd 0 innerJobId) fun t =>
    jaSetStatusJob t innerJobId .ended

/-- mirrors src/jalibs/jastatus.c:688-740 -/
def jaSetEnderr (t : Tables) (innerJobId : Id) (msgFlag : Bool) : Tables × Ret :=
  andThen (jaCleanValueAfter t innerJobId) fun t =>
  andThen (if msgFlag then jaJoblog t .jobErrEnd 0 innerJobId else (t, .succeed)) fun t =>
  jaSetStatusJob t innerJobId .endErr

/-- `%d` of `icon_status`. -/
def iconStatusText (iconStatus : Int) : Text := ascii (toString iconStatus)

/-- The controller variable ICON_STATUS of a job icon; the result of
`ja_set_value_after` is ignored, as in the source.
mirrors src/jalibs/jastatus.c:628-632 -/
def writeIconStatus (t : Tables) (innerJobId innerJobnetId : Id) (jobType : JobType)
    (iconStatus : Int) : Tables :=
  if jobType = .job ∧ iconStatus ≠ -99 then
    (jaSetValueAfter t innerJobId innerJobnetId "ICON_STATUS" (iconStatusText iconStatus)).1
  else t

/-- `ja_set_runerr`, with `ja_flow(inner_job_id, JA_FLOW_TYPE_NORMAL, 0)` as
`flow`.
mirrors src/jalibs/jastatus.c:581-673 -/
def jaSetRunerrWith (flow : Tables → Tables × Ret) (t : Tables) (innerJobId : Id) (iconStatus : Int) :
    Tables × Ret :=
  andThen (jaCleanValueAfter t innerJobId) fun t =>
  andThen (jaJoblog t .jobErrEnd 0 innerJobId) fun t =>
  let row := t.job? innerJobId
  -- defaults of the C variables when the row is gone
  let innerJobnetId : Id := (row.map Job.innerJobnetId).getD 0
  let jobType : JobType := (row.map Job.jobType).getD .startIcon
  let continueFlag : Bool := (row.map Job.continueFlag).getD false
  let t := writeIconStatus t innerJobId innerJobnetId jobType iconStatus
  if continueFlag = false ∨ iconStatus = -99 ∨ jobType = .ifIcon then
    jaSetStatusJob t innerJobId .runErr
  else andThen (flow t) fun t => jaSetStatusJob t innerJobId .runErr

theorem job?_jaSetStatusJob (t : Tables) (i k : Id) (s : Status) :
    (jaSetStatusJob t i s).1.job? k =
      (t.job? k).map fun j => if j.innerJobId == i then { j with status := s } else j :=
  job?_updateJobs t _ _ k fun _ => rfl

theorem jobnet?_jaSetStatusJobnet {t : Tables} {n : Id} {r : Jobnet} (hr : t.jobnet? n = some r) (s : Status) :
    (jaSetStatusJobnet t n s).1.jobnet? n = some { r with status := s } := by
  have hid := (Table.lookup_mem hr).2
  have h := jobnet?_updateJobnets t (·.innerJobnetId == n) (fun r => { r with status := s }) n fun _ => rfl
  rw [jaSetStatusJobnet, h, hr, Option.map_some]
  simp [hid]

/-! ## Frames -/

/-- `ja_joblog` only writes the log. -/
theorem jaJoblog_eq (t : Tables) (msg : LogMsg) (n i : Id) :
    ∃ log, (jaJoblog t msg n i).1 = { t with log } := by
  unfold jaJoblog
  split
  · exact ⟨_, rfl⟩
  dsimp only
  split
  · exact ⟨_, rfl⟩
  split
  · exact ⟨_, rfl⟩
  split <;> split <;> exact ⟨_, rfl⟩

theorem jaJoblog_status (t : Tables) (msg : LogMsg) (n i : Id) :
    StatusEq t (jaJoblog t msg n i).1 := by
  obtain ⟨log, h⟩ := jaJoblog_eq t msg n i
  rw [h]
  exact ⟨rfl, rfl, rfl, rfl, rfl, rfl⟩

theorem jaJoblog_after (t : Tables) (msg : LogMsg) (n i : Id) :
    (jaJoblog t msg n i).1.after = t.after := by
  obtain ⟨log, h⟩ := jaJoblog_eq t msg n i
  rw [h]

theorem writeIconStatus_status (t : Tables) (i n : Id) (ty : JobType) (st : Int) :
    StatusEq t (writeIconStatus t i n ty st) := by
  unfold writeIconStatus
  split
  · exact jaSetValueAfter_status t _ _ _ _
  · exact .rfl' t

/-! ## When the log is written -/

/-- What `ja_joblog` finds for a job of a loaded jobnet: the primary and
foreign keys of the schema, and the agentless row the loader writes for
every agentless icon. -/
structure LogReady (t : Tables) (j : Job) : Prop where
  row : t.job? j.innerJobId = some j
  jobnet : ∃ n ∈ t.jobnets, n.innerJobnetId = j.innerJobnetId
  agentless : j.jobType = .less →
    (Table.lookup IconAgentless.innerJobId j.innerJobId t.agentless).isSome

theorem joblogJoin_ne_nil {t : Tables} {j : Job} (h : LogReady t j) :
    joblogJoin t j.innerJobId j.innerJobnetId ≠ [] := by
  obtain ⟨n, hn, hid⟩ := h.jobnet
  have hj : j ∈ t.jobs := (Table.lookup_mem h.row).1
  refine List.ne_nil_of_mem (a := (n, j)) ?_
  simp [joblogJoin, hn, hj, hid]

/-- The rows counted for sql_flag 2, by name. -/
theorem resultRows_length (rows : List ValueRow) (i : Id) :
    (rows.filter fun r => r.owner == i && (r.valueName == "JOB_EXIT_CD" || r.valueName == "STD_OUT" ||
      r.valueName == "STD_ERR")).length =
      (rowsOf rows i "JOB_EXIT_CD").length + (rowsOf rows i "STD_OUT").length +
        (rowsOf rows i "STD_ERR").length := by
  induction rows with
  | nil => rfl
  | cons r rows ih =>
    simp only [rowsOf, List.filter_cons] at ih ⊢
    by_cases ho : r.owner = i
    · by_cases h1 : r.valueName = "JOB_EXIT_CD"
      · simp [ho, h1, ih]; omega
      · by_cases h2 : r.valueName = "STD_OUT"
        · simp [ho, h2, ih]; omega
        · by_cases h3 : r.valueName = "STD_ERR"
          · simp [ho, h3, ih]; omega
          · simp [ho, h1, h2, h3, ih]
    · simp [ho, ih]

theorem joblogSqlFlag_job {t : Tables} {j : Job} (h : LogReady t j) (hi : j.innerJobId ≠ 0)
    (msg : LogMsg) :
    ∃ flag, joblogSqlFlag t msg j.innerJobId = some flag ∧ flag ≠ 0 ∧
      (flag = 2 → (t.after.filter fun r => r.owner == j.innerJobId &&
        (r.valueName == "JOB_EXIT_CD" || r.valueName == "STD_OUT" ||
          r.valueName == "STD_ERR")).length = 3) := by
  unfold joblogSqlFlag
  rw [if_neg hi]
  split
  · exact ⟨1, rfl, by decide, fun h => absurd h (by decide)⟩
  rw [h.row]
  dsimp only
  split
  · split
    · rename_i hc
      exact ⟨2, rfl, by decide, fun _ => hc⟩
    · exact ⟨1, rfl, by decide, fun h => absurd h (by decide)⟩
  · rename_i hless
    obtain ⟨a, ha⟩ := Option.isSome_iff_exists.mp (h.agentless hless)
    rw [ha]
    dsimp only
    split
    · exact ⟨1, rfl, by decide, fun h => absurd h (by decide)⟩
    split
    · rename_i hc
      exact ⟨2, rfl, by decide, fun _ => hc⟩
    · exact ⟨1, rfl, by decide, fun h => absurd h (by decide)⟩
  · exact ⟨1, rfl, by decide, fun h => absurd h (by decide)⟩

theorem joblogRows_ne_nil {t : Tables} {j : Job} (h : LogReady t j) (msg : LogMsg) {flag : Fin 3}
    (h0 : flag ≠ 0)
    (h2 : flag = 2 → ∀ name, name = "JOB_EXIT_CD" ∨ name = "STD_OUT" ∨ name = "STD_ERR" →
      rowsOf t.after j.innerJobId name ≠ []) :
    joblogRows t msg j.innerJobId j.innerJobnetId flag ≠ [] := by
  have hjoin := joblogJoin_ne_nil h
  match flag with
  | 1 => simpa [joblogRows] using hjoin
  | 2 =>
    obtain ⟨p, hp⟩ := List.exists_mem_of_ne_nil _ hjoin
    obtain ⟨c, hc⟩ := List.exists_mem_of_ne_nil _ (h2 rfl "JOB_EXIT_CD" (.inl rfl))
    obtain ⟨d, hd⟩ := List.exists_mem_of_ne_nil _ (h2 rfl "STD_OUT" (.inr (.inl rfl)))
    obtain ⟨e, he⟩ := List.exists_mem_of_ne_nil _ (h2 rfl "STD_ERR" (.inr (.inr rfl)))
    refine List.ne_nil_of_mem (a := jobLogRow msg p.1 p.2 (some (c.value, d.value, e.value))) ?_
    simp only [joblogRows, List.mem_flatMap, List.mem_map]
    exact ⟨p, hp, c.value, ⟨c, hc, rfl⟩, d.value, ⟨d, hd, rfl⟩, e.value, ⟨e, he, rfl⟩, rfl⟩
  | 0 => exact absurd rfl h0

/-- A message about a job is always logged once its after-variables are
clean: three result rows are then one of each name. -/
theorem jaJoblog_job {t : Tables} {j : Job} (h : LogReady t j) (hi : j.innerJobId ≠ 0)
    (hv : ∀ name, (rowsOf t.after j.innerJobId name).length ≤ 1) (msg : LogMsg) :
    (jaJoblog t msg 0 j.innerJobId).2 = .succeed := by
  obtain ⟨flag, hf, h0, h2⟩ := joblogSqlFlag_job h hi msg
  have hrows : joblogRows t msg j.innerJobId j.innerJobnetId flag ≠ [] := by
    refine joblogRows_ne_nil h msg h0 fun e name hname => ?_
    have h3 := h2 e
    rw [resultRows_length] at h3
    have hc := hv "JOB_EXIT_CD"
    have hd := hv "STD_OUT"
    have he := hv "STD_ERR"
    refine List.ne_nil_of_length_pos ?_
    rcases hname with rfl | rfl | rfl <;> omega
  have hr := h.row
  simp only [jaJoblog, hi, and_false, if_false, if_true, hr, Option.map_some, hf, h0, false_and]

end JobArranger
