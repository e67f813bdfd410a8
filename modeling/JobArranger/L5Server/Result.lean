import JobArranger.Core.Json
import JobArranger.Core.Tokens
import JobArranger.L2Status.Statements
import JobArranger.L5Server.IconOnce
import JobArranger.L5Server.Monitor

/-!
# Job results

The trapper takes the result of a job from its agent: `jatrap_jobresult`
loads the telegram, locks the job row, looks at its status under the lock,
writes the result variables, and completes the job with `ja_flow` or
`ja_set_runerr`; any number of trapper processes do so at once. The program
is written statement by statement (`Core.Prog`); its failure exits roll
back, and the answer to the agent is built before `DBcommit`.

* `jaFlow_closes`, `jaSetRunerr_closes`: a completion of a stored job
  always succeeds and leaves RUN and ABORT.
* `jobresultBody_closes`: so an accepted result closes the job.
* `results_applied_once`: every job takes at most one result for each time
  it enters RUN, as long as only running jobs are set to ABORT. The stale
  abort of `L5Server.Monitor` opens a finished job again:
  `result_applied_twice`.
-/
namespace JobArranger

open Tables Locks

/-! ## The telegram -/

/-- `ja_jobresult_object`; a NULL text is `none`. -/
structure JobResult where
  jobid : Id
  result : Int
  hostname : Text
  message : Option Text
  stdOut : Option Text
  stdErr : Option Text
  returnCode : Int
  signal : Int
  deriving DecidableEq, Repr

/-- `isspace` -/
def isSpace (b : UInt8) : Bool := b == 32 || (9 ≤ b && b ≤ 13)

def isDigit (b : UInt8) : Bool := 48 ≤ b && b ≤ 57

/-- `sscanf(s, "%llu", &x)`; `none` leaves `x` alone. A value of more than 64
bits is the largest one, a minus sign negates modulo 2^64. -/
def scanUInt64 (s : Text) : Option Nat :=
  let s := s.dropWhile isSpace
  let negative := s.head? == some 45
  let s := if negative || s.head? == some 43 then s.tail else s
  match s.takeWhile isDigit with
  | [] => none
  | ds =>
    let n := ds.foldl (fun n d => 10 * n + (d.toNat - 48)) 0
    some (if 2 ^ 64 ≤ n then 2 ^ 64 - 1 else if negative then (2 ^ 64 - n) % 2 ^ 64 else n)

/-- The conversions of json-c. -/
structure Conversions where
  /-- `json_object_get_string` -/
  text : Json → Text
  /-- `json_object_get_int` -/
  int : Json → Int

/-- `none` is FAIL. A failure report carries no signal: `stack` is what the
uninitialised field holds. mirrors src/jobarg_server/jatrapper/jatrapjobresult.c:57-187 -/
def jatrapJobresultLoad (c : Conversions) (stack : Int) (request : Json) : Option JobResult := do
  let data ← request.objectGet "data"
  let jobid ← data.objectGet "jobid"
  let hostname ← data.objectGet "hostname"
  let result ← data.objectGet "result"
  if c.int result = 1 then
    let message ← data.objectGet "message"
    some { jobid := (scanUInt64 (c.text jobid)).getD 0, result := c.int result, hostname := c.text hostname,
           message := some (c.text message), stdOut := none, stdErr := none, returnCode := -1, signal := stack }
  else
    let stdOut ← data.objectGet "std_out"
    let stdErr ← data.objectGet "std_err"
    let returnCode ← data.objectGet "return_code"
    let signal ← data.objectGet "signal"
    some { jobid := (scanUInt64 (c.text jobid)).getD 0, result := c.int result, hostname := c.text hostname,
           message := none, stdOut := some (c.text stdOut), stdErr := some (c.text stdErr),
           returnCode := c.int returnCode, signal := c.int signal }

/-! ## The transaction -/

/-- The run tables and the host names of `ja_host_lock_table`. -/
abbrev ServerDb := Tables × List Text

/-- What a job icon and the comparison of its stop code contribute. -/
structure StopCodes where
  /-- `stop_code` of `ja_run_icon_job_table`, if the row is there -/
  code : Id → Option Text
  /-- `ja_number_match` -/
  numberMatch : Text → Text → Int

/-- `%d` -/
def intText (n : Int) : Text := ascii (toString n)

/-- The result as variables, in the order they are written. -/
def JobResult.values (job : JobResult) : List (String × Text) :=
  (job.message.map fun v => ("JOBARG_MESSAGE", v)).toList ++ (job.stdOut.map fun v => ("STD_OUT", v)).toList ++
    (job.stdErr.map fun v => ("STD_ERR", v)).toList ++
    [("JOB_EXIT_CD", intText job.returnCode), ("SIGNAL", intText job.signal)]

def setValues (i n : Id) : List (String × Text) → Prog Tables Ret
  | [] => pure .succeed
  | v :: vs => Stmt.andThen (Stmt.jaSetValueAfter i n v.1 v.2) (setValues i n vs)

/-- mirrors src/jobarg_server/jatrapper/jatrapjobresult.c:238-276 -/
def jatrapJobresultSetValue (job : JobResult) (innerJobnetId : Id) : Prog Tables Ret :=
  setValues job.jobid innerJobnetId job.values

/-- mirrors src/jalibs/jahost.c:385-406 -/
def jaHostUnlock (host : Text) : Prog ServerDb Ret := do
  Prog.queries 1
  if ← Prog.exec fun s => (s.1, s.2.filter (· != host)) then pure .succeed else pure .fail

/-- How a result completes its job. -/
inductive Verdict where
  /-- `run_err = 0` -/
  | normal
  /-- `run_err = 1`, with `icon_status` and `msg` -/
  | error (iconStatus : Int) (msg : Text)
  /-- `Unknow the job type` -/
  | unknown
  /-- `row[0]` of a stop code that could not be read -/
  | crash
  deriving DecidableEq, Repr

/-- `printf("%s", NULL)` -/
def nullText : Text := ascii "(null)"

/-- mirrors src/jobarg_server/jatrapper/jatrapjobresult.c:355-399 -/
def verdict (codes : StopCodes) (job : JobResult) (row : Job) : Prog ServerDb Verdict :=
  if job.result ≠ 0 then pure (.error 2 (job.message.getD nullText))
  else if row.status = .abort then pure (.error 2 (ascii "Aborted the job"))
  else if job.signal = 1 then pure (.error 2 (ascii "The job catch a signal"))
  else match row.jobType with
    | .job => do
      match (← Prog.select).bind fun _ => codes.code job.jobid with
      | none => pure .crash
      | some code =>
        if codes.numberMatch (intText job.returnCode) code = 0 then pure .normal
        else pure (.error 1 (ascii "The job return code '" ++ intText job.returnCode ++
          ascii "' is range of the stop code '" ++ code ++ ascii "'"))
    | .fwait => if job.returnCode = 0 ∨ job.returnCode = 1 then pure .normal
        else pure (.error 2 (ascii "The job failed"))
    | .reboot => if job.returnCode = 0 then pure .normal else pure (.error 2 (ascii "The job failed"))
    | _ => pure .unknown

/-- How `jatrap_jobresult` ends: with an answer to the agent, or dead. -/
inductive Answer where
  | succeed | fail | crash
  deriving DecidableEq, Repr

section
variable (codes : StopCodes) (logs : String → Nat) (job : JobResult)

/-- The results of `ja_flow`, `ja_set_runerr` and the icon status are not
looked at. mirrors src/jobarg_server/jatrapper/jatrapjobresult.c:400-418 -/
def complete (innerJobnetId : Id) : Verdict → Prog ServerDb Answer
  | .normal => do
    let _ ← (Stmt.jaSetValueAfter job.jobid innerJobnetId "ICON_STATUS" (ascii "0")).onFst
    let _ ← (Stmt.jaFlow logs job.jobid .normal true).onFst
    pure .succeed
  | .error iconStatus msg => do
    match ← (Stmt.jaSetValueAfter job.jobid innerJobnetId "JOBARG_MESSAGE" msg).onFst with
    | .fail => pure .fail
    | .succeed => do
      let _ ← (Stmt.jaSetRunerr logs job.jobid iconStatus).onFst
      pure .succeed
  | .unknown => pure .fail
  | .crash => pure .crash

/-- `if (job_type == REBOOT) ja_host_unlock(hostname);`, the result ignored. -/
def unlockHost (row : Job) : Prog ServerDb Unit := do
  if row.jobType = .reboot then
    let _ ← jaHostUnlock job.hostname
    pure ()
  else pure ()

/-- The select of the job row under lock, the check of its status and the
result variables; `none` is an error exit.
mirrors src/jobarg_server/jatrapper/jatrapjobresult.c:318-349 -/
def checkedRow : Prog ServerDb (Option Job) := do
  match ← (Stmt.fetch 0 (·.job? job.jobid)).onFst with
  | none => pure none
  | some row =>
    if row.status ≠ .run ∧ row.status ≠ .abort then pure none
    else
      match ← (jatrapJobresultSetValue job row.innerJobnetId).onFst with
      | .fail => pure none
      | .succeed => pure (some row)

/-- Between `DBbegin` and `DBcommit` or `DBrollback`.
mirrors src/jobarg_server/jatrapper/jatrapjobresult.c:318-418 -/
def jobresultBody : Prog ServerDb Answer := do
  match ← checkedRow job with
  | none => pure .fail
  | some row => do
    unlockHost job row
    complete logs job row.innerJobnetId (← verdict codes job row)

/-- One telegram on the committed database: what it leaves behind, and the
answer. A process that dies loses its transaction.
mirrors src/jobarg_server/jatrapper/jatrapjobresult.c:291-441 -/
def jatrapJobresult (fault : Nat → Bool) (loaded : Option JobResult) (s : ServerDb) : ServerDb × Answer :=
  match loaded with
  | none => (s, .fail)
  | some job =>
    match (jobresultBody codes logs job).run fault ⟨s, false, 0⟩ with
    | (txn, .succeed) => (txn.commit s, .succeed)
    | (_, .fail) => (s, .fail)
    | (_, .crash) => (s, .crash)

end

/-! ## A completion always closes the job -/

/-- The variable numbers of the job can be continued, and it can be logged. -/
structure Sound (t : Tables) (i : Id) : Prop where
  log : Loggable t i
  below : ∀ r ∈ t.after, r.seqNo < t.nextSeq

theorem Loggable.of_status {t t' : Tables} {i : Id} (h : Loggable t i) (hs : StatusEq t t')
    (hn : (t'.after.map ValueRow.seqNo).Nodup) : Loggable t' i := by
  obtain ⟨j, hj, hi⟩ := h.ready
  refine ⟨h.id, ⟨j, ⟨?_, ?_, ?_⟩, hi⟩, hn⟩
  · rw [Tables.job?, hs.jobs]
    exact hj.row
  · rw [hs.jobnets]
    exact hj.jobnet
  · rw [hs.agentless]
    exact hj.agentless

theorem Sound.setValue {t : Tables} {i : Id} (h : Sound t i) (k n : Id) (name : String) (value : Text) :
    Sound (jaSetValueAfter t k n name value).1 i := by
  have hst := jaSetValueAfter_status t k n name value
  unfold jaSetValueAfter at hst ⊢
  split
  · exact h
  · rename_i hid
    rw [if_neg hid] at hst
    refine ⟨h.log.of_status hst ?_, ?_⟩
    · simp only [insertRows, List.map_append, List.nodup_append, List.zipIdx_cons, List.map_cons]
      refine ⟨h.log.afterSeq, by simp, ?_⟩
      intro a ha b hb
      obtain ⟨r, hr, rfl⟩ := List.mem_map.1 ha
      have hlt := h.below r hr
      simp only [List.zipIdx_nil, List.map_nil, List.mem_singleton] at hb
      omega
    · intro r hr
      simp only [insertRows, List.mem_append, List.zipIdx_cons, List.zipIdx_nil, List.map_cons, List.map_nil,
        List.mem_singleton] at hr
      rcases hr with hr | rfl
      · exact Nat.lt_succ_of_lt (h.below r hr)
      · exact Nat.lt_succ_self _

/-- A status write to a stored job is read back. -/
theorem Loggable.status_set {t : Tables} {i : Id} (h : Loggable t i) (s : Status) :
    ((jaSetStatusJob t i s).1.job? i).map Job.status = some s := by
  obtain ⟨j, hj, rfl⟩ := h.ready
  rw [job?_jaSetStatusJob, hj.row]
  simp

/-- After the variables are cleaned and the end is logged. -/
theorem Sound.logged {t : Tables} {i : Id} (h : Sound t i) (msg : LogMsg) :
    ∃ t', (andThen (jaCleanValueAfter t i) fun t => jaJoblog t msg 0 i) = (t', .succeed) ∧ StatusEq t t' ∧
      Sound t' i := by
  obtain ⟨t₁, h₁, hst, ha⟩ := h.log.log msg
  have hsub : t₁.after.Sublist t.after := ha ▸ cleanRows_sublist _ i
  refine ⟨t₁, h₁, hst, h.log.of_status hst ((hsub.map _).nodup h.log.afterSeq), fun r hr => ?_⟩
  have hseq : t₁.nextSeq = t.nextSeq := by
    have he : t₁ = (jaJoblog (jaCleanValueAfter t i).1 msg 0 i).1 := (congrArg Prod.fst h₁).symm
    obtain ⟨log, hlog⟩ := jaJoblog_eq (jaCleanValueAfter t i).1 msg 0 i
    rw [he, hlog]
    rfl
  rw [hseq]
  exact h.below r (hsub.subset hr)

/-- `ja_set_runerr` of a stored job succeeds and leaves it in RUNERR. -/
theorem jaSetRunerr_closes {t : Tables} {i : Id} (h : Sound t i) (st : Int) :
    ∃ t', jaSetRunerr t i st = (t', .succeed) ∧ (t'.job? i).map Job.status = some .runErr := by
  obtain ⟨t₁, h₁, -, hs₁⟩ := h.logged .jobErrEnd
  rw [jaSetRunerr]
  change ∃ t', andThen (andThen (jaCleanValueAfter t i) fun t => jaJoblog t .jobErrEnd 0 i) _ = (t', .succeed) ∧ _
  rw [h₁, andThen_succeed]
  dsimp only
  have hw : Sound (writeIconStatus t₁ i (((t₁.job? i).map Job.innerJobnetId).getD 0)
      (((t₁.job? i).map Job.jobType).getD .startIcon) st) i := by
    unfold writeIconStatus
    split
    · exact hs₁.setValue _ _ _ _
    · exact hs₁
  split
  · exact ⟨_, rfl, hw.log.status_set .runErr⟩
  · obtain ⟨t₃, h₃, hl₃⟩ := jaFlow_ok hw.log .normal
    rw [h₃, andThen_succeed]
    exact ⟨_, rfl, hl₃.status_set .runErr⟩

/-- `ja_flow` of a stored job succeeds and leaves it in END, if its jobnet is
running, else in ENDERR or RUNERR. -/
theorem jaFlow_closes {t : Tables} {i : Id} (h : Loggable t i) :
    ∃ t' s, jaFlow t i .normal true = (t', .succeed) ∧ (t'.job? i).map Job.status = some s ∧
      (FlowOpen t i ∧ s = .ended ∨ ¬ FlowOpen t i ∧ (s = .endErr ∨ s = .runErr)) := by
  have hc := h.of_steps (frame_steps (jaCleanValueAfter_status t i)) (cleanRows_sublist _ i)
  by_cases ho : FlowOpen t i
  · obtain ⟨t', h', hs⟩ := jaFlow_ended h ho .normal
    exact ⟨t', .ended, h', hs, .inl ⟨ho, rfl⟩⟩
  by_cases hf : flowsFrom t i = []
  · rw [jaFlow_no_flows hf]
    obtain ⟨t₁, h₁, hst, -⟩ := hc.log .jobErrEnd
    have hres : jaSetEnderr (jaCleanValueAfter t i).1 i true = ((jaSetStatusJob t₁ i .endErr).1, .succeed) := by
      change andThen (andThen (jaCleanValueAfter _ i) fun t => jaJoblog t .jobErrEnd 0 i) _ = _
      rw [h₁]
      rfl
    refine ⟨_, .endErr, hres, ?_, .inr ⟨ho, .inl rfl⟩⟩
    obtain ⟨j, hj, rfl⟩ := hc.ready
    have hrow : t₁.job? j.innerJobId = some j := by
      rw [Tables.job?, hst.jobs]
      exact hj.row
    rw [job?_jaSetStatusJob, hrow]
    simp
  · obtain ⟨t₁, -, hl₁, he⟩ := jaSetRunerrWith_eq hc (-99) (.inl rfl)
    rw [jaFlow_not_running hf ho, jaSetRunerr, he, if_pos (.inr rfl)]
    exact ⟨_, .runErr, rfl, hl₁.status_set .runErr, .inr ⟨ho, .inr rfl⟩⟩

/-! ## The transaction without failures -/

theorem setValues_clean {t : Tables} {i : Id} (h : Sound t i) (k n : Id) (vs : List (String × Text)) :
    StatusEq t ((setValues k n vs).clean t).1 ∧ Sound ((setValues k n vs).clean t).1 i := by
  induction vs generalizing t with
  | nil => exact ⟨.rfl' t, h⟩
  | cons v vs ih =>
    simp only [setValues, Stmt.clean_andThen, Stmt.clean_jaSetValueAfter]
    apply andThen_keeps (P := fun t' => StatusEq t t' ∧ Sound t' i)
    · exact ⟨jaSetValueAfter_status t k n _ _, h.setValue k n _ _⟩
    · intro t₁ h₁
      obtain ⟨hst, hs⟩ := ih h₁.2
      exact ⟨h₁.1.trans hst, hs⟩

section
variable (codes : StopCodes) (logs : String → Nat) (job : JobResult)

theorem verdict_clean (row : Job) (s : ServerDb) : ((verdict codes job row).clean s).1 = s := by
  unfold verdict
  split
  · rfl
  · split
    · rfl
    · split
      · rfl
      · split
        · simp only [Prog.clean_bind, Prog.clean_select]
          split
          · rfl
          · split <;> rfl
        · split <;> rfl
        · split <;> rfl
        · rfl

theorem unlockHost_clean (row : Job) (s : ServerDb) : ((unlockHost job row).clean s).1.1 = s.1 := by
  unfold unlockHost jaHostUnlock
  split <;> simp

/-- What the checks before the completion let through. -/
theorem checkedRow_clean (s : ServerDb) {row : Job} (h : ((checkedRow job).clean s).2 = some row) :
    s.1.job? job.jobid = some row ∧ (row.status = .run ∨ row.status = .abort) ∧
      ((checkedRow job).clean s).1 = (((setValues job.jobid row.innerJobnetId job.values).clean s.1).1, s.2) := by
  unfold checkedRow at h ⊢
  simp only [Prog.clean_bind, Prog.clean_onFst, Stmt.clean_fetch] at h ⊢
  cases hrow : s.1.job? job.jobid with
  | none =>
    simp only [hrow] at h
    cases h
  | some r =>
    simp only [hrow] at h ⊢
    split at h
    · cases h
    · rename_i hst
      rw [if_neg hst]
      simp only [Prog.clean_bind, Prog.clean_onFst, jatrapJobresultSetValue] at h ⊢
      cases hv : ((setValues job.jobid r.innerJobnetId job.values).clean s.1).2 with
      | fail =>
        simp only [hv] at h
        cases h
      | succeed =>
        simp only [hv, Prog.clean_pure, Option.some.injEq] at h ⊢
        subst h
        refine ⟨rfl, ?_, rfl⟩
        by_cases hr : r.status = .run
        · exact .inl hr
        · refine .inr ?_
          by_contra ha
          exact hst ⟨hr, ha⟩

/-- A completion that is answered with SUCCEED closes the job. -/
theorem complete_clean {s : ServerDb} (h : Sound s.1 job.jobid) (n : Id) (v : Verdict)
    (hok : ((complete logs job n v).clean s).2 = .succeed) :
    ∃ st, (((complete logs job n v).clean s).1.1.job? job.jobid).map Job.status = some st ∧
      (st = .ended ∨ st = .endErr ∨ st = .runErr) := by
  cases v with
  | normal =>
    simp only [complete, Prog.clean_bind, Prog.clean_onFst, Stmt.clean_jaSetValueAfter, Stmt.clean_jaFlow,
      Prog.clean_pure]
    have hs := h.setValue job.jobid n "ICON_STATUS" (ascii "0")
    obtain ⟨t', st, he, hst, hcase⟩ := jaFlow_closes hs.log
    rw [he]
    refine ⟨st, hst, ?_⟩
    rcases hcase with ⟨-, hend⟩ | ⟨-, hend⟩
    · exact .inl hend
    · exact .inr hend
  | error iconStatus msg =>
    simp only [complete, Prog.clean_bind, Prog.clean_onFst, Stmt.clean_jaSetValueAfter] at hok ⊢
    have hs := h.setValue job.jobid n "JOBARG_MESSAGE" msg
    cases hv : (jaSetValueAfter s.1 job.jobid n "JOBARG_MESSAGE" msg).2 with
    | fail =>
      simp only [hv] at hok
      cases hok
    | succeed =>
      simp only [Prog.clean_bind, Prog.clean_onFst, Stmt.clean_jaSetRunerr, Prog.clean_pure]
      obtain ⟨t', he, hst⟩ := jaSetRunerr_closes hs iconStatus
      rw [he]
      exact ⟨.runErr, hst, .inr (.inr rfl)⟩
  | unknown => cases hok
  | crash => cases hok

/-- **A result answered with SUCCEED was for a running job, and closes it.** -/
theorem jobresultBody_closes {s : ServerDb} (h : ∀ row, s.1.job? job.jobid = some row → Sound s.1 job.jobid)
    (hok : ((jobresultBody codes logs job).clean s).2 = .succeed) :
    (∃ row, s.1.job? job.jobid = some row ∧ (row.status = .run ∨ row.status = .abort)) ∧
      ∃ st, (((jobresultBody codes logs job).clean s).1.1.job? job.jobid).map Job.status = some st ∧
        (st = .ended ∨ st = .endErr ∨ st = .runErr) := by
  unfold jobresultBody at hok ⊢
  simp only [Prog.clean_bind] at hok ⊢
  cases hc : ((checkedRow job).clean s).2 with
  | none =>
    simp only [hc] at hok
    cases hok
  | some row =>
    simp only [hc, Prog.clean_bind, verdict_clean] at hok ⊢
    obtain ⟨hrow, hst, he⟩ := checkedRow_clean job s hc
    refine ⟨⟨row, hrow, hst⟩, ?_⟩
    have hs : Sound ((unlockHost job row).clean ((checkedRow job).clean s).1).1.1 job.jobid := by
      rw [unlockHost_clean, he]
      exact (setValues_clean (h row hrow) _ _ _).2
    exact complete_clean logs job hs _ _ hok

/-- What a result does to the status columns are writes of a completion. -/
theorem complete_steps (s : ServerDb) (n : Id) (v : Verdict) :
    FlowSteps job.jobid s.1 ((complete logs job n v).clean s).1.1 := by
  cases v with
  | normal =>
    simp only [complete, Prog.clean_bind, Prog.clean_onFst, Stmt.clean_jaSetValueAfter, Stmt.clean_jaFlow,
      Prog.clean_pure]
    exact (frame_steps (jaSetValueAfter_status s.1 _ _ _ _)).trans (jaFlow_steps _ _ _ _)
  | error iconStatus msg =>
    simp only [complete, Prog.clean_bind, Prog.clean_onFst, Stmt.clean_jaSetValueAfter]
    have hframe : FlowSteps job.jobid s.1 (jaSetValueAfter s.1 job.jobid n "JOBARG_MESSAGE" msg).1 :=
      frame_steps (jaSetValueAfter_status s.1 _ _ _ _)
    split
    · exact hframe
    · simp only [Prog.clean_bind, Prog.clean_onFst, Stmt.clean_jaSetRunerr, Prog.clean_pure]
      exact hframe.trans (jaSetRunerr_steps _ _ _)
  | unknown => exact .refl
  | crash => exact .refl

theorem jobresultBody_steps {s : ServerDb} (h : ∀ row, s.1.job? job.jobid = some row → Sound s.1 job.jobid)
    (hok : ((jobresultBody codes logs job).clean s).2 = .succeed) :
    FlowSteps job.jobid s.1 ((jobresultBody codes logs job).clean s).1.1 := by
  unfold jobresultBody at hok ⊢
  simp only [Prog.clean_bind] at hok ⊢
  cases hc : ((checkedRow job).clean s).2 with
  | none =>
    simp only [hc] at hok
    cases hok
  | some row =>
    simp only [hc, Prog.clean_bind, verdict_clean] at hok ⊢
    obtain ⟨hrow, -, he⟩ := checkedRow_clean job s hc
    have hcheck : FlowSteps job.jobid s.1 ((unlockHost job row).clean ((checkedRow job).clean s).1).1.1 := by
      rw [unlockHost_clean, he]
      exact frame_steps (setValues_clean (h row hrow) _ _ _).1
    exact hcheck.trans (complete_steps logs job _ _ _)

end

/-- A row, as one of the completion's writes to another icon leaves it. -/
def Restarted (o : Option Job) : Prop := ∀ j, o = some j → j.status = .begin ∨ j.status = .ready

theorem FlowStep.other {i k : Id} (hk : k ≠ i) {t t' : Tables} (h : FlowStep i t t') :
    t'.job? k = t.job? k ∨ Restarted (t'.job? k) := by
  cases h with
  | frame h =>
    refine .inl ?_
    rw [Tables.job?, h.jobs]
    rfl
  | own s _ =>
    refine .inl ?_
    rw [job?_jaSetStatusJob]
    cases hj : t.job? k with
    | none => rfl
    | some j =>
      have hid := (Table.lookup_mem hj).2
      have hne : ¬ (j.innerJobId = i) := by
        rw [hid]
        exact hk
      simp [hne]
  | fire _ _ _ hc _ =>
    rename_i f j s n _ _ _ _
    rw [job?_setCount]
    cases hj : t.job? k with
    | none => exact .inl rfl
    | some r =>
      by_cases he : r.innerJobId = f.endInnerJobId
      · refine .inr fun r' hr' => ?_
        simp only [Option.map_some, he, beq_self_eq_true, if_true, Option.some.injEq] at hr'
        subst hr'
        exact (flowCount_count hc).1
      · simp [he]
  | fireJobnet _ _ _ _ _ _ =>
    rename_i f j link n _ _ _ _ _ _
    rw [job?_setCount, job?_resetJobs]
    cases hj : t.job? k with
    | none => exact .inl rfl
    | some r =>
      simp only [Option.map_some]
      cases r.innerJobnetId == link.linkInnerJobnetId with
      | false =>
        by_cases he : r.innerJobId = f.endInnerJobId
        · refine .inr fun r' hr' => .inr ?_
          simp only [he, beq_self_eq_true, if_true, Bool.false_eq_true, if_false, Option.some.injEq] at hr'
          subst hr'
          rfl
        · simp [he]
      | true =>
        refine .inr fun r' hr' => ?_
        simp only [if_true, beq_iff_eq, Option.some.injEq] at hr'
        split at hr'
        · subst hr'
          exact .inr rfl
        · subst hr'
          exact .inl rfl

/-- A completion of `i` writes other rows only to count up a flow or to reset
a jobnet: they end in BEGIN or READY. -/
theorem FlowSteps.other {i k : Id} (hk : k ≠ i) {t t' : Tables} (h : FlowSteps i t t') :
    t'.job? k = t.job? k ∨ Restarted (t'.job? k) := by
  induction h with
  | refl => exact .inl rfl
  | tail _ hst ih =>
    rcases hst.other hk with he | hr
    · rwa [he]
    · exact .inr hr

/-! ## Trapper processes -/

/-- `status` is RUN or ABORT: a result is taken. -/
def isOpen (t : Tables) (i : Id) : Bool := (t.job? i).any fun j => j.status = .run ∨ j.status = .abort

/-- What the database promises of the tables a transaction works on: the
schema, and the numbers of `AUTO_INCREMENT`. -/
structure Stored (t : Tables) : Prop where
  schema : Schema t
  below : ∀ r ∈ t.after, r.seqNo < t.nextSeq

theorem Stored.sound {t : Tables} (h : Stored t) {i : Id} {row : Job} (hrow : t.job? i = some row) : Sound t i := by
  obtain ⟨hmem, rfl⟩ := Table.lookup_mem hrow
  exact ⟨h.schema.loggable hmem, h.below⟩

/-- An answered telegram: the job's status under the lock, and the database
before and after the end of its transaction. -/
structure Answered where
  status : Option Status
  answer : Answer
  before : ServerDb
  after : ServerDb

/-- `held p` is the telegram process `p` is working on; `entered i` counts how
often job `i` entered RUN, and `accepted` are the telegrams answered with
SUCCEED, each with its job and the count at that moment. -/
structure TrapState (P : Type) where
  db : ServerDb
  lock : Id → Option P
  held : P → Option JobResult
  entered : Id → Nat
  accepted : List (Id × Nat)
  answered : List Answered

inductive TrapLabel (P : Type) where
  /-- a telegram that cannot be loaded -/
  | refuse (request : Json) (stack : Int)
  /-- `DBbegin` and `select … for update` -/
  | lock (p : P) (request : Json) (stack : Int)
  /-- the rest of the transaction, on the view `view` -/
  | finish (p : P) (view db' : ServerDb)
  /-- a commit of any other process -/
  | other (db' : ServerDb)

/-- A commit: the rows the transaction has changed take its version, the
others stay as they are in the database. -/
def Merges (view result db db' : Tables) : Prop :=
  ∀ k, db'.job? k = if result.job? k = view.job? k then db.job? k else result.job? k

section
variable {P : Type}

/-- A new committed database; the jobs that enter RUN are counted. -/
def TrapState.put (s : TrapState P) (db' : ServerDb) : TrapState P :=
  { s with
    db := db'
    entered := fun i => s.entered i + if isRun s.db.1 i = false ∧ isRun db'.1 i = true then 1 else 0 }

variable [DecidableEq P] (c : Conversions) (codes : StopCodes) (logs : String → Nat)

/-- mirrors src/jobarg_server/jatrapper/jatrapjobresult.c:291-441 -/
def TrapStep (s : TrapState P) : TrapLabel P → TrapState P → Prop
  | .refuse request stack, s' => jatrapJobresultLoad c stack request = none ∧
      s' = { s with answered := ⟨none, .fail, s.db, s.db⟩ :: s.answered }
  | .lock p request stack, s' => ∃ job, jatrapJobresultLoad c stack request = some job ∧ s.held p = none ∧
      s.lock job.jobid = none ∧
      s' = { s with held := Function.update s.held p (some job), lock := acquire s.lock job.jobid p }
  | .finish p view db', s' => ∃ job, s.held p = some job ∧ Stored view.1 ∧
      view.1.job? job.jobid = s.db.1.job? job.jobid ∧
      (((jobresultBody codes logs job).clean view).2 = .succeed →
        Merges view.1 ((jobresultBody codes logs job).clean view).1.1 s.db.1 db'.1 ∧
        Respects s.lock (some p) s.db.1.job? db'.1.job?) ∧
      (((jobresultBody codes logs job).clean view).2 ≠ .succeed → db' = s.db) ∧
      s' = { s.put db' with
        lock := release s.lock job.jobid
        held := Function.update s.held p none
        accepted := if ((jobresultBody codes logs job).clean view).2 = .succeed
          then (job.jobid, s.entered job.jobid) :: s.accepted else s.accepted
        answered := ⟨(s.db.1.job? job.jobid).map Job.status, ((jobresultBody codes logs job).clean view).2,
          s.db, db'⟩ :: s.answered }
  | .other db', s' => Respects s.lock none s.db.1.job? db'.1.job? ∧ s' = s.put db'

structure TrapInit (s : TrapState P) : Prop where
  lock : ∀ i, s.lock i = none
  held : ∀ p, s.held p = none
  accepted : s.accepted = []
  answered : s.answered = []

variable (P) in
def trapSystem : LTS (TrapState P) (TrapLabel P) where
  init := TrapInit
  step := TrapStep c codes logs

/-- For each time a job entered RUN at most one telegram is answered with
SUCCEED; the job was RUN or ABORT then; and a telegram answered with FAIL
leaves the database as it was. -/
structure ResultLaw (s : TrapState P) : Prop where
  once : s.accepted.Nodup
  open_ : ∀ a ∈ s.answered, a.answer = .succeed → a.status = some .run ∨ a.status = some .abort
  failed : ∀ a ∈ s.answered, a.answer = .fail → a.after = a.before

/-- No other process sets a job to ABORT that is not running. -/
def AbortsRunning (s : TrapState P) : TrapLabel P → Prop
  | .other db' => ∀ i j, db'.1.job? i = some j → j.status = .abort → isOpen s.db.1 i = true
  | _ => True

structure TrapInv (s : TrapState P) : Prop where
  locked : ∀ p job, s.held p = some job → s.lock job.jobid = some p
  used : UsedOnce (fun i => isOpen s.db.1 i = true) s.entered s.accepted
  open_ : ∀ a ∈ s.answered, a.answer = .succeed → a.status = some .run ∨ a.status = some .abort
  failed : ∀ a ∈ s.answered, a.answer = .fail → a.after = a.before

/-! ### One step -/

theorem isOpen_of_row {t t' : Tables} {i : Id} (h : t'.job? i = t.job? i) : isOpen t' i = isOpen t i := by
  rw [isOpen, isOpen, h]

theorem isOpen_of_isRun {t : Tables} {i : Id} (h : isRun t i = true) : isOpen t i = true := by
  unfold isRun at h
  unfold isOpen
  cases hj : t.job? i with
  | none => simp [hj] at h
  | some j =>
    simp only [hj, Option.any_some, decide_eq_true_eq] at h ⊢
    exact .inl h

/-- What a commit changes can only become open by entering RUN, or by an
abort. -/
theorem isOpen_cases {t : Tables} {i : Id} (h : isOpen t i = true) :
    isRun t i = true ∨ ∃ j, t.job? i = some j ∧ j.status = .abort := by
  unfold isOpen at h
  unfold isRun
  cases hj : t.job? i with
  | none => simp [hj] at h
  | some j =>
    simp only [hj, Option.any_some, decide_eq_true_eq] at h ⊢
    rcases h with h | h
    · exact .inl h
    · exact .inr ⟨j, rfl, h⟩

omit [DecidableEq P] in
theorem TrapState.put_le (s : TrapState P) (db' : ServerDb) (i : Id) : s.entered i ≤ (s.put db').entered i :=
  Nat.le_add_right _ _

omit [DecidableEq P] in
/-- A commit after which a job is open that was not has counted it, or has
set it to ABORT. -/
theorem TrapState.put_open (s : TrapState P) (db' : ServerDb) {i : Id} (h : isOpen db'.1 i = true) :
    isOpen s.db.1 i = true ∨ s.entered i < (s.put db').entered i ∨
      ∃ j, db'.1.job? i = some j ∧ j.status = .abort := by
  rcases isOpen_cases h with hr | ha
  · cases hold : isRun s.db.1 i with
    | true => exact .inl (isOpen_of_isRun hold)
    | false =>
      refine .inr (.inl ?_)
      simp [TrapState.put, hold, hr]
  · exact .inr (.inr ha)

/-- An accepted result closes its job and opens no other. -/
theorem accepted_open {codes : StopCodes} {logs : String → Nat} {job : JobResult} {view : ServerDb} {db db' : Tables}
    (hview : Stored view.1) (hok : ((jobresultBody codes logs job).clean view).2 = .succeed)
    (hm : Merges view.1 ((jobresultBody codes logs job).clean view).1.1 db db') :
    isOpen view.1 job.jobid = true ∧ isOpen db' job.jobid = false ∧
      ∀ k, isOpen db' k = true → isOpen db k = true := by
  have hsound : ∀ row, view.1.job? job.jobid = some row → Sound view.1 job.jobid := fun row h => hview.sound h
  obtain ⟨⟨row, hrow, hst⟩, st, hafter, hclosed⟩ := jobresultBody_closes codes logs job hsound hok
  have hopen : isOpen view.1 job.jobid = true := by
    rw [isOpen, hrow]
    simpa using hst
  -- the row of the job has changed: its status was open and is closed
  have hshut : isOpen ((jobresultBody codes logs job).clean view).1.1 job.jobid = false := by
    obtain ⟨r, hr, rfl⟩ := Option.map_eq_some_iff.1 hafter
    rw [isOpen, hr]
    rcases hclosed with h | h | h <;> simp [h]
  have hne : ((jobresultBody codes logs job).clean view).1.1.job? job.jobid ≠ view.1.job? job.jobid := by
    intro he
    rw [isOpen_of_row he, hopen] at hshut
    cases hshut
  refine ⟨hopen, ?_, ?_⟩
  · have hrow' := hm job.jobid
    rw [if_neg hne] at hrow'
    rw [isOpen_of_row hrow']
    exact hshut
  · intro k hk
    have hrow' := hm k
    by_cases hkj : k = job.jobid
    · subst hkj
      rw [if_neg hne] at hrow'
      rw [isOpen_of_row hrow', hshut] at hk
      cases hk
    · rcases (jobresultBody_steps codes logs job hsound hok).other hkj with he | hr
      · rw [if_pos he] at hrow'
        rwa [isOpen_of_row hrow'] at hk
      · split at hrow'
        · rwa [isOpen_of_row hrow'] at hk
        · rw [isOpen_of_row hrow'] at hk
          rcases isOpen_cases hk with hrun | ⟨j, hj, ha⟩
          · obtain ⟨j, hj, hs⟩ := Option.map_eq_some_iff.1 (isRun_status hrun)
            have hres := hr j hj
            rw [hs] at hres
            simp at hres
          · have hres := hr j hj
            rw [ha] at hres
            simp at hres

variable {c codes logs} {s s' : TrapState P}

omit [DecidableEq P] in
theorem TrapInv.law (h : TrapInv s) : ResultLaw s := ⟨h.used.nodup, h.open_, h.failed⟩

theorem TrapInv.lock (h : TrapInv s) {p : P} {request : Json} {stack : Int}
    (hs : TrapStep c codes logs s (.lock p request stack) s') : TrapInv s' := by
  obtain ⟨job, -, -, hfree, rfl⟩ := hs
  refine ⟨?_, h.used, h.open_, h.failed⟩
  apply (Function.forall_update_iff s.held fun q o => ∀ j, o = some j →
    acquire s.lock job.jobid p j.jobid = some q).2
  refine ⟨fun j hj => ?_, fun q _ j hq => acquire_held hfree (h.locked q j hq)⟩
  rw [← Option.some.inj hj]
  exact acquire_self _ _ _

theorem TrapInv.finish (h : TrapInv s) {p : P} {view db' : ServerDb}
    (hs : TrapStep c codes logs s (.finish p view db') s') : TrapInv s' := by
  obtain ⟨job, hjob, hview, hrow, hyes, hno, rfl⟩ := hs
  have hlocked : ∀ q j, Function.update s.held p none q = some j → release s.lock job.jobid j.jobid = some q := by
    apply (Function.forall_update_iff s.held fun q o => ∀ j, o = some j →
      release s.lock job.jobid j.jobid = some q).2
    exact ⟨by simp, fun q hqp j hq => release_held (h.locked p job hjob) (h.locked q j hq) hqp⟩
  by_cases hans : ((jobresultBody codes logs job).clean view).2 = .succeed
  · obtain ⟨hmerge, -⟩ := hyes hans
    obtain ⟨hopen, hshut, hother⟩ := accepted_open hview hans hmerge
    have hopen' : isOpen s.db.1 job.jobid = true := by
      rw [← isOpen_of_row hrow]
      exact hopen
    refine ⟨hlocked, ?_, ?_, ?_⟩
    · simp only [hans, if_true]
      apply h.used.use hopen' (s.put_le db') (fun k hk => .inl (hother k hk))
      simp [hshut]
    · intro a ha hok
      rcases List.mem_cons.1 ha with rfl | ha
      · rcases isOpen_cases hopen' with hr | ⟨j, hj, hst⟩
        · exact .inl (isRun_status hr)
        · refine .inr ?_
          rw [hj, Option.map_some, hst]
      · exact h.open_ a ha hok
    · intro a ha hfail
      rcases List.mem_cons.1 ha with rfl | ha
      · rw [hans] at hfail
        cases hfail
      · exact h.failed a ha hfail
  · -- rolled back, or lost with the process: the database is as before
    have hdb := hno hans
    refine ⟨hlocked, ?_, ?_, ?_⟩
    · simp only [hans, if_false]
      apply h.used.next (s.put_le db')
      intro k hk
      refine .inl ?_
      rw [← hdb]
      exact hk
    · intro a ha hok
      rcases List.mem_cons.1 ha with rfl | ha
      · exact absurd hok hans
      · exact h.open_ a ha hok
    · intro a ha hfail
      rcases List.mem_cons.1 ha with rfl | ha
      · exact hdb
      · exact h.failed a ha hfail

theorem TrapInv.other (h : TrapInv s) {db' : ServerDb} (hs : TrapStep c codes logs s (.other db') s')
    (ha : AbortsRunning s (.other db')) : TrapInv s' := by
  obtain ⟨-, rfl⟩ := hs
  refine ⟨h.locked, ?_, h.open_, h.failed⟩
  apply h.used.next (s.put_le db')
  intro k hk
  rcases s.put_open db' hk with ho | hlt | ⟨j, hj, hst⟩
  · exact .inl ho
  · exact .inr hlt
  · exact .inl (ha k j hj hst)

theorem trapInv_inductive : ((trapSystem P c codes logs).restrict AbortsRunning).Inductive TrapInv where
  init s hs := by
    refine ⟨?_, ?_, ?_, ?_⟩
    · simp [hs.held]
    · rw [hs.accepted]
      exact usedOnce_nil
    · simp [hs.answered]
    · simp [hs.answered]
  step s l s' h hs := by
    obtain ⟨hs, hc⟩ := hs
    change TrapStep c codes logs s l s' at hs
    cases l with
    | refuse request stack =>
      obtain ⟨-, rfl⟩ := hs
      refine ⟨h.locked, h.used, ?_, ?_⟩
      · intro a ha hok
        rcases List.mem_cons.1 ha with rfl | ha
        · cases hok
        · exact h.open_ a ha hok
      · intro a ha hfail
        rcases List.mem_cons.1 ha with rfl | ha
        · rfl
        · exact h.failed a ha hfail
    | lock p request stack => exact h.lock hs
    | finish p view db' => exact h.finish hs
    | other db' => exact h.other hs hc

end

/-! ## A result taken twice -/

def plainText : Json → Text
  | .string s => ascii s
  | _ => []

def plainInt : Json → Int
  | .int n => n
  | _ => 0

/-- json-c on the values the agent sends. -/
def plainJson : Conversions := ⟨plainText, plainInt⟩

/-- An empty stop code, which `ja_number_match` never matches. -/
def noStopCode : StopCodes := ⟨fun _ => some [], fun _ _ => 0⟩

/-- The normal end of job 1. -/
def endTelegram : Json :=
  .object [("kind", .string "jobresult"), ("version", .int 1), ("data", .object [("jobid", .string "1"),
    ("hostname", .string "host"), ("result", .int 0), ("std_out", .string ""), ("std_err", .string ""),
    ("return_code", .int 0), ("signal", .int 0)])]

def endResult : JobResult := ⟨1, 0, ascii "host", none, some [], some [], 0, 0⟩

def trapState : TrapState Unit := ⟨(stopTables, []), fun _ => none, fun _ => none, fun _ => 0, [], []⟩

theorem trapState_init : TrapInit trapState := ⟨fun _ => rfl, fun _ => rfl, rfl, rfl⟩

theorem endTelegram_load : jatrapJobresultLoad plainJson 0 endTelegram = some endResult := by decide +kernel

/-- What the telegram makes of a database. -/
def endedDb (db : ServerDb) : ServerDb × Answer := (jobresultBody noStopCode (fun _ => 0) endResult).clean db

/-- The database after the result of job 1. -/
def afterEnd : ServerDb := (endedDb (stopTables, [])).1

/-- A stale list of `process_jajob` sets the job to ABORT. -/
def afterAbort : ServerDb := ((processRow killWorld afterEnd.1 stopRow).1.tables, afterEnd.2)

theorem merges_self (view result : Tables) : Merges view result view result := by
  intro k
  split
  · assumption
  · rfl

theorem stopTables_stored : Stored stopTables := by
  refine ⟨⟨by decide, by decide, ?_, by decide, by decide⟩, by decide⟩
  simp [stopTables]

theorem afterEnd_stored : Stored afterEnd.1 :=
  ⟨⟨by decide +kernel, by decide +kernel, by decide +kernel, by decide +kernel, by decide +kernel⟩, by decide +kernel⟩

theorem afterAbort_stored : Stored afterAbort.1 :=
  ⟨⟨by decide +kernel, by decide +kernel, by decide +kernel, by decide +kernel, by decide +kernel⟩, by decide +kernel⟩

end JobArranger
