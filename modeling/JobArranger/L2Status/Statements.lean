import JobArranger.Core.Prog
import JobArranger.L2Status.Flow

/-!
# The completion functions, statement by statement

`ja_flow`, `ja_set_runerr` and what they call, as programs over the run
tables that send the `DBselect`s and `DBexecute`s of the source one by one
(`Core.Prog`). The functions of `L2Status.Status` and `L2Status.Flow` are
their runs without failures: `clean_jaFlow`, `clean_jaSetRunerr`.

A select that fails gives a NULL result, and `DBfetch` of it no row.
`logs id` is the number of statements a call of `ja_log` with message `id`
sends, with the queries that only feed its arguments; none of them touches
the tables. What a function still sends after a statement of its own has
failed is left out: the transaction ignores it.
-/
namespace JobArranger.Stmt

open Prog

/-- `if (… == FAIL) return FAIL;` -/
def andThen (p k : Prog Tables Ret) : Prog Tables Ret := do
  match ← p with
  | .succeed => k
  | .fail => pure .fail

@[simp] theorem clean_andThen (p k : Prog Tables Ret) (t : Tables) :
    (andThen p k).clean t = Tables.andThen (p.clean t) fun t => k.clean t := by
  simp only [andThen, clean_bind]
  obtain ⟨t', r⟩ := p.clean t
  cases r <;> rfl

/-- `if (db_ret < ZBX_DB_OK) return FAIL; return SUCCEED;` -/
def update (f : Tables → Tables) : Prog Tables Ret := do
  if ← exec f then pure .succeed else pure .fail

@[simp] theorem clean_update (f : Tables → Tables) (t : Tables) : (update f).clean t = (f t, .succeed) := rfl

@[simp] theorem deny_update (f : Tables → Tables) : (update f).deny = .fail := rfl

theorem cost_andThen (p k : Prog Tables Ret) (t : Tables) (h : (p.clean t).2 = .succeed) :
    (andThen p k).cost t = p.cost t + k.cost (p.clean t).1 := by
  rw [andThen, cost_bind, h]

theorem guarded_andThen {p k : Prog Tables Ret} (hp : p.Guarded (· = .fail)) (hk : k.Guarded (· = .fail)) :
    (andThen p k).Guarded (· = .fail) := by
  apply hp.bind
  · intro r hr
    rw [hr]
    rfl
  · intro r
    cases r with
    | succeed => exact hk
    | fail => trivial

theorem guarded_update (f : Tables → Tables) : (update f).Guarded (· = .fail) := ⟨rfl, fun _ => trivial⟩

/-! ## Variables -/

def deletes : List Nat → Prog Tables Ret
  | [] => pure .succeed
  | n :: ns => andThen (update fun t => { t with after := t.after.filter fun r => r.seqNo ≠ n }) (deletes ns)

/-- mirrors src/jalibs/javalue.c:99-133 -/
def jaCleanValueAfter (innerJobId : Id) : Prog Tables Ret := do
  match ← select with
  | none => pure .succeed
  | some t => deletes (cleanLoop "" ((t.after.filter fun r => r.owner == innerJobId).insertionSort cleanOrder))

theorem clean_deletes (ns : List Nat) (t : Tables) :
    (deletes ns).clean t = ({ t with after := t.after.filter fun r => r.seqNo ∉ ns }, .succeed) := by
  induction ns generalizing t with
  | nil => simp [deletes]
  | cons n ns ih =>
    simp only [deletes, clean_andThen, clean_update, Tables.andThen_succeed, ih, List.filter_filter]
    congr 3
    funext r
    simp [Bool.and_comm]

@[simp] theorem clean_jaCleanValueAfter (i : Id) (t : Tables) :
    (jaCleanValueAfter i).clean t = JobArranger.jaCleanValueAfter t i := by
  simp only [jaCleanValueAfter, clean_bind, clean_select, clean_deletes]
  rfl

/-- mirrors src/jalibs/javalue.c:202-277 -/
def jaSetValueAfter (innerJobId innerJobnetId : Id) (name : String) (value : Text) : Prog Tables Ret :=
  if innerJobId = 0 ∨ innerJobnetId = 0 then pure .fail
  else update fun t => (JobArranger.jaSetValueAfter t innerJobId innerJobnetId name value).1

@[simp] theorem clean_jaSetValueAfter (i n : Id) (name : String) (value : Text) (t : Tables) :
    (jaSetValueAfter i n name value).clean t = JobArranger.jaSetValueAfter t i n name value := by
  unfold jaSetValueAfter JobArranger.jaSetValueAfter
  split <;> rfl

@[simp] theorem deny_jaSetValueAfter (i n : Id) (name : String) (value : Text) :
    (jaSetValueAfter i n name value).deny = .fail := by
  unfold jaSetValueAfter
  split <;> rfl

theorem cost_jaSetValueAfter {i n : Id} (hi : i ≠ 0) (hn : n ≠ 0) (name : String) (value : Text) (t : Tables) :
    (jaSetValueAfter i n name value).cost t = 1 := by
  simp only [jaSetValueAfter, hi, hn, or_self, if_false]
  rfl

theorem guarded_jaSetValueAfter (i n : Id) (name : String) (value : Text) :
    (jaSetValueAfter i n name value).Guarded (· = .fail) := by
  unfold jaSetValueAfter
  split
  · trivial
  · exact guarded_update _

/-- mirrors src/jalibs/javalue.c:555-578 -/
def jaValueAfterBefore (innerJobId nextInnerJobId : Id) : Prog Tables Ret :=
  update fun t => (JobArranger.jaValueAfterBefore t innerJobId nextInnerJobId).1

@[simp] theorem clean_jaValueAfterBefore (i k : Id) (t : Tables) :
    (jaValueAfterBefore i k).clean t = JobArranger.jaValueAfterBefore t i k := rfl

/-! ## The job log -/

/-- A query that looks up one row; a missing row is logged. -/
def fetch {α : Type} (log : Nat) (q : Tables → Option α) : Prog Tables (Option α) := do
  match (← select).bind q with
  | some a => pure (some a)
  | none => do
    queries log
    pure none

@[simp] theorem clean_fetch {α : Type} (log : Nat) (q : Tables → Option α) (t : Tables) :
    (fetch log q).clean t = (t, q t) := by
  simp only [fetch, clean_bind, clean_select, Option.bind_some]
  cases q t <;> simp

theorem guarded_fetch {α : Type} {log : Nat} (q : Tables → Option α) : (fetch log q).Guarded (· = none) := by
  have hsel : (select : Prog Tables (Option Tables)).Guarded (· = none) := ⟨rfl, fun _ => trivial⟩
  have hlog : (do queries log; pure none : Prog Tables (Option α)).Guarded (· = none) :=
    (guarded_of_forall (fun _ => trivial) (queries log)).bind (fun _ _ => rfl) fun _ => trivial
  apply hsel.bind
  · intro o ho
    rw [ho]
    exact deny_bind (queries log) _
  · intro o
    cases o.bind q with
    | none => exact hlog
    | some a => trivial

section
variable (logs : String → Nat)

/-- mirrors src/jalibs/jajoblog.c:107-181 -/
def joblogSqlFlag (msg : LogMsg) (innerJobId : Id) : Prog Tables (Option (Fin 3)) :=
  let counted : Prog Tables (Option (Fin 3)) := fetch (logs "JAJOBLOG200007") fun t =>
    if (t.after.filter fun r => r.owner == innerJobId &&
        (r.valueName == "JOB_EXIT_CD" || r.valueName == "STD_OUT" || r.valueName == "STD_ERR")).length = 3
    then some sqlResult else some sqlJob
  if innerJobId = 0 then pure (some sqlJobnet)
  else if msg ≠ .jobEnd ∧ msg ≠ .jobErrEnd then pure (some sqlJob)
  else do
    match ← fetch (logs "JAJOBLOG200005") (·.job? innerJobId) with
    | none => pure none
    | some j =>
      match j.jobType with
      | .job => counted
      | .less => do
        match ← fetch (logs "JAJOBLOG200007") (Table.lookup IconAgentless.innerJobId innerJobId ·.agentless) with
        | none => pure none
        | some a => if a.sessionClose then pure (some sqlJob) else counted
      | _ => pure (some sqlJob)

theorem clean_joblogSqlFlag (msg : LogMsg) (i : Id) (t : Tables) :
    (joblogSqlFlag logs msg i).clean t = (t, JobArranger.joblogSqlFlag t msg i) := by
  unfold joblogSqlFlag JobArranger.joblogSqlFlag
  split
  · rfl
  · split
    · rfl
    · simp only [clean_bind, clean_fetch]
      cases t.job? i with
      | none => rfl
      | some j =>
        dsimp only
        cases j.jobType with
        | job => exact clean_fetch _ _ _
        | less =>
          simp only [clean_bind, clean_fetch]
          cases Table.lookup IconAgentless.innerJobId i t.agentless with
          | none => rfl
          | some a =>
            dsimp only
            split
            · rfl
            · exact clean_fetch _ _ _
        | _ => rfl

/-- The insert of the log rows fails also when it writes none.
mirrors src/jalibs/jajoblog.c:184-268 -/
def joblogInsert (msg : LogMsg) (innerJobId innerJobnetId : Id) (flag : Fin 3) : Prog Tables Ret :=
  .stmt (fun t => { t with log := t.log ++ joblogRows t msg innerJobId innerJobnetId flag }) fun o => do
    match o.map (joblogRows · msg innerJobId innerJobnetId flag) with
    | none => pure .fail
    | some [] => do
      queries (logs "JAJOBLOG200008")
      pure .fail
    | some _ => pure .succeed

/-- The jobnet of the message.
mirrors src/jalibs/jajoblog.c:76-93 -/
def joblogNet (innerJobnetId innerJobId : Id) : Prog Tables (Option Id) :=
  if innerJobnetId = 0 then fetch (logs "JAJOBLOG200007") fun t => (t.job? innerJobId).map (·.innerJobnetId)
  else pure (some innerJobnetId)

/-- mirrors src/jalibs/jajoblog.c:54-268 -/
def jaJoblog (msg : LogMsg) (innerJobnetId innerJobId : Id) : Prog Tables Ret := do
  if innerJobnetId = 0 ∧ innerJobId = 0 then do
    queries (logs "JAJOBLOG200006")
    pure .fail
  else
    match ← joblogNet logs innerJobnetId innerJobId with
    | none => pure .fail
    | some n =>
      match ← joblogSqlFlag logs msg innerJobId with
      | none => pure .fail
      | some flag =>
        if flag = sqlJobnet ∧ msg = .jobnetErrEnd then
          andThen (update fun t => { t with log := t.log.filter fun r => !(r.innerJobnetId == n && r.message == msg) })
            (joblogInsert logs msg innerJobId n flag)
        else joblogInsert logs msg innerJobId n flag

theorem clean_joblogNet (n i : Id) (t : Tables) :
    (joblogNet logs n i).clean t = (t, if n = 0 then (t.job? i).map (·.innerJobnetId) else some n) := by
  unfold joblogNet
  split
  · exact clean_fetch _ _ _
  · rfl

theorem clean_joblogInsert (msg : LogMsg) (i n : Id) (flag : Fin 3) (t : Tables) :
    (joblogInsert logs msg i n flag).clean t =
      if joblogRows t msg i n flag = [] then (t, .fail)
      else ({ t with log := t.log ++ joblogRows t msg i n flag }, .succeed) := by
  simp only [joblogInsert, clean, Option.map_some]
  cases joblogRows t msg i n flag with
  | nil => simp
  | cons r rs => rfl

@[simp] theorem clean_jaJoblog (msg : LogMsg) (n i : Id) (t : Tables) :
    (jaJoblog logs msg n i).clean t = JobArranger.jaJoblog t msg n i := by
  unfold jaJoblog JobArranger.jaJoblog
  split
  · simp
  · simp only [clean_bind, clean_joblogNet]
    cases (if n = 0 then (t.job? i).map (·.innerJobnetId) else some n) with
    | none => rfl
    | some m =>
      simp only [clean_bind, clean_joblogSqlFlag]
      cases JobArranger.joblogSqlFlag t msg i with
      | none => rfl
      | some flag =>
        dsimp only
        split
        all_goals
          simp only [clean_andThen, clean_update, Tables.andThen_succeed, clean_joblogInsert]
          split
          · rename_i hrows
            rw [hrows]
          · rename_i hrows
            obtain ⟨r, rs, hr⟩ := List.exists_cons_of_ne_nil hrows
            rw [hr]

/-! ## Status -/

/-- mirrors src/jalibs/jastatus.c:237-278 -/
def jaSetStatusJob (innerJobId : Id) (status : Status) : Prog Tables Ret := do
  queries 1
  update fun t => (JobArranger.jaSetStatusJob t innerJobId status).1

@[simp] theorem clean_jaSetStatusJob (i : Id) (s : Status) (t : Tables) :
    (jaSetStatusJob i s).clean t = JobArranger.jaSetStatusJob t i s := by
  simp only [jaSetStatusJob, clean_bind, clean_queries, clean_update]
  rfl

/-- mirrors src/jalibs/jastatus.c:543-563 -/
def jaSetEnd (innerJobId : Id) (msgFlag : Bool) : Prog Tables Ret :=
  if msgFlag = false then pure .succeed
  else
    andThen (jaCleanValueAfter innerJobId) <|
    andThen (jaJoblog logs .jobEnd 0 innerJobId) <|
    jaSetStatusJob innerJobId .ended

@[simp] theorem clean_jaSetEnd (i : Id) (msgFlag : Bool) (t : Tables) :
    (jaSetEnd logs i msgFlag).clean t = JobArranger.jaSetEnd t i msgFlag := by
  unfold jaSetEnd JobArranger.jaSetEnd
  split
  · rfl
  · simp only [clean_andThen, clean_jaCleanValueAfter, clean_jaJoblog, clean_jaSetStatusJob]

/-- `if (msg_flag == 1)`: the log row, and a message.
mirrors src/jalibs/jastatus.c:706-735 -/
def enderrMessage (innerJobId : Id) (msgFlag : Bool) : Prog Tables Ret :=
  if msgFlag then
    andThen (jaJoblog logs .jobErrEnd 0 innerJobId) do
      queries (logs "JAJOBNETRUN200001")
      pure .succeed
  else pure .succeed

/-- mirrors src/jalibs/jastatus.c:688-740 -/
def jaSetEnderr (innerJobId : Id) (msgFlag : Bool) : Prog Tables Ret :=
  andThen (jaCleanValueAfter innerJobId) <|
  andThen (enderrMessage logs innerJobId msgFlag) <|
  jaSetStatusJob innerJobId .endErr

@[simp] theorem clean_enderrMessage (i : Id) (msgFlag : Bool) (t : Tables) :
    (enderrMessage logs i msgFlag).clean t =
      if msgFlag then JobArranger.jaJoblog t .jobErrEnd 0 i else (t, .succeed) := by
  unfold enderrMessage
  split
  · simp only [clean_andThen, clean_jaJoblog, clean_bind, clean_queries]
    obtain ⟨t', r⟩ := JobArranger.jaJoblog t .jobErrEnd 0 i
    cases r <;> rfl
  · rfl

@[simp] theorem clean_jaSetEnderr (i : Id) (msgFlag : Bool) (t : Tables) :
    (jaSetEnderr logs i msgFlag).clean t = JobArranger.jaSetEnderr t i msgFlag := by
  unfold jaSetEnderr JobArranger.jaSetEnderr
  simp only [clean_andThen, clean_jaCleanValueAfter, clean_jaSetStatusJob, clean_enderrMessage]

/-- mirrors src/jalibs/jastatus.c:628-632 -/
def writeIconStatus (innerJobId innerJobnetId : Id) (jobType : JobType) (iconStatus : Int) : Prog Tables Unit := do
  if jobType = .job ∧ iconStatus ≠ -99 then
    let _ ← jaSetValueAfter innerJobId innerJobnetId "ICON_STATUS" (iconStatusText iconStatus)
    pure ()
  else pure ()

@[simp] theorem clean_writeIconStatus (i n : Id) (ty : JobType) (st : Int) (t : Tables) :
    (writeIconStatus i n ty st).clean t = (JobArranger.writeIconStatus t i n ty st, ()) := by
  unfold writeIconStatus JobArranger.writeIconStatus
  split
  · simp
  · rfl

/-- The end of `ja_set_runerr`, once the job row is read.
mirrors src/jalibs/jastatus.c:628-672 -/
def runerrTail (flow : Prog Tables Ret) (innerJobId : Id) (iconStatus : Int) (row : Option Job) : Prog Tables Ret := do
  let innerJobnetId : Id := (row.map Job.innerJobnetId).getD 0
  let jobType : JobType := (row.map Job.jobType).getD .startIcon
  let continueFlag : Bool := (row.map Job.continueFlag).getD false
  writeIconStatus innerJobId innerJobnetId jobType iconStatus
  queries (logs "JAJOBNETRUN000001")
  if continueFlag = false ∨ iconStatus = -99 ∨ jobType = .ifIcon then jaSetStatusJob innerJobId .runErr
  else andThen flow (jaSetStatusJob innerJobId .runErr)

/-- mirrors src/jalibs/jastatus.c:581-673 -/
def jaSetRunerrWith (flow : Prog Tables Ret) (innerJobId : Id) (iconStatus : Int) : Prog Tables Ret :=
  andThen (jaCleanValueAfter innerJobId) <|
  andThen (jaJoblog logs .jobErrEnd 0 innerJobId) do
    let row ← fetch 0 (·.job? innerJobId)
    runerrTail logs flow innerJobId iconStatus row

theorem clean_jaSetRunerrWith {flow : Prog Tables Ret} {flow' : Tables → Tables × Ret}
    (hf : ∀ t, flow.clean t = flow' t) (i : Id) (st : Int) (t : Tables) :
    (jaSetRunerrWith logs flow i st).clean t = JobArranger.jaSetRunerrWith flow' t i st := by
  unfold jaSetRunerrWith JobArranger.jaSetRunerrWith
  simp only [clean_andThen, clean_jaCleanValueAfter, clean_jaJoblog]
  congr 1
  funext t₁
  congr 1
  funext t₂
  simp only [clean_bind, clean_fetch, runerrTail, clean_writeIconStatus, clean_queries]
  split
  · exact clean_jaSetStatusJob _ _ _
  · simp only [clean_andThen, hf, clean_jaSetStatusJob]

/-! ## Flows -/

/-- mirrors src/jalibs/jaflow.c:50-160 -/
def jaFlowSetStatus (startInnerJobId endInnerJobId : Id) : Prog Tables Ret := do
  match ← fetch (logs "JAFLOW200001") (·.job? endInnerJobId) with
  | none => jaSetEnderr logs startInnerJobId true
  | some j =>
    match flowCount j with
    | .keep => pure .succeed
    | .reject => do
      queries (logs (if j.status = .ended ∨ j.status = .runErr then "JAFLOW300001" else "JAFLOW200002"))
      jaSetEnderr logs startInnerJobId true
    | .count status endCount =>
      if j.jobType = .jobnet ∧ status = .ready then do
        match ← fetch (logs "JAFLOW200004") (·.iconJobnet? endInnerJobId) with
        | none => jaSetEnderr logs startInnerJobId true
        | some link =>
          andThen (update (resetJobs · link.linkInnerJobnetId)) <|
          andThen (update (setCount · endInnerJobId status endCount)) <|
          jaValueAfterBefore startInnerJobId endInnerJobId
      else
        andThen (update (setCount · endInnerJobId status endCount)) <|
        jaValueAfterBefore startInnerJobId endInnerJobId

@[simp] theorem clean_jaFlowSetStatus (i k : Id) (t : Tables) :
    (jaFlowSetStatus logs i k).clean t = JobArranger.jaFlowSetStatus t i k := by
  unfold jaFlowSetStatus JobArranger.jaFlowSetStatus
  simp only [clean_bind, clean_fetch]
  cases t.job? k with
  | none => exact clean_jaSetEnderr _ _ _ _
  | some j =>
    dsimp only
    cases flowCount j with
    | keep => rfl
    | reject => simp
    | count s n =>
      dsimp only
      split
      · simp only [clean_bind, clean_fetch]
        cases t.iconJobnet? k with
        | none => exact clean_jaSetEnderr _ _ _ _
        | some link => simp
      · simp

/-- The fetch loop of `ja_flow`. -/
def flowLoop (innerJobId : Id) (type : FlowType) : List Flow → Prog Tables Ret
  | [] => pure .succeed
  | f :: fs =>
    if flowSelected type f.flowType then
      andThen (jaFlowSetStatus logs innerJobId f.endInnerJobId) (flowLoop innerJobId type fs)
    else flowLoop innerJobId type fs

@[simp] theorem clean_flowLoop (i : Id) (type : FlowType) (fs : List Flow) (t : Tables) :
    (flowLoop logs i type fs).clean t = JobArranger.flowLoop i type fs t := by
  induction fs generalizing t with
  | nil => rfl
  | cons f fs ih =>
    rw [flowLoop, JobArranger.flowLoop]
    split
    · rw [clean_andThen, clean_jaFlowSetStatus]
      simp only [ih]
    · exact ih t

/-- mirrors src/jalibs/jaflow.c:175-236 -/
def jaFlow (innerJobId : Id) (type : FlowType) (msgFlag : Bool) : Prog Tables Ret :=
  andThen (jaCleanValueAfter innerJobId) do
    match ((← select).map (flowsFrom · innerJobId)).getD [] with
    | [] => do
      queries (logs "JAFLOW200003")
      jaSetEnderr logs innerJobId true
    | f :: fs => do
      match (← select).bind (jaGetStatusJobnet · f.innerJobnetId) with
      | some .run | some .runErr =>
        andThen (flowLoop logs innerJobId type (f :: fs)) (jaSetEnd logs innerJobId msgFlag)
      | _ => do
        queries (logs "JAFLOW200005")
        jaSetRunerrWith logs (pure .fail) innerJobId (-99)

@[simp] theorem clean_jaFlow (i : Id) (type : FlowType) (msgFlag : Bool) (t : Tables) :
    (jaFlow logs i type msgFlag).clean t = JobArranger.jaFlow t i type msgFlag := by
  unfold jaFlow JobArranger.jaFlow
  rw [clean_andThen, clean_jaCleanValueAfter]
  congr 1
  funext t₁
  simp only [clean_bind, clean_select, Option.map_some, Option.getD_some]
  cases flowsFrom t₁ i with
  | nil => simp
  | cons f fs =>
    simp only [clean_bind, clean_select, Option.bind_some]
    split
    · rename_i hs
      simp [hs]
    · rename_i hs
      simp [hs]
    · simp only [clean_bind, clean_queries]
      exact clean_jaSetRunerrWith logs (fun _ => rfl) i (-99) t₁

/-- mirrors src/jalibs/jastatus.c:581-673 -/
def jaSetRunerr (innerJobId : Id) (iconStatus : Int) : Prog Tables Ret :=
  jaSetRunerrWith logs (jaFlow logs innerJobId .normal false) innerJobId iconStatus

@[simp] theorem clean_jaSetRunerr (i : Id) (st : Int) (t : Tables) :
    (jaSetRunerr logs i st).clean t = JobArranger.jaSetRunerr t i st :=
  clean_jaSetRunerrWith logs (clean_jaFlow logs i .normal false) i st t

end

end JobArranger.Stmt
