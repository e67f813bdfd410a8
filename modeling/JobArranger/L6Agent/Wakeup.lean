import JobArranger.Core.LTS
import JobArranger.Core.Table
import JobArranger.L6Agent.Send

/-!
# The agent's request flag

The listener process stores an accepted job as a BEGIN row of the SQLite
table `jobs` and leaves a flag file for the executive process; the
executive removes the flag, adds the BEGIN rows to its private list and
then works through the list, entry by entry, over and over. Each step of
either process is a label here; the transaction of `ja_jobdb_insert`
(`BEGIN IMMEDIATE`) keeps other writers out from its first statement to
its commit and shows its rows to nobody before.

The scan adds no row whose jobid is in the list already. An entry that was
closed after `CONFIG_SEND_RETRY` failed sends stays in the list until the
next pass frees it, after the scan; a job restarted with its jobid in the
meantime is skipped by that scan, and the flag is gone
(`restart_lost`). The law holds in the runs where no scan meets a BEGIN
row with a stale entry, and no SQLite statement the law rests on fails
(`Fresh`).

* `mem_jaJobdbReplace`, `jaJobdbInsert_spec`, `mem_jaJobObjectListAdd`: what
  the table operations and the scan do.
* `WakeInv`: a BEGIN row is in the list, flagged, or some process is about
  to see to it.
* `accepted_picked_up`: the law.
-/
namespace JobArranger.Agent

open Table

/-- Row of the SQLite table `jobs`. -/
structure JobRow where
  jobid : Id
  method : AgentMethod
  request : Text
  result : Bool
  status : AgentStatus
  deriving DecidableEq, Repr

/-- The columns `ja_jobdb_replace` writes; `send_retry` is not stored. -/
def JobObject.row (job : JobObject) : JobRow :=
  { jobid := job.jobid, method := job.method, request := job.request, result := job.result
    status := job.status }

/-- mirrors src/jobarg_agent/jajobdb.c:177-229 -/
def jaJobdbLoad (r : JobRow) : JobObject :=
  { jobid := r.jobid, method := r.method, request := r.request, result := r.result, status := r.status
    sendRetry := 0 }

/-- `delete from jobs where jobid = …` -/
def deleteRow (rows : List JobRow) (jobid : Id) : List JobRow := rows.filter (·.jobid != jobid)

/-- `replace into jobs`. mirrors src/jobarg_agent/jajobdb.c:366-416 -/
def jaJobdbReplace (rows : List JobRow) (job : JobObject) : List JobRow :=
  deleteRow rows job.jobid ++ [job.row]

/-- mirrors src/jobarg_agent/jajobdb.c:286-311 -/
def jaJobdbGetStatus (rows : List JobRow) (jobid : Id) : AgentStatus :=
  ((lookup JobRow.jobid jobid rows).map JobRow.status).getD .init

/-- `none` is FAIL with a rollback. mirrors src/jobarg_agent/jajobdb.c:431-495 -/
def jaJobdbInsert (rows : List JobRow) (job : JobObject) : Option (List JobRow) :=
  if job.jobid = 0 then none
  else match jaJobdbGetStatus rows job.jobid with
    | .closed => some (jaJobdbReplace (deleteRow rows job.jobid) job)
    | .init => some (jaJobdbReplace rows job)
    | _ => none

/-- `updated` is whether SQLite does it. mirrors src/jobarg_agent/jajobdb.c:510-543 -/
def jaJobdbUpdate (rows : List JobRow) (job : JobObject) (updated : Bool) : List JobRow :=
  if updated then jaJobdbReplace rows job else rows

/-! ## The executive's list -/

/-- mirrors src/jobarg_agent/jajobobjectlist.c:51-82 -/
def jaJobObjectListNew (rows : List JobRow) : List JobObject :=
  (rows.filter (·.status != .closed)).map jaJobdbLoad

/-- One row of the scan: added at the end unless its jobid is in the list. -/
def listAddRow (jobs : List JobObject) (r : JobRow) : List JobObject :=
  if jobs.any (·.jobid == r.jobid) then jobs else jobs ++ [jaJobdbLoad r]

/-- mirrors src/jobarg_agent/jajobobjectlist.c:128-168 -/
def jaJobObjectListAdd (rows : List JobRow) (jobs : List JobObject) : List JobObject :=
  (rows.filter (·.status == .begin)).foldl listAddRow jobs

/-- What `ja_agent_end` finds out about a running job. -/
inductive EndCheck where
  | notYet
  | failed
  | ended (loaded : Ret)
  deriving DecidableEq, Repr

/-- What the world does while one entry is processed: the result of the
start, of the end check, the exchange with the server, and whether
`ja_jobdb_update` succeeds. -/
structure Outcome where
  started : Ret
  check : EndCheck
  exchange : Exchange
  updated : Bool
  deriving DecidableEq, Repr

/-- mirrors src/jobarg_agent/jaagent.c:316-630 -/
def jaAgentRun (rows : List JobRow) (job : JobObject) (o : Outcome) : List JobRow × JobObject × Ret :=
  let job := match o.started with
    | .fail => { job with result := false, status := .ended }
    | .succeed => { job with status := .run }
  (jaJobdbUpdate rows job o.updated, job, o.started)

/-- The update at the end of `ja_agent_end`. -/
def endUpdate (rows : List JobRow) (job : JobObject) (ret : Ret) (updated : Bool) :
    List JobRow × JobObject × Ret :=
  if updated then (jaJobdbReplace rows job, job, ret) else (rows, { job with status := .run }, ret)

/-- mirrors src/jobarg_agent/jaagent.c:645-695 -/
def jaAgentEnd (rows : List JobRow) (job : JobObject) (o : Outcome) : List JobRow × JobObject × Ret :=
  match o.check with
  | .notYet => (rows, job, .fail)
  | .failed =>
    -- the forked child may have stored the end itself
    let stored := (lookup JobRow.jobid job.jobid rows).filter (·.status == .ended)
    let job := match stored with
      | some r => jaJobdbLoad r
      | none => { job with status := .ended }
    endUpdate rows { job with result := false } .fail o.updated
  | .ended .fail => endUpdate rows { job with status := .ended, result := false } .fail o.updated
  | .ended .succeed => endUpdate rows { job with status := .ended } .succeed o.updated

section
variable (parse : Text → Option Json) (sendRetry : Nat)

/-- One turn of the `while` loop: the rows, the entry (`none` when it is
freed), and whether the loop stays at it (`continue`).
mirrors src/jobarg_agent/jajobobjectlist.c:203-247 -/
def processEntry (rows : List JobRow) (job : JobObject) (o : Outcome) :
    List JobRow × Option JobObject × Bool :=
  match job.status with
  | .begin =>
    let (rows, job, ret) := jaAgentRun rows job o
    (rows, some job, ret == .succeed)
  | .run =>
    let (rows, job, ret) := jaAgentEnd rows job o
    (rows, some job, ret == .succeed)
  | .ended =>
    let c := jaAgentClose parse sendRetry job o.exchange
    (if c.updated then jaJobdbUpdate rows c.job o.updated else rows, some c.job, c.ret == .succeed)
  | .closed => (rows, none, false)
  | .init => (rows, some job, false)

/-! ## The two processes -/

/-- Where the listener is in `ja_agent_begin`. -/
inductive ListenerPc where
  | idle
  | begun (job : JobObject)
  | stored (job : JobObject) (rows : List JobRow)
  | inserted (job : JobObject)
  | absent (job : JobObject)
  | createFailed (job : JobObject)
  | closing (job : JobObject)
  deriving DecidableEq, Repr

/-- Where the executive is. -/
inductive ExecutivePc where
  | starting | top | tested | removed | walking
  deriving DecidableEq, Repr

/-- `seen ++ rest` is the executive's list; `rest` starts at the entry the
`while` loop is at. -/
structure AgentState where
  rows : List JobRow
  flag : Bool
  listener : ListenerPc
  executive : ExecutivePc
  seen : List JobObject
  rest : List JobObject
  deriving DecidableEq, Repr

def AgentState.jobs (s : AgentState) : List JobObject := s.seen ++ s.rest

/-- The listener's transaction holds the write lock. -/
def ListenerPc.locks : ListenerPc → Bool
  | .begun _ => true
  | .stored _ _ => true
  | _ => false

/-- The flags say whether the step's system call succeeds; a failed
`ja_file_create` may leave the file behind (`file`). -/
inductive AgentLabel where
  | request (job : JobObject)
  | insert (stored : Bool)
  | commit
  | testFlag
  | createFlag (created file : Bool)
  | readStatus
  | closeRow (updated deleted : Bool)
  | listNew (selected : Bool)
  | testRequest
  | removeFlag (removed : Bool)
  | scan (selected : Bool)
  | entry (o : Outcome)
  | passEnd
  | childEnd (job : JobObject)
  deriving DecidableEq, Repr

/-- mirrors src/jobarg_agent/jaagent.c:212-301 (the listener) and
src/jobarg_agent/jajobobjectlist.c:183-250 (the executive). `childEnd` is
the failing child of `ja_agent_run` (jaagent.c:577-612). -/
def agentStep (s : AgentState) : AgentLabel → Option AgentState
  | .request job =>
    match s.listener with
    | .idle =>
      if job.method = .kill then none else some { s with listener := .begun { job with status := .begin } }
    | _ => none
  | .insert stored =>
    match s.listener with
    | .begun job =>
      match jaJobdbInsert s.rows job, stored with
      | some rows, true => some { s with listener := .stored job rows }
      | _, _ => some { s with listener := .idle }
    | _ => none
  | .commit =>
    match s.listener with
    | .stored job rows => some { s with rows, listener := .inserted job }
    | _ => none
  | .testFlag =>
    match s.listener with
    | .inserted job => some { s with listener := if s.flag then .idle else .absent job }
    | _ => none
  | .createFlag created file =>
    match s.listener with
    | .absent job =>
      if created then some { s with flag := true, listener := .idle }
      else some { s with flag := s.flag || file, listener := .createFailed job }
    | _ => none
  | .readStatus =>
    match s.listener with
    | .createFailed job =>
      some { s with
        listener := if jaJobdbGetStatus s.rows job.jobid = .begin then .closing job else .idle }
    | _ => none
  | .closeRow updated deleted =>
    match s.listener with
    | .closing job =>
      let rows := jaJobdbUpdate s.rows { job with status := .closed } updated
      some { s with rows := if !updated && deleted then deleteRow rows job.jobid else rows, listener := .idle }
    | _ => none
  | .listNew selected =>
    match s.executive with
    | .starting => some { s with seen := if selected then jaJobObjectListNew s.rows else [], executive := .top }
    | _ => none
  | .testRequest =>
    match s.executive with
    | .top =>
      if s.flag then some { s with executive := .tested }
      else some { s with executive := .walking, seen := [], rest := s.seen ++ s.rest }
    | _ => none
  | .removeFlag removed =>
    match s.executive with
    | .tested => some { s with flag := s.flag && !removed, executive := .removed }
    | _ => none
  | .scan selected =>
    match s.executive with
    | .removed =>
      some { s with
        executive := .walking, seen := []
        rest := if selected then jaJobObjectListAdd s.rows (s.seen ++ s.rest) else s.seen ++ s.rest }
    | _ => none
  | .entry o =>
    match s.executive, s.rest with
    | .walking, job :: rest =>
      match processEntry parse sendRetry s.rows job o with
      | (rows, job', again) =>
        -- a write waits for the listener's transaction
        if s.listener.locks ∧ rows ≠ s.rows then none
        else match job', again with
          | some job', true => some { s with rows, rest := job' :: rest }
          | some job', false => some { s with rows, seen := s.seen ++ [job'], rest }
          | none, _ => some { s with rows, rest }
    | _, _ => none
  | .passEnd =>
    match s.executive, s.rest with
    | .walking, [] => some { s with executive := .top }
    | _, _ => none
  | .childEnd job =>
    if s.listener.locks then none
    else some { s with rows := jaJobdbReplace s.rows { job with result := false, status := .ended } }

/-- The agent has just started: any table, no list yet. -/
def agentSystem : LTS AgentState AgentLabel :=
  .ofFn (fun s => (s.rows.map JobRow.jobid).Nodup ∧ s.listener = .idle ∧ s.executive = .starting ∧
    s.seen = [] ∧ s.rest = []) (agentStep parse sendRetry)

end

/-! ## The law -/

/-- The listener is about to test, create or clean up for this jobid. -/
def ListenerPc.awaits : ListenerPc → Id → Prop
  | .inserted job, id => job.jobid = id
  | .absent job, id => job.jobid = id
  | .createFailed job, id => job.jobid = id
  | .closing job, id => job.jobid = id
  | _, _ => False

/-- No process is in the middle of a step: the listener is outside
`ja_agent_begin`, the executive not between the test of the flag and the
end of `ja_job_object_list_add`. -/
def Quiescent (s : AgentState) : Prop :=
  s.listener = .idle ∧ (s.executive = .top ∨ s.executive = .walking)

/-- Every BEGIN row has its own entry in the list, or the flag is there. -/
def PickedUp (s : AgentState) : Prop :=
  ∀ r ∈ s.rows, r.status = .begin → jaJobdbLoad r ∈ s.jobs ∨ s.flag = true

/-- At a scan no BEGIN row has a stale entry in the list; the selects of
the executive, the update of `ja_agent_run` and one of the listener's two
ways to withdraw a job succeed. -/
def Fresh (s : AgentState) : AgentLabel → Prop
  | .listNew selected => selected = true
  | .scan selected => selected = true ∧
    ∀ r ∈ s.rows, r.status = .begin → ∀ e ∈ s.jobs, e.jobid = r.jobid → e = jaJobdbLoad r
  | .entry o =>
    match s.rest with
    | job :: _ => job.status = .begin → o.updated = true
    | [] => True
  | .closeRow updated deleted => updated = true ∨ deleted = true
  | _ => True

def Covered (s : AgentState) (r : JobRow) : Prop :=
  jaJobdbLoad r ∈ s.jobs ∨ s.flag = true ∨ s.listener.awaits r.jobid ∨ s.executive = .starting ∨
    s.executive = .removed

structure WakeInv (s : AgentState) : Prop where
  keys : (s.rows.map JobRow.jobid).Nodup
  stored : ∀ job rows, s.listener = .stored job rows → jaJobdbInsert s.rows job = some rows
  covered : ∀ r ∈ s.rows, r.status = .begin → Covered s r

/-! ### The table operations -/

theorem mem_deleteRow {rows : List JobRow} {id : Id} {r : JobRow} :
    r ∈ deleteRow rows id ↔ r ∈ rows ∧ r.jobid ≠ id := by
  simp [deleteRow]

theorem mem_jaJobdbReplace {rows : List JobRow} {job : JobObject} {r : JobRow} :
    r ∈ jaJobdbReplace rows job ↔ (r ∈ rows ∧ r.jobid ≠ job.jobid) ∨ r = job.row := by
  simp [jaJobdbReplace, mem_deleteRow]

theorem deleteRow_keys {rows : List JobRow} (h : (rows.map JobRow.jobid).Nodup) (id : Id) :
    ((deleteRow rows id).map JobRow.jobid).Nodup :=
  h.sublist (List.filter_sublist.map _)

theorem jaJobdbReplace_keys {rows : List JobRow} (h : (rows.map JobRow.jobid).Nodup) (job : JobObject) :
    ((jaJobdbReplace rows job).map JobRow.jobid).Nodup := by
  rw [jaJobdbReplace, List.map_append, List.nodup_append]
  refine ⟨deleteRow_keys h _, by simp, ?_⟩
  intro a ha b hb
  obtain ⟨r, hr, rfl⟩ := List.mem_map.1 ha
  simp only [List.map_cons, List.map_nil, List.mem_singleton] at hb
  rw [hb]
  exact (mem_deleteRow.1 hr).2

theorem jaJobdbUpdate_keys {rows : List JobRow} (h : (rows.map JobRow.jobid).Nodup) (job : JobObject)
    (updated : Bool) : ((jaJobdbUpdate rows job updated).map JobRow.jobid).Nodup := by
  unfold jaJobdbUpdate
  split
  · exact jaJobdbReplace_keys h job
  · exact h

theorem mem_jaJobdbUpdate {rows : List JobRow} {job : JobObject} {updated : Bool} {r : JobRow}
    (hj : job.status ≠ .begin) (hr : r ∈ jaJobdbUpdate rows job updated) (hb : r.status = .begin) :
    r ∈ rows ∧ (updated = true → r.jobid ≠ job.jobid) := by
  unfold jaJobdbUpdate at hr
  split at hr
  · rcases mem_jaJobdbReplace.1 hr with ⟨hm, hne⟩ | rfl
    · exact ⟨hm, fun _ => hne⟩
    · exact absurd hb hj
  · rename_i hu
    exact ⟨hr, fun h => absurd h hu⟩

/-- An insert replaces whatever the jobid had. -/
theorem jaJobdbInsert_spec {rows rows' : List JobRow} {job : JobObject}
    (h : jaJobdbInsert rows job = some rows') (hk : (rows.map JobRow.jobid).Nodup) :
    (rows'.map JobRow.jobid).Nodup ∧
    ∀ r ∈ rows', (r ∈ rows ∧ r.jobid ≠ job.jobid) ∨ r.jobid = job.jobid := by
  have hmem : ∀ rows₁ : List JobRow, (∀ r ∈ rows₁, r ∈ rows) → ∀ r ∈ jaJobdbReplace rows₁ job,
      (r ∈ rows ∧ r.jobid ≠ job.jobid) ∨ r.jobid = job.jobid := by
    intro rows₁ hsub r hr
    rcases mem_jaJobdbReplace.1 hr with ⟨hm, hne⟩ | rfl
    · exact .inl ⟨hsub r hm, hne⟩
    · exact .inr rfl
  unfold jaJobdbInsert at h
  split at h
  · cases h
  split at h
  · cases h
    exact ⟨jaJobdbReplace_keys (deleteRow_keys hk _) job, hmem _ fun r hr => (mem_deleteRow.1 hr).1⟩
  · cases h
    exact ⟨jaJobdbReplace_keys hk job, hmem _ fun r hr => hr⟩
  · cases h

theorem jaJobdbGetStatus_eq {rows : List JobRow} (hk : (rows.map JobRow.jobid).Nodup) {r : JobRow}
    (hr : r ∈ rows) : jaJobdbGetStatus rows r.jobid = r.status := by
  rw [jaJobdbGetStatus, lookup_eq hk hr]
  rfl

/-! ### The scan -/

theorem listAddRow_sublist (jobs : List JobObject) (r : JobRow) : ∀ e ∈ jobs, e ∈ listAddRow jobs r := by
  intro e he
  unfold listAddRow
  split
  · exact he
  · exact List.mem_append_left _ he

theorem foldl_listAddRow_sublist (rows : List JobRow) (jobs : List JobObject) :
    ∀ e ∈ jobs, e ∈ rows.foldl listAddRow jobs := by
  induction rows generalizing jobs with
  | nil => exact fun _ he => he
  | cons r rows ih => exact fun e he => ih _ e (listAddRow_sublist jobs r e he)

/-- A scanned row without a stale entry is in the list afterwards. -/
theorem mem_foldl_listAddRow {rows : List JobRow} (hk : (rows.map JobRow.jobid).Nodup) {r : JobRow}
    (hr : r ∈ rows) (jobs : List JobObject) (hstale : ∀ e ∈ jobs, e.jobid = r.jobid → e = jaJobdbLoad r) :
    jaJobdbLoad r ∈ rows.foldl listAddRow jobs := by
  induction rows generalizing jobs with
  | nil => cases hr
  | cons a rows ih =>
    simp only [List.map_cons, List.nodup_cons] at hk
    rcases List.mem_cons.1 hr with rfl | hr'
    · refine foldl_listAddRow_sublist rows (listAddRow jobs r) _ ?_
      unfold listAddRow
      split
      · rename_i hany
        obtain ⟨e, he, hid⟩ := List.any_eq_true.1 hany
        rw [← hstale e he (by simpa using hid)]
        exact he
      · simp
    · apply ih hk.2 hr'
      intro e he hid
      unfold listAddRow at he
      split at he
      · exact hstale e he hid
      · rcases List.mem_append.1 he with he | he
        · exact hstale e he hid
        · -- the row just added has another jobid
          have hae : e = jaJobdbLoad a := by simpa using he
          have hmem := List.mem_map_of_mem (f := JobRow.jobid) hr'
          rw [← hid, hae] at hmem
          exact absurd hmem hk.1

theorem mem_jaJobObjectListAdd {rows : List JobRow} (hk : (rows.map JobRow.jobid).Nodup) {r : JobRow}
    (hr : r ∈ rows) (hb : r.status = .begin) (jobs : List JobObject)
    (hstale : ∀ e ∈ jobs, e.jobid = r.jobid → e = jaJobdbLoad r) :
    jaJobdbLoad r ∈ jaJobObjectListAdd rows jobs := by
  apply mem_foldl_listAddRow
  · exact hk.sublist (List.filter_sublist.map _)
  · simp [hr, hb]
  · exact hstale

/-! ### One entry of the list -/

section
variable {parse : Text → Option Json} {sendRetry : Nat}

/-- What processing an entry does to the rows: no BEGIN row appears, and an
entry in BEGIN whose update succeeds leaves none of its jobid. -/
structure EntryRows (rows : List JobRow) (job : JobObject) (o : Outcome) (rows' : List JobRow) : Prop where
  keys : (rows.map JobRow.jobid).Nodup → (rows'.map JobRow.jobid).Nodup
  old : ∀ r ∈ rows', r.status = .begin → r ∈ rows
  gone : job.status = .begin → o.updated = true → ∀ r ∈ rows', r.status = .begin → r.jobid ≠ job.jobid

theorem EntryRows.same {rows : List JobRow} {job : JobObject} (o : Outcome) (hj : job.status ≠ .begin) :
    EntryRows rows job o rows :=
  ⟨id, fun _ hr _ => hr, fun h => absurd h hj⟩

theorem EntryRows.update {rows : List JobRow} {job job' : JobObject} (o : Outcome)
    (hj : job'.status ≠ .begin) (hid : job.status = .begin → job'.jobid = job.jobid) :
    EntryRows rows job o (jaJobdbUpdate rows job' o.updated) := by
  refine ⟨fun h => jaJobdbUpdate_keys h job' _, fun r hr hb => (mem_jaJobdbUpdate hj hr hb).1, ?_⟩
  intro hbegin hu r hr hb
  rw [← hid hbegin]
  exact (mem_jaJobdbUpdate hj hr hb).2 hu

theorem endUpdate_rows {rows : List JobRow} {job job' : JobObject} (ret : Ret) (o : Outcome)
    (hj : job.status ≠ .begin) (hj' : job'.status = .ended) :
    EntryRows rows job o (endUpdate rows job' ret o.updated).1 := by
  have h : EntryRows rows job o (jaJobdbUpdate rows job' o.updated) :=
    .update o (by simp [hj']) fun h => absurd h hj
  unfold endUpdate
  unfold jaJobdbUpdate at h
  split
  · rename_i hu
    rwa [if_pos hu] at h
  · exact .same o hj

theorem jaAgentEnd_rows (rows : List JobRow) {job : JobObject} (o : Outcome) (hj : job.status ≠ .begin) :
    EntryRows rows job o (jaAgentEnd rows job o).1 := by
  unfold jaAgentEnd
  split
  · exact .same o hj
  · apply endUpdate_rows _ _ hj
    simp only
    split
    · rename_i r hr
      obtain ⟨-, hst⟩ := Option.filter_eq_some_iff.1 hr
      simpa [jaJobdbLoad] using hst
    · rfl
  · exact endUpdate_rows _ _ hj rfl
  · exact endUpdate_rows _ _ hj rfl

theorem jaAgentClose_updated {job : JobObject} {x : Exchange}
    (h : (jaAgentClose parse sendRetry job x).updated = true) :
    (jaAgentClose parse sendRetry job x).job.status = .closed := by
  unfold jaAgentClose at h ⊢
  split
  · rename_i hs
    simp only [hs] at h ⊢
    split
    · rfl
    · rename_i hlt
      rw [if_neg hlt] at h
      cases h
  · rfl

theorem processEntry_rows (rows : List JobRow) (job : JobObject) (o : Outcome) :
    EntryRows rows job o (processEntry parse sendRetry rows job o).1 := by
  unfold processEntry
  split
  · apply EntryRows.update
    · split <;> simp
    · split <;> simp
  · rename_i hs
    exact jaAgentEnd_rows rows o (by simp [hs])
  · rename_i hs
    have hj : job.status ≠ .begin := by simp [hs]
    simp only
    split
    · rename_i hu
      apply EntryRows.update
      · simp [jaAgentClose_updated hu]
      · exact fun h => absurd h hj
    · exact .same o hj
  · rename_i hs
    exact .same o (by simp [hs])
  · rename_i hs
    exact .same o (by simp [hs])

end

/-! ### Steps of the listener -/

/-- A step that leaves the rows alone and uncovers none of them. -/
theorem WakeInv.keepRows {s s' : AgentState} (h : WakeInv s) (hrows : s'.rows = s.rows)
    (hst : ∀ job rows, s'.listener = .stored job rows → jaJobdbInsert s.rows job = some rows)
    (hcov : ∀ r ∈ s.rows, r.status = .begin → Covered s r → Covered s' r) : WakeInv s' := by
  refine ⟨?_, ?_, ?_⟩
  · rw [hrows]
    exact h.keys
  · rw [hrows]
    exact hst
  · rw [hrows]
    exact fun r hr hb => hcov r hr hb (h.covered r hr hb)

section
variable {parse : Text → Option Json} {sendRetry : Nat} {s s' : AgentState}

theorem WakeInv.request (h : WakeInv s) {job : JobObject}
    (hs : agentStep parse sendRetry s (.request job) = some s') : WakeInv s' := by
  simp only [agentStep] at hs
  split at hs
  · rename_i hl
    split at hs
    · cases hs
    cases hs
    refine h.keepRows rfl (by simp) fun r _ _ hc => ?_
    simpa [Covered, AgentState.jobs, hl, ListenerPc.awaits] using hc
  · cases hs

theorem WakeInv.insert (h : WakeInv s) {stored : Bool}
    (hs : agentStep parse sendRetry s (.insert stored) = some s') : WakeInv s' := by
  simp only [agentStep] at hs
  split at hs
  · rename_i job hl
    split at hs
    · rename_i rows hins
      cases hs
      refine h.keepRows rfl ?_ fun r _ _ hc => ?_
      · intro job' rows' he
        cases he
        exact hins
      · simpa [Covered, AgentState.jobs, hl, ListenerPc.awaits] using hc
    · cases hs
      refine h.keepRows rfl (by simp) fun r _ _ hc => ?_
      simpa [Covered, AgentState.jobs, hl, ListenerPc.awaits] using hc
  · cases hs

theorem WakeInv.commit (h : WakeInv s)
    (hs : agentStep parse sendRetry s .commit = some s') : WakeInv s' := by
  simp only [agentStep] at hs
  split at hs
  · rename_i job rows hl
    cases hs
    obtain ⟨hk, hmem⟩ := jaJobdbInsert_spec (h.stored job rows hl) h.keys
    refine ⟨hk, by simp, ?_⟩
    intro r hr hb
    rcases hmem r hr with ⟨hold, -⟩ | hid
    · have hc := h.covered r hold hb
      simp only [Covered, hl, ListenerPc.awaits, false_or] at hc
      rcases hc with hc | hc | hc
      · exact .inl hc
      · exact .inr (.inl hc)
      · exact .inr (.inr (.inr hc))
    · exact .inr (.inr (.inl hid.symm))
  · cases hs

theorem WakeInv.testFlag (h : WakeInv s)
    (hs : agentStep parse sendRetry s .testFlag = some s') : WakeInv s' := by
  simp only [agentStep] at hs
  split at hs
  · rename_i job hl
    cases hs
    refine h.keepRows rfl ?_ fun r _ _ hc => ?_
    · intro job' rows he
      simp only at he
      split at he <;> cases he
    · by_cases hf : s.flag = true
      · exact .inr (.inl hf)
      · simpa [Covered, AgentState.jobs, hl, hf, ListenerPc.awaits] using hc
  · cases hs

theorem WakeInv.createFlag (h : WakeInv s) {created file : Bool}
    (hs : agentStep parse sendRetry s (.createFlag created file) = some s') : WakeInv s' := by
  simp only [agentStep] at hs
  split at hs
  · rename_i job hl
    split at hs
    · cases hs
      exact h.keepRows rfl (by simp) fun r _ _ _ => .inr (.inl rfl)
    · cases hs
      refine h.keepRows rfl (by simp) fun r _ _ hc => ?_
      rcases hc with hc | hc | hc | hc
      · exact .inl hc
      · exact .inr (.inl (by simp [hc]))
      · exact .inr (.inr (.inl (by simpa [hl, ListenerPc.awaits] using hc)))
      · exact .inr (.inr (.inr hc))
  · cases hs

theorem WakeInv.readStatus (h : WakeInv s)
    (hs : agentStep parse sendRetry s .readStatus = some s') : WakeInv s' := by
  simp only [agentStep] at hs
  split at hs
  · rename_i job hl
    cases hs
    refine h.keepRows rfl ?_ fun r hr hb hc => ?_
    · intro job' rows he
      simp only at he
      split at he <;> cases he
    · rcases hc with hc | hc | hc | hc
      · exact .inl hc
      · exact .inr (.inl hc)
      · -- the row of this jobid is still in BEGIN, so the listener goes on to withdraw it
        simp only [hl, ListenerPc.awaits] at hc
        have hstat : jaJobdbGetStatus s.rows job.jobid = .begin := by
          rw [hc, jaJobdbGetStatus_eq h.keys hr, hb]
        refine .inr (.inr (.inl ?_))
        simp only [if_pos hstat]
        exact hc
      · exact .inr (.inr (.inr hc))
  · cases hs

theorem WakeInv.closeRow (h : WakeInv s) {updated deleted : Bool}
    (hs : agentStep parse sendRetry s (.closeRow updated deleted) = some s')
    (hc : updated = true ∨ deleted = true) : WakeInv s' := by
  simp only [agentStep] at hs
  split at hs
  · rename_i job hl
    cases hs
    have hkeys := jaJobdbUpdate_keys h.keys { job with status := .closed } updated
    have hrow : ∀ r ∈ (if (!updated && deleted) = true then
          deleteRow (jaJobdbUpdate s.rows { job with status := .closed } updated) job.jobid
        else jaJobdbUpdate s.rows { job with status := .closed } updated),
        r.status = .begin → r ∈ s.rows ∧ r.jobid ≠ job.jobid := by
      intro r hr hb
      split at hr
      · obtain ⟨hr, hne⟩ := mem_deleteRow.1 hr
        exact ⟨(mem_jaJobdbUpdate (by simp) hr hb).1, hne⟩
      · rename_i hnot
        have hu : updated = true := by
          cases updated
          · simpa using hnot (by simpa using hc)
          · rfl
        exact (mem_jaJobdbUpdate (by simp) hr hb).imp_right fun hne => hne hu
    refine ⟨?_, by simp, ?_⟩
    · simp only
      split
      · exact deleteRow_keys hkeys _
      · exact hkeys
    · intro r hr hb
      obtain ⟨hold, hne⟩ := hrow r hr hb
      have hcov := h.covered r hold hb
      simp only [Covered, hl, ListenerPc.awaits, Ne.symm hne, false_or] at hcov
      rcases hcov with hcov | hcov | hcov
      · exact .inl hcov
      · exact .inr (.inl hcov)
      · exact .inr (.inr (.inr hcov))
  · cases hs

end

/-! ### Steps of the executive -/

section
variable {parse : Text → Option Json} {sendRetry : Nat} {s s' : AgentState}

theorem WakeInv.listNew (h : WakeInv s) {selected : Bool}
    (hs : agentStep parse sendRetry s (.listNew selected) = some s') (hc : selected = true) :
    WakeInv s' := by
  simp only [agentStep] at hs
  split at hs
  · cases hs
    refine h.keepRows rfl h.stored fun r hr hb _ => .inl ?_
    apply List.mem_append_left
    simp only [hc, if_true, jaJobObjectListNew]
    exact List.mem_map_of_mem (by simp [hr, hb])
  · cases hs

theorem WakeInv.testRequest (h : WakeInv s)
    (hs : agentStep parse sendRetry s .testRequest = some s') : WakeInv s' := by
  simp only [agentStep] at hs
  split at hs
  · rename_i he
    split at hs
    · cases hs
      refine h.keepRows rfl h.stored fun r _ _ hc => ?_
      simpa [Covered, AgentState.jobs, he] using hc
    · cases hs
      refine h.keepRows rfl h.stored fun r _ _ hc => ?_
      simpa [Covered, AgentState.jobs, he] using hc
  · cases hs

theorem WakeInv.removeFlag (h : WakeInv s) {removed : Bool}
    (hs : agentStep parse sendRetry s (.removeFlag removed) = some s') : WakeInv s' := by
  simp only [agentStep] at hs
  split at hs
  · cases hs
    exact h.keepRows rfl h.stored fun r _ _ _ => .inr (.inr (.inr (.inr rfl)))
  · cases hs

theorem WakeInv.scan (h : WakeInv s) {selected : Bool}
    (hs : agentStep parse sendRetry s (.scan selected) = some s') (hc : Fresh s (.scan selected)) :
    WakeInv s' := by
  obtain ⟨hsel, hstale⟩ := hc
  simp only [agentStep] at hs
  split at hs
  · cases hs
    refine h.keepRows rfl h.stored fun r hr hb _ => .inl ?_
    show jaJobdbLoad r ∈ [] ++ _
    rw [List.nil_append, if_pos hsel]
    exact mem_jaJobObjectListAdd h.keys hr hb _ (hstale r hr hb)
  · cases hs

/-- The entry the loop is at may change or go; the other entries stay. -/
theorem WakeInv.entryTo (h : WakeInv s) {job : JobObject} {o : Outcome} {rows : List JobRow}
    {jobs : List JobObject} (hrows : EntryRows s.rows job o rows)
    (hu : job.status = .begin → o.updated = true)
    (hlock : s.listener.locks = true → rows = s.rows) (hr' : s'.rows = rows) (hf : s'.flag = s.flag)
    (hl : s'.listener = s.listener) (he : s'.executive = s.executive) (hjobs : s'.jobs = jobs)
    (hkeep : ∀ e ∈ s.jobs, e ≠ job → e ∈ jobs) : WakeInv s' := by
  refine ⟨?_, ?_, ?_⟩
  · rw [hr']
    exact hrows.keys h.keys
  · intro job' rows' hst
    rw [hl] at hst
    rw [hr', hlock (by rw [hst]; rfl)]
    exact h.stored job' rows' hst
  · intro r hr hb
    rw [hr'] at hr
    rcases h.covered r (hrows.old r hr hb) hb with hc | hc | hc | hc
    · refine .inl ?_
      rw [hjobs]
      apply hkeep _ hc
      intro hjob
      -- the row's own entry was started: its row is no longer in BEGIN
      have hbegin : job.status = .begin := by rw [← hjob, jaJobdbLoad, hb]
      exact hrows.gone hbegin (hu hbegin) r hr hb (by rw [← hjob, jaJobdbLoad])
    · exact .inr (.inl (hf ▸ hc))
    · exact .inr (.inr (.inl (hl ▸ hc)))
    · exact .inr (.inr (.inr (he ▸ hc)))

theorem WakeInv.entry (h : WakeInv s) {o : Outcome}
    (hs : agentStep parse sendRetry s (.entry o) = some s') (hc : Fresh s (.entry o)) : WakeInv s' := by
  simp only [agentStep] at hs
  split at hs
  · rename_i job rest _ hrest
    have hu : job.status = .begin → o.updated = true := by
      simpa only [Fresh, hrest] using hc
    have hrows : EntryRows s.rows job o (processEntry parse sendRetry s.rows job o).1 :=
      processEntry_rows s.rows job o
    generalize processEntry parse sendRetry s.rows job o = res at hs hrows
    obtain ⟨rows, job', again⟩ := res
    simp only at hs hrows
    split at hs
    · cases hs
    rename_i hnot
    have hlock : s.listener.locks = true → rows = s.rows := by
      intro hl
      by_contra hne
      exact hnot ⟨hl, hne⟩
    have hmem : ∀ e ∈ s.jobs, e ≠ job → e ∈ s.seen ∨ e ∈ rest := by
      intro e he hne
      rw [AgentState.jobs, hrest] at he
      rcases List.mem_append.1 he with he | he
      · exact .inl he
      · exact .inr ((List.mem_cons.1 he).resolve_left hne)
    split at hs
    · cases hs
      refine h.entryTo hrows hu hlock rfl rfl rfl rfl rfl fun e he hne => ?_
      rcases hmem e he hne with h' | h' <;> simp [AgentState.jobs, h']
    · cases hs
      refine h.entryTo hrows hu hlock rfl rfl rfl rfl rfl fun e he hne => ?_
      rcases hmem e he hne with h' | h' <;> simp [AgentState.jobs, h']
    · cases hs
      refine h.entryTo hrows hu hlock rfl rfl rfl rfl rfl fun e he hne => ?_
      rcases hmem e he hne with h' | h' <;> simp [AgentState.jobs, h']
  · cases hs

theorem WakeInv.passEnd (h : WakeInv s)
    (hs : agentStep parse sendRetry s .passEnd = some s') : WakeInv s' := by
  simp only [agentStep] at hs
  split at hs
  · rename_i he _
    cases hs
    refine h.keepRows rfl h.stored fun r _ _ hc => ?_
    simpa [Covered, AgentState.jobs, he] using hc
  · cases hs

theorem WakeInv.childEnd (h : WakeInv s) {job : JobObject}
    (hs : agentStep parse sendRetry s (.childEnd job) = some s') : WakeInv s' := by
  simp only [agentStep] at hs
  split at hs
  · cases hs
  · rename_i hl
    cases hs
    refine ⟨jaJobdbReplace_keys h.keys _, ?_, ?_⟩
    · intro job' rows hst
      exact absurd (by simp only at hst; rw [hst]; rfl) hl
    · intro r hr hb
      rcases mem_jaJobdbReplace.1 hr with ⟨hold, -⟩ | rfl
      · exact h.covered r hold hb
      · cases hb

theorem WakeInv.step (h : WakeInv s) {l : AgentLabel} (hs : agentStep parse sendRetry s l = some s')
    (hc : Fresh s l) : WakeInv s' := by
  cases l with
  | request job => exact h.request hs
  | insert stored => exact h.insert hs
  | commit => exact h.commit hs
  | testFlag => exact h.testFlag hs
  | createFlag created file => exact h.createFlag hs
  | readStatus => exact h.readStatus hs
  | closeRow updated deleted => exact h.closeRow hs hc
  | listNew selected => exact h.listNew hs hc
  | testRequest => exact h.testRequest hs
  | removeFlag removed => exact h.removeFlag hs
  | scan selected => exact h.scan hs hc
  | entry o => exact h.entry hs hc
  | passEnd => exact h.passEnd hs
  | childEnd job => exact h.childEnd hs

theorem WakeInv.pickedUp (h : WakeInv s) (hq : Quiescent s) : PickedUp s := by
  obtain ⟨hl, he⟩ := hq
  intro r hr hb
  have hc := h.covered r hr hb
  simp only [Covered, hl, ListenerPc.awaits, false_or] at hc
  rcases he with he | he
  · simpa [he] using hc
  · simpa [he] using hc

end

theorem wakeInv_inductive (parse : Text → Option Json) (sendRetry : Nat) :
    ((agentSystem parse sendRetry).restrict Fresh).Inductive WakeInv where
  init s hs := by
    obtain ⟨hk, hl, he, -, -⟩ := hs
    refine ⟨hk, by simp [hl], fun r _ _ => ?_⟩
    exact .inr (.inr (.inr (.inl he)))
  step _ _ _ h hs := h.step hs.1 hs.2

/-- **The agent never loses an accepted job** in the runs whose scans meet
no stale entry. -/
theorem accepted_picked_up (parse : Text → Option Json) (sendRetry : Nat) (s : AgentState)
    (hr : ((agentSystem parse sendRetry).restrict Fresh).Reachable s) (hq : Quiescent s) : PickedUp s :=
  ((wakeInv_inductive parse sendRetry).reachable s hr).pickedUp hq

instance (s : AgentState) (l : AgentLabel) : Decidable (Fresh s l) :=
  match l with
  | .listNew selected => inferInstanceAs (Decidable (selected = true))
  | .scan selected => inferInstanceAs (Decidable (selected = true ∧ ∀ r ∈ s.rows, r.status = .begin →
      ∀ e ∈ s.jobs, e.jobid = r.jobid → e = jaJobdbLoad r))
  | .entry o =>
    match h : s.rest with
    | job :: _ => decidable_of_iff (job.status = .begin → o.updated = true) (by simp [Fresh, h])
    | [] => .isTrue (by simp [Fresh, h])
  | .closeRow updated deleted => inferInstanceAs (Decidable (updated = true ∨ deleted = true))
  | .request _ | .insert _ | .commit | .testFlag | .createFlag _ _ | .readStatus | .testRequest
  | .removeFlag _ | .passEnd | .childEnd _ => .isTrue trivial

/-- A new agent, and one job accepted from the server. -/
def newAgent : AgentState :=
  { rows := [], flag := false, listener := .idle, executive := .starting, seen := [], rest := [] }

theorem newAgent_init (parse : Text → Option Json) (sendRetry : Nat) :
    (agentSystem parse sendRetry).init newAgent :=
  ⟨List.nodup_nil, rfl, rfl, rfl, rfl⟩

def oneJob : JobObject :=
  { jobid := 1, method := .normal, request := [], result := true, status := .init, sendRetry := 0 }

/-- `ja_agent_begin` without a failure. -/
def accept (job : JobObject) : List AgentLabel :=
  [.request job, .insert true, .commit, .testFlag, .createFlag true true]

/-- Every call of one turn: the job starts, ends at once, and the server does
not answer. -/
def unanswered : Outcome :=
  { started := .succeed, check := .ended .succeed, exchange := .recvFails, updated := true }

/-- A pass up to the end of the scan. -/
def pickUp : List AgentLabel := [.testRequest, .removeFlag true, .scan true]

/-- Job 1 after its acceptance and the scan of the next pass. -/
theorem accepted_picked_up_oneJob :
    ∃ s, ((agentSystem (fun _ => none) 1).restrict Fresh).Reachable s ∧ Quiescent s ∧
      (∃ r ∈ s.rows, r.status = .begin) ∧ PickedUp s := by
  have hexec : ((.listNew true :: (accept oneJob ++ pickUp)).foldlM
      (fun s l => if Fresh s l then agentStep (fun _ => none) 1 s l else none) newAgent).any
      (fun s => s.listener = .idle ∧ s.executive = .walking ∧ s.rows.any fun r => r.status = .begin) = true := by
    decide +kernel
  obtain ⟨s, hs, hp⟩ := (Option.any_eq_true _ _).1 hexec
  simp only [decide_eq_true_eq, List.any_eq_true] at hp
  obtain ⟨hl, he, hb⟩ := hp
  have hreach : ((agentSystem (fun _ => none) 1).restrict Fresh).Reachable s :=
    ⟨newAgent, _, newAgent_init (fun _ => none) 1, LTS.Run.of_foldlM_restrict (fun _ _ _ h => h) hs⟩
  exact ⟨s, hreach, ⟨hl, .inr he⟩, hb, accepted_picked_up _ _ s hreach ⟨hl, .inr he⟩⟩

/-- Job 1 is accepted, runs, and its result cannot be delivered; its entry is
closed and stays. It is restarted, the next pass takes the flag away, skips
its row and frees the old entry. -/
def restartLabels : List AgentLabel :=
  .listNew true :: (accept oneJob ++ pickUp ++ [.entry unanswered, .entry unanswered, .entry unanswered, .passEnd]
    ++ accept oneJob ++ pickUp ++ [.entry unanswered, .passEnd])

/-- The restarted job is in BEGIN, with no entry and no flag. -/
theorem restart_lost :
    ∃ s, (agentSystem (fun _ => none) 1).Reachable s ∧ Quiescent s ∧ ¬ PickedUp s := by
  have hexec : (restartLabels.foldlM (agentStep (fun _ => none) 1) newAgent).any
      (fun s => s.listener = .idle ∧ s.executive = .top ∧ s.jobs = [] ∧ s.flag = false ∧
        s.rows.any fun r => r.status = .begin) = true := by
    decide +kernel
  obtain ⟨s, hs, hp⟩ := (Option.any_eq_true _ _).1 hexec
  simp only [decide_eq_true_eq, List.any_eq_true] at hp
  obtain ⟨hl, he, hjobs, hflag, r, hr, hb⟩ := hp
  refine ⟨s, ⟨newAgent, _, newAgent_init (fun _ => none) 1, LTS.Run.of_foldlM (fun _ _ _ h => h) hs⟩, ⟨hl, .inl he⟩, ?_⟩
  intro hpick
  have hcov := hpick r hr hb
  simp [hjobs, hflag] at hcov

end JobArranger.Agent
