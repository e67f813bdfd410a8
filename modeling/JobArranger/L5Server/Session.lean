import JobArranger.L2Status.Statements
import JobArranger.L5Server.Start

/-!
# The sessions of agentless icons

An agentless icon runs its command over an SSH session that a program of
its own holds, `jobarg_session`, one for each `(session_id,
inner_jobnet_main_id)`. The two talk through one row of `ja_session_table`:
`jarun_icon_less` writes it in status BEGIN for an icon it has set to RUN,
the program handles the row of its session and sets it to END, or deletes
it and exits. An icon that opens a session (ONETIME, CONNECT) is turned down
while the row exists, one that uses it (CONTINUE, CLOSE) while there is none.

`jarun_icon_less` commits the row before it calls `system()`, and reports a
failure of it with `ja_set_runerr` in the next transaction.

* `SessionInv`: one party is in charge of the row: the starter, until
  `system()` has returned, or one process.
* `session_released`: no row outlives the icon that has ended, and a row in
  BEGIN has an icon in RUN and somebody to handle it, in the runs without a
  failure between the registration and the hand-over.
* `session_left`: `system()` fails.

The key columns are fixed: `Db` is the run tables with the row of one
session of one instance, which the primary key makes unique.
-/
namespace JobArranger.Agentless

open Tables Prog

/-- `JA_SESSION_FLAG_*` (jacommon.h:186-189). -/
inductive SessionFlag where
  | onetime | connect | «continue» | close
  | other
  deriving DecidableEq, Repr

/-- `JA_SES_OPERATION_FLAG_*` (jacommon.h:207-210). -/
inductive OperationFlag where
  | onetime | connect | «continue» | close
  deriving DecidableEq, Repr

/-- `JA_SES_STATUS_*` (jacommon.h:213-214). -/
inductive SesStatus where
  | begin | ended
  deriving DecidableEq, Repr

/-- The row of the session in `ja_session_table`. -/
structure SessionRow where
  innerJobId : Id
  operationFlag : OperationFlag
  status : SesStatus
  deriving DecidableEq, Repr

/-- A row of `ja_run_icon_agentless_table` with this `session_id`. -/
structure IconLess where
  innerJobnetId : Id
  sessionFlag : SessionFlag
  deriving DecidableEq, Repr

abbrev Db := Tables × Option SessionRow

/-- How `jarun_icon_less` comes out of its first transaction. -/
inductive Started where
  | returns (r : Ret)
  /-- `DBcommit(); DBbegin();`, and on to `system()` -/
  | launch
  deriving DecidableEq, Repr

/-- `jarun_value_before`: it only writes variables, and a statement that
fails makes it FAIL. -/
structure ValueBefore where
  prog : Id → Prog Tables Ret
  guarded : ∀ i, (prog i).Guarded (· = .fail)
  status : ∀ i t, StatusEq t ((prog i).clean t).1

/-! ## Starting an icon -/

section
variable (logs : String → Nat) (icons : Id → Option IconLess) (before : ValueBefore)

/-- `ja_log(…); return ja_set_runerr(inner_job_id, 2);` -/
def runerr (message : String) (i : Id) : Prog Db Started := do
  queries (logs message)
  let r ← (Stmt.jaSetRunerr logs i 2).onFst
  pure (.returns r)

/-- mirrors src/jobarg_server/jarun/jaruniconless.c:112-146 -/
def register (i : Id) (op : OperationFlag) : Prog Db Started := do
  match ← select with
  | none => runerr logs "JARUNICONLESS200008" i
  | some s =>
    if s.2.isSome then runerr logs "JARUNICONLESS200004" i
    else if ← exec fun s => (s.1, some ⟨i, op, .begin⟩) then pure .launch
    else runerr logs "JARUNICONLESS200009" i

/-- mirrors src/jobarg_server/jarun/jaruniconless.c:168-204 -/
def takeOver (i : Id) (op : OperationFlag) : Prog Db Started := do
  match (← select).bind Prod.snd with
  | none => runerr logs "JARUNICONLESS200005" i
  | some r =>
    if r.status ≠ .ended then runerr logs "JARUNICONLESS200010" i
    else if ← exec fun s => (s.1, s.2.map fun _ => ⟨i, op, .begin⟩) then pure (.returns .succeed)
    else runerr logs "JARUNICONLESS200006" i

/-- mirrors src/jobarg_server/jarun/jaruniconless.c:99-212 -/
def jarunIconLess (i : Id) : Prog Db Started := do
  match (← select).bind fun _ => icons i with
  | none => runerr logs "JARUNICONLESS200001" i
  | some icon =>
    match (← select).bind fun s => s.1.jobnet? icon.innerJobnetId with
    | none => runerr logs "JARUNICONLESS200002" i
    | some _ =>
      match icon.sessionFlag with
      | .onetime => register logs i .onetime
      | .connect => register logs i .connect
      | .continue => takeOver logs i .continue
      | .close => takeOver logs i .close
      | .other => runerr logs "JARUNICONLESS200007" i

/-- The rows `ja_set_run_job_id` finds are there; the columns it writes are
read by no modelled function.
mirrors src/jalibs/jastatus.c:757-825 -/
def jaSetRunJobId (i : Id) : Prog Tables Ret := do
  match ← Stmt.fetch (logs "JASTATUS200002") (·.job? i) with
  | none => pure .fail
  | some _ => do
    queries 1
    Stmt.andThen (Stmt.update id) do
      queries 1
      Stmt.update id

/-- The loop of `ja_clean_value_before`. -/
def deletesBefore : List Nat → Prog Tables Ret
  | [] => pure .succeed
  | n :: ns =>
    Stmt.andThen (Stmt.update fun t => { t with before := t.before.filter fun r => r.seqNo ≠ n }) (deletesBefore ns)

/-- mirrors src/jalibs/javalue.c:49-84 -/
def jaCleanValueBefore (i : Id) : Prog Tables Ret := do
  match ← select with
  | none => pure .succeed
  | some t => deletesBefore (cleanLoop "" ((t.before.filter fun r => r.owner == i).insertionSort cleanOrder))

/-- mirrors src/jalibs/jastatus.c:514-528 -/
def jaSetRun (i : Id) : Prog Tables Ret := Stmt.andThen (jaCleanValueBefore i) (Stmt.jaSetStatusJob i .run)

/-- `jarun_normal` up to the switch over the icon types.
mirrors src/jobarg_server/jarun/jarunnormal.c:77-91 -/
def prologue (i : Id) : Prog Tables Ret :=
  Stmt.andThen (before.prog i) <|
  Stmt.andThen (jaSetRun i) <|
  Stmt.andThen (jaSetRunJobId logs i) <|
  Stmt.update fun t => (jaValueBeforeAfter t i).1

/-- The row of an agentless icon in `process_jarun`, `method_flag` NORMAL or
RERUN; `msg` and `innerJobnetId` are from the list of READY icons.
mirrors src/jobarg_server/jarun/jarun.c:90-132 -/
def processJarun (i innerJobnetId : Id) (msg : LogMsg) : Prog Db Started := do
  match ← select with
  | none => pure (.returns .succeed)
  | some s =>
    if isReady s.1 i then do
      let _ ← (Stmt.jaJoblog logs msg innerJobnetId i).onFst
      match ← (prologue logs before i).onFst with
      | .fail => pure (.returns .fail)
      | .succeed => jarunIconLess logs icons i
    else pure (.returns .succeed)

/-! ## The session process -/

/-- `main` before its loop: whether the process goes on. The `pid` it writes
is no column of the row.
mirrors src/jobarg_session/jobarg_session.c:1740-1768 -/
def attach : Prog Db Bool := do
  match (← select).bind Prod.snd with
  | none => pure false
  | some _ => exec id

/-- How `process_session` leaves a row it has handled. -/
inductive Handled where
  | rollback
  /-- `DBcommit`; `next`: LOOP_CONTINUE -/
  | commit (next : Bool)
  deriving DecidableEq, Repr

/-- The session is over with the icon. -/
def stops (op : OperationFlag) (rtn : Ret) : Bool :=
  op = .onetime ∨ (op = .connect ∧ rtn = .fail) ∨ (op = .close ∧ rtn = .succeed)

/-- mirrors src/jobarg_session/jobarg_session.c:1693-1703 -/
def finishIcon (i : Id) (rtn : Ret) (iconStatus : Int) (next : Bool) : Prog Db Handled := do
  let _ ← match rtn with
    | .succeed => (Stmt.jaFlow logs i .normal true).onFst
    | .fail => (Stmt.jaSetRunerr logs i iconStatus).onFst
  pure (.commit next)

/-- `process_session` after the SSH operations, which have returned `rtn`.
mirrors src/jobarg_session/jobarg_session.c:1646-1703 -/
def processSession (i : Id) (op : OperationFlag) (rtn : Ret) (iconStatus : Int) : Prog Db Handled := do
  if stops op rtn then
    if ← exec fun s => (s.1, none) then finishIcon logs i rtn iconStatus false
    else pure .rollback
  else
    match (← select).bind Prod.snd with
    | none => do
      queries (logs "JASESSION300002")
      finishIcon logs i .fail iconStatus false
    | some _ =>
      if ← exec fun s => (s.1, s.2.map fun r => { r with status := .ended }) then
        finishIcon logs i rtn iconStatus true
      else do
        queries (logs "JASESSION200001")
        finishIcon logs i .fail 2 false

end

/-! ## The system -/

inductive Phase where
  | idle
  /-- started by `system()`, before it has found its row -/
  | started
  | polling
  /-- in `process_session`, between its select and its transaction -/
  | handling (i : Id) (op : OperationFlag)
  deriving DecidableEq, Repr

/-- `launching`: the icons whose starter is between its two transactions. -/
structure SessionState (P : Type) where
  db : Db
  launching : List Id
  phase : P → Phase

inductive SessionLabel (P : Type) where
  | start (i innerJobnetId : Id) (msg : LogMsg) (fault : Nat → Bool)
  /-- the shell reports success; `up`: the process, if `jobarg_session` has come up -/
  | launched (i : Id) (up : Option P)
  /-- `rc != EXIT_SUCCESS` -/
  | launchFailed (i : Id) (fault : Nat → Bool)
  | attach (p : P) (fault : Nat → Bool)
  /-- the select of `process_session` -/
  | poll (p : P) (ok : Bool)
  | handle (p : P) (rtn : Ret) (iconStatus : Int) (fault : Nat → Bool)
  /-- a transaction of another process -/
  | other (t' : Tables)

def statusOf (t : Tables) (k : Id) : Option Status := (t.job? k).map Job.status

/-- Other processes make icons of the session ready again, but leave those
in RUN to the session. -/
def Elsewhere (icons : Id → Option IconLess) (t t' : Tables) : Prop :=
  ∀ k, icons k ≠ none → statusOf t' k = statusOf t k ∨
    (statusOf t k ≠ some .run ∧ (statusOf t' k = some .begin ∨ statusOf t' k = some .ready))

/-- The row a process has read. -/
def polled : Option SessionRow → Phase
  | none => .idle
  | some r => if r.status = .begin then .handling r.innerJobId r.operationFlag else .polling

section
variable {P : Type} [DecidableEq P] (logs : String → Nat) (icons : Id → Option IconLess) (before : ValueBefore)

def SessionStep (s : SessionState P) : SessionLabel P → SessionState P → Prop
  | .start i innerJobnetId msg fault, s' =>
      let x := transact (processJarun logs icons before i innerJobnetId msg) fault s.db (· ≠ .returns .fail)
      s' = { s with db := x.1, launching := if x.2 = .launch then i :: s.launching else s.launching }
  | .launched i up, s' => i ∈ s.launching ∧ (∀ p, up = some p → s.phase p = .idle) ∧
      s' = { s with
        launching := s.launching.erase i
        phase := up.elim s.phase fun p => Function.update s.phase p .started }
  | .launchFailed i fault, s' => i ∈ s.launching ∧
      s' = { s with
        db := (transact (runerr logs "JARUNICONLESS200003" i) fault s.db (· ≠ .returns .fail)).1
        launching := s.launching.erase i }
  | .attach p fault, s' => s.phase p = .started ∧
      let x := transact attach fault s.db id
      s' = { s with db := x.1, phase := Function.update s.phase p (if x.2 then .polling else .idle) }
  | .poll p ok, s' => s.phase p = .polling ∧
      s' = { s with phase := Function.update s.phase p (polled (if ok then s.db.2 else none)) }
  | .handle p rtn iconStatus fault, s' => ∃ i op, s.phase p = .handling i op ∧
      let x := transact (processSession logs i op rtn iconStatus) fault s.db (· ≠ .rollback)
      s' = { s with
        db := x.1
        phase := Function.update s.phase p (if x.2 = .commit true then .polling else .idle) }
  | .other t', s' => Elsewhere icons s.db.1 t' ∧ s' = { s with db := (t', s.db.2) }

structure SessionInit (s : SessionState P) : Prop where
  row : s.db.2 = none
  launching : s.launching = []
  phase : ∀ p, s.phase p = .idle

variable (P) in
def sessionSystem : LTS (SessionState P) (SessionLabel P) where
  init := SessionInit
  step := SessionStep logs icons before

end

/-! ## The law and its condition -/

/-- Icons of this kind are done with their session in this status. -/
def final : SessionFlag → Status → Bool
  | .onetime, s => s = .ended ∨ s = .runErr ∨ s = .endErr
  | .connect, s => s = .runErr
  | .close, s => s = .ended
  | .continue, _ => false
  | .other, _ => false

def isOver (icons : Id → Option IconLess) (t : Tables) (i : Id) : Bool :=
  (icons i).any fun icon => (statusOf t i).any (final icon.sessionFlag)

/-- The process will handle this row, or has it in work. -/
def InCharge (r : SessionRow) : Phase → Prop
  | .idle => False
  | .started => True
  | .polling => True
  | .handling i op => i = r.innerJobId ∧ op = r.operationFlag

section
variable {P : Type} (logs : String → Nat) (icons : Id → Option IconLess)

/-- The icon of the row is not over; in BEGIN it is in RUN and somebody will
handle it. -/
structure SessionLaw (s : SessionState P) : Prop where
  kept : ∀ r, s.db.2 = some r → isOver icons s.db.1 r.innerJobId = false
  handled : ∀ r, s.db.2 = some r → r.status = .begin → statusOf s.db.1 r.innerJobId = some .run ∧
    (r.innerJobId ∈ s.launching ∨ ∃ p, InCharge r (s.phase p))

/-- No row remains when an icon becomes over. -/
def Released (s s' : SessionState P) : Prop :=
  ∀ i, isOver icons s.db.1 i = false → isOver icons s'.db.1 i = true → s'.db.2 = none

/-- The flows of `i` do not reset the jobnet of `k`. -/
def Spares (t : Tables) (i k : Id) : Prop :=
  ∀ f ∈ flowsFrom t i, ∀ link, t.iconJobnet? f.endInnerJobId = some link →
    ∀ j, t.job? k = some j → j.innerJobnetId ≠ link.linkInnerJobnetId

/-- An icon opens the session only while it has no row, and does not reset
the icon that has it in use; between the registration and the end of the
session nothing fails: `system()` brings the process up, the process finds
its row, and its transactions reach the row. -/
def HandedOn (s : SessionState P) : SessionLabel P → Prop
  | .start i _ _ _ =>
      (∀ icon, icons i = some icon → icon.sessionFlag = .onetime ∨ icon.sessionFlag = .connect → s.db.2 = none) ∧
        ∀ r, s.db.2 = some r → r.status = .begin → Spares s.db.1 i r.innerJobId
  | .launched _ up => up ≠ none
  | .launchFailed _ _ => False
  | .attach _ fault => Spared fault 0 2
  | .poll _ ok => ok = true
  | .handle p rtn iconStatus fault => ∀ i op, s.phase p = .handling i op →
      if stops op rtn then Spared fault 0 ((processSession logs i op rtn iconStatus).cost s.db)
      else Spared fault 0 2 ∧ (op = .connect → flowsFrom s.db.1 i = [] ∨ FlowOpen s.db.1 i)
  | .other _ => True

end

/-! ## The status of one icon -/

section
variable {t t' : Tables} {i k : Id} {s : Status}

theorem statusOf_frame (h : StatusEq t t') (k : Id) : statusOf t' k = statusOf t k := by
  unfold statusOf Tables.job?
  rw [h.jobs]

theorem statusOf_setStatusJob (t : Tables) (i k : Id) (s : Status) :
    statusOf (jaSetStatusJob t i s).1 k = if k = i then (statusOf t k).map fun _ => s else statusOf t k := by
  unfold statusOf
  rw [job?_jaSetStatusJob]
  cases hj : t.job? k with
  | none => simp
  | some j =>
    have hid : j.innerJobId = k := (Table.lookup_mem hj).2
    by_cases hk : k = i
    · simp [hid, hk]
    · simp [hid, hk]

theorem statusOf_setCount (t : Tables) (i k : Id) (s : Status) (n : Nat) :
    statusOf (setCount t i s n) k = if k = i then (statusOf t k).map fun _ => s else statusOf t k := by
  unfold statusOf
  rw [job?_setCount]
  cases hj : t.job? k with
  | none => simp
  | some j =>
    have hid : j.innerJobId = k := (Table.lookup_mem hj).2
    by_cases hk : k = i
    · simp [hid, hk]
    · simp [hid, hk]

theorem statusOf_resetJobs (t : Tables) (n k : Id) :
    statusOf (resetJobs t n) k = statusOf t k ∨ statusOf (resetJobs t n) k = some .begin := by
  unfold statusOf
  rw [job?_resetJobs]
  cases t.job? k with
  | none => exact .inl rfl
  | some j =>
    by_cases hn : j.innerJobnetId = n
    · right
      simp [hn]
    · left
      simp [hn]

/-- The icons a completion fires are counted up or reset. -/
theorem flowStep_others (h : FlowStep i t t') (hk : k ≠ i) :
    statusOf t' k = statusOf t k ∨ statusOf t' k = some .begin ∨ statusOf t' k = some .ready := by
  have hcount : ∀ (u : Tables) (e : Id) (s : Status) (n : Nat), s = .begin ∨ s = .ready →
      statusOf (setCount u e s n) k = statusOf u k ∨ statusOf (setCount u e s n) k = some .begin ∨
        statusOf (setCount u e s n) k = some .ready := by
    intro u e s n hs
    rw [statusOf_setCount]
    split
    · cases statusOf u k with
      | none => exact .inl rfl
      | some _ => exact .inr (hs.imp (congrArg some) (congrArg some))
    · exact .inl rfl
  cases h with
  | frame h => exact .inl (statusOf_frame h k)
  | own s _ => exact .inl (by rw [statusOf_setStatusJob, if_neg hk])
  | @fire f j s n _ _ _ hc _ => exact hcount t f.endInnerJobId s n (flowCount_count hc).1
  | @fireJobnet f j link n _ _ _ _ _ _ =>
    rcases hcount (resetJobs t link.linkInnerJobnetId) f.endInnerJobId .ready n (.inr rfl) with hc | hc
    · rw [hc]
      exact (statusOf_resetJobs t link.linkInnerJobnetId k).imp_right .inl
    · exact .inr hc

theorem flowSteps_others (h : FlowSteps i t t') (hk : k ≠ i) :
    statusOf t' k = statusOf t k ∨ statusOf t' k = some .begin ∨ statusOf t' k = some .ready := by
  induction h with
  | refl => exact .inl rfl
  | tail _ h ih =>
    rcases flowStep_others h hk with hs | hs
    · rw [hs]
      exact ih
    · exact .inr hs

/-- An icon in RUN is not counted up, and reset only with its jobnet. -/
theorem flowStep_run (h : FlowStep i t t') (hk : k ≠ i) (hs : statusOf t k = some .run) (hsp : Spares t i k) :
    statusOf t' k = some .run := by
  have hother : ∀ {e : Id} {j : Job} {s : Status} {n : Nat}, t.job? e = some j → flowCount j = .count s n →
      k ≠ e := by
    intro e j s n hj hc he
    rw [statusOf, he, hj, Option.map_some] at hs
    have hst := (flowCount_count hc).2
    rw [Option.some.inj hs] at hst
    simp at hst
  cases h with
  | frame h => rw [statusOf_frame h, hs]
  | own s _ => rw [statusOf_setStatusJob, if_neg hk, hs]
  | fire _ _ hj hc _ => rw [statusOf_setCount, if_neg (hother hj hc), hs]
  | @fireJobnet f j link n _ hf hj hc _ hl =>
    rw [statusOf_setCount, if_neg (hother hj hc)]
    obtain ⟨b, hb, hbs⟩ := Option.map_eq_some_iff.1 hs
    have hnet := hsp f hf link hl b hb
    rw [statusOf, job?_resetJobs, hb, Option.map_some, Option.map_some]
    simp [hnet, hbs]

theorem Spares.congr (h : Spares t i k) (hnets : SameNets t t')
    (hstatic : t'.jobs.map Job.static = t.jobs.map Job.static) : Spares t' i k := by
  intro f hf link hl j hj
  rw [flowsFrom_congr hnets.flows] at hf
  rw [Tables.iconJobnet?, hnets.iconJobnets] at hl
  have hlook := job?_static hstatic k
  rw [hj, Option.map_some] at hlook
  obtain ⟨j₀, hj₀, heq⟩ := Option.map_eq_some_iff.1 hlook.symm
  rw [(SameJob.of_static heq.symm).jobnet]
  exact h f hf link hl j₀ hj₀

theorem flowSteps_run (h : FlowSteps i t t') (hk : k ≠ i) (hs : statusOf t k = some .run) (hsp : Spares t i k) :
    statusOf t' k = some .run := by
  induction h with
  | refl => exact hs
  | tail h hst ih => exact flowStep_run hst hk ih (hsp.congr (FlowSteps.sameNets h) (FlowSteps.static h))

/-! ## What a completion does not leave -/

theorem statusOf_setStatusJob_ne {s' : Status} (h : statusOf t k ≠ some s) (hs : s' ≠ s) (i : Id) :
    statusOf (jaSetStatusJob t i s').1 k ≠ some s := by
  rw [statusOf_setStatusJob]
  split
  · cases statusOf t k with
    | none => simp
    | some _ => simpa using hs
  · exact h

theorem statusOf_setCount_ne {s' : Status} (h : statusOf t k ≠ some s) (hs : s' ≠ s) (i : Id) (n : Nat) :
    statusOf (setCount t i s' n) k ≠ some s := by
  rw [statusOf_setCount]
  split
  · cases statusOf t k with
    | none => simp
    | some _ => simpa using hs
  · exact h

theorem statusOf_frame_ne (h : statusOf t k ≠ some s) (hf : StatusEq t t') : statusOf t' k ≠ some s := by
  rw [statusOf_frame hf]
  exact h

/-- Neither what a flow writes nor ERROR END. -/
def Unfired (s : Status) : Prop := s ≠ .begin ∧ s ≠ .ready ∧ s ≠ .endErr

theorem jaSetEnderr_ne (h : statusOf t k ≠ some s) (hu : Unfired s) (i : Id) (msg : Bool) :
    statusOf (jaSetEnderr t i msg).1 k ≠ some s := by
  unfold jaSetEnderr
  refine andThen_keeps (P := fun t => statusOf t k ≠ some s) (statusOf_frame_ne h (jaCleanValueAfter_status t i))
    fun t₁ h1 => andThen_keeps (P := fun t => statusOf t k ≠ some s) ?_ fun t₂ h2 =>
      statusOf_setStatusJob_ne h2 hu.2.2.symm i
  split
  · exact statusOf_frame_ne h1 (jaJoblog_status t₁ _ _ _)
  · exact h1

theorem jaFlowSetStatus_ne (h : statusOf t k ≠ some s) (hu : Unfired s) (i e : Id) :
    statusOf (jaFlowSetStatus t i e).1 k ≠ some s := by
  unfold jaFlowSetStatus
  split
  · exact jaSetEnderr_ne h hu i true
  split
  · exact h
  · exact jaSetEnderr_ne h hu i true
  rename_i s' n hc
  have hs' : s' ≠ s := by
    rcases (flowCount_count hc).1 with rfl | rfl
    · exact hu.1.symm
    · exact hu.2.1.symm
  split
  · split
    · exact jaSetEnderr_ne h hu i true
    · rename_i link hl
      have hr : statusOf (resetJobs t link.linkInnerJobnetId) k ≠ some s := by
        rcases statusOf_resetJobs t link.linkInnerJobnetId k with hr | hr
        · rw [hr]
          exact h
        · rw [hr]
          exact fun he => hu.1 (Option.some.inj he).symm
      exact statusOf_frame_ne (statusOf_setCount_ne hr hs' e n) (jaValueAfterBefore_status _ i e)
  · exact statusOf_frame_ne (statusOf_setCount_ne h hs' e n) (jaValueAfterBefore_status _ i e)

theorem flowLoop_ne (hu : Unfired s) (i : Id) (type : FlowType) {fs : List Flow} (h : statusOf t k ≠ some s) :
    statusOf (flowLoop i type fs t).1 k ≠ some s := by
  induction fs generalizing t with
  | nil => exact h
  | cons f fs ih =>
    rw [flowLoop]
    split
    · exact andThen_keeps (P := fun t => statusOf t k ≠ some s) (jaFlowSetStatus_ne h hu i f.endInnerJobId) fun _ h1 => ih h1
    · exact ih h

/-- A completion while the jobnet runs is not a run error. -/
theorem jaFlow_not_runErr (h : statusOf t i ≠ some .runErr) (ho : flowsFrom t i = [] ∨ FlowOpen t i) (type : FlowType)
    (msg : Bool) : statusOf (jaFlow t i type msg).1 i ≠ some .runErr := by
  have hu : Unfired .runErr := ⟨by decide, by decide, by decide⟩
  have h1 := statusOf_frame_ne h (jaCleanValueAfter_status t i)
  rcases ho with hn | ho
  · rw [jaFlow_no_flows hn]
    exact jaSetEnderr_ne h1 hu i true
  · rw [jaFlow_running ho]
    refine andThen_keeps (P := fun t => statusOf t i ≠ some .runErr) (flowLoop_ne hu i type h1) fun t₂ h2 => ?_
    unfold jaSetEnd
    split
    · exact h2
    refine andThen_keeps (P := fun t => statusOf t i ≠ some .runErr)
      (statusOf_frame_ne h2 (jaCleanValueAfter_status t₂ i)) fun t₃ h3 =>
        andThen_keeps (P := fun t => statusOf t i ≠ some .runErr) (statusOf_frame_ne h3 (jaJoblog_status t₃ _ _ _))
          fun t₄ h4 => statusOf_setStatusJob_ne h4 (by decide) i

theorem jaSetRunerrWith_not_ended {flow : Tables → Tables × Ret}
    (hflow : ∀ t, statusOf t k ≠ some .ended → statusOf (flow t).1 k ≠ some .ended) (h : statusOf t k ≠ some .ended)
    (i : Id) (st : Int) : statusOf (jaSetRunerrWith flow t i st).1 k ≠ some .ended := by
  unfold jaSetRunerrWith
  refine andThen_keeps (P := fun t => statusOf t k ≠ some .ended)
    (statusOf_frame_ne h (jaCleanValueAfter_status t i)) fun t₁ h1 =>
      andThen_keeps (P := fun t => statusOf t k ≠ some .ended) (statusOf_frame_ne h1 (jaJoblog_status t₁ _ _ _))
        fun t₂ h2 => ?_
  have h3 := statusOf_frame_ne h2 (writeIconStatus_status t₂ i (((t₂.job? i).map Job.innerJobnetId).getD 0)
    (((t₂.job? i).map Job.jobType).getD .startIcon) st)
  dsimp only
  split
  · exact statusOf_setStatusJob_ne h3 (by decide) i
  · exact andThen_keeps (P := fun t => statusOf t k ≠ some .ended) (hflow _ h3) fun t₄ h4 =>
      statusOf_setStatusJob_ne h4 (by decide) i

/-- A run error does not end the icon: its flows are fired without
`ja_set_end`. -/
theorem jaSetRunerr_not_ended (h : statusOf t i ≠ some .ended) (st : Int) :
    statusOf (jaSetRunerr t i st).1 i ≠ some .ended := by
  have hu : Unfired .ended := ⟨by decide, by decide, by decide⟩
  refine jaSetRunerrWith_not_ended (fun t ht => ?_) h i st
  unfold jaFlow
  refine andThen_keeps (P := fun t => statusOf t i ≠ some .ended)
    (statusOf_frame_ne ht (jaCleanValueAfter_status t i)) fun t₁ h1 => ?_
  split
  · exact jaSetEnderr_ne h1 hu i true
  rename_i f fs _
  split
  · exact andThen_keeps (P := fun t => statusOf t i ≠ some .ended) (flowLoop_ne hu i .normal h1) fun _ h2 => h2
  · exact andThen_keeps (P := fun t => statusOf t i ≠ some .ended) (flowLoop_ne hu i .normal h1) fun _ h2 => h2
  · exact jaSetRunerrWith_not_ended (fun _ h => h) h1 i (-99)

end

/-! ## The programs -/

section
variable (logs : String → Nat) (icons : Id → Option IconLess) (before : ValueBefore)

theorem runerr_guarded (message : String) (i : Id) : (runerr logs message i).Guarded (· ≠ .launch) := by
  have hq := guarded_of_forall (fun _ => trivial) (queries (logs message) : Prog Db Unit)
  have hr := guarded_of_forall (fun _ => trivial) ((Stmt.jaSetRunerr logs i 2).onFst : Prog Db Ret)
  have htail : ((Stmt.jaSetRunerr logs i 2).onFst >>= fun r => pure (.returns r) : Prog Db Started).Guarded (· ≠ .launch) :=
    hr.bind (fun _ _ => Started.noConfusion) fun _ => trivial
  exact hq.bind (fun _ _ => by rw [deny_bind]; exact Started.noConfusion) fun _ => htail

theorem deny_runerr (message : String) (i : Id) : (runerr logs message i).deny ≠ .launch := by
  unfold runerr
  rw [deny_bind, deny_bind]
  exact Started.noConfusion

theorem exec_guarded (f : Db → Db) : (exec f : Prog Db Bool).Guarded (· = false) := ⟨rfl, fun _ => trivial⟩

theorem select_guarded : (select : Prog Db (Option Db)).Guarded (· = none) := ⟨rfl, fun _ => trivial⟩

theorem register_guarded (i : Id) (op : OperationFlag) : (register logs i op).Guarded (· ≠ .launch) := by
  refine select_guarded.bind (fun o ho => ?_) fun o => ?_
  · rw [ho]
    exact deny_runerr logs _ i
  cases o with
  | none => exact runerr_guarded logs _ i
  | some s =>
    show (if s.2.isSome = true then _ else _ : Prog Db Started).Guarded _
    split
    · exact runerr_guarded logs _ i
    refine (exec_guarded _).bind (fun b hb => ?_) fun b => ?_
    · rw [hb]
      exact deny_runerr logs _ i
    · cases b with
      | true => trivial
      | false => exact runerr_guarded logs _ i

theorem takeOver_guarded (i : Id) (op : OperationFlag) : (takeOver logs i op).Guarded (· ≠ .launch) := by
  refine select_guarded.bind (fun o ho => ?_) fun o => ?_
  · rw [ho]
    exact deny_runerr logs _ i
  cases o.bind Prod.snd with
  | none => exact runerr_guarded logs _ i
  | some r =>
    show (if r.status ≠ .ended then _ else _ : Prog Db Started).Guarded _
    split
    · exact runerr_guarded logs _ i
    refine (exec_guarded _).bind (fun b hb => ?_) fun b => ?_
    · rw [hb]
      exact deny_runerr logs _ i
    · cases b with
      | true => trivial
      | false => exact runerr_guarded logs _ i

theorem jarunIconLess_guarded (i : Id) : (jarunIconLess logs icons i).Guarded (· ≠ .launch) := by
  refine select_guarded.bind (fun o ho => ?_) fun o => ?_
  · rw [ho]
    exact deny_runerr logs _ i
  cases o.bind fun _ => icons i with
  | none => exact runerr_guarded logs _ i
  | some icon =>
    refine select_guarded.bind (fun o ho => ?_) fun o => ?_
    · rw [ho]
      exact deny_runerr logs _ i
    cases o.bind fun s => s.1.jobnet? icon.innerJobnetId with
    | none => exact runerr_guarded logs _ i
    | some _ =>
      show (match icon.sessionFlag with
        | .onetime => register logs i .onetime
        | .connect => register logs i .connect
        | .continue => takeOver logs i .continue
        | .close => takeOver logs i .close
        | .other => runerr logs "JARUNICONLESS200007" i : Prog Db Started).Guarded _
      split
      · exact register_guarded logs i _
      · exact register_guarded logs i _
      · exact takeOver_guarded logs i _
      · exact takeOver_guarded logs i _
      · exact runerr_guarded logs _ i

/-- A statement that fails makes the start fail. -/
theorem prologue_guarded (i : Id) : (prologue logs before i).Guarded (· = .fail) := by
  have hset : (Stmt.jaSetStatusJob i .run).Guarded (· = .fail) :=
    (guarded_of_forall (fun _ => trivial) (queries 1)).bind (fun _ _ => rfl) fun _ => Stmt.guarded_update _
  have hrun : (jaSetRun i).Guarded (· = .fail) := by
    refine (guarded_of_forall (fun _ => trivial) (jaCleanValueBefore i)).bind (fun r _ => ?_) fun r => ?_
    · cases r <;> rfl
    · cases r with
      | succeed => exact hset
      | fail => trivial
  have hid : (jaSetRunJobId logs i).Guarded (· = .fail) := by
    refine (Stmt.guarded_fetch _).bind (fun o ho => ?_) fun o => ?_
    · rw [ho]
      rfl
    cases o with
    | none => trivial
    | some _ =>
      have hsecond : (do queries 1; Stmt.update id : Prog Tables Ret).Guarded (· = .fail) :=
        (guarded_of_forall (fun _ => trivial) (queries 1)).bind (fun _ _ => rfl) fun _ => Stmt.guarded_update _
      exact (guarded_of_forall (fun _ => trivial) (queries 1)).bind (fun _ _ => rfl) fun _ =>
        Stmt.guarded_andThen (Stmt.guarded_update _) hsecond
  exact Stmt.guarded_andThen (before.guarded i) (Stmt.guarded_andThen hrun (Stmt.guarded_andThen hid (Stmt.guarded_update _)))

theorem deny_prologue (i : Id) : (prologue logs before i).deny = .fail := by
  have hrun : ∀ k, (Stmt.andThen (jaSetRun i) k).deny = .fail := fun k => rfl
  unfold prologue
  rw [Stmt.andThen, deny_bind]
  cases (before.prog i).deny with
  | succeed => exact hrun _
  | fail => rfl

/-- Nothing has failed in a start that goes on to `system()`. -/
theorem processJarun_guarded (i n : Id) (msg : LogMsg) :
    (processJarun logs icons before i n msg).Guarded (· ≠ .launch) := by
  refine select_guarded.bind (fun o ho => ?_) fun o => ?_
  · rw [ho]
    exact Started.noConfusion
  cases o with
  | none => trivial
  | some s =>
    show (if isReady s.1 i = true then _ else _ : Prog Db Started).Guarded _
    split
    · have hlog := guarded_of_forall (fun _ => trivial) ((Stmt.jaJoblog logs msg n i).onFst : Prog Db Ret)
      refine hlog.bind (fun _ _ => ?_) fun _ => ?_
      · rw [deny_bind, deny_onFst, deny_prologue]
        exact Started.noConfusion
      refine (prologue_guarded logs before i).onFst.bind (fun r hr => ?_) fun r => ?_
      · rw [hr]
        exact Started.noConfusion
      · cases r with
        | succeed => exact jarunIconLess_guarded logs icons i
        | fail => trivial
    · trivial

theorem clean_deletesBefore (ns : List Nat) (t : Tables) :
    (deletesBefore ns).clean t = ({ t with before := t.before.filter fun r => r.seqNo ∉ ns }, .succeed) := by
  induction ns generalizing t with
  | nil => simp [deletesBefore]
  | cons n ns ih =>
    simp only [deletesBefore, Stmt.clean_andThen, Stmt.clean_update, Tables.andThen_succeed, ih, List.filter_filter]
    congr 3
    funext r
    simp [Bool.and_comm]

theorem clean_jaSetRun (i : Id) (t : Tables) : (jaSetRun i).clean t = JobArranger.jaSetRun t i := by
  have hclean : (jaCleanValueBefore i).clean t = JobArranger.jaCleanValueBefore t i := by
    rw [jaCleanValueBefore, clean_bind, clean_select]
    exact clean_deletesBefore _ t
  rw [jaSetRun, Stmt.clean_andThen, hclean]
  simp only [Stmt.clean_jaSetStatusJob]
  rfl

theorem setStatusJob_frame {t t' : Tables} (h : StatusEq t t') (i : Id) (s : Status) :
    StatusEq (jaSetStatusJob t i s).1 (jaSetStatusJob t' i s).1 :=
  ⟨by rw [jaSetStatusJob, jaSetStatusJob, updateJobs, updateJobs, h.jobs], h.flows, h.jobnets, h.summaries,
    h.iconJobnets, h.agentless⟩

theorem clean_jaSetRunJobId (i : Id) (t : Tables) : ((jaSetRunJobId logs i).clean t).1 = t := by
  rw [jaSetRunJobId, clean_bind, Stmt.clean_fetch]
  cases t.job? i <;> rfl

/-- The icon that is started is in RUN; nothing else the status logic reads
has changed. -/
theorem clean_prologue (i : Id) {t : Tables} (h : ((prologue logs before i).clean t).2 = .succeed) :
    StatusEq (jaSetStatusJob t i .run).1 ((prologue logs before i).clean t).1 := by
  have hok : ∀ {r : Tables × Ret} {k : Tables → Tables × Ret}, (andThen r k).2 = .succeed →
      andThen r k = k r.1 := by
    intro r k hr
    rcases andThen_cases r k with hf | ⟨-, hk⟩
    · rw [hf] at hr
      cases hr
    · exact hk
  unfold prologue at h ⊢
  simp only [Stmt.clean_andThen, clean_jaSetRun] at h ⊢
  have h1 := hok h
  rw [h1] at h ⊢
  have h2 := hok h
  rw [h2] at h ⊢
  have h3 := hok h
  rw [h3, clean_jaSetRunJobId]
  exact (setStatusJob_frame (before.status i t) i .run).trans ⟨rfl, rfl, rfl, rfl, rfl, rfl⟩

theorem clean_runerr (message : String) (i : Id) (s : Db) :
    (runerr logs message i).clean s =
      (((jaSetRunerr s.1 i 2).1, s.2), .returns (jaSetRunerr s.1 i 2).2) := by
  simp only [runerr, clean_bind, clean_queries, clean_onFst, Stmt.clean_jaSetRunerr, clean_pure]

/-- What a start that has been carried out leaves; `t₁` is the icon in RUN. -/
inductive StartOutcome (i : Id) (s : Db) : Db → Started → Prop where
  | passed (r : Ret) : StartOutcome i s s (.returns r)
  | failed (s' : Db) : StartOutcome i s s' (.returns .fail)
  | runerr {t₁ : Tables} (r : Ret) : isReady s.1 i = true → StatusEq (jaSetStatusJob s.1 i .run).1 t₁ →
      StartOutcome i s ((jaSetRunerr t₁ i 2).1, s.2) (.returns r)
  | opened {t₁ : Tables} {icon : IconLess} {op : OperationFlag} : isReady s.1 i = true →
      StatusEq (jaSetStatusJob s.1 i .run).1 t₁ → icons i = some icon →
      (icon.sessionFlag = .onetime ∧ op = .onetime ∨ icon.sessionFlag = .connect ∧ op = .connect) → s.2 = none →
      StartOutcome i s (t₁, some ⟨i, op, .begin⟩) .launch
  | taken {t₁ : Tables} {icon : IconLess} {op : OperationFlag} {r : SessionRow} : isReady s.1 i = true →
      StatusEq (jaSetStatusJob s.1 i .run).1 t₁ → icons i = some icon →
      (icon.sessionFlag = .continue ∧ op = .continue ∨ icon.sessionFlag = .close ∧ op = .close) →
      s.2 = some r → r.status = .ended → StartOutcome i s (t₁, some ⟨i, op, .begin⟩) (.returns .succeed)

section
variable {logs icons before} {i : Id} {s : Db} {t₁ : Tables}

theorem runerr_outcome (hr : isReady s.1 i = true) (ht : StatusEq (jaSetStatusJob s.1 i .run).1 t₁) (message : String) :
    StartOutcome icons i s ((runerr logs message i).clean (t₁, s.2)).1 ((runerr logs message i).clean (t₁, s.2)).2 := by
  rw [clean_runerr]
  exact .runerr _ hr ht

theorem register_outcome (hr : isReady s.1 i = true) (ht : StatusEq (jaSetStatusJob s.1 i .run).1 t₁) {icon : IconLess}
    (hi : icons i = some icon) {op : OperationFlag}
    (hop : icon.sessionFlag = .onetime ∧ op = .onetime ∨ icon.sessionFlag = .connect ∧ op = .connect) :
    StartOutcome icons i s ((register logs i op).clean (t₁, s.2)).1 ((register logs i op).clean (t₁, s.2)).2 := by
  rw [register, clean_bind, clean_select]
  show StartOutcome icons i s (clean (if s.2.isSome = true then _ else _) (t₁, s.2)).1
    (clean (if s.2.isSome = true then _ else _) (t₁, s.2)).2
  split
  · exact runerr_outcome hr ht _
  · rename_i hn
    exact .opened hr ht hi hop (by simpa using hn)

theorem takeOver_outcome (hr : isReady s.1 i = true) (ht : StatusEq (jaSetStatusJob s.1 i .run).1 t₁) {icon : IconLess}
    (hi : icons i = some icon) {op : OperationFlag}
    (hop : icon.sessionFlag = .continue ∧ op = .continue ∨ icon.sessionFlag = .close ∧ op = .close) :
    StartOutcome icons i s ((takeOver logs i op).clean (t₁, s.2)).1 ((takeOver logs i op).clean (t₁, s.2)).2 := by
  rw [takeOver, clean_bind, clean_select, Option.bind_some]
  cases hrow : s.2 with
  | none =>
    have h := @runerr_outcome logs icons i s t₁ hr ht "JARUNICONLESS200005"
    rw [hrow] at h
    exact h
  | some r =>
    show StartOutcome icons i s (clean (if r.status ≠ .ended then _ else _) (t₁, some r)).1
      (clean (if r.status ≠ .ended then _ else _) (t₁, some r)).2
    split
    · rw [← hrow]
      exact runerr_outcome hr ht _
    · rename_i hst
      exact .taken hr ht hi hop hrow (by simpa using hst)

theorem jarunIconLess_outcome (hr : isReady s.1 i = true) (ht : StatusEq (jaSetStatusJob s.1 i .run).1 t₁) :
    StartOutcome icons i s ((jarunIconLess logs icons i).clean (t₁, s.2)).1
      ((jarunIconLess logs icons i).clean (t₁, s.2)).2 := by
  rw [jarunIconLess, clean_bind, clean_select, Option.bind_some]
  cases hi : icons i with
  | none => exact runerr_outcome hr ht _
  | some icon =>
    dsimp only
    rw [clean_bind, clean_select, Option.bind_some]
    cases t₁.jobnet? icon.innerJobnetId with
    | none => exact runerr_outcome hr ht _
    | some _ =>
      dsimp only
      cases hf : icon.sessionFlag with
      | onetime => exact register_outcome hr ht hi (.inl ⟨hf, rfl⟩)
      | connect => exact register_outcome hr ht hi (.inr ⟨hf, rfl⟩)
      | «continue» => exact takeOver_outcome hr ht hi (.inl ⟨hf, rfl⟩)
      | close => exact takeOver_outcome hr ht hi (.inr ⟨hf, rfl⟩)
      | other => exact runerr_outcome hr ht _

theorem processJarun_outcome (i n : Id) (msg : LogMsg) (s : Db) :
    StartOutcome icons i s ((processJarun logs icons before i n msg).clean s).1
      ((processJarun logs icons before i n msg).clean s).2 := by
  rw [processJarun, clean_bind, clean_select]
  show StartOutcome icons i s (clean (if isReady s.1 i = true then _ else _) s).1
    (clean (if isReady s.1 i = true then _ else _) s).2
  split
  · rename_i hr
    rw [clean_bind, clean_onFst, Stmt.clean_jaJoblog]
    dsimp only
    rw [clean_bind, clean_onFst]
    have hlog := setStatusJob_frame (jaJoblog_status s.1 msg n i) i .run
    cases hp : ((prologue logs before i).clean (jaJoblog s.1 msg n i).1).2 with
    | fail => exact .failed _
    | succeed =>
      dsimp only
      exact jarunIconLess_outcome hr (hlog.trans (clean_prologue logs before i hp))
  · exact .passed _

end

/-- The icon after `process_session`. -/
def iconEnd (t : Tables) (i : Id) (iconStatus : Int) : Ret → Tables
  | .succeed => (jaFlow t i .normal true).1
  | .fail => (jaSetRunerr t i iconStatus).1

theorem iconEnd_steps (t : Tables) (i : Id) (iconStatus : Int) (rtn : Ret) : FlowSteps i t (iconEnd t i iconStatus rtn) := by
  cases rtn with
  | succeed => exact jaFlow_steps t i .normal true
  | fail => exact jaSetRunerr_steps t i iconStatus

theorem clean_finishIcon (i : Id) (rtn : Ret) (iconStatus : Int) (next : Bool) (s : Db) :
    (finishIcon logs i rtn iconStatus next).clean s = ((iconEnd s.1 i iconStatus rtn, s.2), .commit next) := by
  cases rtn with
  | succeed => simp only [finishIcon, clean_bind, clean_onFst, Stmt.clean_jaFlow, clean_pure, iconEnd]
  | fail => simp only [finishIcon, clean_bind, clean_onFst, Stmt.clean_jaSetRunerr, clean_pure, iconEnd]

/-- The results of `ja_flow` and `ja_set_runerr` are not looked at. -/
theorem run_finishIcon (fault : Nat → Bool) (i : Id) (rtn : Ret) (iconStatus : Int) (next : Bool) (x : Txn Db) :
    ((finishIcon logs i rtn iconStatus next).run fault x).2 = .commit next := by
  cases rtn with
  | succeed =>
    simp only [finishIcon, run_bind]
    rfl
  | fail =>
    simp only [finishIcon, run_bind]
    rfl

theorem clean_processSession_stops (i : Id) {op : OperationFlag} {rtn : Ret} (h : stops op rtn = true) (iconStatus : Int)
    (s : Db) : (processSession logs i op rtn iconStatus).clean s = ((iconEnd s.1 i iconStatus rtn, none), .commit false) := by
  rw [processSession, if_pos h, clean_bind, clean_exec]
  exact clean_finishIcon logs i rtn iconStatus false (s.1, none)

theorem clean_processSession_continues (i : Id) {op : OperationFlag} {rtn : Ret} (h : stops op rtn = false)
    (iconStatus : Int) {s : Db} {r : SessionRow} (hr : s.2 = some r) :
    (processSession logs i op rtn iconStatus).clean s =
      ((iconEnd s.1 i iconStatus rtn, some { r with status := .ended }), .commit true) := by
  rw [processSession, if_neg (by rw [h]; exact Bool.false_ne_true), clean_bind, clean_select, Option.bind_some, hr]
  dsimp only
  rw [clean_bind, clean_exec]
  show (finishIcon logs i rtn iconStatus true).clean (s.1, s.2.map fun r => { r with status := .ended }) = _
  rw [clean_finishIcon, hr]
  rfl

/-- Once the row is set to END the process goes on, whatever becomes of the
transaction. -/
theorem transact_processSession_next {fault : Nat → Bool} (i : Id) {op : OperationFlag} {rtn : Ret}
    (h : stops op rtn = false) (iconStatus : Int) {s : Db} {r : SessionRow} (hr : s.2 = some r) (hf : Spared fault 0 2)
    (commits : Handled → Bool) :
    ((processSession logs i op rtn iconStatus).transact fault s commits).2 = .commit true := by
  have hsel : Spared fault 0 ((select : Prog Db (Option Db)).cost s) := (spared_add.1 (show Spared fault 0 (1 + 1) from hf)).1
  have hexec := (spared_add.1 (show Spared fault 0 (1 + 1) from hf)).2
  show ((processSession logs i op rtn iconStatus).run fault ⟨s, false, 0⟩).2 = .commit true
  rw [processSession, if_neg (by rw [h]; exact Bool.false_ne_true), run_bind, run_clean _ hsel, clean_select,
    cost_select, Option.bind_some, hr]
  dsimp only
  rw [run_bind, run_clean (exec _) hexec, clean_exec]
  exact run_finishIcon logs fault i rtn iconStatus true _

theorem transact_attach {fault : Nat → Bool} {s : Db} {r : SessionRow} (hr : s.2 = some r) (hf : Spared fault 0 2) :
    attach.transact fault s id = (s, true) := by
  have hclean : attach.clean s = (s, true) := by
    rw [attach, clean_bind, clean_select, Option.bind_some, hr]
    rfl
  have hcost : attach.cost s = 2 := by
    rw [attach, cost_bind, clean_select, Option.bind_some, hr]
    rfl
  rw [transact_clean attach (by rw [hcost]; exact hf), hclean]
  rfl

end

/-! ## The invariant -/

/-- The kind of icon that writes this operation. -/
def OperationFlag.sessionFlag : OperationFlag → SessionFlag
  | .onetime => .onetime
  | .connect => .connect
  | .continue => .continue
  | .close => .close

section
variable {P : Type} {icons : Id → Option IconLess}

/-- One party is in charge of the row. -/
inductive InHands (s : SessionState P) (r : SessionRow) : Prop where
  | starter : r.status = .begin → s.launching = [r.innerJobId] → (∀ p, s.phase p = .idle) → InHands s r
  | process (p : P) : s.launching = [] → InCharge r (s.phase p) → (s.phase p ≠ .polling → r.status = .begin) →
      (∀ q, q ≠ p → s.phase q = .idle) → InHands s r

variable (icons) in
structure SessionInv (s : SessionState P) : Prop where
  closed : s.db.2 = none → s.launching = [] ∧ ∀ p, s.phase p = .idle
  begin : ∀ r, s.db.2 = some r → r.status = .begin → statusOf s.db.1 r.innerJobId = some .run ∧
    ∃ icon, icons r.innerJobId = some icon ∧ icon.sessionFlag = r.operationFlag.sessionFlag
  ended : ∀ r, s.db.2 = some r → r.status = .ended → isOver icons s.db.1 r.innerJobId = false
  inHands : ∀ r, s.db.2 = some r → InHands s r

theorem isOver_eq_true {t : Tables} {i : Id} : isOver icons t i = true ↔
    ∃ icon s, icons i = some icon ∧ statusOf t i = some s ∧ final icon.sessionFlag s = true := by
  simp only [isOver, Option.any_eq_true]
  constructor
  · intro h
    obtain ⟨icon, hi, s, hs, hf⟩ := h
    exact ⟨icon, s, hi, hs, hf⟩
  · intro h
    obtain ⟨icon, s, hi, hs, hf⟩ := h
    exact ⟨icon, hi, s, hs, hf⟩

theorem final_working (f : SessionFlag) {s : Status} (hs : s = .begin ∨ s = .ready ∨ s = .run) : final f s = false := by
  rcases hs with rfl | rfl | rfl <;> cases f <;> rfl

theorem over_working {t : Tables} {i : Id} {s : Status} (h : statusOf t i = some s)
    (hs : s = .begin ∨ s = .ready ∨ s = .run) : isOver icons t i = false := by
  by_contra ho
  obtain ⟨icon, s', -, h', hf⟩ := isOver_eq_true.1 (by simpa using ho)
  rw [h] at h'
  obtain rfl := Option.some.inj h'
  rw [final_working _ hs] at hf
  cases hf

/-- An icon that only others have worked on does not become over. -/
theorem over_others {t t' : Tables} {k : Id} (h : statusOf t' k = statusOf t k ∨ statusOf t' k = some .begin ∨
    statusOf t' k = some .ready) (ho : isOver icons t k = false) : isOver icons t' k = false := by
  rcases h with h | h | h
  · rw [isOver, h]
    exact ho
  · exact over_working h (.inl rfl)
  · exact over_working h (.inr (.inl rfl))

theorem SessionInv.law {s : SessionState P} (h : SessionInv icons s) : SessionLaw icons s := by
  refine ⟨fun r hr => ?_, fun r hr hb => ⟨(h.begin r hr hb).1, ?_⟩⟩
  · cases hst : r.status with
    | begin => exact over_working (h.begin r hr hst).1 (.inr (.inr rfl))
    | ended => exact h.ended r hr hst
  · cases h.inHands r hr with
    | starter _ hl _ =>
      left
      rw [hl]
      exact List.mem_singleton_self _
    | process p _ hc _ _ => exact .inr ⟨p, hc⟩

/-- A step that only works on icons. -/
theorem SessionInv.tables {s : SessionState P} (h : SessionInv icons s) {t' : Tables}
    (hrun : ∀ r, s.db.2 = some r → r.status = .begin → statusOf t' r.innerJobId = some .run)
    (hover : ∀ r, s.db.2 = some r → r.status = .ended → isOver icons t' r.innerJobId = false) :
    SessionInv icons { s with db := (t', s.db.2) } := by
  refine ⟨h.closed, fun r hr hb => ⟨hrun r hr hb, (h.begin r hr hb).2⟩, hover, fun r hr => ?_⟩
  cases h.inHands r hr with
  | starter hb hl hp => exact .starter hb hl hp
  | process p hl hc hb hq => exact .process p hl hc hb hq

/-- What a step keeps. -/
def Keeps (icons : Id → Option IconLess) (s s' : SessionState P) : Prop := SessionInv icons s' ∧ Released icons s s'

theorem SessionInv.keeps {s : SessionState P} (h : SessionInv icons s) : Keeps icons s s := by
  refine ⟨h, fun i h1 h2 => ?_⟩
  rw [h1] at h2
  cases h2

theorem SessionInv.other {s : SessionState P} (h : SessionInv icons s) {t' : Tables} (he : Elsewhere icons s.db.1 t') :
    Keeps icons s { s with db := (t', s.db.2) } := by
  have hover : ∀ k, isOver icons s.db.1 k = false → isOver icons t' k = false := by
    intro k ho
    by_cases hk : icons k = none
    · simp [isOver, hk]
    · exact over_others ((he k hk).imp_right And.right) ho
  refine ⟨h.tables (fun r hr hb => ?_) fun r hr hst => hover _ (h.ended r hr hst), fun i h1 h2 => ?_⟩
  · obtain ⟨hrun, icon, hi, -⟩ := h.begin r hr hb
    rcases he r.innerJobId (by simp [hi]) with hs | hs
    · rw [hs, hrun]
    · exact absurd hrun hs.1
  · have hf := hover i h1
    rw [hf] at h2
    cases h2

/-! ## Starting -/

section
variable {s : SessionState P} {i : Id} {t₁ : Tables}

/-- The started icon is in RUN, the others are as before. -/
theorem statusOf_started {t : Tables} (hr : isReady t i = true) (ht : StatusEq (jaSetStatusJob t i .run).1 t₁) (k : Id) :
    statusOf t₁ k = if k = i then some .run else statusOf t k := by
  rw [statusOf_frame ht, statusOf_setStatusJob]
  split
  · rename_i hk
    subst hk
    obtain ⟨j, hj, -⟩ := (Option.any_eq_true _ _).1 hr
    rw [statusOf, hj]
    rfl
  · rfl

theorem isReady_statusOf {t : Tables} (hr : isReady t i = true) : statusOf t i = some .ready := by
  obtain ⟨j, hj, hst⟩ := (Option.any_eq_true _ _).1 hr
  rw [statusOf, hj, Option.map_some, of_decide_eq_true hst]

theorem over_started {t : Tables} (hr : isReady t i = true) (ht : StatusEq (jaSetStatusJob t i .run).1 t₁) {k : Id}
    (ho : isOver icons t k = false) : isOver icons t₁ k = false := by
  have hs := statusOf_started hr ht k
  by_cases hk : k = i
  · rw [if_pos hk] at hs
    exact over_working hs (.inr (.inr rfl))
  · rw [if_neg hk] at hs
    exact over_others (.inl hs) ho

/-- The icon with the row in BEGIN is not the one that is started. -/
theorem SessionInv.begin_ne (h : SessionInv icons s) (hr : isReady s.db.1 i = true) {r : SessionRow}
    (hrow : s.db.2 = some r) (hb : r.status = .begin) : r.innerJobId ≠ i := by
  intro he
  have hrun := (h.begin r hrow hb).1
  rw [he, isReady_statusOf hr] at hrun
  cases hrun

/-- A start that is turned down: only an icon that opens the session is over
with it. -/
theorem over_runerr (hr : isReady s.db.1 i = true) (ht : StatusEq (jaSetStatusJob s.db.1 i .run).1 t₁) {k : Id}
    (ho : isOver icons s.db.1 k = false) (hover : isOver icons (jaSetRunerr t₁ i 2).1 k = true) :
    k = i ∧ ∃ icon, icons i = some icon ∧ (icon.sessionFlag = .onetime ∨ icon.sessionFlag = .connect) := by
  have h1 := over_started hr ht ho
  by_cases hk : k = i
  · subst hk
    refine ⟨rfl, ?_⟩
    obtain ⟨icon, st, hi, hst, hf⟩ := isOver_eq_true.1 hover
    refine ⟨icon, hi, ?_⟩
    have hrun : statusOf t₁ k ≠ some .ended := by
      rw [statusOf_started hr ht, if_pos rfl]
      decide
    have hne := jaSetRunerr_not_ended hrun 2
    cases hflag : icon.sessionFlag with
    | onetime => exact .inl rfl
    | connect => exact .inr rfl
    | close =>
      rw [hflag] at hf
      have hended : st = .ended := of_decide_eq_true hf
      rw [hst, hended] at hne
      exact absurd rfl hne
    | «continue» | other =>
      rw [hflag] at hf
      cases hf
  · have hf := over_others (flowSteps_others (jaSetRunerr_steps t₁ i 2) hk) h1
    rw [hf] at hover
    cases hover

theorem SessionInv.start_runerr (h : SessionInv icons s) (hr : isReady s.db.1 i = true)
    (ht : StatusEq (jaSetStatusJob s.db.1 i .run).1 t₁)
    (hopen : ∀ icon, icons i = some icon → icon.sessionFlag = .onetime ∨ icon.sessionFlag = .connect → s.db.2 = none)
    (hsp : ∀ r, s.db.2 = some r → r.status = .begin → Spares s.db.1 i r.innerJobId) :
    Keeps icons s { s with db := ((jaSetRunerr t₁ i 2).1, s.db.2) } := by
  have hnets : SameNets s.db.1 t₁ := ⟨ht.flows, ht.jobnets, ht.summaries, ht.iconJobnets, ht.agentless⟩
  have hstatic : t₁.jobs.map Job.static = s.db.1.jobs.map Job.static := by
    rw [ht.jobs]
    exact static_updateJobs _ _ _ fun _ => rfl
  refine ⟨h.tables (fun r hrow hb => ?_) fun r hrow hst => ?_, fun k h1 h2 => ?_⟩
  · have hne := h.begin_ne hr hrow hb
    refine flowSteps_run (jaSetRunerr_steps t₁ i 2) hne ?_ ((hsp r hrow hb).congr hnets hstatic)
    rw [statusOf_started hr ht, if_neg hne]
    exact (h.begin r hrow hb).1
  · by_contra hover
    obtain ⟨-, icon, hi, hflag⟩ := over_runerr hr ht (h.ended r hrow hst) (by simpa using hover)
    rw [hopen icon hi hflag] at hrow
    cases hrow
  · obtain ⟨-, icon, hi, hflag⟩ := over_runerr hr ht h1 h2
    exact hopen icon hi hflag

theorem SessionInv.opened (h : SessionInv icons s) (hr : isReady s.db.1 i = true)
    (ht : StatusEq (jaSetStatusJob s.db.1 i .run).1 t₁) {icon : IconLess} {op : OperationFlag} (hi : icons i = some icon)
    (hop : icon.sessionFlag = op.sessionFlag) (hnone : s.db.2 = none) :
    Keeps icons s { s with db := (t₁, some ⟨i, op, .begin⟩), launching := i :: s.launching } := by
  obtain ⟨hl, hp⟩ := h.closed hnone
  refine ⟨⟨fun hc => (by cases hc), fun r hrow _ => ?_, fun r hrow hst => ?_, fun r hrow => ?_⟩, fun k h1 h2 => ?_⟩
  · obtain rfl := Option.some.inj hrow
    refine ⟨?_, icon, hi, hop⟩
    rw [statusOf_started hr ht, if_pos rfl]
  · obtain rfl := Option.some.inj hrow
    cases hst
  · obtain rfl := Option.some.inj hrow
    exact .starter rfl (congrArg _ hl) hp
  · rw [over_started hr ht h1] at h2
    cases h2

theorem SessionInv.taken (h : SessionInv icons s) (hr : isReady s.db.1 i = true)
    (ht : StatusEq (jaSetStatusJob s.db.1 i .run).1 t₁) {icon : IconLess} {op : OperationFlag} (hi : icons i = some icon)
    (hop : icon.sessionFlag = op.sessionFlag) {r : SessionRow} (hrow : s.db.2 = some r) (hst : r.status = .ended) :
    Keeps icons s { s with db := (t₁, some ⟨i, op, .begin⟩) } := by
  refine ⟨⟨fun hc => (by cases hc), fun r hrow _ => ?_, fun r hrow hst => ?_, fun r' hrow' => ?_⟩, fun k h1 h2 => ?_⟩
  · obtain rfl := Option.some.inj hrow
    refine ⟨?_, icon, hi, hop⟩
    rw [statusOf_started hr ht, if_pos rfl]
  · obtain rfl := Option.some.inj hrow
    cases hst
  · obtain rfl := Option.some.inj hrow'
    cases h.inHands r hrow with
    | starter hb _ _ =>
      rw [hst] at hb
      cases hb
    | process p hl _ hb hq =>
      -- the process waits: it is in `process_session` only for a row in BEGIN
      have hpoll : s.phase p = .polling := by
        by_contra hp
        rw [hst] at hb
        cases hb hp
      refine .process p hl ?_ (fun _ => rfl) hq
      show InCharge _ (s.phase p)
      rw [hpoll]
      trivial
  · rw [over_started hr ht h1] at h2
    cases h2

end

/-! ## The steps -/

section
variable {logs : String → Nat} {before : ValueBefore} [DecidableEq P] {s s' : SessionState P}

/-- A start either leaves everything alone or has been carried out. -/
theorem start_cases {i n : Id} {msg : LogMsg} {fault : Nat → Bool}
    (h : SessionStep logs icons before s (.start i n msg fault) s') :
    s' = s ∨ ∃ db' r, StartOutcome icons i s.db db' r ∧
      s' = { s with
        db := if r ≠ .returns .fail then db' else s.db
        launching := if r = .launch then i :: s.launching else s.launching } := by
  by_cases hf : Spared fault 0 ((processJarun logs icons before i n msg).cost s.db)
  · right
    have hout : StartOutcome icons i s.db _ _ := @processJarun_outcome logs icons before i n msg s.db
    refine ⟨_, _, hout, ?_⟩
    rw [h, transact_clean _ hf]
    simp only [decide_eq_true_eq]
  · left
    obtain ⟨hdb, hnot⟩ := (processJarun_guarded logs icons before i n msg).transact hf (· ≠ .returns .fail)
    rw [h, hdb, if_neg hnot]

theorem SessionInv.start (h : SessionInv icons s) {i n : Id} {msg : LogMsg} {fault : Nat → Bool}
    (hs : SessionStep logs icons before s (.start i n msg fault) s')
    (hc : HandedOn logs icons s (.start i n msg fault)) : Keeps icons s s' := by
  rcases start_cases hs with rfl | ⟨db', r, hout, rfl⟩
  · exact h.keeps
  obtain ⟨hopen, hsp⟩ := hc
  cases hout with
  | passed r =>
    rw [ite_self]
    exact h.keeps
  | failed => exact h.keeps
  | runerr r hr ht =>
    cases r with
    | succeed => exact h.start_runerr hr ht hopen hsp
    | fail => exact h.keeps
  | opened hr ht hi hop hnone =>
    refine h.opened hr ht hi ?_ hnone
    rcases hop with ⟨hf, rfl⟩ | ⟨hf, rfl⟩
    · exact hf
    · exact hf
  | taken hr ht hi hop hrow hst =>
    refine h.taken hr ht hi ?_ hrow hst
    rcases hop with ⟨hf, rfl⟩ | ⟨hf, rfl⟩
    · exact hf
    · exact hf

omit [DecidableEq P] in
/-- A step that leaves the tables alone. -/
theorem SessionInv.moves (h : SessionInv icons s) {launching : List Id} {phase : P → Phase} {r : SessionRow}
    (hrow : s.db.2 = some r) (hhands : InHands { s with launching, phase } r) :
    Keeps icons s { s with launching, phase } := by
  refine ⟨⟨fun hc => ?_, h.begin, h.ended, fun r' hr' => ?_⟩, h.keeps.2⟩
  · change s.db.2 = none at hc
    rw [hrow] at hc
    cases hc
  · change s.db.2 = some r' at hr'
    rw [hrow] at hr'
    obtain rfl := Option.some.inj hr'
    exact hhands

theorem SessionInv.launched (h : SessionInv icons s) {i : Id} {up : Option P}
    (hs : SessionStep logs icons before s (.launched i up) s') (hup : up ≠ none) : Keeps icons s s' := by
  obtain ⟨hi, -, rfl⟩ := hs
  obtain ⟨p, rfl⟩ := Option.ne_none_iff_exists'.1 hup
  cases hrow : s.db.2 with
  | none =>
    rw [(h.closed hrow).1] at hi
    cases hi
  | some r =>
    refine h.moves hrow ?_
    cases h.inHands r hrow with
    | starter hb hl hp =>
      rw [hl, List.mem_singleton] at hi
      refine .process p ?_ ?_ (fun _ => hb) fun q hq => ?_
      · show s.launching.erase i = []
        rw [hl, hi, List.erase_cons_head]
      · show InCharge r (Function.update s.phase p .started p)
        rw [Function.update_self]
        trivial
      · show Function.update s.phase p .started q = .idle
        rw [Function.update_of_ne hq]
        exact hp q
    | process q hl _ _ _ =>
      rw [hl] at hi
      cases hi

/-- A process that is not idle is the one in charge. -/
theorem SessionInv.owner (h : SessionInv icons s) {p : P} (hp : s.phase p ≠ .idle) :
    ∃ r, s.db.2 = some r ∧ s.launching = [] ∧ InCharge r (s.phase p) ∧ (s.phase p ≠ .polling → r.status = .begin) ∧
      ∀ q, q ≠ p → s.phase q = .idle := by
  cases hrow : s.db.2 with
  | none => exact absurd ((h.closed hrow).2 p) hp
  | some r =>
    refine ⟨r, rfl, ?_⟩
    cases h.inHands r hrow with
    | starter _ _ hidle => exact absurd (hidle p) hp
    | process q hl hc hb hq =>
      have hpq : p = q := by
        by_contra hne
        exact hp (hq p hne)
      subst hpq
      exact ⟨hl, hc, hb, hq⟩

/-- The process in charge goes on in another phase. -/
theorem inHands_update {s₁ : SessionState P} {p : P} {ph : Phase} {r : SessionRow} (hl : s₁.launching = [])
    (hp : s₁.phase = Function.update s.phase p ph) (hc : InCharge r ph) (hb : ph ≠ .polling → r.status = .begin)
    (hq : ∀ q, q ≠ p → s.phase q = .idle) : InHands s₁ r := by
  have hself : s₁.phase p = ph := by rw [hp, Function.update_self]
  refine .process p hl ?_ ?_ fun q hne => ?_
  · rw [hself]
    exact hc
  · rw [hself]
    exact hb
  · rw [hp, Function.update_of_ne hne]
    exact hq q hne

theorem SessionInv.attach (h : SessionInv icons s) {p : P} {fault : Nat → Bool}
    (hs : SessionStep logs icons before s (.attach p fault) s') (hf : Spared fault 0 2) : Keeps icons s s' := by
  obtain ⟨hp, rfl⟩ := hs
  obtain ⟨r, hrow, hl, -, -, hq⟩ := h.owner (p := p) (by rw [hp]; exact Phase.noConfusion)
  rw [transact_attach hrow hf]
  exact h.moves hrow (inHands_update hl rfl trivial (fun hne => absurd rfl hne) hq)

theorem SessionInv.poll (h : SessionInv icons s) {p : P} {ok : Bool}
    (hs : SessionStep logs icons before s (.poll p ok) s') (hok : ok = true) : Keeps icons s s' := by
  obtain ⟨hp, rfl⟩ := hs
  obtain ⟨r, hrow, hl, -, -, hq⟩ := h.owner (p := p) (by rw [hp]; exact Phase.noConfusion)
  rw [hok, if_pos rfl, hrow, polled]
  cases hst : r.status with
  | begin => exact h.moves hrow (inHands_update hl rfl ⟨rfl, rfl⟩ (fun _ => hst) hq)
  | ended => exact h.moves hrow (inHands_update hl rfl trivial (fun hne => absurd rfl hne) hq)

/-- An icon whose session goes on is not over. -/
theorem over_iconEnd {t : Tables} {i : Id} {op : OperationFlag} {rtn : Ret} {iconStatus : Int} {icon : IconLess}
    (hi : icons i = some icon) (hop : icon.sessionFlag = op.sessionFlag) (hrun : statusOf t i = some .run)
    (hst : stops op rtn = false) (ho : op = .connect → flowsFrom t i = [] ∨ FlowOpen t i) :
    isOver icons (iconEnd t i iconStatus rtn) i = false := by
  by_contra hover
  obtain ⟨icon', st, hi', hs, hf⟩ := isOver_eq_true.1 (by simpa using hover)
  rw [hi] at hi'
  obtain rfl := Option.some.inj hi'
  rw [hop] at hf
  cases op with
  | onetime => cases hst
  | connect =>
    have hst' : st = .runErr := of_decide_eq_true hf
    cases rtn with
    | succeed => exact jaFlow_not_runErr (by rw [hrun]; decide) (ho rfl) .normal true (hst' ▸ hs)
    | fail => cases hst
  | «continue» => cases hf
  | close =>
    have hst' : st = .ended := of_decide_eq_true hf
    cases rtn with
    | succeed => cases hst
    | fail => exact jaSetRunerr_not_ended (by rw [hrun]; decide) iconStatus (hst' ▸ hs)

theorem SessionInv.handle (h : SessionInv icons s) {p : P} {rtn : Ret} {iconStatus : Int} {fault : Nat → Bool}
    (hs : SessionStep logs icons before s (.handle p rtn iconStatus fault) s')
    (hc : HandedOn logs icons s (.handle p rtn iconStatus fault)) : Keeps icons s s' := by
  obtain ⟨i, op, hp, rfl⟩ := hs
  have hf := hc i op hp
  obtain ⟨r, hrow, hl, hcharge, hb, hq⟩ := h.owner (p := p) (by rw [hp]; exact Phase.noConfusion)
  rw [hp] at hcharge hb
  obtain ⟨rfl, rfl⟩ := hcharge
  obtain ⟨hrun, icon, hi, hop⟩ := h.begin r hrow (hb Phase.noConfusion)
  cases hst : stops r.operationFlag rtn with
  | true =>
    rw [hst, if_pos rfl] at hf
    rw [transact_clean _ hf, clean_processSession_stops logs _ hst]
    have hidle : ∀ q, Function.update s.phase p Phase.idle q = .idle := by
      intro q
      by_cases hqp : q = p
      · rw [hqp, Function.update_self]
      · rw [Function.update_of_ne hqp]
        exact hq q hqp
    exact ⟨⟨fun _ => ⟨hl, hidle⟩, fun _ hn => (by cases hn), fun _ hn => (by cases hn), fun _ hn => (by cases hn)⟩,
      fun _ _ _ => rfl⟩
  | false =>
    rw [hst, if_neg Bool.false_ne_true] at hf
    obtain ⟨hf, ho⟩ := hf
    rw [transact_processSession_next logs _ hst iconStatus hrow hf, if_pos rfl]
    by_cases hall : Spared fault 0 ((processSession logs r.innerJobId r.operationFlag rtn iconStatus).cost s.db)
    · rw [transact_clean _ hall, clean_processSession_continues logs _ hst iconStatus hrow]
      have hover : isOver icons (iconEnd s.db.1 r.innerJobId iconStatus rtn) r.innerJobId = false :=
        over_iconEnd hi hop hrun hst ho
      refine ⟨⟨fun hn => (by cases hn), fun r' hr' hb' => ?_, fun r' hr' _ => ?_, fun r' hr' => ?_⟩, fun k h1 h2 => ?_⟩
      · obtain rfl := Option.some.inj hr'
        cases hb'
      · obtain rfl := Option.some.inj hr'
        exact hover
      · obtain rfl := Option.some.inj hr'
        exact inHands_update hl rfl trivial (fun hne => absurd rfl hne) hq
      · change isOver icons (iconEnd s.db.1 r.innerJobId iconStatus rtn) k = true at h2
        by_cases hk : k = r.innerJobId
        · rw [hk, hover] at h2
          cases h2
        · rw [over_others (flowSteps_others (iconEnd_steps s.db.1 r.innerJobId iconStatus rtn) hk) h1] at h2
          cases h2
    · -- the transaction is lost, and the row stays in BEGIN for the next turn
      rw [transact_hit _ hall]
      exact h.moves hrow (inHands_update hl rfl trivial (fun hne => absurd rfl hne) hq)

theorem SessionInv.step (h : SessionInv icons s) {l : SessionLabel P}
    (hs : ((sessionSystem P logs icons before).restrict (HandedOn logs icons)).step s l s') : Keeps icons s s' := by
  obtain ⟨hs, hc⟩ := hs
  change SessionStep logs icons before s l s' at hs
  change HandedOn logs icons s l at hc
  cases l with
  | start i n msg fault => exact h.start hs hc
  | launched i up => exact h.launched hs hc
  | launchFailed i fault => exact absurd hc id
  | attach p fault => exact h.attach hs hc
  | poll p ok => exact h.poll hs hc
  | handle p rtn iconStatus fault => exact h.handle hs hc
  | other t' =>
    obtain ⟨he, rfl⟩ := hs
    exact h.other he

theorem sessionInv_inductive :
    ((sessionSystem P logs icons before).restrict (HandedOn logs icons)).Inductive (SessionInv icons) where
  init s hs := by
    have hnone : ∀ {r : SessionRow}, s.db.2 ≠ some r := by
      intro r hr
      rw [hs.row] at hr
      cases hr
    exact ⟨fun _ => ⟨hs.launching, hs.phase⟩, fun _ hr => absurd hr hnone, fun _ hr => absurd hr hnone,
      fun _ hr => absurd hr hnone⟩
  step _ _ _ h hs := (h.step hs).1

end

variable (P) in
/-- **Sessions are released**, in the runs in which nothing between the
registration and the hand-over fails. -/
theorem session_released [DecidableEq P] (logs : String → Nat) (icons : Id → Option IconLess) (before : ValueBefore)
    (s : SessionState P) (hr : ((sessionSystem P logs icons before).restrict (HandedOn logs icons)).Reachable s) :
    SessionLaw icons s ∧ ∀ l s', ((sessionSystem P logs icons before).restrict (HandedOn logs icons)).step s l s' →
      Released icons s s' :=
  have h := sessionInv_inductive.reachable s hr
  ⟨h.law, fun _ _ hs => (h.step hs).2⟩

end

/-! ## One icon, with and without its process -/

/-- Icon 1, READY, in a running jobnet with one flow to the END icon 2. -/
def lessTables : Tables :=
  { Tables.empty with
    jobs := [⟨1, 1, 1, false, .less, false, .normal, false, .ready, 1, 1, "LESS", false⟩,
      ⟨2, 1, 1, false, .endIcon, false, .normal, false, .begin, 1, 0, "END", false⟩]
    flows := [⟨1, 1, 1, 2, .normal⟩]
    jobnets := [⟨1, 1, 0, 0, .normal, true, false, .run, 0, .on, "NET", "net", "user"⟩]
    agentless := [⟨1, false⟩] }

/-- Icon 1 runs a command over a session of its own. -/
def lessIcons (i : Id) : Option IconLess := if i = 1 then some ⟨1, .onetime⟩ else none

def plainBefore : ValueBefore where
  prog _ := pure .succeed
  guarded _ := trivial
  status _ t := .rfl' t

def lessState : SessionState Unit := ⟨(lessTables, none), [], fun _ => .idle⟩

/-- Every statement is carried out. -/
def quiet (_ : Nat) : Bool := false

/-- The icon runs, ends, and leaves no row. -/
theorem session_released_onetime :
    ∃ s s' l, ((sessionSystem Unit (fun _ => 0) lessIcons plainBefore).restrict
        (HandedOn (fun _ => 0) lessIcons)).Reachable s ∧
      ((sessionSystem Unit (fun _ => 0) lessIcons plainBefore).restrict (HandedOn (fun _ => 0) lessIcons)).step s l s' ∧
      s.db.2 = some ⟨1, .onetime, .begin⟩ ∧ isOver lessIcons s'.db.1 1 = true ∧ s'.db.2 = none := by
  have hsp : ∀ n len, Spared quiet n len := fun _ _ _ _ _ => rfl
  have hrun : ∃ s s' l, ((sessionSystem Unit (fun _ => 0) lessIcons plainBefore).restrict
        (HandedOn (fun _ => 0) lessIcons)).Reachable s ∧
      ((sessionSystem Unit (fun _ => 0) lessIcons plainBefore).restrict (HandedOn (fun _ => 0) lessIcons)).step s l s' ∧
      s.db.2 = some ⟨1, .onetime, .begin⟩ ∧ isOver lessIcons s.db.1 1 = false ∧ isOver lessIcons s'.db.1 1 = true :=
    ⟨_, _, .handle () .succeed 2 quiet, ⟨lessState,
      [.start 1 1 .jobStart quiet, .launched 1 (some ()), .attach () quiet, .poll () true], ⟨rfl, rfl, fun _ => rfl⟩,
      .cons ⟨rfl, fun _ _ _ => rfl, fun _ hr => by cases hr⟩
        (.cons ⟨⟨by decide +kernel, fun _ _ => rfl, rfl⟩, Option.some_ne_none _⟩
          (.cons ⟨⟨rfl, rfl⟩, hsp _ _⟩ (.cons ⟨⟨by decide +kernel, rfl⟩, rfl⟩ (.nil _))))⟩,
      ⟨⟨1, .onetime, by decide +kernel, rfl⟩, fun i op hp => by
        have hop : Phase.handling 1 .onetime = Phase.handling i op := Eq.trans (by decide +kernel) hp
        cases hop
        exact hsp _ _⟩, by decide +kernel, by decide +kernel, by decide +kernel⟩
  obtain ⟨s, s', l, hr, hs, hrow, h0, h1⟩ := hrun
  exact ⟨s, s', l, hr, hs, hrow, h1, (session_released Unit (fun _ => 0) lessIcons plainBefore s hr).2 l s' hs 1 h0 h1⟩

/-- `system()` fails: the icon is in RUNERR, its row in BEGIN, and there is
no process. -/
theorem session_left :
    ∃ s, (sessionSystem Unit (fun _ => 0) lessIcons plainBefore).Reachable s ∧ statusOf s.db.1 1 = some .runErr ∧
      s.db.2 = some ⟨1, .onetime, .begin⟩ ∧ s.launching = [] ∧ s.phase () = .idle ∧ ¬ SessionLaw lessIcons s := by
  have hrun : ∃ s, (sessionSystem Unit (fun _ => 0) lessIcons plainBefore).Reachable s ∧
      statusOf s.db.1 1 = some .runErr ∧ s.db.2 = some ⟨1, .onetime, .begin⟩ ∧ s.launching = [] ∧ s.phase () = .idle ∧
      isOver lessIcons s.db.1 1 = true :=
    ⟨_, ⟨lessState, [.start 1 1 .jobStart quiet, .launchFailed 1 quiet], ⟨rfl, rfl, fun _ => rfl⟩,
      .cons rfl (.cons ⟨by decide +kernel, rfl⟩ (.nil _))⟩, by decide +kernel, by decide +kernel, by decide +kernel, rfl,
      by decide +kernel⟩
  obtain ⟨s, hr, hst, hrow, hl, hp, hover⟩ := hrun
  refine ⟨s, hr, hst, hrow, hl, hp, fun law => ?_⟩
  rw [law.kept _ hrow] at hover
  cases hover

end JobArranger.Agentless
