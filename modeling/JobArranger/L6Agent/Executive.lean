import JobArranger.L6Agent.Wakeup
import Mathlib.Data.List.Nodup
import Mathlib.Logic.Function.Iterate

/-!
# One pass of the executive (`jobarg_agent/jajobobjectlist.c`)

`ja_job_object_list_executive` walks its list once. A handler that returns
SUCCEED makes the loop look at the same entry again (`continue` without an
advance), so the pass ends only if every such entry gets on. `ja_agent_end`
breaks this: when the job has ended and its files are loaded but
`ja_jobdb_update` fails, it puts the status back to RUN and still returns
SUCCEED. As long as the update fails the pass stays at this entry, and no
other job of the agent is started, ended or reported.

What the world does is one answer for every look at every entry
(`World`). The database may change between two looks, so each answer has
its own rows.

* `turn_ok`: what one turn of the loop may do to the list.
* `entry_done`: the loop leaves an entry that is not stuck.
* `executive_pass_iff`: a pass is well behaved exactly when no entry is
  stuck.
-/
namespace JobArranger.Agent

open Table

/-- The table and the outcomes at one look at an entry. -/
structure Look where
  rows : List JobRow
  outcome : Outcome
  deriving DecidableEq, Repr

/-- `world jobid k` answers the `k`-th look of the pass at the entry. -/
abbrev World := Id → Nat → Look

/-- The loop: `rest` starts at `cur`, which it has looked at `looks` times. -/
structure Pass where
  seen : List JobObject
  rest : List JobObject
  looks : Nat
  deriving DecidableEq, Repr

def Pass.jobs (p : Pass) : List JobObject := p.seen ++ p.rest

section
variable (parse : Text → Option Json) (sendRetry : Nat) (world : World)

/-- One turn of the `while` loop.
mirrors src/jobarg_agent/jajobobjectlist.c:203-247 -/
def turn (p : Pass) : Pass :=
  match p.rest with
  | [] => p
  | job :: rest =>
    let look := world job.jobid p.looks
    match (processEntry parse sendRetry look.rows job look.outcome).2 with
    | (some job, true) => { p with rest := job :: rest, looks := p.looks + 1 }
    | (some job, false) => { seen := p.seen ++ [job], rest, looks := 0 }
    | (none, _) => { p with rest, looks := 0 }

/-- The pass starts with the list, after `ja_job_object_list_add` when the
request flag is there; `selected` is whether its select succeeds.
mirrors src/jobarg_agent/jajobobjectlist.c:183-202 -/
def passStart (flag selected : Bool) (rows : List JobRow) (jobs : List JobObject) : Pass :=
  ⟨[], if flag && selected then jaJobObjectListAdd rows jobs else jobs, 0⟩

/-! ## The law -/

/-- The steps a status may take. -/
inductive Along : AgentStatus → AgentStatus → Prop where
  | same (s : AgentStatus) : Along s s
  | started : Along .begin .run
  | startFailed : Along .begin .ended
  | ended : Along .run .ended
  | closed : Along .ended .closed

/-- What one turn may do: it adds no entry, moves a status along the line,
and removes an entry only in CLOSE. -/
structure TurnOk (p p' : Pass) : Prop where
  ids : (p'.jobs.map JobObject.jobid).Sublist (p.jobs.map JobObject.jobid)
  status : ∀ job ∈ p.jobs, ∀ job' ∈ p'.jobs, job'.jobid = job.jobid → Along job.status job'.status
  removed : ∀ job ∈ p.jobs, (∀ job' ∈ p'.jobs, job'.jobid ≠ job.jobid) → job.status = .closed

/-- A pass that ends, with distinct jobids and every turn in order. -/
structure WellBehaved (p : Pass) : Prop where
  ends : ∃ n, ((turn parse sendRetry world)^[n] p).rest = []
  distinct : ∀ n, (((turn parse sendRetry world)^[n] p).jobs.map JobObject.jobid).Nodup
  turns : ∀ n, TurnOk ((turn parse sendRetry world)^[n] p) ((turn parse sendRetry world)^[n + 1] p)

/-- The job has ended, its files are loaded, and the update fails. -/
def Look.PutsBack (l : Look) : Prop := l.outcome.check = .ended .succeed ∧ l.outcome.updated = false

/-- Every look at the entry from its first in RUN on puts it back. -/
def Stuck (looks : Nat → Look) (job : JobObject) : Prop :=
  match job.status with
  | .run => ∀ k, (looks k).PutsBack
  | .begin => (looks 0).outcome.started = .succeed ∧ ∀ k, 1 ≤ k → (looks k).PutsBack
  | _ => False

/-! ## One look -/

theorem jaAgentRun_job (rows : List JobRow) (job : JobObject) (o : Outcome) :
    (jaAgentRun rows job o).2.1.jobid = job.jobid ∧ (jaAgentRun rows job o).2.2 = o.started ∧
      (jaAgentRun rows job o).2.1.status = if o.started = .succeed then .run else .ended := by
  unfold jaAgentRun
  cases o.started <;> simp

@[simp] theorem endUpdate_jobid (rows : List JobRow) (job : JobObject) (ret : Ret) (updated : Bool) :
    (endUpdate rows job ret updated).2.1.jobid = job.jobid := by
  cases updated <;> rfl

@[simp] theorem endUpdate_ret (rows : List JobRow) (job : JobObject) (ret : Ret) (updated : Bool) :
    (endUpdate rows job ret updated).2.2 = ret := by
  cases updated <;> rfl

@[simp] theorem endUpdate_status (rows : List JobRow) (job : JobObject) (ret : Ret) (updated : Bool) :
    (endUpdate rows job ret updated).2.1.status = if updated then job.status else .run := by
  cases updated <;> rfl

/-- `ja_agent_end` on a running job: it succeeds only for an ended job with
its files, and the status then depends on the update alone. -/
theorem jaAgentEnd_job (rows : List JobRow) {job : JobObject} (hs : job.status = .run) (o : Outcome) :
    (jaAgentEnd rows job o).2.1.jobid = job.jobid ∧
      ((jaAgentEnd rows job o).2.2 = .succeed ↔ o.check = .ended .succeed) ∧
      (jaAgentEnd rows job o).2.1.status = if o.check ≠ .notYet ∧ o.updated then .ended else .run := by
  unfold jaAgentEnd
  cases hc : o.check with
  | notYet => simp [hs]
  | failed =>
    dsimp only
    cases hrow : (lookup JobRow.jobid job.jobid rows).filter (·.status == .ended) with
    | none => simp
    | some r =>
      -- the row of this jobid, stored in END by the child
      obtain ⟨hlook, hst⟩ := Option.filter_eq_some_iff.1 hrow
      have hid : r.jobid = job.jobid := (lookup_mem hlook).2
      have hend : r.status = .ended := by simpa using hst
      simp [jaJobdbLoad, hid, hend]
  | ended loaded => cases loaded <;> simp

/-- `ja_agent_close` on a job in END. -/
theorem jaAgentClose_job {job : JobObject} (hs : job.status = .ended) (x : Exchange) :
    (jaAgentClose parse sendRetry job x).job.jobid = job.jobid ∧
      Along .ended (jaAgentClose parse sendRetry job x).job.status ∧
      ((jaAgentClose parse sendRetry job x).ret = .succeed →
        (jaAgentClose parse sendRetry job x).job.status = .closed) := by
  unfold jaAgentClose
  split
  · dsimp only
    split
    · simp [Along.closed]
    · simp [hs, Along.same]
  · simp [Along.closed]

/-- What a look may leave of an entry. -/
def After (job : JobObject) : Option JobObject → Prop
  | some job' => job'.jobid = job.jobid ∧ Along job.status job'.status
  | none => job.status = .closed

theorem processEntry_after (rows : List JobRow) (job : JobObject) (o : Outcome) :
    After job (processEntry parse sendRetry rows job o).2.1 := by
  unfold processEntry
  cases hs : job.status with
  | init =>
    refine ⟨rfl, ?_⟩
    rw [hs]
    exact .same _
  | begin =>
    obtain ⟨hid, -, hst⟩ := jaAgentRun_job rows job o
    refine ⟨hid, ?_⟩
    rw [hs, hst]
    split
    · exact .started
    · exact .startFailed
  | run =>
    obtain ⟨hid, -, hst⟩ := jaAgentEnd_job rows hs o
    refine ⟨hid, ?_⟩
    rw [hs, hst]
    split
    · exact .ended
    · exact .same _
  | ended =>
    obtain ⟨hid, hst, -⟩ := jaAgentClose_job parse sendRetry hs o.exchange
    refine ⟨hid, ?_⟩
    rw [hs]
    exact hst
  | closed => exact hs

/-! ## One turn -/

/-- A turn changes at most the entry at `cur`. -/
theorem turn_jobs {p : Pass} {job : JobObject} {rest : List JobObject} (h : p.rest = job :: rest) :
    (∃ job', After job (some job') ∧ (turn parse sendRetry world p).jobs = p.seen ++ job' :: rest) ∨
      (job.status = .closed ∧ (turn parse sendRetry world p).jobs = p.seen ++ rest) := by
  have hafter := processEntry_after parse sendRetry (world job.jobid p.looks).rows job
    (world job.jobid p.looks).outcome
  unfold turn
  rw [h]
  dsimp only
  split
  · rename_i job' heq
    rw [heq] at hafter
    exact .inl ⟨job', hafter, rfl⟩
  · rename_i job' heq
    rw [heq] at hafter
    refine .inl ⟨job', hafter, ?_⟩
    simp [Pass.jobs]
  · rename_i heq
    rw [heq] at hafter
    exact .inr ⟨hafter, rfl⟩

theorem turn_ids (p : Pass) :
    ((turn parse sendRetry world p).jobs.map JobObject.jobid).Sublist (p.jobs.map JobObject.jobid) := by
  cases hrest : p.rest with
  | nil =>
    rw [turn, hrest]
  | cons job rest =>
    have hjobs : p.jobs = p.seen ++ job :: rest := by rw [Pass.jobs, hrest]
    rcases turn_jobs parse sendRetry world hrest with
      ⟨job', ⟨hid, -⟩, hto⟩ | ⟨-, hto⟩
    · rw [hto, hjobs]
      simp [hid]
    · rw [hto, hjobs]
      simp

/-- With distinct jobids the entry of a jobid is determined. -/
theorem eq_of_jobid {jobs : List JobObject} (hd : (jobs.map JobObject.jobid).Nodup) {a b : JobObject}
    (ha : a ∈ jobs) (hb : b ∈ jobs) (h : a.jobid = b.jobid) : a = b :=
  List.inj_on_of_nodup_map hd ha hb h

theorem turn_status {p : Pass} (hd : (p.jobs.map JobObject.jobid).Nodup) :
    ∀ job ∈ p.jobs, ∀ job' ∈ (turn parse sendRetry world p).jobs, job'.jobid = job.jobid →
      Along job.status job'.status := by
  intro a ha b hb hid
  cases hrest : p.rest with
  | nil =>
    have hto : turn parse sendRetry world p = p := by rw [turn, hrest]
    rw [hto] at hb
    rw [eq_of_jobid hd hb ha hid]
    exact .same _
  | cons job rest =>
    have hjobs : p.jobs = p.seen ++ job :: rest := by rw [Pass.jobs, hrest]
    rcases turn_jobs parse sendRetry world hrest with ⟨job', ⟨hjid, hal⟩, hto⟩ | ⟨-, hto⟩
    · by_cases hb' : b = job'
      · subst hb'
        have hjob : job ∈ p.jobs := by simp [hjobs]
        rw [eq_of_jobid hd ha hjob (hid.symm.trans hjid)]
        exact hal
      · have hold : b ∈ p.jobs := by
          rw [hto] at hb
          rw [hjobs]
          simp only [List.mem_append, List.mem_cons] at hb ⊢
          tauto
        rw [eq_of_jobid hd hold ha hid]
        exact .same _
    · have hold : b ∈ p.jobs := by
        rw [hto] at hb
        rw [hjobs]
        simp only [List.mem_append, List.mem_cons] at hb ⊢
        tauto
      rw [eq_of_jobid hd hold ha hid]
      exact .same _

theorem turn_removed {p : Pass} : ∀ job ∈ p.jobs,
    (∀ job' ∈ (turn parse sendRetry world p).jobs, job'.jobid ≠ job.jobid) → job.status = .closed := by
  intro a ha hgone
  cases hrest : p.rest with
  | nil =>
    have hto : turn parse sendRetry world p = p := by rw [turn, hrest]
    rw [hto] at hgone
    exact absurd rfl (hgone a ha)
  | cons job rest =>
    have hjobs : p.jobs = p.seen ++ job :: rest := by rw [Pass.jobs, hrest]
    rw [hjobs] at ha
    rcases turn_jobs parse sendRetry world hrest with ⟨job', ⟨hjid, -⟩, hto⟩ | ⟨hcl, hto⟩
    · rw [hto] at hgone
      rcases List.mem_append.1 ha with ha | ha
      · exact absurd rfl (hgone a (List.mem_append_left _ ha))
      rcases List.mem_cons.1 ha with rfl | ha
      · exact absurd hjid (hgone job' (by simp))
      · exact absurd rfl (hgone a (by simp [ha]))
    · rw [hto] at hgone
      rcases List.mem_append.1 ha with ha | ha
      · exact absurd rfl (hgone a (List.mem_append_left _ ha))
      rcases List.mem_cons.1 ha with rfl | ha
      · exact hcl
      · exact absurd rfl (hgone a (by simp [ha]))

/-- **One turn keeps the list in order**, given distinct jobids. -/
theorem turn_ok {p : Pass} (hd : (p.jobs.map JobObject.jobid).Nodup) : TurnOk p (turn parse sendRetry world p) :=
  ⟨turn_ids parse sendRetry world p, turn_status parse sendRetry world hd, turn_removed parse sendRetry world⟩

theorem turns_distinct {p : Pass} (hd : (p.jobs.map JobObject.jobid).Nodup) (n : Nat) :
    (((turn parse sendRetry world)^[n] p).jobs.map JobObject.jobid).Nodup := by
  induction n with
  | zero => exact hd
  | succ n ih =>
    rw [Function.iterate_succ_apply']
    exact ih.sublist (turn_ids parse sendRetry world _)

/-- The scan adds a jobid only once. -/
theorem jaJobObjectListAdd_distinct (rows : List JobRow) {jobs : List JobObject}
    (hd : (jobs.map JobObject.jobid).Nodup) : ((jaJobObjectListAdd rows jobs).map JobObject.jobid).Nodup := by
  unfold jaJobObjectListAdd
  induction rows.filter (·.status == .begin) generalizing jobs with
  | nil => exact hd
  | cons r rs ih =>
    apply ih
    unfold listAddRow
    split
    · exact hd
    · rename_i hnew
      rw [List.map_append]
      refine List.nodup_append.2 ⟨hd, List.nodup_singleton _, ?_⟩
      intro i hi j hj hij
      obtain ⟨job, hjob, rfl⟩ := List.mem_map.1 hi
      apply hnew
      rw [List.any_eq_true]
      refine ⟨job, hjob, ?_⟩
      simpa [jaJobdbLoad, hij] using hj

/-! ## Leaving an entry -/

/-- The answer of a look: the entry and whether the loop stays at it. -/
def look (job : JobObject) (k : Nat) : Option JobObject × Bool :=
  (processEntry parse sendRetry (world job.jobid k).rows job (world job.jobid k).outcome).2

theorem look_closed {job : JobObject} (hs : job.status = .closed) (k : Nat) :
    look parse sendRetry world job k = (none, false) := by
  rw [look, processEntry, hs]

theorem turn_leaves {job : JobObject} {k : Nat} (seen rest : List JobObject)
    (h : ∀ job', look parse sendRetry world job k ≠ (some job', true)) :
    ∃ seen', turn parse sendRetry world ⟨seen, job :: rest, k⟩ = ⟨seen', rest, 0⟩ := by
  unfold look at h
  unfold turn
  dsimp only
  split
  · rename_i job' heq
    exact absurd heq (h job')
  · exact ⟨_, rfl⟩
  · exact ⟨_, rfl⟩

theorem turn_stays {job job' : JobObject} {k : Nat} (seen rest : List JobObject)
    (h : look parse sendRetry world job k = (some job', true)) :
    turn parse sendRetry world ⟨seen, job :: rest, k⟩ = ⟨seen, job' :: rest, k + 1⟩ := by
  unfold look at h
  unfold turn
  simp only [h]

/-- A look that succeeds at an entry in END closes it. -/
theorem look_ended {job : JobObject} (hs : job.status = .ended) (k : Nat) :
    (look parse sendRetry world job k).2 = false ∨
      ∃ job', look parse sendRetry world job k = (some job', true) ∧ job'.status = .closed := by
  obtain ⟨-, -, hcl⟩ := jaAgentClose_job parse sendRetry hs (world job.jobid k).outcome.exchange
  unfold look processEntry
  rw [hs]
  dsimp only
  cases hret : (jaAgentClose parse sendRetry job (world job.jobid k).outcome.exchange).ret with
  | fail => exact .inl rfl
  | succeed => exact .inr ⟨_, rfl, hcl hret⟩

/-- A look at a running entry: the loop goes on, or the entry is in END, or
it is put back. -/
theorem look_run {job : JobObject} (hs : job.status = .run) (k : Nat) :
    ((look parse sendRetry world job k).2 = false ∧ ¬ (world job.jobid k).PutsBack) ∨
      ∃ job', look parse sendRetry world job k = (some job', true) ∧ job'.jobid = job.jobid ∧
        ((job'.status = .ended ∧ ¬ (world job.jobid k).PutsBack) ∨
          (job'.status = .run ∧ (world job.jobid k).PutsBack)) := by
  obtain ⟨hid, hret, hst⟩ := jaAgentEnd_job (world job.jobid k).rows hs (world job.jobid k).outcome
  unfold look processEntry Look.PutsBack
  rw [hs]
  dsimp only
  by_cases hc : (world job.jobid k).outcome.check = .ended .succeed
  · right
    rw [hret.2 hc]
    refine ⟨_, rfl, hid, ?_⟩
    rw [hst]
    cases hup : (world job.jobid k).outcome.updated with
    | true => simp [hc]
    | false => simp [hc]
  · left
    simp [hc, mt hret.1 hc]

/-- A look at a waiting entry: it runs, or the loop goes on. -/
theorem look_begin {job : JobObject} (hs : job.status = .begin) (k : Nat) :
    ((look parse sendRetry world job k).2 = false ∧ (world job.jobid k).outcome.started = .fail) ∨
      ∃ job', look parse sendRetry world job k = (some job', true) ∧ job'.jobid = job.jobid ∧
        job'.status = .run ∧ (world job.jobid k).outcome.started = .succeed := by
  obtain ⟨hid, hret, hst⟩ := jaAgentRun_job (world job.jobid k).rows job (world job.jobid k).outcome
  unfold look processEntry
  rw [hs]
  dsimp only
  rw [hret]
  cases hrun : (world job.jobid k).outcome.started with
  | fail => exact .inl ⟨rfl, rfl⟩
  | succeed =>
    rw [hrun, if_pos rfl] at hst
    exact .inr ⟨_, rfl, hid, hst, rfl⟩

/-- The loop gets past the entry at `cur`. -/
def Passes (p : Pass) (rest : List JobObject) : Prop :=
  ∃ n seen, (turn parse sendRetry world)^[n] p = ⟨seen, rest, 0⟩

variable {parse sendRetry world}

theorem Passes.now {job : JobObject} {k : Nat} {seen rest : List JobObject}
    (h : (look parse sendRetry world job k).2 = false) :
    Passes parse sendRetry world ⟨seen, job :: rest, k⟩ rest := by
  have hne : ∀ job', look parse sendRetry world job k ≠ (some job', true) := by
    intro job' heq
    rw [heq] at h
    cases h
  obtain ⟨seen', hto⟩ := turn_leaves parse sendRetry world seen rest hne
  exact ⟨1, seen', hto⟩

theorem Passes.later {job job' : JobObject} {k : Nat} {seen rest : List JobObject}
    (hlook : look parse sendRetry world job k = (some job', true))
    (h : Passes parse sendRetry world ⟨seen, job' :: rest, k + 1⟩ rest) :
    Passes parse sendRetry world ⟨seen, job :: rest, k⟩ rest := by
  obtain ⟨n, seen', hn⟩ := h
  refine ⟨n + 1, seen', ?_⟩
  rw [Function.iterate_succ_apply, turn_stays parse sendRetry world seen rest hlook, hn]

theorem passes_ended {job : JobObject} (hs : job.status = .ended) (k : Nat) (seen rest : List JobObject) :
    Passes parse sendRetry world ⟨seen, job :: rest, k⟩ rest := by
  rcases look_ended parse sendRetry world hs k with h | ⟨job', h, hcl⟩
  · exact .now h
  · apply Passes.later h
    apply Passes.now
    rw [look_closed _ _ _ hcl]

/-- A running entry is left at the first look that does not put it back. -/
theorem passes_run {d k : Nat} {job : JobObject} (hs : job.status = .run)
    (hd : ¬ (world job.jobid (k + d)).PutsBack) (seen rest : List JobObject) :
    Passes parse sendRetry world ⟨seen, job :: rest, k⟩ rest := by
  induction d generalizing k job with
  | zero =>
    rcases look_run parse sendRetry world hs k with ⟨h, -⟩ | ⟨job', h, -, ⟨hend, -⟩ | ⟨-, hback⟩⟩
    · exact .now h
    · exact .later h (passes_ended hend _ _ _)
    · exact absurd hback hd
  | succ d ih =>
    rcases look_run parse sendRetry world hs k with ⟨h, -⟩ | ⟨job', h, hid, ⟨hend, -⟩ | ⟨hrun, -⟩⟩
    · exact .now h
    · exact .later h (passes_ended hend _ _ _)
    · apply Passes.later h
      apply ih hrun
      rw [hid, Nat.add_right_comm]
      exact hd

/-- The loop leaves every entry that is not stuck. -/
theorem entry_done {job : JobObject} (h : ¬ Stuck (world job.jobid) job) (seen rest : List JobObject) :
    Passes parse sendRetry world ⟨seen, job :: rest, 0⟩ rest := by
  unfold Stuck at h
  cases hs : job.status with
  | init =>
    apply Passes.now
    rw [look, processEntry, hs]
  | begin =>
    rw [hs] at h
    rcases look_begin parse sendRetry world hs 0 with ⟨hl, -⟩ | ⟨job', hl, hid, hrun, hstart⟩
    · exact .now hl
    · simp only [hstart, true_and, not_forall] at h
      obtain ⟨n, hn, hback⟩ := h
      apply Passes.later hl
      apply passes_run (d := n - 1) hrun
      rw [hid, show 0 + 1 + (n - 1) = n by omega]
      exact hback
  | run =>
    rw [hs] at h
    obtain ⟨n, hback⟩ := not_forall.1 h
    apply passes_run (d := n) hs
    rw [Nat.zero_add]
    exact hback
  | ended => exact passes_ended hs _ _ _
  | closed =>
    apply Passes.now
    rw [look_closed _ _ _ hs]

theorem pass_ends {rest : List JobObject} (h : ∀ job ∈ rest, ¬ Stuck (world job.jobid) job)
    (seen : List JobObject) : ∃ n, ((turn parse sendRetry world)^[n] ⟨seen, rest, 0⟩).rest = [] := by
  induction rest generalizing seen with
  | nil => exact ⟨0, rfl⟩
  | cons job rest ih =>
    have hpass : Passes parse sendRetry world ⟨seen, job :: rest, 0⟩ rest :=
      entry_done (h job List.mem_cons_self) seen rest
    obtain ⟨m, seen', hm⟩ := hpass
    obtain ⟨n, hn⟩ := ih (fun j hj => h j (List.mem_cons_of_mem _ hj)) seen'
    refine ⟨n + m, ?_⟩
    rw [Function.iterate_add_apply, hm, hn]

/-! ## A stuck entry -/

/-- The loop has not got past the entry `job`: it is still ahead, or at
`cur` in RUN with nothing but put-backs to come. -/
def Held (world : World) (job : JobObject) (p : Pass) : Prop :=
  (∃ pre post, p.rest = pre ++ job :: post ∧ (pre = [] → p.looks = 0)) ∨
    ∃ cur post, p.rest = cur :: post ∧ cur.jobid = job.jobid ∧ cur.status = .run ∧
      ∀ k, p.looks ≤ k → (world job.jobid k).PutsBack

theorem held_run {job cur : JobObject} {seen post : List JobObject} {k : Nat} (hid : cur.jobid = job.jobid)
    (hs : cur.status = .run) (hback : ∀ n, k ≤ n → (world job.jobid n).PutsBack) :
    Held world job (turn parse sendRetry world ⟨seen, cur :: post, k⟩) := by
  have hk : (world cur.jobid k).PutsBack := by
    rw [hid]
    exact hback k (Nat.le_refl k)
  rcases look_run parse sendRetry world hs k with ⟨-, hno⟩ | ⟨cur', hl, hid', ⟨-, hno⟩ | ⟨hrun, -⟩⟩
  · exact absurd hk hno
  · exact absurd hk hno
  · rw [turn_stays parse sendRetry world seen post hl]
    exact .inr ⟨cur', post, rfl, hid'.trans hid, hrun, fun n hn => hback n (Nat.le_of_succ_le hn)⟩

theorem held_turn {job : JobObject} (h : Stuck (world job.jobid) job) {p : Pass} (hp : Held world job p) :
    Held world job (turn parse sendRetry world p) := by
  obtain ⟨seen, rest, looks⟩ := p
  rcases hp with ⟨pre, post, hrest, hlooks⟩ | ⟨cur, post, hrest, hid, hs, hback⟩
  · dsimp only at hrest hlooks
    subst hrest
    cases pre with
    | nil =>
      -- the first look at the entry
      obtain rfl := hlooks rfl
      unfold Stuck at h
      cases hs : job.status with
      | run =>
        rw [hs] at h
        exact held_run rfl hs fun n _ => h n
      | begin =>
        rw [hs] at h
        rcases look_begin parse sendRetry world hs 0 with ⟨-, hno⟩ | ⟨job', hl, hid, hrun, -⟩
        · rw [h.1] at hno
          cases hno
        · rw [List.nil_append, turn_stays parse sendRetry world seen post hl]
          exact .inr ⟨job', post, rfl, hid, hrun, h.2⟩
      | init => simp [hs] at h
      | ended => simp [hs] at h
      | closed => simp [hs] at h
    | cons cur pre =>
      by_cases hstay : ∃ cur', look parse sendRetry world cur looks = (some cur', true)
      · obtain ⟨cur', hl⟩ := hstay
        rw [List.cons_append, turn_stays parse sendRetry world seen (pre ++ job :: post) hl]
        exact .inl ⟨cur' :: pre, post, rfl, fun hnil => absurd hnil (List.cons_ne_nil _ _)⟩
      · obtain ⟨seen', hto⟩ := turn_leaves parse sendRetry world seen (pre ++ job :: post)
          (not_exists.1 hstay)
        rw [List.cons_append, hto]
        exact .inl ⟨pre, post, rfl, fun _ => rfl⟩
  · dsimp only at hrest hback
    subst hrest
    exact held_run hid hs hback

/-- The pass never gets past a stuck entry. -/
theorem stuck_never_ends {job : JobObject} {rest : List JobObject} (hjob : job ∈ rest)
    (h : Stuck (world job.jobid) job) (seen : List JobObject) (n : Nat) :
    ((turn parse sendRetry world)^[n] ⟨seen, rest, 0⟩).rest ≠ [] := by
  have hheld : Held world job ((turn parse sendRetry world)^[n] ⟨seen, rest, 0⟩) := by
    induction n with
    | zero =>
      obtain ⟨pre, post, hrest⟩ := List.append_of_mem hjob
      exact .inl ⟨pre, post, hrest, fun _ => rfl⟩
    | succ n ih =>
      rw [Function.iterate_succ_apply']
      exact held_turn h ih
  rcases hheld with ⟨pre, post, hrest, -⟩ | ⟨cur, post, hrest, -⟩
  · rw [hrest]
    simp
  · rw [hrest]
    simp

end

/-- **A pass of the executive is well behaved exactly when no entry is
stuck**: for every list with distinct jobids, with or without a scan for
new jobs, and every world. -/
theorem executive_pass_iff (parse : Text → Option Json) (sendRetry : Nat) (world : World) (flag selected : Bool)
    (rows : List JobRow) (jobs : List JobObject) (hd : (jobs.map JobObject.jobid).Nodup) :
    WellBehaved parse sendRetry world (passStart flag selected rows jobs) ↔
      ∀ job ∈ (passStart flag selected rows jobs).jobs, ¬ Stuck (world job.jobid) job := by
  have hstart : ((passStart flag selected rows jobs).jobs.map JobObject.jobid).Nodup := by
    unfold passStart Pass.jobs
    split
    · exact jaJobObjectListAdd_distinct rows hd
    · exact hd
  constructor
  · intro hwell job hjob hstuck
    obtain ⟨n, hn⟩ := hwell.ends
    exact stuck_never_ends hjob hstuck [] n hn
  · intro hfree
    refine ⟨pass_ends hfree [], turns_distinct parse sendRetry world hstart, fun n => ?_⟩
    rw [Function.iterate_succ_apply']
    exact turn_ok parse sendRetry world (turns_distinct parse sendRetry world hstart n)

/-- A running job, and one that waits behind it. -/
def runningJobs : List JobObject :=
  [{ endedJob with status := .run }, { endedJob with jobid := 2, status := .begin }]

/-- The first job has ended; whether the database takes updates. -/
def diskWorld (updated : Bool) : World := fun _ _ =>
  ⟨[], ⟨.succeed, .ended .succeed, .recvFails, updated⟩⟩

/-- With a database that takes no updates the pass never ends. -/
theorem pass_never_ends (n : Nat) :
    ((turn (fun _ => none) 5 (diskWorld false))^[n] (passStart false true [] runningJobs)).rest ≠ [] := by
  have hstuck : Stuck (diskWorld false 1) { endedJob with status := .run } := fun _ => ⟨rfl, rfl⟩
  exact stuck_never_ends List.mem_cons_self hstuck [] n

/-- The pass over the two jobs is not well behaved when no update succeeds. -/
theorem executive_hangs :
    (runningJobs.map JobObject.jobid).Nodup ∧
      ¬ WellBehaved (fun _ => none) 5 (diskWorld false) (passStart false true [] runningJobs) := by
  refine ⟨by decide, fun h => ?_⟩
  obtain ⟨n, hn⟩ := h.ends
  exact pass_never_ends n hn

theorem executive_pass_iff_disk :
    WellBehaved (fun _ => none) 5 (diskWorld true) (passStart false true [] runningJobs) := by
  rw [executive_pass_iff _ _ _ _ _ _ _ (by decide)]
  intro job hjob hstuck
  have hmem : job = { endedJob with status := .run } ∨ job = { endedJob with jobid := 2, status := .begin } := by
    simpa [passStart, Pass.jobs, runningJobs] using hjob
  rcases hmem with rfl | rfl
  · exact absurd (hstuck 0).2 (by decide)
  · exact absurd (hstuck.2 1 (Nat.le_refl 1)).2 (by decide)

end JobArranger.Agent
