import JobArranger.L2Status.Flow

/-!
# Rejected flows

When a flow cannot be fired (its target is missing, already finished or
still active, or its jobnet link is missing) `ja_flow_set_status` records
ENDERR on the start icon and returns `SUCCEED`. The loop of `ja_flow` goes
on and closes with `ja_set_end`, which writes END over it.

* `rejects`: the rejection branches on the current tables; `flowRejected`:
  some selected flow is rejected in the state the loop reaches it in.
* `jaFlow_rejected`: whenever that happens, `ja_flow` returns `SUCCEED` and
  the icon is in END: the recorded error never survives.
-/
namespace JobArranger

open Tables

/-- The rejection branches of `ja_flow_set_status`.
mirrors src/jalibs/jaflow.c:72-122 -/
def rejects (t : Tables) (endInnerJobId : Id) : Bool :=
  match t.job? endInnerJobId with
  | none => true
  | some j =>
    match flowCount j with
    | .keep => false
    | .reject => true
    | .count status _ => j.jobType = .jobnet ∧ status = .ready ∧ (t.iconJobnet? endInnerJobId).isNone

theorem jaFlowSetStatus_rejects {t : Tables} {i k : Id} (h : rejects t k) :
    jaFlowSetStatus t i k = jaSetEnderr t i true := by
  unfold rejects at h
  unfold jaFlowSetStatus
  cases hj : t.job? k with
  | none => rfl
  | some j =>
    simp only [hj] at h ⊢
    cases hc : flowCount j with
    | keep => simp [hc] at h
    | reject => rfl
    | count s n =>
      simp only [hc, decide_eq_true_eq] at h
      have hl : t.iconJobnet? k = none := by simpa using h.2.2
      simp only [h.1, h.2.1, and_self, if_true, hl]

/-- Some flow of the rest of the loop is rejected, in the tables the loop
has when it gets there. -/
def loopRejects (innerJobId : Id) (type : FlowType) : List Flow → Tables → Bool
  | [], _ => false
  | f :: fs, t =>
    if flowSelected type f.flowType then
      rejects t f.endInnerJobId ||
        match jaFlowSetStatus t innerJobId f.endInnerJobId with
        | (t', .succeed) => loopRejects innerJobId type fs t'
        | (_, .fail) => false
    else loopRejects innerJobId type fs t

/-- `ja_flow(i, type, …)` meets a rejection. -/
def flowRejected (t : Tables) (i : Id) (type : FlowType) : Bool :=
  loopRejects i type (flowsFrom t i) (jaCleanValueAfter t i).1

/-- What the schema promises of the tables: `inner_job_id` is the primary
key of jobs and not 0, `inner_jobnet_id` a foreign key, `seq_no` unique;
and the loader fails unless it writes an agentless row for every agentless
icon (jaloader.c:1360-1378). -/
structure Schema (t : Tables) : Prop where
  jobKey : (t.jobs.map Job.innerJobId).Nodup
  jobId : ∀ j ∈ t.jobs, j.innerJobId ≠ 0
  jobJobnet : ∀ j ∈ t.jobs, ∃ n ∈ t.jobnets, n.innerJobnetId = j.innerJobnetId
  agentless : ∀ j ∈ t.jobs, j.jobType = .less →
    (Table.lookup IconAgentless.innerJobId j.innerJobId t.agentless).isSome
  afterSeq : (t.after.map ValueRow.seqNo).Nodup

/-- Icon `i` can be logged, and stays so while its flows fire. -/
structure Loggable (t : Tables) (i : Id) : Prop where
  id : i ≠ 0
  ready : ∃ j, LogReady t j ∧ j.innerJobId = i
  afterSeq : (t.after.map ValueRow.seqNo).Nodup

theorem Schema.loggable {t : Tables} (h : Schema t) {a : Job} (ha : a ∈ t.jobs) :
    Loggable t a.innerJobId :=
  ⟨h.jobId a ha, ⟨a, ⟨Table.lookup_eq h.jobKey ha, h.jobJobnet a ha, h.agentless a ha⟩, rfl⟩, h.afterSeq⟩

theorem Loggable.of_steps {t t' : Tables} {i : Id} (h : Loggable t i) (hs : FlowSteps i t t')
    (ha : t'.after.Sublist t.after) : Loggable t' i := by
  obtain ⟨j, hj, rfl⟩ := h.ready
  have hst := job?_static hs.static j.innerJobId
  rw [hj.row, Option.map_some, Option.map_eq_some_iff] at hst
  obtain ⟨j', hrow, he⟩ := hst
  have hsame := SameJob.of_static he
  refine ⟨h.id, ⟨j', ⟨hsame.id ▸ hrow, ?_, ?_⟩, hsame.id⟩, (ha.map _).nodup h.afterSeq⟩
  · rw [hs.sameNets.jobnets, hsame.jobnet]
    exact hj.jobnet
  · rw [hs.sameNets.agentless, hsame.type, hsame.id]
    exact hj.agentless

theorem cleanRows_sublist (rows : List ValueRow) (i : Id) : (cleanRows rows i).Sublist rows :=
  List.filter_sublist

/-- A clean, then the end message: both status functions of an icon start so. -/
theorem Loggable.log {t : Tables} {i : Id} (h : Loggable t i) (msg : LogMsg) :
    ∃ t', (andThen (jaCleanValueAfter t i) fun t => jaJoblog t msg 0 i) = (t', .succeed) ∧
      StatusEq t t' ∧ t'.after = cleanRows t.after i := by
  have hc := h.of_steps (frame_steps (jaCleanValueAfter_status t i)) (cleanRows_sublist _ i)
  obtain ⟨j, hj, rfl⟩ := hc.ready
  have hlog : (jaJoblog (jaCleanValueAfter t j.innerJobId).1 msg 0 j.innerJobId).2 = .succeed :=
    jaJoblog_job hj hc.id (fun name => cleanRows_rowsOf h.afterSeq _ name) msg
  refine ⟨(jaJoblog (jaCleanValueAfter t j.innerJobId).1 msg 0 j.innerJobId).1, ?_, ?_, ?_⟩
  · exact Prod.ext rfl hlog
  · exact (jaCleanValueAfter_status t _).trans (jaJoblog_status _ _ _ _)
  · exact jaJoblog_after _ _ _ _

theorem jaSetEnderr_ok {t : Tables} {i : Id} (h : Loggable t i) :
    ∃ t', jaSetEnderr t i true = (t', .succeed) ∧ Loggable t' i := by
  obtain ⟨t₁, h₁, -, ha⟩ := h.log .jobErrEnd
  have hres : jaSetEnderr t i true = ((jaSetStatusJob t₁ i .endErr).1, .succeed) := by
    change andThen (andThen (jaCleanValueAfter t i) fun t => jaJoblog t .jobErrEnd 0 i) _ = _
    rw [h₁]
    rfl
  refine ⟨_, hres, h.of_steps ?_ (show t₁.after.Sublist t.after from ha ▸ cleanRows_sublist _ i)⟩
  have hst := jaSetEnderr_steps t i true
  rwa [hres] at hst

theorem jaSetEnd_ok {t : Tables} {i : Id} (h : Loggable t i) :
    ∃ t', jaSetEnd t i true = (t', .succeed) ∧ (t'.job? i).map Job.status = some .ended := by
  obtain ⟨t₁, h₁, hst, -⟩ := h.log .jobEnd
  refine ⟨(jaSetStatusJob t₁ i .ended).1, ?_, ?_⟩
  · change andThen (andThen (jaCleanValueAfter t i) fun t => jaJoblog t .jobEnd 0 i) _ = _
    rw [h₁]
    rfl
  · obtain ⟨j, hj, rfl⟩ := h.ready
    have hrow : t₁.job? j.innerJobId = some j := by
      rw [Tables.job?, hst.jobs]
      exact hj.row
    rw [job?_jaSetStatusJob, hrow]
    simp

theorem jaFlowSetStatus_ok {t : Tables} {i : Id} {f : Flow} (h : Loggable t i) (ho : FlowOpen t i)
    (hf : f ∈ flowsFrom t i) :
    ∃ t', jaFlowSetStatus t i f.endInnerJobId = (t', .succeed) ∧ Loggable t' i := by
  by_cases hrej : rejects t f.endInnerJobId
  · rw [jaFlowSetStatus_rejects hrej]
    exact jaSetEnderr_ok h
  · have hsteps := jaFlowSetStatus_steps ho hf
    unfold rejects at hrej
    unfold jaFlowSetStatus at hsteps ⊢
    cases hj : t.job? f.endInnerJobId with
    | none => simp [hj] at hrej
    | some j =>
      simp only [hj] at hrej hsteps ⊢
      cases hc : flowCount j with
      | keep => exact ⟨t, rfl, h⟩
      | reject => simp [hc] at hrej
      | count s n =>
        simp only [hc] at hrej hsteps ⊢
        split at hsteps
        · rename_i hjn
          cases hl : t.iconJobnet? f.endInnerJobId with
          | none => simp [hjn.1, hjn.2, hl] at hrej
          | some link =>
            simp only [hl, hjn, and_self, if_true] at hsteps ⊢
            exact ⟨_, rfl, h.of_steps hsteps (List.Sublist.refl _)⟩
        · rename_i hjn
          simp only [hjn, if_false] at hsteps ⊢
          exact ⟨_, rfl, h.of_steps hsteps (List.Sublist.refl _)⟩

theorem flowLoop_ok {i : Id} {type : FlowType} :
    ∀ {l : List Flow} {t : Tables}, Loggable t i → FlowOpen t i → (∀ f ∈ l, f ∈ flowsFrom t i) →
      ∃ t', flowLoop i type l t = (t', .succeed) ∧ Loggable t' i
  | [], t, h, _, _ => ⟨t, rfl, h⟩
  | f :: fs, t, h, ho, hfs => by
    rw [flowLoop]
    split
    · obtain ⟨t₁, h₁, hl₁⟩ := jaFlowSetStatus_ok h ho (hfs f List.mem_cons_self)
      have hs := jaFlowSetStatus_steps ho (hfs f List.mem_cons_self)
      rw [h₁] at hs
      rw [h₁, andThen_succeed]
      refine flowLoop_ok hl₁ (ho.congr hs.sameNets) fun g hg => ?_
      rw [flowsFrom_congr hs.sameNets.flows]
      exact hfs g (List.mem_cons_of_mem _ hg)
    · exact flowLoop_ok h ho fun g hg => hfs g (List.mem_cons_of_mem _ hg)

/-- A completion of an icon of a running jobnet always leaves it in END. -/
theorem jaFlow_ended {t : Tables} {i : Id} (h : Loggable t i) (ho : FlowOpen t i) (type : FlowType) :
    ∃ t', jaFlow t i type true = (t', .succeed) ∧ (t'.job? i).map Job.status = some .ended := by
  have hst := jaCleanValueAfter_status t i
  have hc := h.of_steps (frame_steps hst) (cleanRows_sublist _ i)
  obtain ⟨f, fs, hfs, hs⟩ := ho
  have ho' : FlowOpen (jaCleanValueAfter t i).1 i := ⟨f, fs, hfs, hs⟩
  have hloop : ∃ t', flowLoop i type (flowsFrom t i) (jaCleanValueAfter t i).1 = (t', .succeed) ∧ Loggable t' i :=
    flowLoop_ok hc ho' fun g hg => hg
  obtain ⟨t₁, h₁, hl₁⟩ := hloop
  obtain ⟨t₂, h₂, he⟩ := jaSetEnd_ok hl₁
  refine ⟨t₂, ?_, he⟩
  rw [jaFlow_running ⟨f, fs, hfs, hs⟩, h₁, andThen_succeed, h₂]

/-- When `ja_flow(i, type, 1)` returns, icon `i` is in ENDERR. -/
def ReportsRejection (t : Tables) (i : Id) (type : FlowType) : Prop :=
  ((jaFlow t i type true).1.job? i).map Job.status = some .endErr

instance (t : Tables) (i : Id) (type : FlowType) : Decidable (ReportsRejection t i type) :=
  inferInstanceAs (Decidable (_ = _))

/-- **A rejection is always reported as success.** On every table state of
the schema, for every icon of a running jobnet one of whose selected flows
is rejected: `ja_flow` returns `SUCCEED`, the icon is in END, never in
ENDERR. -/
theorem jaFlow_rejected (t : Tables) (a : Job) (type : FlowType) (hs : Schema t) (ha : a ∈ t.jobs)
    (ho : FlowOpen t a.innerJobId) (_hr : flowRejected t a.innerJobId type) :
    (jaFlow t a.innerJobId type true).2 = .succeed ∧
      ((jaFlow t a.innerJobId type true).1.job? a.innerJobId).map Job.status = some .ended ∧
      ¬ReportsRejection t a.innerJobId type := by
  obtain ⟨t', h, he⟩ := jaFlow_ended (hs.loggable ha) ho type
  refine ⟨by rw [h], by rw [h]; exact he, ?_⟩
  rw [ReportsRejection, h, he]
  decide

/-- A running jobnet 1 with jobs 1 → 2, where 2 is already RUN. -/
def rejectTables : Tables :=
  { Tables.empty with
    jobs := [⟨1, 1, 1, false, .job, false, .normal, false, .run, 0, 0, "A", false⟩,
             ⟨2, 1, 1, false, .job, false, .normal, false, .run, 1, 1, "B", false⟩]
    flows := [⟨1, 1, 1, 2, .normal⟩]
    jobnets := [⟨1, 1, 0, 0, .normal, true, false, .run, 0, .on, "NET", "NET", "user"⟩] }

theorem rejectTables_schema : Schema rejectTables := by
  refine ⟨by decide, by decide, ?_, by decide, by decide⟩
  simp [rejectTables]

/-- The rejected flow 1 → 2 leaves icon 1 in END. -/
theorem rejection_lost : flowRejected rejectTables 1 .normal = true ∧
    ¬ReportsRejection rejectTables 1 .normal := by decide

theorem jaFlow_rejected_rejectTables :
    flowRejected rejectTables 1 .normal = true ∧ ¬ReportsRejection rejectTables 1 .normal :=
  ⟨by decide, (jaFlow_rejected rejectTables
    ⟨1, 1, 1, false, .job, false, .normal, false, .run, 0, 0, "A", false⟩ .normal rejectTables_schema
    (by decide) ⟨⟨1, 1, 1, 2, .normal⟩, [], by decide, .inl (by decide)⟩ (by decide)).2.2⟩

end JobArranger
