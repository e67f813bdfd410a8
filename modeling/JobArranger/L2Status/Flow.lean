import JobArranger.L2Status.Status
import Mathlib.Logic.Relation

/-!
# Firing the flows of an icon (`jalibs/jaflow.c`)

When an icon completes, `ja_flow` fires its outgoing flows:
`ja_flow_set_status` counts up `end_count` of each target and makes it
READY once `boot_count` is reached. `flowCount` is the decision on the
target row alone, shared with the statement-level model of concurrent
callers (`L4Join.Race`).

* `FlowStep`: everything a call of `ja_flow` or `ja_set_runerr` can write to
  the status tables, one write at a time. `jaFlow_steps` and
  `jaSetRunerr_steps` say the calls are sequences of them; every invariant
  of the server is checked against `FlowStep` once.
* `jaFlow_running`, `jaFlow_not_running`, `jaFlow_no_flows`: the three ways
  through `ja_flow`.
-/
namespace JobArranger

open Tables

/-- What `ja_flow_set_status` does with the target row: nothing (test mode),
record an error on the start icon, or write status and `end_count`. -/
inductive FlowAct where
  | keep
  | reject
  | count (status : Status) (endCount : Nat)
  deriving DecidableEq, Repr

/-- The decision between the two SQL statements on the target row.
mirrors src/jalibs/jaflow.c:80-122 -/
def flowCount (j : Job) : FlowAct :=
  let reset : Bool := j.status = .ended ∨ j.status = .runErr
  if reset ∧ j.testFlag then .keep
  else if reset ∧ j.jobType = .endIcon then .reject
  else
    let status := if reset then .begin else j.status
    let endCount := if reset then 0 else j.endCount
    if status = .begin then
      if j.jobType = .ifend ∨ j.jobType = .l then .count .ready (endCount + 1)
      else if j.bootCount ≤ endCount + 1 then .count .ready (endCount + 1)
      else .count .begin (endCount + 1)
    else if j.testFlag then .keep
    else .reject

/-- The decision on an AND-join in BEGIN. -/
theorem flowCount_begin {j : Job} (hs : j.status = .begin) (hi : j.jobType ≠ .ifend)
    (hl : j.jobType ≠ .l) :
    flowCount j =
      .count (if j.bootCount ≤ j.endCount + 1 then .ready else .begin) (j.endCount + 1) := by
  unfold flowCount
  simp only [hs, hi, hl, or_self, if_false, reduceCtorEq, decide_false, Bool.false_eq_true, false_and,
    if_true]
  split <;> rfl

/-- A flow only counts up icons in BEGIN, END or RUNERR. -/
theorem flowCount_count {j : Job} {s : Status} {n : Nat} (h : flowCount j = .count s n) :
    (s = .begin ∨ s = .ready) ∧ (j.status = .begin ∨ j.status = .ended ∨ j.status = .runErr) := by
  have hs : s = .begin ∨ s = .ready := by
    unfold flowCount at h
    dsimp only at h
    repeat' split at h
    all_goals cases h
    all_goals simp
  refine ⟨hs, ?_⟩
  cases hj : j.status with
  | begin => exact .inl rfl
  | ended => exact .inr (.inl rfl)
  | runErr => exact .inr (.inr rfl)
  | ready | run | endErr | abort => cases ht : j.testFlag <;> simp [flowCount, hj, ht] at h

/-- The target row as `flowCount` decided. -/
def setCount (t : Tables) (i : Id) (status : Status) (endCount : Nat) : Tables :=
  t.updateJobs (·.innerJobId == i) fun j => { j with status, endCount }

/-- `update ja_run_job_table set status = BEGIN, end_count = 0 where
inner_jobnet_id = n`. -/
def resetJobs (t : Tables) (n : Id) : Tables :=
  t.updateJobs (·.innerJobnetId == n) fun j => { j with status := .begin, endCount := 0 }

/-- mirrors src/jalibs/jaflow.c:50-160 -/
def jaFlowSetStatus (t : Tables) (startInnerJobId endInnerJobId : Id) : Tables × Ret :=
  match t.job? endInnerJobId with
  | none => jaSetEnderr t startInnerJobId true
  | some j =>
    match flowCount j with
    | .keep => (t, .succeed)
    | .reject => jaSetEnderr t startInnerJobId true
    | .count status endCount =>
      if j.jobType = .jobnet ∧ status = .ready then
        match t.iconJobnet? endInnerJobId with
        | none => jaSetEnderr t startInnerJobId true
        | some link =>
          let t := resetJobs t link.linkInnerJobnetId
          jaValueAfterBefore (setCount t endInnerJobId status endCount) startInnerJobId endInnerJobId
      else
        jaValueAfterBefore (setCount t endInnerJobId status endCount) startInnerJobId endInnerJobId

def flowsFrom (t : Tables) (i : Id) : List Flow := t.flows.filter fun f => f.startInnerJobId == i

/-- Which flows a completion of this type fires.
mirrors src/jalibs/jaflow.c:218-221 -/
def flowSelected (type flowType : FlowType) : Bool :=
  flowType = type ∨ (type = .normal ∧ (flowType = .onTrue ∨ flowType = .onFalse))

/-- The fetch loop of `ja_flow`, after the jobnet check of its first row. -/
def flowLoop (innerJobId : Id) (type : FlowType) : List Flow → Tables → Tables × Ret
  | [], t => (t, .succeed)
  | f :: fs, t =>
    if flowSelected type f.flowType then
      andThen (jaFlowSetStatus t innerJobId f.endInnerJobId) fun t => flowLoop innerJobId type fs t
    else flowLoop innerJobId type fs t

/-- mirrors src/jalibs/jaflow.c:175-236 -/
def jaFlow (t : Tables) (innerJobId : Id) (type : FlowType) (msgFlag : Bool) : Tables × Ret :=
  andThen (jaCleanValueAfter t innerJobId) fun t =>
  match flowsFrom t innerJobId with
  | [] => jaSetEnderr t innerJobId true
  | f :: fs =>
    match jaGetStatusJobnet t f.innerJobnetId with
    | some .run | some .runErr =>
      andThen (flowLoop innerJobId type (f :: fs) t) fun t => jaSetEnd t innerJobId msgFlag
    | _ =>
      -- `-99` never continues with `ja_flow`, so the continuation is not used
      jaSetRunerrWith (fun t => (t, .fail)) t innerJobId (-99)

/-- mirrors src/jalibs/jastatus.c:581-673 -/
def jaSetRunerr (t : Tables) (innerJobId : Id) (iconStatus : Int) : Tables × Ret :=
  jaSetRunerrWith (fun t => jaFlow t innerJobId .normal false) t innerJobId iconStatus

/-- Only the jobs agree up to the writes of the status columns; the other
status tables are equal. -/
structure SameNets (t t' : Tables) : Prop where
  flows : t'.flows = t.flows
  jobnets : t'.jobnets = t.jobnets
  summaries : t'.summaries = t.summaries
  iconJobnets : t'.iconJobnets = t.iconJobnets
  agentless : t'.agentless = t.agentless

/-- The jobnet that owns `i`'s flows is in RUN or RUNERR. -/
def FlowOpen (t : Tables) (i : Id) : Prop :=
  ∃ f fs, flowsFrom t i = f :: fs ∧
    (jaGetStatusJobnet t f.innerJobnetId = some .run ∨ jaGetStatusJobnet t f.innerJobnetId = some .runErr)

/-- One write of `ja_flow(i, …)` or `ja_set_runerr(i, …)` to the status
tables. -/
inductive FlowStep (i : Id) : Tables → Tables → Prop where
  /-- variables and log only -/
  | frame {t t' : Tables} : StatusEq t t' → FlowStep i t t'
  /-- the icon itself ends -/
  | own (t : Tables) (s : Status) : s = .ended ∨ s = .endErr ∨ s = .runErr →
      FlowStep i t (jaSetStatusJob t i s).1
  /-- a flow counts up its target -/
  | fire {t : Tables} {f : Flow} {j : Job} {s : Status} {n : Nat} : FlowOpen t i →
      f ∈ flowsFrom t i → t.job? f.endInnerJobId = some j → flowCount j = .count s n →
      ¬(j.jobType = .jobnet ∧ s = .ready) → FlowStep i t (setCount t f.endInnerJobId s n)
  /-- a flow makes a jobnet icon READY: the jobs of its jobnet are reset first -/
  | fireJobnet {t : Tables} {f : Flow} {j : Job} {link : IconJobnet} {n : Nat} : FlowOpen t i →
      f ∈ flowsFrom t i → t.job? f.endInnerJobId = some j → flowCount j = .count .ready n →
      j.jobType = .jobnet → t.iconJobnet? f.endInnerJobId = some link →
      FlowStep i t (setCount (resetJobs t link.linkInnerJobnetId) f.endInnerJobId .ready n)

abbrev FlowSteps (i : Id) : Tables → Tables → Prop := Relation.ReflTransGen (FlowStep i)

/-! ## What no write changes -/

/-- A job row without its status columns. -/
def Job.static (j : Job) : Job := { j with status := .begin, endCount := 0 }

/-- A job row without the columns that change while it runs. -/
def Job.shape (j : Job) : Job :=
  { j with status := .begin, endCount := 0, timeoutFlag := false, methodFlag := .normal }

/-- The columns of `Job.shape` the server reads agree. -/
structure SameIcon (j j' : Job) : Prop where
  id : j'.innerJobId = j.innerJobId
  jobnet : j'.innerJobnetId = j.innerJobnetId
  main : j'.innerJobnetMainId = j.innerJobnetMainId
  type : j'.jobType = j.jobType
  test : j'.testFlag = j.testFlag
  cont : j'.continueFlag = j.continueFlag

theorem SameIcon.of_shape {j j' : Job} (h : j'.shape = j.shape) : SameIcon j j' := by
  simp only [Job.shape, Job.mk.injEq] at h
  obtain ⟨h1, h2, h3, -, h5, h6, -, -, -, -, -, -, h13⟩ := h
  exact ⟨h1, h2, h3, h5, h6, h13⟩

/-- The columns that identify a job and its place agree. -/
structure SameJob (j j' : Job) : Prop where
  id : j'.innerJobId = j.innerJobId
  jobnet : j'.innerJobnetId = j.innerJobnetId
  main : j'.innerJobnetMainId = j.innerJobnetMainId
  type : j'.jobType = j.jobType
  cont : j'.continueFlag = j.continueFlag
  boot : j'.bootCount = j.bootCount
  test : j'.testFlag = j.testFlag
  method : j'.methodFlag = j.methodFlag

theorem SameJob.of_static {j j' : Job} (h : j'.static = j.static) : SameJob j j' := by
  simp only [Job.static, Job.mk.injEq, true_and] at h
  obtain ⟨h1, h2, h3, -, h5, h6, h7, -, h9, -, h11⟩ := h
  exact ⟨h1, h2, h3, h5, h11, h9, h6, h7⟩

theorem SameNets.trans {t t' t'' : Tables} (h : SameNets t t') (h' : SameNets t' t'') :
    SameNets t t'' :=
  ⟨h'.flows.trans h.flows, h'.jobnets.trans h.jobnets, h'.summaries.trans h.summaries,
    h'.iconJobnets.trans h.iconJobnets, h'.agentless.trans h.agentless⟩

theorem FlowStep.sameNets {i : Id} {t t' : Tables} (h : FlowStep i t t') : SameNets t t' := by
  cases h with
  | frame h => exact ⟨h.flows, h.jobnets, h.summaries, h.iconJobnets, h.agentless⟩
  | own s _ => exact ⟨rfl, rfl, rfl, rfl, rfl⟩
  | fire => exact ⟨rfl, rfl, rfl, rfl, rfl⟩
  | fireJobnet => exact ⟨rfl, rfl, rfl, rfl, rfl⟩

theorem FlowSteps.sameNets {i : Id} {t t' : Tables} (h : FlowSteps i t t') : SameNets t t' := by
  induction h with
  | refl => exact ⟨rfl, rfl, rfl, rfl, rfl⟩
  | tail _ h ih => exact ih.trans h.sameNets

theorem static_updateJobs (t : Tables) (p : Job → Bool) (f : Job → Job)
    (hf : ∀ j, (f j).static = j.static) :
    (t.updateJobs p f).jobs.map Job.static = t.jobs.map Job.static :=
  Table.map_update Job.static p f t.jobs hf

@[simp] theorem static_setCount (t : Tables) (i : Id) (s : Status) (n : Nat) :
    (setCount t i s n).jobs.map Job.static = t.jobs.map Job.static :=
  static_updateJobs t _ _ fun _ => rfl

@[simp] theorem static_resetJobs (t : Tables) (n : Id) :
    (resetJobs t n).jobs.map Job.static = t.jobs.map Job.static :=
  static_updateJobs t _ _ fun _ => rfl

theorem FlowStep.static {i : Id} {t t' : Tables} (h : FlowStep i t t') :
    t'.jobs.map Job.static = t.jobs.map Job.static := by
  cases h with
  | frame h => rw [h.jobs]
  | own s _ => exact static_updateJobs _ _ _ fun _ => rfl
  | fire => exact static_setCount t _ _ _
  | fireJobnet => rw [static_setCount, static_resetJobs]

theorem FlowSteps.static {i : Id} {t t' : Tables} (h : FlowSteps i t t') :
    t'.jobs.map Job.static = t.jobs.map Job.static := by
  induction h with
  | refl => rfl
  | tail _ h ih => exact h.static.trans ih

/-- A lookup only depends on the static columns. -/
theorem job?_static {t t' : Tables} (h : t'.jobs.map Job.static = t.jobs.map Job.static) (i : Id) :
    (t'.job? i).map Job.static = (t.job? i).map Job.static := by
  have key : ∀ l : List Job, (Table.lookup Job.innerJobId i l).map Job.static =
      Table.lookup Job.innerJobId i (l.map Job.static) := by
    intro l
    simp only [Table.lookup, List.find?_map]
    rfl
  unfold Tables.job?
  rw [key, key, h]

theorem shape_of_static {t t' : Tables} (h : t'.jobs.map Job.static = t.jobs.map Job.static) :
    t'.jobs.map Job.shape = t.jobs.map Job.shape := by
  have hs : Job.shape = (fun j : Job => j.shape) ∘ Job.static := by
    funext j
    rfl
  rw [hs, ← List.map_map, ← List.map_map, h]

theorem shape_updateJobs (t : Tables) (p : Job → Bool) (f : Job → Job) (hf : ∀ j, (f j).shape = j.shape) :
    (t.updateJobs p f).jobs.map Job.shape = t.jobs.map Job.shape :=
  Table.map_update Job.shape p f t.jobs hf

theorem job?_shape {t t' : Tables} (h : t'.jobs.map Job.shape = t.jobs.map Job.shape) (i : Id) :
    (t'.job? i).map Job.shape = (t.job? i).map Job.shape := by
  have key : ∀ l : List Job, (Table.lookup Job.innerJobId i l).map Job.shape =
      (l.map Job.shape).find? fun s => s.innerJobId == i := by
    intro l
    simp only [Table.lookup, List.find?_map]
    rfl
  rw [Tables.job?, Tables.job?, key, key, h]

theorem flowsFrom_congr {t t' : Tables} (h : t'.flows = t.flows) (i : Id) :
    flowsFrom t' i = flowsFrom t i := by rw [flowsFrom, flowsFrom, h]

theorem FlowOpen.congr {t t' : Tables} (h : SameNets t t') {i : Id} (ho : FlowOpen t i) :
    FlowOpen t' i := by
  simpa only [FlowOpen, flowsFrom, jaGetStatusJobnet, Tables.jobnet?, h.flows, h.jobnets] using ho

theorem job?_setCount (t : Tables) (i k : Id) (s : Status) (n : Nat) :
    (setCount t i s n).job? k =
      (t.job? k).map fun j => if j.innerJobId == i then { j with status := s, endCount := n } else j :=
  job?_updateJobs t _ _ k fun _ => rfl

theorem job?_resetJobs (t : Tables) (n k : Id) :
    (resetJobs t n).job? k = (t.job? k).map fun j =>
      if j.innerJobnetId == n then { j with status := .begin, endCount := 0 } else j :=
  job?_updateJobs t _ _ k fun _ => rfl

/-! ## The ways through `ja_flow` -/

theorem jaSetRunerrWith_stop (flow flow' : Tables → Tables × Ret) (t : Tables) (i : Id) :
    jaSetRunerrWith flow t i (-99) = jaSetRunerrWith flow' t i (-99) := by
  simp [jaSetRunerrWith]

theorem jaFlow_running {t : Tables} {i : Id} (ho : FlowOpen t i) (type : FlowType) (msg : Bool) :
    jaFlow t i type msg =
      andThen (flowLoop i type (flowsFrom t i) (jaCleanValueAfter t i).1) fun t => jaSetEnd t i msg := by
  obtain ⟨f, fs, hfs, hs⟩ := ho
  have hs' : jaGetStatusJobnet (jaCleanValueAfter t i).1 f.innerJobnetId = some .run ∨
      jaGetStatusJobnet (jaCleanValueAfter t i).1 f.innerJobnetId = some .runErr := hs
  have hfs' : flowsFrom (jaCleanValueAfter t i).1 i = f :: fs := hfs
  rw [hfs, jaFlow, show jaCleanValueAfter t i = ((jaCleanValueAfter t i).1, .succeed) from rfl,
    andThen_succeed]
  rcases hs' with hs' | hs' <;> simp only [hfs', hs']

/-- Outside RUN and RUNERR the completion is a run error of the icon. -/
theorem jaFlow_not_running {t : Tables} {i : Id} (hf : flowsFrom t i ≠ []) (ho : ¬FlowOpen t i)
    (type : FlowType) (msg : Bool) :
    jaFlow t i type msg = jaSetRunerr (jaCleanValueAfter t i).1 i (-99) := by
  obtain ⟨f, fs, hfs⟩ := List.exists_cons_of_ne_nil hf
  have hfs' : flowsFrom (jaCleanValueAfter t i).1 i = f :: fs := hfs
  rw [jaFlow, show jaCleanValueAfter t i = ((jaCleanValueAfter t i).1, .succeed) from rfl,
    andThen_succeed, jaSetRunerr]
  simp only [hfs']
  split
  · rename_i hs
    exact absurd ⟨f, fs, hfs, .inl hs⟩ ho
  · rename_i hs
    exact absurd ⟨f, fs, hfs, .inr hs⟩ ho
  · exact jaSetRunerrWith_stop _ _ _ i

theorem jaFlow_no_flows {t : Tables} {i : Id} (hf : flowsFrom t i = []) (type : FlowType) (msg : Bool) :
    jaFlow t i type msg = jaSetEnderr (jaCleanValueAfter t i).1 i true := by
  have hf' : flowsFrom (jaCleanValueAfter t i).1 i = [] := hf
  rw [jaFlow, show jaCleanValueAfter t i = ((jaCleanValueAfter t i).1, .succeed) from rfl,
    andThen_succeed]
  simp only [hf']

/-! ## The calls are sequences of writes -/

theorem andThen_steps {i : Id} {t : Tables} {r : Tables × Ret} {k : Tables → Tables × Ret}
    (hr : FlowSteps i t r.1) (hk : ∀ t', FlowSteps i t t' → FlowSteps i t' (k t').1) :
    FlowSteps i t (andThen r k).1 :=
  andThen_keeps (P := FlowSteps i t) hr fun t' h => h.trans (hk t' h)

theorem frame_steps {i : Id} {t t' : Tables} (h : StatusEq t t') : FlowSteps i t t' :=
  .single (.frame h)

theorem jaSetEnderr_steps (t : Tables) (i : Id) (msg : Bool) :
    FlowSteps i t (jaSetEnderr t i msg).1 := by
  unfold jaSetEnderr
  refine andThen_steps (frame_steps (jaCleanValueAfter_status t i)) fun t₁ _ => ?_
  refine andThen_steps ?_ fun t₂ _ => .single (.own t₂ .endErr (.inr (.inl rfl)))
  split
  · exact frame_steps (jaJoblog_status t₁ _ _ _)
  · exact .refl

theorem jaSetEnd_steps (t : Tables) (i : Id) (msg : Bool) : FlowSteps i t (jaSetEnd t i msg).1 := by
  unfold jaSetEnd
  split
  · exact .refl
  refine andThen_steps (frame_steps (jaCleanValueAfter_status t i)) fun t₁ _ => ?_
  refine andThen_steps (frame_steps (jaJoblog_status t₁ _ _ _)) fun t₂ _ => ?_
  exact .single (.own t₂ .ended (.inl rfl))

theorem jaSetRunerrWith_steps {flow : Tables → Tables × Ret} {i : Id}
    (hflow : ∀ t, FlowSteps i t (flow t).1) (t : Tables) (iconStatus : Int) :
    FlowSteps i t (jaSetRunerrWith flow t i iconStatus).1 := by
  have hrunErr : ∀ t, FlowSteps i t (jaSetStatusJob t i .runErr).1 := fun t =>
    .single (.own t .runErr (.inr (.inr rfl)))
  unfold jaSetRunerrWith
  refine andThen_steps (frame_steps (jaCleanValueAfter_status t i)) fun t₁ _ => ?_
  refine andThen_steps (frame_steps (jaJoblog_status t₁ _ _ _)) fun t₂ _ => ?_
  dsimp only
  split
  · exact .trans (frame_steps (writeIconStatus_status t₂ _ _ _ _)) (hrunErr _)
  · exact .trans (frame_steps (writeIconStatus_status t₂ _ _ _ _))
      (andThen_steps (hflow _) fun t₄ _ => hrunErr t₄)

theorem jaValueAfterBefore_status (t : Tables) (i k : Id) :
    StatusEq t (jaValueAfterBefore t i k).1 := ⟨rfl, rfl, rfl, rfl, rfl, rfl⟩

theorem jaFlowSetStatus_steps {t : Tables} {i : Id} {f : Flow} (ho : FlowOpen t i)
    (hf : f ∈ flowsFrom t i) : FlowSteps i t (jaFlowSetStatus t i f.endInnerJobId).1 := by
  unfold jaFlowSetStatus
  split
  · exact jaSetEnderr_steps t i true
  rename_i j hj
  split
  · exact .refl
  · exact jaSetEnderr_steps t i true
  rename_i s n hc
  split
  · rename_i hjn
    split
    · exact jaSetEnderr_steps t i true
    · rename_i link hl
      refine .trans (.single ?_) (frame_steps (jaValueAfterBefore_status _ i f.endInnerJobId))
      rw [hjn.2] at hc ⊢
      exact .fireJobnet ho hf hj hc hjn.1 hl
  · rename_i hjn
    exact .trans (.single (.fire ho hf hj hc hjn))
      (frame_steps (jaValueAfterBefore_status _ i f.endInnerJobId))

theorem flowLoop_steps {i : Id} {type : FlowType} :
    ∀ {fs : List Flow} {t : Tables}, FlowOpen t i → (∀ f ∈ fs, f ∈ flowsFrom t i) →
      FlowSteps i t (flowLoop i type fs t).1
  | [], _, _, _ => .refl
  | f :: fs, t, ho, hfs => by
    have hrest : ∀ t', FlowSteps i t t' → FlowSteps i t' (flowLoop i type fs t').1 := by
      intro t' h
      refine flowLoop_steps (ho.congr h.sameNets) fun g hg => ?_
      rw [flowsFrom_congr h.sameNets.flows]
      exact hfs g (List.mem_cons_of_mem _ hg)
    rw [flowLoop]
    split
    · exact andThen_steps (jaFlowSetStatus_steps ho (hfs f List.mem_cons_self)) hrest
    · exact hrest t .refl

theorem jaFlow_steps (t : Tables) (i : Id) (type : FlowType) (msg : Bool) :
    FlowSteps i t (jaFlow t i type msg).1 := by
  unfold jaFlow
  refine andThen_steps (frame_steps (jaCleanValueAfter_status t i)) fun t₁ _ => ?_
  split
  · exact jaSetEnderr_steps t₁ i true
  rename_i f fs hfs
  have hloop : jaGetStatusJobnet t₁ f.innerJobnetId = some .run ∨
      jaGetStatusJobnet t₁ f.innerJobnetId = some .runErr →
      FlowSteps i t₁ (andThen (flowLoop i type (f :: fs) t₁) fun t => jaSetEnd t i msg).1 := fun hs =>
    andThen_steps (flowLoop_steps ⟨f, fs, hfs, hs⟩ fun g hg => hfs ▸ hg)
      fun t₂ _ => jaSetEnd_steps t₂ i msg
  split
  · rename_i hs
    exact hloop (.inl hs)
  · rename_i hs
    exact hloop (.inr hs)
  · exact jaSetRunerrWith_steps (fun t => .refl) t₁ (-99)

theorem jaSetRunerr_steps (t : Tables) (i : Id) (iconStatus : Int) :
    FlowSteps i t (jaSetRunerr t i iconStatus).1 :=
  jaSetRunerrWith_steps (fun t => jaFlow_steps t i .normal false) t iconStatus

end JobArranger
