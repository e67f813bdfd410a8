import JobArranger.L5Server.Server

/-!
# How the rows refer to each other

The columns that say which job, jobnet, flow, icon and summary belong
together are written once, by the loader; no process changes them, and a
purge deletes whole instances.

* `Wired`: the keys of the schema and the references the loader writes.
* `SameRows`: a transaction that leaves these columns alone.
* `serverStep_wired`: every step keeps `Wired`.
-/
namespace JobArranger

open Tables

/-- A jobnet row without the columns that change while it runs. -/
def Jobnet.shape (r : Jobnet) : Jobnet := { r with status := .begin, timeoutFlag := false }

/-- The columns of `Jobnet.shape` the server reads agree. -/
structure SameNet (r r' : Jobnet) : Prop where
  id : r'.innerJobnetId = r.innerJobnetId
  main : r'.innerJobnetMainId = r.innerJobnetMainId
  icon : r'.innerJobId = r.innerJobId

theorem SameNet.of_shape {r r' : Jobnet} (h : r'.shape = r.shape) : SameNet r r' := by
  simp only [Jobnet.shape, Jobnet.mk.injEq] at h
  obtain ⟨h1, h2, h3, -⟩ := h
  exact ⟨h1, h2, h3⟩

/-- The rows are the same up to the columns that change. -/
structure SameRows (t t' : Tables) : Prop where
  jobs : t'.jobs.map Job.shape = t.jobs.map Job.shape
  flows : t'.flows = t.flows
  jobnets : t'.jobnets.map Jobnet.shape = t.jobnets.map Jobnet.shape
  summaries : t'.summaries.map Summary.innerJobnetId = t.summaries.map Summary.innerJobnetId
  iconJobnets : t'.iconJobnets = t.iconJobnets

namespace SameRows

theorem refl (t : Tables) : SameRows t t := ⟨rfl, rfl, rfl, rfl, rfl⟩

theorem trans {t t' t'' : Tables} (h : SameRows t t') (h' : SameRows t' t'') : SameRows t t'' :=
  ⟨h'.jobs.trans h.jobs, h'.flows.trans h.flows, h'.jobnets.trans h.jobnets,
    h'.summaries.trans h.summaries, h'.iconJobnets.trans h.iconJobnets⟩

theorem of_frame {t t' : Tables} (h : StatusEq t t') : SameRows t t' :=
  ⟨by rw [h.jobs], h.flows, by rw [h.jobnets], by rw [h.summaries], h.iconJobnets⟩

theorem updateJobs {t t' : Tables} (h : SameRows t t') (p : Job → Bool) (f : Job → Job)
    (hf : ∀ j, (f j).shape = j.shape) : SameRows t (t'.updateJobs p f) :=
  h.trans ⟨shape_updateJobs t' p f hf, rfl, rfl, rfl, rfl⟩

theorem updateJobnets {t t' : Tables} (h : SameRows t t') (p : Jobnet → Bool) (f : Jobnet → Jobnet)
    (hf : ∀ r, (f r).shape = r.shape) : SameRows t (t'.updateJobnets p f) :=
  h.trans ⟨rfl, rfl, Table.map_update Jobnet.shape p f t'.jobnets hf, rfl, rfl⟩

theorem updateSummaries {t t' : Tables} (h : SameRows t t') (p : Summary → Bool) (f : Summary → Summary)
    (hf : ∀ x, (f x).innerJobnetId = x.innerJobnetId) : SameRows t (t'.updateSummaries p f) :=
  h.trans ⟨rfl, rfl, rfl, Table.map_update _ p f t'.summaries hf, rfl⟩

theorem frame {t t' t'' : Tables} (hf : StatusEq t' t'') (h : SameRows t t') : SameRows t t'' :=
  h.trans (of_frame hf)

theorem setStatusJob {t t' : Tables} (h : SameRows t t') (i : Id) (s : Status) :
    SameRows t (jaSetStatusJob t' i s).1 := h.updateJobs _ _ fun _ => rfl

theorem setStatusJobnet {t t' : Tables} (h : SameRows t t') (n : Id) (s : Status) :
    SameRows t (jaSetStatusJobnet t' n s).1 := h.updateJobnets _ _ fun _ => rfl

theorem setJobnet {t t' : Tables} (h : SameRows t t') (n : Id) (s : Status) (tf : Bool) :
    SameRows t (setJobnet t' n s tf) := by
  refine h.updateJobnets _ _ fun r => ?_
  unfold Jobnet.sync
  split <;> rfl

theorem flowSteps {i : Id} {t t' : Tables} (h : FlowSteps i t t') : SameRows t t' where
  jobs := shape_of_static h.static
  flows := h.sameNets.flows
  jobnets := by rw [h.sameNets.jobnets]
  summaries := by rw [h.sameNets.summaries]
  iconJobnets := h.sameNets.iconJobnets

theorem iconSteps {i : Id} {t t' : Tables} (h : IconSteps i t t') : SameRows t t' := by
  induction h with
  | refl => exact refl t
  | tail _ hst ih =>
    refine ih.trans ?_
    cases hst with
    | flow hst => exact flowSteps (.single hst)
    | abort => exact (refl _).setStatusJob _ _
    | timeout => exact (refl _).updateJobs _ _ fun _ => rfl
    | method k m => exact (refl _).updateJobs _ _ fun _ => rfl

theorem jarun {i : Id} {t t' : Tables} (h : JarunWrites i t t') : SameRows t t' := by
  cases h with
  | skip h => exact flowSteps h
  | icon h1 h2 => exact (frame h1 ((refl t).setStatusJob i .run)).trans (iconSteps h2)
  | jobnet h1 _ h3 => exact frame h3 ((frame h1 ((refl t).setStatusJob i .run)).setStatusJobnet _ .ready)

theorem jobnetRow {n icon : Id} {status : Status} {d : RunDecision} {t t' : Tables}
    (h : JobnetWrites t n icon status d t') : SameRows t t' := by
  cases h with
  | frame h => exact of_frame h
  | startErr h => exact frame h ((refl t).setStatusJobnet n .endErr)
  | start _ _ _ h => exact frame h (((refl t).setStatusJobnet n .run).setStatusJob _ .ready)
  | main js _ _ h => exact frame h (((refl t).setJobnet n _ _).updateSummaries _ _ fun _ => rfl)
  | run _ _ h => exact frame h (((refl t).setJobnet n .run _).updateJobs _ _ fun _ => rfl)
  | ended _ _ h1 h2 => exact (frame h1 ((refl t).setJobnet n .ended _)).trans (flowSteps h2)
  | runErr _ _ h1 h2 _ => exact (frame h1 ((refl t).setJobnet n .runErr _)).trans (flowSteps h2)
  | endErr _ _ h => exact frame h (((refl t).setJobnet n .endErr _).setStatusJob icon .endErr)

theorem killUpdates (t : Tables) (m : Id) : SameRows t (killUpdates t m) where
  jobs := by
    refine (Table.map_update Job.shape _ _ _ ?_).trans (Table.map_update Job.shape _ _ _ ?_) <;> exact fun _ => rfl
  flows := rfl
  jobnets := Table.map_update Jobnet.shape _ _ _ fun _ => rfl
  summaries := rfl
  iconJobnets := rfl

theorem stops {js : List Job} {t t' : Tables} (h : Relation.ReflTransGen (StopStep js) t t') : SameRows t t' := by
  induction h with
  | refl => exact refl t
  | tail _ hst ih =>
    obtain ⟨j, -, -, hst⟩ := hst
    exact ih.trans (iconSteps hst)

theorem summaryRow {m : Id} {t t' : Tables} (h : SummaryWrites t m t') : SameRows t t' := by
  cases h with
  | frame h => exact of_frame h
  | start h => exact frame h (updateSummaries (setStatusJobnet (refl t) m _) _ _ fun _ => rfl)
  | killed _ h => exact frame h (updateSummaries (killUpdates t m) _ _ fun _ => rfl)
  | stopping h1 h2 => exact frame h2 ((killUpdates t m).trans (stops h1))

theorem bootRow {m : Id} {t t' : Tables} (h : BootWrites t m t') : SameRows t t' := by
  cases h with
  | frame h => exact of_frame h
  | late _ _ _ h =>
    exact frame h (updateSummaries (setStatusJobnet (setStatusJob (refl t) _ .runErr) m .runErr) _ _ fun _ => rfl)
  | skip h => exact frame h (updateSummaries (setStatusJobnet (refl t) m _) _ _ fun _ => rfl)
  | delay h => exact frame h (updateSummaries (refl t) _ _ fun _ => rfl)
  | start h => exact frame h (updateSummaries (refl t) _ _ fun _ => rfl)

theorem job {t t' : Tables} (h : SameRows t t') {j' : Job} (hj : j' ∈ t'.jobs) :
    ∃ j ∈ t.jobs, SameIcon j j' := by
  obtain ⟨j, hj, he⟩ := Table.mem_of_map_eq h.jobs hj
  exact ⟨j, hj, .of_shape he.symm⟩

theorem jobnet {t t' : Tables} (h : SameRows t t') {r' : Jobnet} (hr : r' ∈ t'.jobnets) :
    ∃ r ∈ t.jobnets, SameNet r r' := by
  obtain ⟨r, hr, he⟩ := Table.mem_of_map_eq h.jobnets hr
  exact ⟨r, hr, .of_shape he.symm⟩

theorem symm {t t' : Tables} (h : SameRows t t') : SameRows t' t :=
  ⟨h.jobs.symm, h.flows.symm, h.jobnets.symm, h.summaries.symm, h.iconJobnets.symm⟩

end SameRows

/-! ## Wired tables -/

/-- The primary keys, the foreign keys and the references the loader writes:
the flows of an icon belong to its jobnet and stay in it, a jobnet icon
links the jobnet that hangs on it, and a sub-jobnet is inserted after the
jobnet its icon belongs to. -/
structure Wired (t : Tables) : Prop where
  jobKey : (t.jobs.map Job.innerJobId).Nodup
  jobId : ∀ j ∈ t.jobs, j.innerJobId ≠ 0
  jobnetKey : (t.jobnets.map Jobnet.innerJobnetId).Nodup
  summaryKey : (t.summaries.map Summary.innerJobnetId).Nodup
  jobNet : ∀ j ∈ t.jobs, ∃ r ∈ t.jobnets, r.innerJobnetId = j.innerJobnetId ∧
    r.innerJobnetMainId = j.innerJobnetMainId
  summaryNet : ∀ n ∈ t.summaries.map Summary.innerJobnetId, ∃ r ∈ t.jobnets, r.innerJobnetId = n ∧
    r.innerJobnetMainId = n
  flowEnd : ∀ f ∈ t.flows, ∀ j ∈ t.jobs, j.innerJobId = f.endInnerJobId → j.innerJobnetId = f.innerJobnetId
  flowStart : ∀ f ∈ t.flows, ∀ j ∈ t.jobs, j.innerJobId = f.startInnerJobId →
    j.innerJobnetId = f.innerJobnetId
  flowNet : ∀ f ∈ t.flows, ∀ g ∈ t.flows, f.startInnerJobId = g.startInnerJobId →
    f.innerJobnetId = g.innerJobnetId
  link : ∀ l ∈ t.iconJobnets, ∀ r ∈ t.jobnets, r.innerJobnetId = l.linkInnerJobnetId →
    r.innerJobId = l.innerJobId
  icon : ∀ r ∈ t.jobnets, ∀ j ∈ t.jobs, j.innerJobId = r.innerJobId →
    j.jobType = .jobnet ∧ j.innerJobnetMainId = r.innerJobnetMainId
  sub : ∀ r ∈ t.jobnets, ∀ r' ∈ t.jobnets, r.innerJobId = r'.innerJobId → r.innerJobId ≠ 0 →
    r.innerJobnetId = r'.innerJobnetId
  main : ∀ r ∈ t.jobnets, r.innerJobnetId = r.innerJobnetMainId → r.innerJobId = 0
  parent : ∀ r ∈ t.jobnets, r.innerJobnetId ≠ r.innerJobnetMainId →
    ∃ j ∈ t.jobs, j.innerJobId = r.innerJobId ∧ j.innerJobnetId < r.innerJobnetId

theorem Wired.of_same {t t' : Tables} (h : Wired t) (hs : SameRows t t') : Wired t' where
  jobKey := by
    have hid : Job.innerJobId = Job.innerJobId ∘ Job.shape := rfl
    rw [hid, ← List.map_map, hs.jobs, List.map_map]
    exact h.jobKey
  jobId := by
    intro j' hj'
    obtain ⟨j, hj, he⟩ := hs.job hj'
    rw [he.id]
    exact h.jobId j hj
  jobnetKey := by
    have hid : Jobnet.innerJobnetId = Jobnet.innerJobnetId ∘ Jobnet.shape := rfl
    rw [hid, ← List.map_map, hs.jobnets, List.map_map]
    exact h.jobnetKey
  summaryKey := hs.summaries ▸ h.summaryKey
  jobNet := by
    intro j' hj'
    obtain ⟨j, hj, he⟩ := hs.job hj'
    obtain ⟨r, hr, hrn, hrm⟩ := h.jobNet j hj
    obtain ⟨r', hr', he'⟩ := hs.symm.jobnet hr
    exact ⟨r', hr', by rw [← he'.id, hrn, he.jobnet], by rw [← he'.main, hrm, he.main]⟩
  summaryNet := by
    intro n hn
    rw [hs.summaries] at hn
    obtain ⟨r, hr, hrn, hrm⟩ := h.summaryNet n hn
    obtain ⟨r', hr', he'⟩ := hs.symm.jobnet hr
    exact ⟨r', hr', by rw [← he'.id, hrn], by rw [← he'.main, hrm]⟩
  flowEnd := by
    intro f hf j' hj' hend
    obtain ⟨j, hj, he⟩ := hs.job hj'
    rw [he.jobnet]
    exact h.flowEnd f (hs.flows ▸ hf) j hj (he.id.symm.trans hend)
  flowStart := by
    intro f hf j' hj' hstart
    obtain ⟨j, hj, he⟩ := hs.job hj'
    rw [he.jobnet]
    exact h.flowStart f (hs.flows ▸ hf) j hj (he.id.symm.trans hstart)
  flowNet := by
    rw [hs.flows]
    exact h.flowNet
  link := by
    intro l hl r' hr' hid
    obtain ⟨r, hr, he⟩ := hs.jobnet hr'
    rw [he.icon]
    exact h.link l (hs.iconJobnets ▸ hl) r hr (he.id.symm.trans hid)
  icon := by
    intro r' hr' j' hj' hid
    obtain ⟨r, hr, he⟩ := hs.jobnet hr'
    obtain ⟨j, hj, he'⟩ := hs.job hj'
    rw [he'.type, he'.main, he.main]
    exact h.icon r hr j hj (by rw [← he'.id, hid, he.icon])
  sub := by
    intro r₁' h₁' r₂' h₂' hid hne
    obtain ⟨r₁, h₁, he₁⟩ := hs.jobnet h₁'
    obtain ⟨r₂, h₂, he₂⟩ := hs.jobnet h₂'
    rw [he₁.id, he₂.id]
    rw [he₁.icon] at hid hne
    exact h.sub r₁ h₁ r₂ h₂ (hid.trans he₂.icon) hne
  main := by
    intro r' hr' hid
    obtain ⟨r, hr, he⟩ := hs.jobnet hr'
    rw [he.icon]
    exact h.main r hr (by rw [← he.id, hid, he.main])
  parent := by
    intro r' hr' hid
    obtain ⟨r, hr, he⟩ := hs.jobnet hr'
    obtain ⟨j, hj, hicon, hlt⟩ := h.parent r hr (by rw [← he.id, ← he.main]; exact hid)
    obtain ⟨j', hj', he'⟩ := hs.symm.job hj
    exact ⟨j', hj', by rw [← he'.id, hicon, he.icon], by rw [← he'.jobnet, he.id]; exact hlt⟩

/-- READY or RUN. -/
def Job.live (j : Job) : Prop := j.status = .ready ∨ j.status = .run

instance (j : Job) : Decidable j.live := inferInstanceAs (Decidable (_ ∨ _))

/-! ## What a reference leads to -/

/-- A flow that can fire leads into a running jobnet, that of its target. -/
theorem Wired.target_running {t : Tables} (h : Wired t) {i : Id} {f : Flow} {j : Job} (ho : FlowOpen t i)
    (hf : f ∈ flowsFrom t i) (hj : j ∈ t.jobs) (hid : j.innerJobId = f.endInnerJobId) :
    ∃ r ∈ t.jobnets, r.innerJobnetId = j.innerJobnetId ∧ r.innerJobnetMainId = j.innerJobnetMainId ∧
      (r.status = .run ∨ r.status = .runErr) := by
  obtain ⟨g, gs, hgs, hstatus⟩ := ho
  have hg : g ∈ flowsFrom t i := hgs ▸ List.mem_cons_self
  simp only [flowsFrom, List.mem_filter, beq_iff_eq] at hf hg
  have hnet : g.innerJobnetId = j.innerJobnetId :=
    (h.flowNet g hg.1 f hf.1 (hg.2.trans hf.2.symm)).trans (h.flowEnd f hf.1 j hj hid).symm
  obtain ⟨r, hr, hrn, hrm⟩ := h.jobNet j hj
  have hrow : t.jobnet? g.innerJobnetId = some r := by
    have := Table.lookup_eq h.jobnetKey hr
    rwa [hrn, ← hnet] at this
  rw [jaGetStatusJobnet, hrow] at hstatus
  exact ⟨r, hr, hrn, hrm, by simpa using hstatus⟩

/-- The jobnet a jobnet icon links hangs on that icon. -/
theorem Wired.linked {t : Tables} (h : Wired t) {i : Id} {link : IconJobnet} (hl : t.iconJobnet? i = some link)
    {r : Jobnet} (hr : r ∈ t.jobnets) (hid : r.innerJobnetId = link.linkInnerJobnetId) : r.innerJobId = i := by
  obtain ⟨hmem, hi⟩ := Table.lookup_mem hl
  rw [h.link link hmem r hr hid, hi]

/-- A jobnet that hangs on no icon is a main jobnet. -/
theorem Wired.main_of_icon {t : Tables} (h : Wired t) {r : Jobnet} (hr : r ∈ t.jobnets) (hi : r.innerJobId = 0) :
    r.innerJobnetId = r.innerJobnetMainId := by
  by_contra hne
  obtain ⟨j, hj, hid, -⟩ := h.parent r hr hne
  exact h.jobId j hj (hid.trans hi)

/-! ## Purging -/

theorem Wired.purged_jobnet {t : Tables} (h : Wired t) {r : Jobnet} (hr : r ∈ t.jobnets) (m : Id) :
    purged t m r.innerJobnetId ↔ r.innerJobnetMainId = m := by
  simp only [purged, List.any_eq_true, Bool.and_eq_true, beq_iff_eq]
  constructor
  · rintro ⟨r', hr', hm, hid⟩
    obtain rfl := Table.eq_of_key h.jobnetKey hr' hr hid
    exact hm
  · exact fun hm => ⟨r, hr, hm, rfl⟩

/-- The jobs a purge deletes are those of the instance. -/
theorem Wired.purged_job {t : Tables} (h : Wired t) {j : Job} (hj : j ∈ t.jobs) (m : Id) :
    purged t m j.innerJobnetId ↔ j.innerJobnetMainId = m := by
  obtain ⟨r, hr, hn, hm⟩ := h.jobNet j hj
  rw [← hn, h.purged_jobnet hr, hm]

theorem Wired.mem_jobs_delete {t : Tables} (h : Wired t) {m : Id} {j : Job} :
    j ∈ (deleteInstance t m).jobs ↔ j ∈ t.jobs ∧ j.innerJobnetMainId ≠ m := by
  simp only [deleteInstance, List.mem_filter, Bool.not_eq_true', ← Bool.not_eq_true]
  constructor
  · rintro ⟨hj, hp⟩
    exact ⟨hj, mt (h.purged_job hj m).2 hp⟩
  · rintro ⟨hj, hm⟩
    exact ⟨hj, mt (h.purged_job hj m).1 hm⟩

theorem mem_jobnets_delete {t : Tables} {m : Id} {r : Jobnet} :
    r ∈ (deleteInstance t m).jobnets ↔ r ∈ t.jobnets ∧ r.innerJobnetMainId ≠ m := by
  simp [deleteInstance, List.mem_filter]

theorem Wired.mem_summaries_delete {t : Tables} (h : Wired t) {m : Id} {x : Summary} :
    x ∈ (deleteInstance t m).summaries ↔ x ∈ t.summaries ∧ x.innerJobnetId ≠ m := by
  simp only [deleteInstance, List.mem_filter, Bool.not_eq_true', ← Bool.not_eq_true]
  have hmain : x ∈ t.summaries → (purged t m x.innerJobnetId ↔ x.innerJobnetId = m) := by
    intro hx
    obtain ⟨r, hr, hn, hm⟩ := h.summaryNet _ (List.mem_map_of_mem hx)
    have := h.purged_jobnet hr m
    rwa [hn, hm] at this
  constructor
  · rintro ⟨hx, hp⟩
    exact ⟨hx, mt (hmain hx).2 hp⟩
  · rintro ⟨hx, hm⟩
    exact ⟨hx, mt (hmain hx).1 hm⟩

theorem Wired.delete {t : Tables} (h : Wired t) (m : Id) : Wired (deleteInstance t m) where
  jobKey := (List.filter_sublist.map _).nodup h.jobKey
  jobId := fun j hj => h.jobId j (h.mem_jobs_delete.1 hj).1
  jobnetKey := (List.filter_sublist.map _).nodup h.jobnetKey
  summaryKey := (List.filter_sublist.map _).nodup h.summaryKey
  jobNet := by
    intro j hj
    obtain ⟨hj, hm⟩ := h.mem_jobs_delete.1 hj
    obtain ⟨r, hr, hn, hrm⟩ := h.jobNet j hj
    exact ⟨r, mem_jobnets_delete.2 ⟨hr, hrm ▸ hm⟩, hn, hrm⟩
  summaryNet := by
    intro n hn
    obtain ⟨x, hx, rfl⟩ := List.mem_map.1 hn
    obtain ⟨hx, hm⟩ := h.mem_summaries_delete.1 hx
    obtain ⟨r, hr, hrn, hrm⟩ := h.summaryNet _ (List.mem_map_of_mem hx)
    exact ⟨r, mem_jobnets_delete.2 ⟨hr, hrm ▸ hm⟩, hrn, hrm⟩
  flowEnd := fun f hf j hj => h.flowEnd f (List.mem_of_mem_filter hf) j (h.mem_jobs_delete.1 hj).1
  flowStart := fun f hf j hj => h.flowStart f (List.mem_of_mem_filter hf) j (h.mem_jobs_delete.1 hj).1
  flowNet := fun f hf g hg => h.flowNet f (List.mem_of_mem_filter hf) g (List.mem_of_mem_filter hg)
  link := fun l hl r hr => h.link l (List.mem_of_mem_filter hl) r (mem_jobnets_delete.1 hr).1
  icon := fun r hr j hj => h.icon r (mem_jobnets_delete.1 hr).1 j (h.mem_jobs_delete.1 hj).1
  sub := fun r hr r' hr' => h.sub r (mem_jobnets_delete.1 hr).1 r' (mem_jobnets_delete.1 hr').1
  main := fun r hr => h.main r (mem_jobnets_delete.1 hr).1
  parent := by
    intro r hr hne
    obtain ⟨hr, hm⟩ := mem_jobnets_delete.1 hr
    obtain ⟨j, hj, hid, hlt⟩ := h.parent r hr hne
    -- the icon is in the instance of its sub-jobnet
    have hjm := (h.icon r hr j hj hid).2
    exact ⟨j, h.mem_jobs_delete.2 ⟨hj, hjm ▸ hm⟩, hid, hlt⟩

/-! ## The server -/

/-- Loaded instances before anything has run. -/
structure Fresh (s : ServerState) : Prop where
  wired : Wired s.tables
  jobs : ∀ j ∈ s.tables.jobs, j.status = .begin
  jobnets : ∀ r ∈ s.tables.jobnets, r.status = .begin
  summaries : ∀ x ∈ s.tables.summaries, x.status = .begin
  summaryTodo : s.summaryTodo = []
  jobnetTodo : s.jobnetTodo = []
  bootTodo : s.bootTodo = []
  purgeTodo : s.purgeTodo = []

def server : LTS ServerState ServerLabel where
  init := Fresh
  step := ServerStep

/-- The step of a label, where it is a function of the state. -/
def ServerState.exec (s : ServerState) : ServerLabel → Option ServerState
  | .jarun i code method =>
    (s.tables.jobs.find? fun j => j.innerJobId = i ∧ j.status = .ready).map fun j =>
      { s with tables := processJarunRow code s.tables j method }
  | .icon _ _ => none
  | .requestAbort m =>
    some { s with tables := s.tables.updateSummaries (·.innerJobnetId == m) fun x =>
      { x with jobnetAbortFlag := true } }
  | .summarySelect =>
    if s.summaryTodo = [] ∧ s.jobnetTodo = [] then some { s with summaryTodo := summaryRows s.tables } else none
  | .summaryRow stop => match s.summaryTodo with
    | [] => none
    | e :: es =>
      let tables := processSummaryRow stop.run s.tables e.innerJobnetId e.status e.jobnetAbortFlag
      some { s with tables, summaryTodo := es }
  | .jobnetSelect =>
    if s.summaryTodo = [] ∧ s.jobnetTodo = [] then some { s with jobnetTodo := jobnetRows s.tables } else none
  | .jobnetRow bootTime => match s.jobnetTodo with
    | [] => none
    | e :: es =>
      let tables := processJajobnetRow s.tables e.innerJobnetId e.innerJobId e.timeoutFlag e.status bootTime
      some { s with tables, jobnetTodo := es }
  | .bootSelect now =>
    if s.bootTodo = [] ∧ s.purgeTodo = [] then some { s with bootTodo := bootRows s.tables now } else none
  | .bootRow now => match s.bootTodo with
    | [] => none
    | e :: es => some { s with bootTodo := es, tables := bootRow s.tables now e }
  | .purgeSelect expired =>
    if s.bootTodo = [] ∧ s.purgeTodo = [] then some { s with purgeTodo := purgeRows s.tables expired } else none
  | .purgeRow => match s.purgeTodo with
    | [] => none
    | e :: es => some { s with purgeTodo := es, tables := purgeRow s.tables e.innerJobnetId e.status }

theorem ServerState.exec_step {s s' : ServerState} {l : ServerLabel} (h : s.exec l = some s') :
    ServerStep s l s' := by
  cases l with
  | jarun i code method =>
    obtain ⟨j, hj, rfl⟩ := Option.map_eq_some_iff.1 h
    have hp := List.find?_some hj
    simp only [decide_eq_true_eq] at hp
    exact ⟨j, List.mem_of_find?_eq_some hj, hp.1, hp.2, rfl⟩
  | icon i t' => cases h
  | requestAbort m => exact (Option.some.inj h).symm
  | summarySelect | jobnetSelect | bootSelect now | purgeSelect expired =>
    simp only [exec] at h
    split at h
    · rename_i hc
      exact ⟨hc.1, hc.2, (Option.some.inj h).symm⟩
    · cases h
  | summaryRow stop | jobnetRow bootTime | bootRow now | purgeRow =>
    simp only [exec] at h
    split at h
    · cases h
    · rename_i e es he
      exact ⟨e, es, he, (Option.some.inj h).symm⟩

def ServerState.execs (ls : List ServerLabel) (s : ServerState) : Option ServerState := ls.foldlM exec s

theorem ServerState.execs_run {ls : List ServerLabel} {s s' : ServerState} (h : s.execs ls = some s') :
    server.Run s ls s' :=
  LTS.Run.of_foldlM (fun _ _ _ h => exec_step h) h

theorem serverStep_wired {s s' : ServerState} {l : ServerLabel} (h : Wired s.tables) (hst : ServerStep s l s') :
    Wired s'.tables := by
  cases l with
  | jarun i code method =>
    obtain ⟨j, -, -, -, rfl⟩ := hst
    exact h.of_same (.jarun (processJarunRow_writes code s.tables j method))
  | icon i t' =>
    obtain ⟨hs, rfl⟩ := hst
    exact h.of_same (.iconSteps hs)
  | requestAbort m =>
    obtain rfl := hst
    exact h.of_same ((SameRows.refl _).updateSummaries _ _ fun _ => rfl)
  | summarySelect =>
    obtain ⟨-, -, rfl⟩ := hst
    exact h
  | summaryRow stop =>
    obtain ⟨e, es, -, rfl⟩ := hst
    exact h.of_same (.summaryRow (processSummaryRow_writes stop s.tables _ _ _))
  | jobnetSelect =>
    obtain ⟨-, -, rfl⟩ := hst
    exact h
  | jobnetRow bootTime =>
    obtain ⟨e, es, -, rfl⟩ := hst
    exact h.of_same (.jobnetRow (processJajobnetRow_writes s.tables _ _ _ _ bootTime))
  | bootSelect now =>
    obtain ⟨-, -, rfl⟩ := hst
    exact h
  | bootRow now =>
    obtain ⟨e, es, -, rfl⟩ := hst
    exact h.of_same (.bootRow (bootRow_writes s.tables now e))
  | purgeSelect expired =>
    obtain ⟨-, -, rfl⟩ := hst
    exact h
  | purgeRow =>
    obtain ⟨e, es, -, rfl⟩ := hst
    dsimp only [purgeRow]
    split
    · exact h.delete _
    · exact h

end JobArranger
