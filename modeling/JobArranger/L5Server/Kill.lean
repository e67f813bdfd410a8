import JobArranger.L5Server.Wired

/-!
# Aborted instances

`jajobnet_kill` puts the READY icons of an instance back to BEGIN and its
running jobnets to ENDERR; once no icon is READY or RUN it sets the summary
to ENDERR. It does not touch jobnets in READY: the next pass of
`process_jajobnet` starts such a jobnet, which makes its START icon READY.

* `Still`: nothing of the instance runs and nothing can start it.
* `kill_stops`: an instance without READY jobnets at the kill stays still.
* `kill_restarts`: a sub-jobnet that was READY at the kill runs afterwards.
-/
namespace JobArranger

open Tables

/-- Selected by `process_jajobnet`. -/
def Jobnet.active (r : Jobnet) : Prop := r.status = .ready ∨ r.status = .run ∨ r.status = .runErr

/-- No job of instance `m` is READY or RUN, and no row makes one so. -/
structure Still (m : Id) (t : Tables) : Prop where
  jobs : ∀ j ∈ t.jobs, j.innerJobnetMainId = m → ¬j.live
  jobnets : ∀ r ∈ t.jobnets, r.innerJobnetMainId = m → ¬r.active
  summary : ∀ x ∈ t.summaries, x.innerJobnetId = m → ¬x.running

namespace Still

variable {m : Id} {t t' : Tables}

theorem frame (hf : StatusEq t t') (h : Still m t) : Still m t' :=
  ⟨hf.jobs ▸ h.jobs, hf.jobnets ▸ h.jobnets, hf.summaries ▸ h.summary⟩

theorem updateJobs (h : Still m t) (p : Job → Bool) (f : Job → Job)
    (hf : ∀ j, (f j).innerJobnetMainId = j.innerJobnetMainId)
    (hl : ∀ j ∈ t.jobs, p j → j.innerJobnetMainId = m → ¬(f j).live) : Still m (t.updateJobs p f) := by
  refine ⟨fun j' hj' hm => ?_, h.jobnets, h.summary⟩
  obtain ⟨j, hj, rfl⟩ := Table.mem_update.1 hj'
  by_cases hp : p j
  · rw [if_pos hp] at hm ⊢
    exact hl j hj hp ((hf j).symm.trans hm)
  · rw [if_neg hp] at hm ⊢
    exact h.jobs j hj hm

theorem updateJobnets (h : Still m t) (p : Jobnet → Bool) (f : Jobnet → Jobnet)
    (hf : ∀ r, (f r).innerJobnetMainId = r.innerJobnetMainId)
    (hl : ∀ r ∈ t.jobnets, p r → r.innerJobnetMainId = m → ¬(f r).active) : Still m (t.updateJobnets p f) := by
  refine ⟨h.jobs, fun r' hr' hm => ?_, h.summary⟩
  obtain ⟨r, hr, rfl⟩ := Table.mem_update.1 hr'
  by_cases hp : p r
  · rw [if_pos hp] at hm ⊢
    exact hl r hr hp ((hf r).symm.trans hm)
  · rw [if_neg hp] at hm ⊢
    exact h.jobnets r hr hm

theorem updateSummaries (h : Still m t) (p : Summary → Bool) (f : Summary → Summary)
    (hf : ∀ x, (f x).innerJobnetId = x.innerJobnetId)
    (hl : ∀ x ∈ t.summaries, p x → x.innerJobnetId = m → ¬(f x).running) : Still m (t.updateSummaries p f) := by
  refine ⟨h.jobs, h.jobnets, fun x' hx' hm => ?_⟩
  obtain ⟨x, hx, rfl⟩ := Table.mem_update.1 hx'
  by_cases hp : p x
  · rw [if_pos hp] at hm ⊢
    exact hl x hx hp ((hf x).symm.trans hm)
  · rw [if_neg hp] at hm ⊢
    exact h.summary x hx hm

/-- A status that is neither READY nor RUN can be written to any icon. -/
theorem setStatusJob (h : Still m t) (i : Id) {s : Status} (hr : s ≠ .ready) (hn : s ≠ .run) :
    Still m (jaSetStatusJob t i s).1 :=
  h.updateJobs _ _ (fun _ => rfl) fun _ _ _ _ hl => hl.elim hr hn

/-- Any status can be written to an icon of another instance. -/
theorem setStatusJob_other (h : Still m t) {i : Id} (s : Status)
    (hm : ∀ j ∈ t.jobs, j.innerJobId = i → j.innerJobnetMainId ≠ m) : Still m (jaSetStatusJob t i s).1 :=
  h.updateJobs _ _ (fun _ => rfl) fun j hj hp he => absurd he (hm j hj (by simpa using hp))

/-- Any status can be written to a jobnet of another instance. -/
theorem setStatusJobnet_other (h : Still m t) {n : Id} (s : Status)
    (hm : ∀ r ∈ t.jobnets, r.innerJobnetId = n → r.innerJobnetMainId ≠ m) : Still m (jaSetStatusJobnet t n s).1 :=
  h.updateJobnets _ _ (fun _ => rfl) fun r hr hp he => absurd he (hm r hr (by simpa using hp))

theorem setCount (h : Still m t) (hw : Wired t) {i : Id} {f : Flow} (ho : FlowOpen t i) (hf : f ∈ flowsFrom t i)
    (s : Status) (n : Nat) : Still m (setCount t f.endInnerJobId s n) := by
  refine h.updateJobs _ _ (fun _ => rfl) fun j hj hp hm => ?_
  -- the target's jobnet is running, so it is not one of `m`
  obtain ⟨r, hr, -, hrm, hs⟩ := hw.target_running ho hf hj (by simpa using hp)
  exact absurd (.inr hs) (h.jobnets r hr (hrm.trans hm))

theorem flowStep {i : Id} (h : Still m t) (hw : Wired t) (hst : FlowStep i t t') : Still m t' := by
  cases hst with
  | frame hf => exact frame hf h
  | own s hs =>
    refine h.setStatusJob i ?_ ?_
    · rcases hs with rfl | rfl | rfl <;> decide
    · rcases hs with rfl | rfl | rfl <;> decide
  | fire ho hf => exact h.setCount hw ho hf _ _
  | @fireJobnet f j link n ho hf =>
    have hreset : Still m (resetJobs t link.linkInnerJobnetId) :=
      h.updateJobs _ _ (fun _ => rfl) fun _ _ _ _ hl => by rcases hl with hl | hl <;> cases hl
    have hsame : SameRows t (resetJobs t link.linkInnerJobnetId) :=
      (SameRows.refl t).updateJobs _ _ fun _ => rfl
    exact hreset.setCount (hw.of_same hsame) (ho.congr ⟨rfl, rfl, rfl, rfl, rfl⟩) hf _ _

theorem iconSteps {i : Id} (h : Still m t) (hw : Wired t) (hst : IconSteps i t t') : Still m t' := by
  induction hst with
  | refl => exact h
  | tail hs hst ih =>
    cases hst with
    | flow hst => exact ih.flowStep (hw.of_same (.iconSteps hs)) hst
    | abort => exact ih.setStatusJob i (by decide) (by decide)
    | timeout => exact ih.updateJobs _ _ (fun _ => rfl) fun j hj _ hm hl => ih.jobs j hj hm hl
    | method k m' => exact ih.updateJobs _ _ (fun _ => rfl) fun j hj _ hm hl => ih.jobs j hj hm hl

theorem flowSteps {i : Id} (h : Still m t) (hw : Wired t) (hst : FlowSteps i t t') : Still m t' :=
  h.iconSteps hw hst.iconSteps

/-- A row of `process_jarun` for a READY icon. -/
theorem jarun (h : Still m t) (hw : Wired t) {j : Job} (hj : j ∈ t.jobs) (hs : j.status = .ready)
    (hst : JarunWrites j.innerJobId t t') : Still m t' := by
  have hm : j.innerJobnetMainId ≠ m := fun he => h.jobs j hj he (.inl hs)
  have hsame : ∀ k ∈ t.jobs, k.innerJobId = j.innerJobId → k.innerJobnetMainId ≠ m := by
    intro k hk hid
    rw [Table.eq_of_key hw.jobKey hk hj hid]
    exact hm
  have hrun := h.setStatusJob_other .run hsame
  have hwrun : Wired (jaSetStatusJob t j.innerJobId .run).1 := hw.of_same ((SameRows.refl t).setStatusJob _ _)
  cases hst with
  | skip hst => exact h.flowSteps hw hst
  | icon hf hst => exact (frame hf hrun).iconSteps (hwrun.of_same (.of_frame hf)) hst
  | @jobnet t₁ _ link hf hl hst =>
    refine frame hst ((frame hf hrun).setStatusJobnet_other .ready fun r hr hid hrm => ?_)
    -- the linked jobnet is in the icon's instance
    rw [hf.jobnets] at hr
    have hicon := hw.linked hl hr hid
    exact hm ((hw.icon r hr j hj hicon.symm).2.trans hrm)

/-- A row of `process_jajobnet` for a jobnet of another instance. -/
theorem jobnetRow (h : Still m t) (hw : Wired t) {r e : Jobnet} (hr : r ∈ t.jobnets) (he : SameNet r e)
    (hm : e.innerJobnetMainId ≠ m) {status : Status} {d : RunDecision}
    (hst : JobnetWrites t e.innerJobnetId e.innerJobId status d t') : Still m t' := by
  rw [he.id, he.icon] at hst
  rw [he.main] at hm
  have hrow : ∀ r' ∈ t.jobnets, r'.innerJobnetId = r.innerJobnetId → r'.innerJobnetMainId ≠ m := by
    intro r' hr' hid
    rw [Table.eq_of_key hw.jobnetKey hr' hr hid]
    exact hm
  have hset : ∀ s tf, Still m (setJobnet t r.innerJobnetId s tf) := by
    intro s tf
    refine h.updateJobnets _ _ (fun r => ?_) fun r' hr' hp he => absurd he (hrow r' hr' (by simpa using hp))
    unfold Jobnet.sync
    split <;> rfl
  have hicon : ∀ j ∈ t.jobs, j.innerJobId = r.innerJobId → j.innerJobnetMainId ≠ m := by
    intro j hj hid
    rw [(hw.icon r hr j hj hid).2]
    exact hm
  have hwset : ∀ s tf, Wired (setJobnet t r.innerJobnetId s tf) := fun s tf =>
    hw.of_same ((SameRows.refl t).setJobnet _ s tf)
  cases hst with
  | frame hf => exact frame hf h
  | startErr hf => exact frame hf (h.setStatusJobnet_other .endErr hrow)
  | @start _ start hmem hn _ hf =>
    refine frame hf ((h.setStatusJobnet_other .run hrow).setStatusJob_other .ready ?_)
    intro j hj hid
    have hj' : j = start := Table.eq_of_key hw.jobKey hj hmem hid
    obtain ⟨r', hr', hn', hm'⟩ := hw.jobNet start hmem
    rw [hj', ← hm']
    exact hrow r' hr' (hn'.trans hn)
  | main js hi _ hf =>
    refine frame hf ((hset _ _).updateSummaries _ _ (fun _ => rfl) fun x _ hp hx => ?_)
    have hid : x.innerJobnetId = r.innerJobnetId := by simpa using hp
    exact absurd ((hw.main_of_icon hr hi).symm.trans (hid.symm.trans hx)) hm
  | run _ _ hf =>
    refine frame hf ((hset _ _).updateJobs _ _ (fun _ => rfl) fun j hj hp he => ?_)
    exact absurd he (hicon j hj (by simpa using hp))
  | ended _ _ hf hst => exact (frame hf (hset _ _)).flowSteps ((hwset _ _).of_same (.of_frame hf)) hst
  | runErr _ _ hf hst _ => exact (frame hf (hset _ _)).flowSteps ((hwset _ _).of_same (.of_frame hf)) hst
  | endErr _ _ hf => exact frame hf ((hset _ _).setStatusJob _ (by decide) (by decide))

/-- `jajobnet_kill` of any instance. -/
theorem killUpdates (h : Still m t) (m' : Id) : Still m (killUpdates t m') := by
  have h1 := h.updateJobs (fun j => j.innerJobnetMainId == m' && j.status == .ready)
    (fun j => { j with status := .begin }) (fun _ => rfl) fun _ _ _ _ hl => by rcases hl with hl | hl <;> cases hl
  have h2 := h1.updateJobs (fun j => j.innerJobnetMainId == m' && j.jobType == .jobnet &&
    (j.status == .run || j.status == .runErr)) (fun j => { j with status := .endErr }) (fun _ => rfl)
    fun _ _ _ _ hl => by rcases hl with hl | hl <;> cases hl
  have h3 := h2.updateJobnets (fun n => n.innerJobnetMainId == m' && (n.status == .run || n.status == .runErr))
    (fun n => { n with status := .endErr }) (fun _ => rfl)
    fun _ _ _ _ hl => by rcases hl with hl | hl | hl <;> cases hl
  exact ⟨h3.jobs, h3.jobnets, h3.summary⟩

theorem stops (h : Still m t) (hw : Wired t) {js : List Job} (hst : Relation.ReflTransGen (StopStep js) t t') :
    Still m t' := by
  induction hst with
  | refl => exact h
  | tail hs hst ih =>
    obtain ⟨j, -, -, hst⟩ := hst
    exact ih.iconSteps (hw.of_same (.stops hs)) hst

/-- A row of `process_jajobnet_summary` for another instance. -/
theorem summaryRow (h : Still m t) (hw : Wired t) {m' : Id} (hne : m' ≠ m)
    (hmain : ∀ r ∈ t.jobnets, r.innerJobnetId = m' → r.innerJobnetMainId = m')
    (hst : SummaryWrites t m' t') : Still m t' := by
  cases hst with
  | frame hf => exact frame hf h
  | start hf =>
    have hnet := h.setStatusJobnet_other .ready fun r hr hid hrm => hne ((hmain r hr hid).symm.trans hrm)
    refine frame hf (hnet.updateSummaries _ _ (fun _ => rfl) fun x _ hp hx => ?_)
    have hid : x.innerJobnetId = m' := by simpa using hp
    exact absurd (hid.symm.trans hx) hne
  | killed _ hf =>
    refine frame hf ((h.killUpdates m').updateSummaries _ _ (fun _ => rfl) fun x _ _ _ => ?_)
    simp [Summary.running]
  | stopping hst hf =>
    exact frame hf ((h.killUpdates m').stops (hw.of_same (.killUpdates t m')) hst)

end Still

/-! ## The stored rows -/

/-- The jobnet process is in one of its two functions, and the summaries it
still has to look at are different main jobnets. -/
structure TodoInv (s : ServerState) : Prop where
  wired : Wired s.tables
  phase : s.summaryTodo = [] ∨ s.jobnetTodo = []
  keys : (s.summaryTodo.map Summary.innerJobnetId).Nodup
  mains : ∀ e ∈ s.summaryTodo, ∀ r ∈ s.tables.jobnets, r.innerJobnetId = e.innerJobnetId →
    r.innerJobnetMainId = e.innerJobnetId

theorem mains_same {t t' : Tables} {es : List Summary} (hs : SameRows t t')
    (h : ∀ e ∈ es, ∀ r ∈ t.jobnets, r.innerJobnetId = e.innerJobnetId → r.innerJobnetMainId = e.innerJobnetId) :
    ∀ e ∈ es, ∀ r ∈ t'.jobnets, r.innerJobnetId = e.innerJobnetId → r.innerJobnetMainId = e.innerJobnetId := by
  intro e he r' hr' hid
  obtain ⟨r, hr, hsame⟩ := hs.jobnet hr'
  rw [hsame.main]
  exact h e he r hr (hsame.id.symm.trans hid)

theorem summaryRows_mains {t : Tables} (h : Wired t) : ∀ e ∈ summaryRows t, ∀ r ∈ t.jobnets,
    r.innerJobnetId = e.innerJobnetId → r.innerJobnetMainId = e.innerJobnetId := by
  intro e he r hr hid
  obtain ⟨r', hr', hn, hm⟩ := h.summaryNet _ (List.mem_map_of_mem (List.mem_of_mem_filter he))
  rw [Table.eq_of_key h.jobnetKey hr hr' (hid.trans hn.symm)]
  exact hm

theorem TodoInv.step {s s' : ServerState} {l : ServerLabel} (h : TodoInv s) (hst : ServerStep s l s') :
    TodoInv s' := by
  have hw := serverStep_wired h.wired hst
  cases l with
  | jarun i code method =>
    obtain ⟨j, -, -, -, rfl⟩ := hst
    exact ⟨hw, h.phase, h.keys, mains_same (.jarun (processJarunRow_writes code s.tables j method)) h.mains⟩
  | icon i t' =>
    obtain ⟨hs, rfl⟩ := hst
    exact ⟨hw, h.phase, h.keys, mains_same (.iconSteps hs) h.mains⟩
  | requestAbort m =>
    obtain rfl := hst
    exact ⟨hw, h.phase, h.keys, h.mains⟩
  | summarySelect =>
    obtain ⟨-, hj, rfl⟩ := hst
    refine ⟨hw, .inr hj, ?_, summaryRows_mains h.wired⟩
    exact (List.filter_sublist.map _).nodup h.wired.summaryKey
  | summaryRow stop =>
    obtain ⟨e, es, he, rfl⟩ := hst
    obtain ⟨-, hphase, hkeys, hmains⟩ := h
    rw [he] at hphase hkeys hmains
    refine ⟨hw, .inr (hphase.resolve_left (List.cons_ne_nil e es)), hkeys.of_cons, ?_⟩
    refine mains_same (.summaryRow (processSummaryRow_writes stop s.tables _ _ _)) fun e' he' => ?_
    exact hmains e' (List.mem_cons_of_mem _ he')
  | jobnetSelect =>
    obtain ⟨hs, -, rfl⟩ := hst
    exact ⟨hw, .inl hs, h.keys, h.mains⟩
  | jobnetRow bootTime =>
    obtain ⟨e, es, he, rfl⟩ := hst
    have hs := h.phase.resolve_right (he ▸ List.cons_ne_nil e es)
    refine ⟨hw, .inl hs, h.keys, ?_⟩
    exact mains_same (.jobnetRow (processJajobnetRow_writes s.tables _ _ _ _ bootTime)) h.mains
  | bootSelect now =>
    obtain ⟨-, -, rfl⟩ := hst
    exact ⟨hw, h.phase, h.keys, h.mains⟩
  | bootRow now =>
    obtain ⟨e, es, -, rfl⟩ := hst
    exact ⟨hw, h.phase, h.keys, mains_same (.bootRow (bootRow_writes s.tables now e)) h.mains⟩
  | purgeSelect expired =>
    obtain ⟨-, -, rfl⟩ := hst
    exact ⟨hw, h.phase, h.keys, h.mains⟩
  | purgeRow =>
    obtain ⟨e, es, -, rfl⟩ := hst
    refine ⟨hw, h.phase, h.keys, ?_⟩
    dsimp only [purgeRow]
    split
    · exact fun e' he' r hr => h.mains e' he' r (mem_jobnets_delete.1 hr).1
    · exact h.mains

theorem todoInv_inductive : server.Inductive TodoInv where
  init := by
    intro s h
    refine ⟨h.wired, .inl h.summaryTodo, ?_, ?_⟩
    · rw [h.summaryTodo]
      exact List.nodup_nil
    · rw [h.summaryTodo]
      exact fun e he => absurd he List.not_mem_nil
  step := fun _ _ _ h hst => h.step hst

/-! ## After the kill -/

/-- Instance `m` is still, and no stored row of the jobnet process is of it. -/
structure Stopped (m : Id) (s : ServerState) : Prop where
  inv : TodoInv s
  still : Still m s.tables
  summaryTodo : ∀ e ∈ s.summaryTodo, e.innerJobnetId ≠ m
  jobnetTodo : ∀ e ∈ s.jobnetTodo, e.innerJobnetMainId ≠ m ∧ ∃ r ∈ s.tables.jobnets, SameNet r e

/-- The steps of `process_jarun`, `process_jajob`, `jatrap_jobresult` and the
jobnet process, and requests for aborts. -/
def ServerLabel.running : ServerLabel → Prop
  | .bootSelect _ | .bootRow _ | .purgeSelect _ | .purgeRow => False
  | _ => True

theorem jobnetTodo_same {m : Id} {t t' : Tables} {es : List Jobnet} (hs : SameRows t t')
    (h : ∀ e ∈ es, e.innerJobnetMainId ≠ m ∧ ∃ r ∈ t.jobnets, SameNet r e) :
    ∀ e ∈ es, e.innerJobnetMainId ≠ m ∧ ∃ r ∈ t'.jobnets, SameNet r e := by
  intro e he
  obtain ⟨hm, r, hr, hsame⟩ := h e he
  obtain ⟨r', hr', hsame'⟩ := hs.symm.jobnet hr
  exact ⟨hm, r', hr', ⟨hsame.id.trans hsame'.id, hsame.main.trans hsame'.main, hsame.icon.trans hsame'.icon⟩⟩

theorem Stopped.step {m : Id} {s s' : ServerState} {l : ServerLabel} (h : Stopped m s) (hst : ServerStep s l s')
    (hl : l.running) : Stopped m s' := by
  have hinv := h.inv.step hst
  have hw := h.inv.wired
  cases l with
  | jarun i code method =>
    obtain ⟨j, hj, rfl, hs, rfl⟩ := hst
    have hwr := processJarunRow_writes code s.tables j method
    exact ⟨hinv, h.still.jarun hw hj hs hwr, h.summaryTodo, jobnetTodo_same (.jarun hwr) h.jobnetTodo⟩
  | icon i t' =>
    obtain ⟨hs, rfl⟩ := hst
    exact ⟨hinv, h.still.iconSteps hw hs, h.summaryTodo, jobnetTodo_same (.iconSteps hs) h.jobnetTodo⟩
  | requestAbort m' =>
    obtain rfl := hst
    exact ⟨hinv, h.still.updateSummaries _ _ (fun _ => rfl) fun x hx _ => h.still.summary x hx,
      h.summaryTodo, h.jobnetTodo⟩
  | summarySelect =>
    obtain ⟨-, -, rfl⟩ := hst
    refine ⟨hinv, h.still, fun e he hid => ?_, h.jobnetTodo⟩
    obtain ⟨hmem, hs⟩ := List.mem_filter.1 he
    exact h.still.summary e hmem hid hs
  | summaryRow stop =>
    obtain ⟨e, es, he, rfl⟩ := hst
    have hmem : e ∈ s.summaryTodo := he ▸ List.mem_cons_self
    have hwr := processSummaryRow_writes stop s.tables e.innerJobnetId e.status e.jobnetAbortFlag
    refine ⟨hinv, h.still.summaryRow hw (h.summaryTodo e hmem) (h.inv.mains e hmem) hwr, ?_,
      jobnetTodo_same (.summaryRow hwr) h.jobnetTodo⟩
    exact fun e' he' => h.summaryTodo e' (he ▸ List.mem_cons_of_mem _ he')
  | jobnetSelect =>
    obtain ⟨-, -, rfl⟩ := hst
    refine ⟨hinv, h.still, h.summaryTodo, fun e he => ?_⟩
    obtain ⟨hmem, hs⟩ := List.mem_filter.1 he
    exact ⟨fun hm => h.still.jobnets e hmem hm (by simpa [Jobnet.active] using hs), e, hmem, rfl, rfl, rfl⟩
  | jobnetRow bootTime =>
    obtain ⟨e, es, he, rfl⟩ := hst
    obtain ⟨hm, r, hr, hsame⟩ := h.jobnetTodo e (he ▸ List.mem_cons_self)
    have hwr := processJajobnetRow_writes s.tables e.innerJobnetId e.innerJobId e.timeoutFlag e.status bootTime
    refine ⟨hinv, h.still.jobnetRow hw hr hsame hm hwr, h.summaryTodo, ?_⟩
    refine jobnetTodo_same (.jobnetRow hwr) fun e' he' => ?_
    exact h.jobnetTodo e' (he ▸ List.mem_cons_of_mem _ he')
  | bootSelect | bootRow | purgeSelect | purgeRow => exact hl.elim

/-- A row of `process_jajobnet_summary` on which `jajobnet_kill` sets the
summary of instance `m` to ENDERR. -/
structure Kills (m : Id) (s : ServerState) (stop : StopCode) (s' : ServerState) : Prop where
  row : ∃ e es, s.summaryTodo = e :: es ∧ e.innerJobnetId = m ∧ e.status = .run ∧ e.jobnetAbortFlag = true
  noLive : liveJobs (killUpdates s.tables m) m = []
  step : ServerStep s (.summaryRow stop) s'

/-- What the kill leaves of an instance without READY jobnets. -/
theorem killed_still {t : Tables} {m : Id} (hlive : liveJobs (killUpdates t m) m = [])
    (hready : ∀ r ∈ t.jobnets, r.innerJobnetMainId = m → r.status ≠ .ready) :
    Still m ((killUpdates t m).updateSummaries (·.innerJobnetId == m) fun x =>
      { x with status := .endErr, jobStatus := .error }) where
  jobs := by
    intro j hj hm hl
    have hmem : j ∈ liveJobs (killUpdates t m) m :=
      List.mem_filter.2 ⟨hj, by rcases hl with hl | hl <;> simp [hm, hl]⟩
    rw [hlive] at hmem
    exact List.not_mem_nil hmem
  jobnets := by
    intro r' hr' hm hact
    obtain ⟨r, hr, rfl⟩ := Table.mem_update.1 hr'
    by_cases hs : r.status = .run ∨ r.status = .runErr
    · have hp : r.innerJobnetMainId = m := by
        split at hm <;> exact hm
      rcases hs with hs | hs <;> simp [hp, hs, Jobnet.active] at hact
    · simp only [not_or] at hs
      have hp : (r.innerJobnetMainId == m && (r.status == .run || r.status == .runErr)) = false := by
        simp [hs]
      simp only [hp, Bool.false_eq_true, if_false] at hm hact
      rcases hact with hact | hact | hact
      · exact hready r hr hm hact
      · exact hs.1 hact
      · exact hs.2 hact
  summary := by
    intro x' hx' hm
    obtain ⟨x, hx, rfl⟩ := Table.mem_update.1 hx'
    by_cases hid : x.innerJobnetId = m
    · simp [hid, Summary.running]
    · simp [hid] at hm

theorem Kills.stopped {m : Id} {s s' : ServerState} {stop : StopCode} (h : Kills m s stop s') (hinv : TodoInv s)
    (hready : ∀ r ∈ s.tables.jobnets, r.innerJobnetMainId = m → r.status ≠ .ready) : Stopped m s' := by
  obtain ⟨e, es, he, rfl, hs, habort⟩ := h.row
  obtain ⟨e', es', he', rfl⟩ := h.step
  obtain ⟨rfl, rfl⟩ := List.cons.inj (he'.symm.trans he)
  have hinv' := hinv.step h.step
  have hkeys := hinv.keys
  rw [he] at hkeys
  have hempty := hinv.phase.resolve_left (he ▸ List.cons_ne_nil _ _)
  refine ⟨hinv', ?_, ?_, ?_⟩
  · have hkill := processSummaryRow_killed stop h.noLive
    rw [← hs, ← habort] at hkill
    exact .frame hkill (killed_still h.noLive hready)
  · intro x hx hid
    exact (List.nodup_cons.1 hkeys).1 (hid ▸ List.mem_map_of_mem hx)
  · dsimp only
    rw [hempty]
    exact fun x hx => absurd hx List.not_mem_nil

/-- **An aborted instance without READY jobnets stays stopped.** In every
reachable state, when `jajobnet_kill` sets the summary of an instance to
ENDERR and none of its jobnets is READY: after any further transactions no
job of the instance is READY or RUN. -/
theorem kill_stops (m : Id) (s s₁ s₂ : ServerState) (stop : StopCode) (ls : List ServerLabel)
    (hs : server.Reachable s) (hkill : Kills m s stop s₁)
    (hready : ∀ r ∈ s.tables.jobnets, r.innerJobnetMainId = m → r.status ≠ .ready)
    (hrun : (server.restrict fun _ l => l.running).Run s₁ ls s₂) :
    ∀ j ∈ s₂.tables.jobs, j.innerJobnetMainId = m → j.status ≠ .ready ∧ j.status ≠ .run := by
  have hstart := hkill.stopped (todoInv_inductive.reachable s hs) hready
  have hend : Stopped m s₂ := hrun.preserves (fun _ _ _ h hst => h.step hst.1 hst.2) hstart
  intro j hj hm
  exact not_or.1 (hend.still.jobs j hj hm)

/-- Jobnet 1 with START 1, the jobnet icon 10 and END 12; icon 10 stands for
jobnet 2 with START 20 and END 22. -/
def abortState : ServerState where
  tables := { Tables.empty with
    jobs := [⟨1, 1, 1, false, .startIcon, false, .normal, false, .begin, 0, 0, "START", false⟩,
             ⟨10, 1, 1, false, .jobnet, false, .normal, false, .begin, 1, 0, "SUB", false⟩,
             ⟨12, 1, 1, false, .endIcon, false, .normal, false, .begin, 1, 0, "END", false⟩,
             ⟨20, 2, 1, false, .startIcon, false, .normal, false, .begin, 0, 0, "START", false⟩,
             ⟨22, 2, 1, false, .endIcon, false, .normal, false, .begin, 1, 0, "END", false⟩]
    flows := [⟨1, 1, 1, 10, .normal⟩, ⟨2, 1, 10, 12, .normal⟩, ⟨3, 2, 20, 22, .normal⟩]
    jobnets := [⟨1, 1, 0, 0, .immediate, true, false, .begin, 0, .on, "NET", "NET", "user"⟩,
                ⟨2, 1, 10, 0, .immediate, false, false, .begin, 0, .on, "SUB", "SUB", "user"⟩]
    summaries := [⟨1, .immediate, .begin, .normal, false, .normal, 0, .on, "NET", .unset⟩]
    iconJobnets := [⟨10, 1, 2, "SUB"⟩] }
  summaryTodo := []
  jobnetTodo := []
  bootTodo := []
  purgeTodo := []

theorem abortState_fresh : Fresh abortState := by
  refine ⟨⟨?_, ?_, ?_, ?_, ?_, ?_, ?_, ?_, ?_, ?_, ?_, ?_, ?_, ?_⟩, ?_, ?_, ?_, rfl, rfl, rfl, rfl⟩ <;> decide

/-- `jarun_icon_start`, without the job's own variables. -/
def startCode (i : Id) : IconCode i where
  valueBefore t := (t, .succeed)
  run t := jaFlow t i .normal true
  valueBefore_frame := .rfl'
  run_steps t := (jaFlow_steps t i .normal true).iconSteps

/-- No icon has to be stopped on an agent. -/
def noStop : StopCode where
  run t _ := t
  steps _ _ := .refl

/-- The instance is started: the boot process, both functions of the jobnet
process. START 1 is READY. -/
def startLabels : List ServerLabel :=
  [.bootSelect 202301311000, .bootRow 202301311000, .summarySelect, .summaryRow noStop, .jobnetSelect,
    .jobnetRow []]

/-- The next row of `process_jajobnet_summary` ends instance `m`. -/
def killRow (m : Id) (s : ServerState) : Bool :=
  match s.summaryTodo with
  | [] => false
  | e :: _ => e.innerJobnetId = m ∧ e.status = .run ∧ e.jobnetAbortFlag = true ∧
      liveJobs (killUpdates s.tables m) m = []

theorem Kills.of_exec {m : Id} {s s' : ServerState} {stop : StopCode} (h : killRow m s)
    (he : s.exec (.summaryRow stop) = some s') : Kills m s stop s' := by
  unfold killRow at h
  split at h
  · cases h
  rename_i e es hs
  simp only [decide_eq_true_eq] at h
  exact ⟨⟨e, es, hs, h.1, h.2.1, h.2.2.1⟩, h.2.2.2, ServerState.exec_step he⟩

/-- The abort comes before icon 10 is started. -/
def earlyAbort : List ServerLabel := startLabels ++ [.requestAbort 1, .summarySelect]

theorem kill_stops_earlyAbort :
    ∃ s s₁ s₂, server.Reachable s ∧ Kills 1 s noStop s₁ ∧
      (server.restrict fun _ l => l.running).Run s₁ [.jobnetSelect] s₂ ∧
      ∀ j ∈ s₂.tables.jobs, j.innerJobnetMainId = 1 → j.status ≠ .ready ∧ j.status ≠ .run := by
  have hexec : (abortState.execs earlyAbort).any (fun s => killRow 1 s ∧
      (∀ r ∈ s.tables.jobnets, r.innerJobnetMainId = 1 → r.status ≠ .ready) ∧
      (s.exec (.summaryRow noStop)).any fun s₁ => (s₁.execs [.jobnetSelect]).isSome) = true := by
    decide +kernel
  obtain ⟨s, hs, hp⟩ := (Option.any_eq_true _ _).1 hexec
  simp only [decide_eq_true_eq] at hp
  obtain ⟨hkill, hready, hnext⟩ := hp
  obtain ⟨s₁, h₁, hnext⟩ := (Option.any_eq_true _ _).1 hnext
  obtain ⟨s₂, h₂⟩ := Option.isSome_iff_exists.1 hnext
  have hreach : server.Reachable s := ⟨abortState, _, abortState_fresh, ServerState.execs_run hs⟩
  have hkills := Kills.of_exec hkill h₁
  have hrun : (server.restrict fun _ l => l.running).Run s₁ [.jobnetSelect] s₂ :=
    (ServerState.execs_run h₂).restrict (by simp [ServerLabel.running])
  exact ⟨s, s₁, s₂, hreach, hkills, hrun, kill_stops 1 s s₁ s₂ noStop _ hreach hkills hready hrun⟩

/-- The abort comes when icon 10 is RUN and jobnet 2 still READY. -/
def lateAbort : List ServerLabel := startLabels ++ [.jarun 1 (startCode 1) .normal,
  .jarun 10 (startCode 10) .normal, .requestAbort 1, .summarySelect]

/-- Jobnet 2 starts after the kill: START 20 is READY. -/
theorem kill_restarts :
    ¬∀ m s s₁ s₂ stop ls, server.Reachable s → Kills m s stop s₁ →
      (server.restrict fun _ l => l.running).Run s₁ ls s₂ →
      ∀ j ∈ s₂.tables.jobs, j.innerJobnetMainId = m → j.status ≠ .ready ∧ j.status ≠ .run := by
  have hexec : (abortState.execs lateAbort).any (fun s => killRow 1 s ∧
      (s.exec (.summaryRow noStop)).any fun s₁ => (s₁.execs [.jobnetSelect, .jobnetRow []]).any fun s₂ =>
        s₂.tables.jobs.any fun j => j.innerJobnetMainId = 1 ∧ j.status = .ready) = true := by
    decide +kernel
  obtain ⟨s, hs, hp⟩ := (Option.any_eq_true _ _).1 hexec
  simp only [decide_eq_true_eq] at hp
  obtain ⟨hkill, hnext⟩ := hp
  obtain ⟨s₁, h₁, hnext⟩ := (Option.any_eq_true _ _).1 hnext
  obtain ⟨s₂, h₂, hjob⟩ := (Option.any_eq_true _ _).1 hnext
  obtain ⟨j, hj, hjm⟩ := List.any_eq_true.1 hjob
  simp only [decide_eq_true_eq] at hjm
  have hreach : server.Reachable s := ⟨abortState, _, abortState_fresh, ServerState.execs_run hs⟩
  have hrun : (server.restrict fun _ l => l.running).Run s₁ [.jobnetSelect, .jobnetRow []] s₂ :=
    (ServerState.execs_run h₂).restrict (by simp [ServerLabel.running])
  intro h
  exact (h 1 s s₁ s₂ noStop _ hreach (Kills.of_exec hkill h₁) hrun j hj hjm.1).1 hjm.2

end JobArranger
