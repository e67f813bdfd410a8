import JobArranger.L5Server.Settled

/-!
# Finished instances

When an error reaches a jobnet icon with `continue_flag`, its jobnet goes on
and can end while other branches of the sub-jobnet still run; then the
instance is finished with jobs running, and `jobnet_purge`, which counts
running jobs for ENDERR instances only, deletes them.

* `Orderly`: the condition on the steps: no error reaches a continuing jobnet
  icon, and no jobnet icon is restarted or completed by another process while
  its sub-jobnet is in progress.
* `finished_instance`: in every run of orderly steps a finished instance has
  nothing READY or RUN, and a purge deletes no such job.
* `finished_running`: without the condition both fail.
-/
namespace JobArranger

open Tables

/-- The step finds no jobnet icon in RUNERR to restart and completes none
whose sub-jobnet is in progress; `process_jajobnet` finds no icon in error
under a jobnet icon that continues. -/
def Orderly (s : ServerState) : ServerLabel → Prop
  | .jarun i _ _ => NoRestart s.tables i
  | .icon i _ => NoRestart s.tables i ∧ SubDone s.tables i
  | .jobnetRow _ => ∀ e ∈ s.jobnetTodo.head?, NoRestart s.tables e.innerJobId ∧
      (continues s.tables e.innerJobId → ∀ j ∈ jobsOf s.tables e.innerJobnetId, ¬j.errored)
  | _ => True

structure FinishInv (s : ServerState) : Prop where
  todo : TodoInv s
  test : ∀ j ∈ s.tables.jobs, j.testFlag = false
  settled : Settled s.tables
  summaryTodo : ∀ e ∈ s.summaryTodo, Runs s.tables e.innerJobnetId
  jobnetKeys : (s.jobnetTodo.map Jobnet.innerJobnetId).Nodup
  jobnetTodo : ∀ e ∈ s.jobnetTodo, Busy s.tables e.innerJobnetId e.innerJobId
  bootPhase : s.bootTodo = [] ∨ s.purgeTodo = []
  bootKeys : (s.bootTodo.map Summary.innerJobnetId).Nodup
  bootTodo : ∀ e ∈ s.bootTodo, Held s.tables e.innerJobnetId .begin
  purgeKeys : (s.purgeTodo.map Summary.innerJobnetId).Nodup
  purgeTodo : ∀ e ∈ s.purgeTodo, e.status = .endErr ∨ Held s.tables e.innerJobnetId .ended

theorem test_same {t t' : Tables} (hs : SameRows t t') (h : ∀ j ∈ t.jobs, j.testFlag = false) :
    ∀ j ∈ t'.jobs, j.testFlag = false := by
  intro j' hj'
  obtain ⟨j, hj, he⟩ := hs.job hj'
  rw [he.test]
  exact h j hj

theorem ne_head {α : Type} {key : α → Id} {e : α} {es : List α} (h : ((e :: es).map key).Nodup) :
    ∀ e' ∈ es, some (key e') ≠ some (key e) := by
  intro e' he' heq
  rw [List.map_cons, List.nodup_cons] at h
  exact h.1 (Option.some.inj heq ▸ List.mem_map_of_mem he')

namespace FinishInv

variable {s s' : ServerState}

/-- A transaction that changes no stored row of the other processes: the
tables `t'` and the work lists that are left. -/
theorem next (h : FinishInv s) {m : Option Id} {s' : ServerState} (htodo : TodoInv s')
    (hset : Settled s'.tables) (ht : Touches m s.tables s'.tables)
    (hsum : ∀ e ∈ s'.summaryTodo, e ∈ s.summaryTodo ∧ some e.innerJobnetId ≠ m)
    (hnet : s'.jobnetTodo.Sublist s.jobnetTodo) (hnet' : ∀ e ∈ s'.jobnetTodo, some e.innerJobnetId ≠ m)
    (hboot : s'.bootTodo.Sublist s.bootTodo) (hboot' : ∀ e ∈ s'.bootTodo, some e.innerJobnetId ≠ m)
    (hpurge : s'.purgeTodo = s.purgeTodo) (hpurge' : ∀ k, Held s.tables k .ended → some k ≠ m) :
    FinishInv s' where
  todo := htodo
  test := test_same ht.same h.test
  settled := hset
  summaryTodo := fun e he => (h.summaryTodo e (hsum e he).1).touches ht (hsum e he).2
  jobnetKeys := (hnet.map _).nodup h.jobnetKeys
  jobnetTodo := fun e he => (h.jobnetTodo e (hnet.subset he)).touches ht (hnet' e he)
  bootPhase := by
    rcases h.bootPhase with hb | hp
    · rw [hb, List.sublist_nil] at hboot
      exact .inl hboot
    · exact .inr (hpurge.trans hp)
  bootKeys := (hboot.map _).nodup h.bootKeys
  bootTodo := fun e he => (h.bootTodo e (hboot.subset he)).touches h.todo.wired ht (hboot' e he)
  purgeKeys := hpurge ▸ h.purgeKeys
  purgeTodo := by
    intro e he
    rcases h.purgeTodo e (hpurge ▸ he) with hs | hh
    · exact .inl hs
    · exact .inr (hh.touches h.todo.wired ht (hpurge' _ hh))

theorem jarun (h : FinishInv s) {i : Id} {code : IconCode i} {method : Method}
    (hst : ServerStep s (.jarun i code method) s') (ho : NoRestart s.tables i) : FinishInv s' := by
  have htodo := h.todo.step hst
  obtain ⟨j, hj, rfl, hs, rfl⟩ := hst
  have hwr := processJarunRow_writes code s.tables j method
  exact h.next htodo (h.settled.jarun h.todo.wired hj hs ho hwr) (.jarun hwr none) (fun e he => ⟨he, nofun⟩)
    (.refl _) (fun _ _ => nofun) (.refl _) (fun _ _ => nofun) rfl fun _ _ => nofun

theorem icon (h : FinishInv s) {i : Id} {t' : Tables} (hst : ServerStep s (.icon i t') s')
    (ho : NoRestart s.tables i ∧ SubDone s.tables i) : FinishInv s' := by
  have htodo := h.todo.step hst
  obtain ⟨hs, rfl⟩ := hst
  have hfire : Firing i s.tables := ⟨h.todo.wired, h.settled, ho.2, fun _ => ho.1⟩
  exact h.next htodo (hfire.iconSteps hs).settled (.iconSteps hs none) (fun e he => ⟨he, nofun⟩)
    (.refl _) (fun _ _ => nofun) (.refl _) (fun _ _ => nofun) rfl fun _ _ => nofun

theorem requestAbort (h : FinishInv s) {m : Id} (hst : ServerStep s (.requestAbort m) s') : FinishInv s' := by
  have htodo := h.todo.step hst
  obtain rfl := hst
  have hset := h.settled.updateSummaries (·.innerJobnetId == m) (fun x => { x with jobnetAbortFlag := true })
    (fun _ => rfl) fun x hx _ hq => h.settled.main x hx hq
  have htouch := (Touches.refl none s.tables).updateSummaries (·.innerJobnetId == m)
    (fun x => { x with jobnetAbortFlag := true }) (fun _ => rfl) fun _ _ => .inr rfl
  exact h.next htodo hset htouch (fun e he => ⟨he, nofun⟩) (.refl _) (fun _ _ => nofun) (.refl _)
    (fun _ _ => nofun) rfl fun _ _ => nofun

theorem summaryRow (h : FinishInv s) {stop : StopCode} (hst : ServerStep s (.summaryRow stop) s') :
    FinishInv s' := by
  have htodo := h.todo.step hst
  obtain ⟨e, es, he, rfl⟩ := hst
  have hmem : e ∈ s.summaryTodo := he ▸ List.mem_cons_self
  have hruns := h.summaryTodo e hmem
  have hempty := h.todo.phase.resolve_left (he ▸ List.cons_ne_nil e es)
  have hkeys := h.todo.keys
  rw [he] at hkeys
  have hwr := processSummaryRow_writes stop s.tables e.innerJobnetId e.status e.jobnetAbortFlag
  have hset := h.settled.summaryRow h.todo.wired (h.todo.mains e hmem) hwr
  refine h.next htodo hset (.summaryRow hwr) (fun e' he' => ⟨he ▸ List.mem_cons_of_mem _ he', ?_⟩) (.refl _) ?_
    (.refl _) (fun e' he' heq => ?_) rfl fun k hk heq => ?_
  · exact ne_head hkeys e' he'
  · dsimp only
    rw [hempty]
    exact fun e' he' => absurd he' List.not_mem_nil
  · exact hruns.not_held (.inl rfl) (Option.some.inj heq ▸ h.bootTodo e' he')
  · exact hruns.not_held (.inr rfl) (Option.some.inj heq ▸ hk)

theorem jobnetRow (h : FinishInv s) {bootTime : Text} (hst : ServerStep s (.jobnetRow bootTime) s')
    (ho : Orderly s (.jobnetRow bootTime)) : FinishInv s' := by
  have htodo := h.todo.step hst
  obtain ⟨e, es, he, rfl⟩ := hst
  have hmem : e ∈ s.jobnetTodo := he ▸ List.mem_cons_self
  have hbusy := h.jobnetTodo e hmem
  have hempty := h.todo.phase.resolve_right (he ▸ List.cons_ne_nil e es)
  have hkeys := h.jobnetKeys
  rw [he] at hkeys
  obtain ⟨hn, herr⟩ := ho e (by rw [he]; rfl)
  have hwr := processJajobnetRow_writes s.tables e.innerJobnetId e.innerJobId e.timeoutFlag e.status bootTime
  have hset := h.settled.jobnetRow h.todo.wired h.test hbusy hn herr hwr
  have hheld := fun {st : Status} (hq : Quiet st) => hbusy.not_held h.settled h.todo.wired hq
  refine h.next htodo hset (.jobnetRow hwr) ?_ (he ▸ List.sublist_cons_self e es) (ne_head hkeys)
    (.refl _) (fun e' he' heq => ?_) rfl fun k hk heq => ?_
  · dsimp only
    rw [hempty]
    exact fun e' he' => absurd he' List.not_mem_nil
  · exact hheld (.inl rfl) (Option.some.inj heq ▸ h.bootTodo e' he')
  · exact hheld (.inr rfl) (Option.some.inj heq ▸ hk)

theorem bootRow (h : FinishInv s) {now : Nat} (hst : ServerStep s (.bootRow now) s') : FinishInv s' := by
  have htodo := h.todo.step hst
  obtain ⟨e, es, he, rfl⟩ := hst
  have hheld : Held s.tables e.innerJobnetId .begin := h.bootTodo e (he ▸ List.mem_cons_self)
  have hkeys := h.bootKeys
  rw [he] at hkeys
  have hwr := bootRow_writes s.tables now e
  have hset : Settled (JobArranger.bootRow s.tables now e) := by
    obtain ⟨x, hx, hid, hs⟩ := hheld
    exact h.settled.bootRow h.todo.wired hx hid hs hwr
  refine h.next htodo hset (.bootRow hwr) (fun e' he' => ⟨he', fun heq => ?_⟩) (.refl _) (fun e' he' heq => ?_)
    (he ▸ List.sublist_cons_self e es) (ne_head hkeys) rfl fun k hk heq => ?_
  · exact (h.summaryTodo e' he').not_held (.inl rfl) (Option.some.inj heq ▸ hheld)
  · exact (h.jobnetTodo e' he').not_held h.settled h.todo.wired (.inl rfl) (Option.some.inj heq ▸ hheld)
  · obtain ⟨x, hx, hid, hs⟩ := hheld
    obtain ⟨y, hy, hyid, hys⟩ := hk
    obtain rfl := Table.eq_of_key h.todo.wired.summaryKey hx hy ((hid.trans (Option.some.inj heq).symm).trans hyid.symm)
    rw [hs] at hys
    cases hys

theorem purgeRow (h : FinishInv s) (hst : ServerStep s .purgeRow s') : FinishInv s' := by
  have htodo := h.todo.step hst
  obtain ⟨e, es, he, rfl⟩ := hst
  have hw := h.todo.wired
  have hkeys := h.purgeKeys
  have hpurge := h.purgeTodo
  rw [he] at hkeys hpurge
  have hempty := h.bootPhase.resolve_right (he ▸ List.cons_ne_nil e es)
  have hrest : ∀ e' ∈ es, e'.status = .endErr ∨ Held s.tables e'.innerJobnetId .ended := fun e' he' =>
    hpurge e' (List.mem_cons_of_mem _ he')
  have hboot : ∀ t, ∀ e' ∈ s.bootTodo, Held t e'.innerJobnetId .begin := by
    rw [hempty]
    exact fun _ e' he' => absurd he' List.not_mem_nil
  by_cases hp : purges s.tables e.innerJobnetId e.status
  · have ht : JobArranger.purgeRow s.tables e.innerJobnetId e.status =
        deleteInstance s.tables e.innerJobnetId := if_pos hp
    rw [ht] at htodo ⊢
    refine ⟨htodo, fun j hj => h.test j (hw.mem_jobs_delete.1 hj).1, h.settled.delete _, ?_, h.jobnetKeys, ?_,
      .inl hempty, h.bootKeys, hboot _, hkeys.of_cons, ?_⟩
    · exact fun e' he' x hx => h.summaryTodo e' he' x (hw.mem_summaries_delete.1 hx).1
    · exact fun e' he' => (h.jobnetTodo e' he').delete hw _
    · intro e' he'
      refine (hrest e' he').imp_right fun hh => hh.delete hw fun heq => ?_
      exact ne_head hkeys e' he' (congrArg some heq)
  · have ht : JobArranger.purgeRow s.tables e.innerJobnetId e.status = s.tables := if_neg hp
    rw [ht] at htodo ⊢
    exact ⟨htodo, h.test, h.settled, h.summaryTodo, h.jobnetKeys, h.jobnetTodo, .inl hempty, h.bootKeys, hboot _,
      hkeys.of_cons, hrest⟩

theorem selects (h : FinishInv s) {l : ServerLabel} (hst : ServerStep s l s')
    (hl : l = .summarySelect ∨ l = .jobnetSelect ∨ (∃ now, l = .bootSelect now) ∨ ∃ expired, l = .purgeSelect expired) :
    FinishInv s' := by
  have htodo := h.todo.step hst
  have hw := h.todo.wired
  have hheld : ∀ {rows : List Summary}, (∀ e ∈ rows, e ∈ s.tables.summaries) →
      ∀ e ∈ rows, Held s.tables e.innerJobnetId e.status := fun hmem e he => ⟨e, hmem e he, rfl, rfl⟩
  rcases hl with rfl | rfl | ⟨now, rfl⟩ | ⟨expired, rfl⟩
  · obtain ⟨-, -, rfl⟩ := hst
    refine ⟨htodo, h.test, h.settled, fun e he x hx hid => ?_, h.jobnetKeys, h.jobnetTodo, h.bootPhase, h.bootKeys,
      h.bootTodo, h.purgeKeys, h.purgeTodo⟩
    simp only [summaryRows, List.mem_filter, decide_eq_true_eq] at he
    rw [Table.eq_of_key hw.summaryKey hx he.1 hid]
    rcases he.2 with hs | hs <;> simp [Quiet, hs]
  · obtain ⟨-, -, rfl⟩ := hst
    refine ⟨htodo, h.test, h.settled, h.summaryTodo, (List.filter_sublist.map _).nodup hw.jobnetKey, fun e he => ?_,
      h.bootPhase, h.bootKeys, h.bootTodo, h.purgeKeys, h.purgeTodo⟩
    simp only [jobnetRows, List.mem_filter, decide_eq_true_eq] at he
    refine ⟨fun r hr hid => ?_, fun _ _ _ => ⟨e, he.1, rfl⟩⟩
    rw [Table.eq_of_key hw.jobnetKey hr he.1 hid]
    refine ⟨?_, rfl⟩
    rcases he.2 with hs | hs | hs <;> simp [Quiet, hs]
  · obtain ⟨-, hp, rfl⟩ := hst
    have hperm := List.perm_insertionSort bootOrder
      (s.tables.summaries.filter fun x => x.status = .begin ∧ x.startPendingFlag ≠ .on ∧ x.due now)
    refine ⟨htodo, h.test, h.settled, h.summaryTodo, h.jobnetKeys, h.jobnetTodo, .inr hp, ?_, fun e he => ?_,
      h.purgeKeys, h.purgeTodo⟩
    · exact (hperm.map Summary.innerJobnetId).nodup_iff.2 ((List.filter_sublist.map _).nodup hw.summaryKey)
    · have hmem := hperm.subset he
      simp only [List.mem_filter, decide_eq_true_eq] at hmem
      exact ⟨e, hmem.1, rfl, hmem.2.1⟩
  · obtain ⟨hb, -, rfl⟩ := hst
    refine ⟨htodo, h.test, h.settled, h.summaryTodo, h.jobnetKeys, h.jobnetTodo, .inl hb, h.bootKeys, h.bootTodo,
      (List.filter_sublist.map _).nodup hw.summaryKey, fun e he => ?_⟩
    simp only [purgeRows, List.mem_filter, decide_eq_true_eq] at he
    rcases he.2.1 with hs | hs
    · exact .inr ⟨e, he.1, rfl, hs⟩
    · exact .inl hs

theorem step (h : FinishInv s) {l : ServerLabel} (hst : ServerStep s l s') (ho : Orderly s l) :
    FinishInv s' := by
  cases l with
  | jarun i code method => exact h.jarun hst ho
  | icon i t' => exact h.icon hst ho
  | requestAbort m => exact h.requestAbort hst
  | summarySelect => exact h.selects hst (.inl rfl)
  | summaryRow stop => exact h.summaryRow hst
  | jobnetSelect => exact h.selects hst (.inr (.inl rfl))
  | jobnetRow bootTime => exact h.jobnetRow hst ho
  | bootSelect now => exact h.selects hst (.inr (.inr (.inl ⟨now, rfl⟩)))
  | bootRow now => exact h.bootRow hst
  | purgeSelect expired => exact h.selects hst (.inr (.inr (.inr ⟨expired, rfl⟩)))
  | purgeRow => exact h.purgeRow hst

theorem of_fresh (h : Fresh s) (ht : ∀ j ∈ s.tables.jobs, j.testFlag = false) : FinishInv s := by
  have hset : Settled s.tables := by
    refine ⟨fun _ _ _ j hj _ hl => ?_, fun r hr _ _ _ _ => .inl (h.jobnets r hr),
      fun _ _ _ _ _ _ r hr _ => .inl (h.jobnets r hr), fun _ _ _ r hr _ => .inl (h.jobnets r hr)⟩
    rw [Job.live, h.jobs j hj] at hl
    rcases hl with hl | hl <;> cases hl
  refine ⟨todoInv_inductive.init s h, ht, hset, ?_, ?_, ?_, .inl h.bootTodo, ?_, ?_, ?_, ?_⟩
  all_goals simp [h.summaryTodo, h.jobnetTodo, h.bootTodo, h.purgeTodo]

/-- The main jobnet of an instance in END is at rest. -/
theorem not_live (h : FinishInv s) {m : Id} (hm : Held s.tables m .ended) :
    ∀ j ∈ s.tables.jobs, j.innerJobnetMainId = m → ¬j.live := by
  obtain ⟨x, hx, rfl, hs⟩ := hm
  exact h.settled.instance_not_live h.todo.wired fun r hr hid => h.settled.main x hx (.inr hs) r hr hid

end FinishInv

/-- **A finished instance has nothing running.** From loaded instances
without test mode, in every run of orderly steps: an instance whose summary
is END has no job READY or RUN, and neither has one that a purge deletes. -/
theorem finished_instance (s₀ s : ServerState) (ls : List ServerLabel) (hfresh : Fresh s₀)
    (htest : ∀ j ∈ s₀.tables.jobs, j.testFlag = false) (hrun : (server.restrict Orderly).Run s₀ ls s) :
    (∀ x ∈ s.tables.summaries, x.status = .ended → ∀ j ∈ s.tables.jobs, j.innerJobnetMainId = x.innerJobnetId →
      j.status ≠ .ready ∧ j.status ≠ .run) ∧
    ∀ e es, s.purgeTodo = e :: es → purges s.tables e.innerJobnetId e.status →
      ∀ j ∈ s.tables.jobs, j.innerJobnetMainId = e.innerJobnetId → j.status ≠ .ready ∧ j.status ≠ .run := by
  have hinv : FinishInv s :=
    hrun.preserves (fun _ _ _ h hst => h.step hst.1 hst.2) (.of_fresh hfresh htest)
  refine ⟨fun x hx hs j hj hm => ?_, fun e es he hp j hj hm => ?_⟩
  · exact not_or.1 (hinv.not_live ⟨x, hx, rfl, hs⟩ j hj hm)
  · rcases hinv.purgeTodo e (he ▸ List.mem_cons_self) with hs | hh
    · -- ENDERR: the purge has counted
      simp only [purges, hs, true_and, Bool.not_eq_true', decide_eq_false_iff_not, not_lt, Nat.le_zero,
        getRunningJobs, List.countP_eq_zero, decide_eq_true_eq] at hp
      exact not_or.1 fun hl => hp j hj ⟨hm, hl⟩
    · exact not_or.1 (hinv.not_live hh j hj hm)

/-! ## Concrete runs -/

instance (t : Tables) (i : Id) : Decidable (SubDone t i) := inferInstanceAs (Decidable (∀ j ∈ t.jobs, _ → _))

instance (t : Tables) (i : Id) : Decidable (NoRestart t i) :=
  inferInstanceAs (Decidable (∀ f ∈ flowsFrom t i, ∀ k ∈ t.jobs, _ → _ → _))

instance (s : ServerState) : (l : ServerLabel) → Decidable (Orderly s l)
  | .jarun i _ _ => inferInstanceAs (Decidable (NoRestart s.tables i))
  | .icon i _ => inferInstanceAs (Decidable (NoRestart s.tables i ∧ SubDone s.tables i))
  | .jobnetRow _ => inferInstanceAs (Decidable (∀ e ∈ s.jobnetTodo.head?, NoRestart s.tables e.innerJobId ∧ (_ → _)))
  | .requestAbort _ | .summarySelect | .summaryRow _ | .jobnetSelect | .bootSelect _ | .bootRow _
  | .purgeSelect _ | .purgeRow => .isTrue trivial

/-- A run of orderly steps. -/
def ServerState.orderlyExecs (ls : List ServerLabel) (s : ServerState) : Option ServerState :=
  ls.foldlM (fun s l => if Orderly s l then s.exec l else none) s

theorem ServerState.orderlyExecs_run {ls : List ServerLabel} {s s' : ServerState}
    (h : s.orderlyExecs ls = some s') : (server.restrict Orderly).Run s ls s' :=
  LTS.Run.of_foldlM_restrict (fun _ _ _ h => exec_step h) h

/-- `jarun_icon_end`, with exit code 0. -/
def endCode (i n : Id) : IconCode i where
  valueBefore t := (t, .succeed)
  run t := andThen (jaSetValueAfter t i n "JOB_EXIT_CD" (ascii "0")) fun t => jaSetEnd t i true
  valueBefore_frame := .rfl'
  run_steps t := (andThen_steps (frame_steps (jaSetValueAfter_status t _ _ _ _))
    fun t₁ _ => jaSetEnd_steps t₁ i true).iconSteps

/-- `jarun_icon_job` without an agent for the job. -/
def failCode (i : Id) : IconCode i where
  valueBefore t := (t, .succeed)
  run t := jaSetRunerr t i 2
  valueBefore_frame := .rfl'
  run_steps t := (jaSetRunerr_steps t i 2).iconSteps

/-- `jarun_icon_job`, up to the result. -/
def agentCode (i : Id) : IconCode i where
  valueBefore t := (t, .succeed)
  run t := (t, .succeed)
  valueBefore_frame := .rfl'
  run_steps _ := .refl

/-- One pass of the jobnet process over two jobnets. -/
def passLabels : List ServerLabel := [.jobnetSelect, .jobnetRow [], .jobnetRow []]

/-- The instance of `abortState` runs to its end and is purged. -/
def endLabels : List ServerLabel := startLabels ++ [.jarun 1 (startCode 1) .normal, .jarun 10 (startCode 10) .normal]
  ++ passLabels ++ [.jarun 20 (startCode 20) .normal, .jarun 22 (endCode 22 2) .normal] ++ passLabels
  ++ [.jarun 12 (endCode 12 1) .normal, .jobnetSelect, .jobnetRow [], .purgeSelect fun _ => true]

theorem finished_instance_abortState :
    ∃ s, (server.restrict Orderly).Run abortState endLabels s ∧
      (∃ x ∈ s.tables.summaries, x.status = .ended) ∧
      (∃ e es, s.purgeTodo = e :: es ∧ purges s.tables e.innerJobnetId e.status) ∧
      ∀ x ∈ s.tables.summaries, x.status = .ended → ∀ j ∈ s.tables.jobs,
        j.innerJobnetMainId = x.innerJobnetId → j.status ≠ .ready ∧ j.status ≠ .run := by
  have hexec : (abortState.orderlyExecs endLabels).any (fun s =>
      (s.tables.summaries.any fun x => x.status = .ended) ∧
      s.purgeTodo.head?.any fun e => purges s.tables e.innerJobnetId e.status) = true := by
    decide +kernel
  obtain ⟨s, hs, hp⟩ := (Option.any_eq_true _ _).1 hexec
  simp only [decide_eq_true_eq, List.any_eq_true] at hp
  obtain ⟨hended, hpurge⟩ := hp
  obtain ⟨e, he, hpe⟩ := (Option.any_eq_true _ _).1 hpurge
  obtain ⟨es, hes⟩ := List.head?_eq_some_iff.1 he
  have hrun := ServerState.orderlyExecs_run hs
  exact ⟨s, hrun, hended, ⟨e, es, hes, hpe⟩, (finished_instance _ _ _ abortState_fresh (by decide) hrun).1⟩

/-- Jobnet 1 with START 1, the jobnet icon 10, which continues on errors, and
END 12; icon 10 stands for jobnet 2 with START 20, the jobs 21 and 22 and
their join, END 24. -/
def branchState : ServerState where
  tables := { Tables.empty with
    jobs := [⟨1, 1, 1, false, .startIcon, false, .normal, false, .begin, 0, 0, "START", false⟩,
             ⟨10, 1, 1, false, .jobnet, false, .normal, false, .begin, 1, 0, "SUB", true⟩,
             ⟨12, 1, 1, false, .endIcon, false, .normal, false, .begin, 1, 0, "END", false⟩,
             ⟨20, 2, 1, false, .startIcon, false, .normal, false, .begin, 0, 0, "START", false⟩,
             ⟨21, 2, 1, false, .job, false, .normal, false, .begin, 1, 0, "JOB1", false⟩,
             ⟨22, 2, 1, false, .job, false, .normal, false, .begin, 1, 0, "JOB2", false⟩,
             ⟨24, 2, 1, false, .endIcon, false, .normal, false, .begin, 2, 0, "END", false⟩]
    flows := [⟨1, 1, 1, 10, .normal⟩, ⟨2, 1, 10, 12, .normal⟩, ⟨3, 2, 20, 21, .normal⟩, ⟨4, 2, 20, 22, .normal⟩,
              ⟨5, 2, 21, 24, .normal⟩, ⟨6, 2, 22, 24, .normal⟩]
    jobnets := [⟨1, 1, 0, 0, .immediate, true, false, .begin, 0, .on, "NET", "NET", "user"⟩,
                ⟨2, 1, 10, 0, .immediate, false, false, .begin, 0, .on, "SUB", "SUB", "user"⟩]
    summaries := [⟨1, .immediate, .begin, .normal, false, .normal, 0, .on, "NET", .unset⟩]
    iconJobnets := [⟨10, 1, 2, "SUB"⟩] }
  summaryTodo := []
  jobnetTodo := []
  bootTodo := []
  purgeTodo := []

theorem branchState_fresh : Fresh branchState := by
  refine ⟨⟨?_, ?_, ?_, ?_, ?_, ?_, ?_, ?_, ?_, ?_, ?_, ?_, ?_, ?_⟩, ?_, ?_, ?_, rfl, rfl, rfl, rfl⟩ <;> decide

/-- Job 21 fails while job 22 runs; icon 10 goes on to END 12. -/
def branchLabels : List ServerLabel :=
  startLabels ++ [.jarun 1 (startCode 1) .normal, .jarun 10 (startCode 10) .normal] ++ passLabels
  ++ [.jarun 20 (startCode 20) .normal, .jarun 21 (failCode 21) .normal, .jarun 22 (agentCode 22) .normal]
  ++ passLabels ++ [.jarun 12 (endCode 12 1) .normal, .jobnetSelect, .jobnetRow [], .jobnetRow [],
    .purgeSelect fun _ => true]

/-- Job 22 is RUN in an instance in END, and the purge deletes it. -/
theorem finished_running :
    ¬∀ s₀ s ls, Fresh s₀ → (∀ j ∈ s₀.tables.jobs, j.testFlag = false) → server.Run s₀ ls s →
      (∀ x ∈ s.tables.summaries, x.status = .ended → ∀ j ∈ s.tables.jobs,
        j.innerJobnetMainId = x.innerJobnetId → j.status ≠ .ready ∧ j.status ≠ .run) ∨
      ∀ e es, s.purgeTodo = e :: es → purges s.tables e.innerJobnetId e.status →
        ∀ j ∈ s.tables.jobs, j.innerJobnetMainId = e.innerJobnetId → j.status ≠ .ready ∧ j.status ≠ .run := by
  have hexec : (branchState.execs branchLabels).any (fun s =>
      (s.tables.summaries.any fun x => x.status = .ended ∧ s.tables.jobs.any fun j =>
        j.innerJobnetMainId = x.innerJobnetId ∧ j.status = .run) ∧
      s.purgeTodo.head?.any fun e => purges s.tables e.innerJobnetId e.status ∧ s.tables.jobs.any fun j =>
        j.innerJobnetMainId = e.innerJobnetId ∧ j.status = .run) = true := by
    decide +kernel
  obtain ⟨s, hs, hp⟩ := (Option.any_eq_true _ _).1 hexec
  simp only [decide_eq_true_eq, List.any_eq_true] at hp
  obtain ⟨⟨x, hx, hxe, j, hj, hjx, hjr⟩, hpurge⟩ := hp
  obtain ⟨e, he, hpe⟩ := (Option.any_eq_true _ _).1 hpurge
  simp only [decide_eq_true_eq] at hpe
  obtain ⟨hpe, hkany⟩ := hpe
  obtain ⟨k, hk, hkp⟩ := hkany
  obtain ⟨es, hes⟩ := List.head?_eq_some_iff.1 he
  intro h
  rcases h branchState s branchLabels branchState_fresh (by decide) (ServerState.execs_run hs) with h | h
  · exact (h x hx hxe j hj hjx).2 hjr
  · exact (h e es hes hpe k hk hkp.1).2 hkp.2

end JobArranger
