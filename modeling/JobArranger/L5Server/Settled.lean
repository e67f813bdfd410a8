import JobArranger.L5Server.Kill

/-!
# Jobnets at rest

A jobnet is put to END from the counts of its own icons, in which an icon in
RUNERR or ABORT with `continue_flag` counts as ended. Such an icon can be a
jobnet icon, so what a jobnet at rest says about the jobs below it has to be
kept on every level.

* `Settled`: a jobnet that has not started or has ended has nothing running,
  on any level, and a jobnet icon that its jobnet would count as done has no
  sub-jobnet in progress.
* `Firing`: what the flows of an icon need to keep it. They reset the jobs
  of a jobnet icon they reach, in whatever state its sub-jobnet is.
* `Settled.jarun`, `Settled.jobnetRow`, `Settled.summaryRow`,
  `Settled.bootRow`: the transactions keep it.
* `Touches`: which stored rows of the other processes stay true.
-/
namespace JobArranger

open Tables

/-- Not started, or ended. -/
def Quiet (s : Status) : Prop := s = .begin ∨ s = .ended

instance (s : Status) : Decidable (Quiet s) := inferInstanceAs (Decidable (_ ∨ _))

/-- An icon that stands for no sub-jobnet in progress, if it is a jobnet
icon: what `jajobnet_run` does not count as READY, RUN or in error, and
READY itself. -/
def Job.idle (j : Job) : Prop :=
  j.status = .begin ∨ j.status = .ready ∨ j.status = .ended ∨
    (j.continueFlag = true ∧ (j.status = .runErr ∨ j.status = .abort))

structure Settled (t : Tables) : Prop where
  jobs : ∀ r ∈ t.jobnets, Quiet r.status → ∀ j ∈ t.jobs, j.innerJobnetId = r.innerJobnetId → ¬j.live
  icons : ∀ r ∈ t.jobnets, ∀ j ∈ t.jobs, j.innerJobId = r.innerJobId → j.idle → Quiet r.status
  nested : ∀ q ∈ t.jobnets, Quiet q.status → ∀ j ∈ t.jobs, j.innerJobnetId = q.innerJobnetId →
    ∀ r ∈ t.jobnets, r.innerJobId = j.innerJobId → Quiet r.status
  main : ∀ x ∈ t.summaries, Quiet x.status → ∀ r ∈ t.jobnets, r.innerJobnetId = x.innerJobnetId →
    Quiet r.status

namespace Settled

variable {t t' : Tables}

theorem frame (hf : StatusEq t t') (h : Settled t) : Settled t' := by
  obtain ⟨h1, h2, h3, h4⟩ := h
  constructor
  · rw [hf.jobs, hf.jobnets]
    exact h1
  · rw [hf.jobs, hf.jobnets]
    exact h2
  · rw [hf.jobs, hf.jobnets]
    exact h3
  · rw [hf.summaries, hf.jobnets]
    exact h4

/-- Icons change their status: one that becomes READY or RUN is in a jobnet
that runs, one that becomes idle has no sub-jobnet in progress. -/
theorem updateJobs (h : Settled t) (p : Job → Bool) (f : Job → Job)
    (hf : ∀ j, (f j).innerJobId = j.innerJobId ∧ (f j).innerJobnetId = j.innerJobnetId)
    (hlive : ∀ j ∈ t.jobs, p j → (f j).live → ∀ r ∈ t.jobnets, r.innerJobnetId = j.innerJobnetId →
      ¬Quiet r.status)
    (hidle : ∀ j ∈ t.jobs, p j → (f j).idle → ∀ r ∈ t.jobnets, r.innerJobId = j.innerJobId → Quiet r.status) :
    Settled (t.updateJobs p f) := by
  refine ⟨fun r hr hq j' hj' hid => ?_, fun r hr j' hj' hid => ?_, fun q hq hqs j' hj' hid r hr hri => ?_, h.main⟩
  all_goals
    obtain ⟨j, hj, rfl⟩ := Table.mem_update.1 hj'
    by_cases hp : p j
  · rw [if_pos hp] at hid ⊢
    rw [(hf j).2] at hid
    exact fun hl => hlive j hj hp hl r hr hid.symm hq
  · rw [if_neg hp] at hid ⊢
    exact h.jobs r hr hq j hj hid
  · rw [if_pos hp] at hid ⊢
    rw [(hf j).1] at hid
    exact fun hi => hidle j hj hp hi r hr hid.symm
  · rw [if_neg hp] at hid ⊢
    exact h.icons r hr j hj hid
  · rw [if_pos hp] at hid hri
    rw [(hf j).2] at hid
    rw [(hf j).1] at hri
    exact h.nested q hq hqs j hj hid r hr hri
  · rw [if_neg hp] at hid hri
    exact h.nested q hq hqs j hj hid r hr hri

/-- Jobnets start: their icons are not idle, the jobnets of the icons and
the summaries are in progress. -/
theorem busyJobnets (h : Settled t) (p : Jobnet → Bool) (f : Jobnet → Jobnet)
    (hf : ∀ r, (f r).innerJobnetId = r.innerJobnetId ∧ (f r).innerJobId = r.innerJobId ∧ ¬Quiet (f r).status)
    (hstart : ∀ r ∈ t.jobnets, p r → Quiet r.status →
      (∀ j ∈ t.jobs, j.innerJobId = r.innerJobId → ¬j.idle ∧
        ∀ q ∈ t.jobnets, q.innerJobnetId = j.innerJobnetId → ¬Quiet q.status) ∧
      ∀ x ∈ t.summaries, x.innerJobnetId = r.innerJobnetId → ¬Quiet x.status) :
    Settled (t.updateJobnets p f) := by
  -- a row that is quiet afterwards was not written
  have hold : ∀ r' ∈ (t.updateJobnets p f).jobnets, Quiet r'.status → r' ∈ t.jobnets := by
    intro r' hr' hq
    obtain ⟨r, hr, rfl⟩ := Table.mem_update.1 hr'
    by_cases hp : p r
    · rw [if_pos hp] at hq
      exact absurd hq (hf r).2.2
    · rw [if_neg hp]
      exact hr
  refine ⟨fun r' hr' hq => h.jobs r' (hold r' hr' hq) hq, fun r' hr' j hj hid hidle => ?_,
    fun q' hq' hqs j hj hid r' hr' hri => ?_, fun x hx hxq r' hr' hid => ?_⟩
  all_goals
    obtain ⟨r, hr, rfl⟩ := Table.mem_update.1 hr'
    by_cases hp : p r
  · rw [if_pos hp] at hid ⊢
    rw [(hf r).2.1] at hid
    exact absurd hidle ((hstart r hr hp (h.icons r hr j hj hid hidle)).1 j hj hid).1
  · rw [if_neg hp] at hid ⊢
    exact h.icons r hr j hj hid hidle
  · rw [if_pos hp] at hri ⊢
    rw [(hf r).2.1] at hri
    have hq := hold q' hq' hqs
    have hrq := h.nested q' hq hqs j hj hid r hr hri
    exact absurd hqs (((hstart r hr hp hrq).1 j hj hri.symm).2 q' hq hid.symm)
  · rw [if_neg hp] at hri ⊢
    exact h.nested q' (hold q' hq' hqs) hqs j hj hid r hr hri
  · rw [if_pos hp] at hid ⊢
    rw [(hf r).1] at hid
    have hrq := h.main x hx hxq r hr hid
    exact absurd hxq ((hstart r hr hp hrq).2 x hx hid.symm)
  · rw [if_neg hp] at hid ⊢
    exact h.main x hx hxq r hr hid

/-- A jobnet ends: nothing in it is READY or RUN, and no sub-jobnet of its
icons is in progress. -/
theorem quietJobnet (h : Settled t) (n : Id) (f : Jobnet → Jobnet)
    (hf : ∀ r, (f r).innerJobnetId = r.innerJobnetId ∧ (f r).innerJobId = r.innerJobId ∧ Quiet (f r).status)
    (hend : ∀ j ∈ t.jobs, j.innerJobnetId = n → ¬j.live ∧
      ∀ r ∈ t.jobnets, r.innerJobId = j.innerJobId → Quiet r.status) :
    Settled (t.updateJobnets (·.innerJobnetId == n) f) := by
  -- what was quiet still is
  have hquiet : ∀ r : Jobnet, Quiet r.status → Quiet (if r.innerJobnetId == n then f r else r).status := by
    intro r hq
    split
    · exact (hf r).2.2
    · exact hq
  have hids : ∀ r : Jobnet, (if r.innerJobnetId == n then f r else r).innerJobnetId = r.innerJobnetId ∧
      (if r.innerJobnetId == n then f r else r).innerJobId = r.innerJobId := by
    intro r
    split
    · exact ⟨(hf r).1, (hf r).2.1⟩
    · exact ⟨rfl, rfl⟩
  refine ⟨fun r' hr' hq j hj hid => ?_, fun r' hr' j hj hid hidle => ?_,
    fun q' hq' hqs j hj hid r' hr' hri => ?_, fun x hx hxq r' hr' hid => ?_⟩
  · obtain ⟨r, hr, rfl⟩ := Table.mem_update.1 hr'
    rw [(hids r).1] at hid
    by_cases hp : r.innerJobnetId = n
    · exact (hend j hj (hid.trans hp)).1
    · simp only [hp, beq_iff_eq, if_false] at hq
      exact h.jobs r hr hq j hj hid
  · obtain ⟨r, hr, rfl⟩ := Table.mem_update.1 hr'
    rw [(hids r).2] at hid
    exact hquiet r (h.icons r hr j hj hid hidle)
  · obtain ⟨r, hr, rfl⟩ := Table.mem_update.1 hr'
    obtain ⟨q, hq, rfl⟩ := Table.mem_update.1 hq'
    rw [(hids r).2] at hri
    rw [(hids q).1] at hid
    refine hquiet r ?_
    by_cases hp : q.innerJobnetId = n
    · exact (hend j hj (hid.trans hp)).2 r hr hri
    · simp only [hp, beq_iff_eq, if_false] at hqs
      exact h.nested q hq hqs j hj hid r hr hri
  · obtain ⟨r, hr, rfl⟩ := Table.mem_update.1 hr'
    rw [(hids r).1] at hid
    exact hquiet r (h.main x hx hxq r hr hid)

theorem updateSummaries (h : Settled t) (p : Summary → Bool) (f : Summary → Summary)
    (hf : ∀ x, (f x).innerJobnetId = x.innerJobnetId)
    (hq : ∀ x ∈ t.summaries, p x → Quiet (f x).status → ∀ r ∈ t.jobnets, r.innerJobnetId = x.innerJobnetId →
      Quiet r.status) : Settled (t.updateSummaries p f) := by
  refine ⟨h.jobs, h.icons, h.nested, fun x' hx' hxq r hr hid => ?_⟩
  obtain ⟨x, hx, rfl⟩ := Table.mem_update.1 hx'
  by_cases hp : p x
  · rw [if_pos hp] at hxq hid
    exact hq x hx hp hxq r hr (hid.trans (hf x))
  · rw [if_neg hp] at hxq hid
    exact h.main x hx hxq r hr hid

theorem delete (h : Settled t) (m : Id) : Settled (deleteInstance t m) := by
  have hj : ∀ j ∈ (deleteInstance t m).jobs, j ∈ t.jobs := fun j hj => List.mem_of_mem_filter hj
  have hn : ∀ r ∈ (deleteInstance t m).jobnets, r ∈ t.jobnets := fun r hr => List.mem_of_mem_filter hr
  have hx : ∀ x ∈ (deleteInstance t m).summaries, x ∈ t.summaries := fun x hx => List.mem_of_mem_filter hx
  exact ⟨fun r hr hq j hj' => h.jobs r (hn r hr) hq j (hj j hj'),
    fun r hr j hj' => h.icons r (hn r hr) j (hj j hj'),
    fun q hq hqs j hj' hid r hr => h.nested q (hn q hq) hqs j (hj j hj') hid r (hn r hr),
    fun x hx' hxq r hr => h.main x (hx x hx') hxq r (hn r hr)⟩

/-- When the main jobnet has ended, every jobnet of the instance has: by
induction along the icons the jobnets hang on, whose jobnets have smaller
ids. -/
theorem instance_quiet (h : Settled t) (hw : Wired t) {m : Id}
    (hm : ∀ r ∈ t.jobnets, r.innerJobnetId = m → Quiet r.status) :
    ∀ r ∈ t.jobnets, r.innerJobnetMainId = m → Quiet r.status := by
  suffices hind : ∀ n : Nat, ∀ r ∈ t.jobnets, r.innerJobnetId = n → r.innerJobnetMainId = m → Quiet r.status from
    fun r hr => hind _ r hr rfl
  intro n
  induction n using Nat.strong_induction_on with
  | h n ih =>
    intro r hr hn hrm
    by_cases hmain : r.innerJobnetId = r.innerJobnetMainId
    · exact hm r hr (hmain.trans hrm)
    · obtain ⟨j, hj, hid, hlt⟩ := hw.parent r hr hmain
      obtain ⟨q, hq, hqn, hqm⟩ := hw.jobNet j hj
      have hqmain : q.innerJobnetMainId = m := by rw [hqm, (hw.icon r hr j hj hid).2, hrm]
      have hquiet := ih q.innerJobnetId (by rw [hqn, ← hn]; exact hlt) q hq rfl hqmain
      exact h.nested q hq hquiet j hj hqn.symm r hr hid.symm

/-- Then no job of the instance is READY or RUN. -/
theorem instance_not_live (h : Settled t) (hw : Wired t) {m : Id}
    (hm : ∀ r ∈ t.jobnets, r.innerJobnetId = m → Quiet r.status) :
    ∀ j ∈ t.jobs, j.innerJobnetMainId = m → ¬j.live := by
  intro j hj hjm
  obtain ⟨r, hr, hn, hrm⟩ := hw.jobNet j hj
  exact h.jobs r hr (h.instance_quiet hw hm r hr (hrm.trans hjm)) j hj hn.symm

end Settled

/-! ## Firing flows -/

/-- No sub-jobnet on icon `i` is in progress. -/
def SubDone (t : Tables) (i : Id) : Prop :=
  ∀ j ∈ t.jobs, j.innerJobId = i → ∀ r ∈ t.jobnets, r.innerJobId = i → Quiet r.status

/-- No flow leads from icon `i` to a jobnet icon in RUNERR whose sub-jobnet
is in progress. -/
def NoRestart (t : Tables) (i : Id) : Prop :=
  ∀ f ∈ flowsFrom t i, ∀ k ∈ t.jobs, k.innerJobId = f.endInnerJobId → k.status = .runErr →
    ∀ r ∈ t.jobnets, r.innerJobId = k.innerJobId → Quiet r.status

/-- What holds while the flows of icon `i` are fired. -/
structure Firing (i : Id) (t : Tables) : Prop where
  wired : Wired t
  settled : Settled t
  own : SubDone t i
  targets : FlowOpen t i → NoRestart t i

namespace Firing

variable {i : Id} {t t' : Tables}

theorem frame (hf : StatusEq t t') (h : Firing i t) : Firing i t' := by
  refine ⟨h.wired.of_same (.of_frame hf), h.settled.frame hf, ?_, fun ho => ?_⟩
  · rw [SubDone, hf.jobs, hf.jobnets]
    exact h.own
  · have ho' : FlowOpen t i := by
      simpa only [FlowOpen, flowsFrom, jaGetStatusJobnet, Tables.jobnet?, hf.flows, hf.jobnets] using ho
    rw [NoRestart, flowsFrom, hf.flows, hf.jobs, hf.jobnets]
    exact h.targets ho'

/-- Icons change their status: those that are in RUNERR afterwards have no
sub-jobnet in progress. -/
theorem updateJobs (h : Firing i t) (p : Job → Bool) (f : Job → Job) (hf : ∀ j, (f j).shape = j.shape)
    (hs : Settled (t.updateJobs p f))
    (herr : FlowOpen t i → ∀ j ∈ t.jobs, p j → (f j).status = .runErr → j.status = .runErr ∨
      ∀ r ∈ t.jobnets, r.innerJobId = j.innerJobId → Quiet r.status) : Firing i (t.updateJobs p f) := by
  have hid : ∀ j, (if p j then f j else j).innerJobId = j.innerJobId := by
    intro j
    split
    · exact (SameIcon.of_shape (hf j)).id
    · rfl
  refine ⟨h.wired.of_same ((SameRows.refl t).updateJobs p f hf), hs, ?_, ?_⟩
  · intro j' hj' he
    obtain ⟨j, hj, rfl⟩ := Table.mem_update.1 hj'
    exact h.own j hj ((hid j).symm.trans he)
  · intro ho g hg k' hk' he hst r hr hri
    obtain ⟨k, hk, rfl⟩ := Table.mem_update.1 hk'
    rw [hid] at he hri
    have hold : k.status = .runErr → Quiet r.status := fun hk' => h.targets ho g hg k hk he hk' r hr hri
    by_cases hp : p k
    · rw [if_pos hp] at hst
      exact (herr ho k hk hp hst).elim hold fun h => h r hr hri
    · rw [if_neg hp] at hst
      exact hold hst

/-- The icon itself ends. -/
theorem setStatus (h : Firing i t) {s : Status} (hr : s ≠ .ready) (hn : s ≠ .run) :
    Firing i (jaSetStatusJob t i s).1 := by
  have hown : ∀ j ∈ t.jobs, j.innerJobId == i → ∀ r ∈ t.jobnets, r.innerJobId = j.innerJobId →
      Quiet r.status := by
    intro j hj hp r hr' hri
    have hid : j.innerJobId = i := by simpa using hp
    exact h.own j hj hid r hr' (hri.trans hid)
  refine h.updateJobs _ _ (fun _ => rfl) ?_ fun _ j hj hp _ => .inr (hown j hj hp)
  exact h.settled.updateJobs _ _ (fun _ => ⟨rfl, rfl⟩) (fun _ _ _ hl => (hl.elim hr hn).elim)
    fun j hj hp _ => hown j hj hp

/-- A write that changes no status. -/
theorem keepStatus (h : Firing i t) (p : Job → Bool) (f : Job → Job) (hf : ∀ j, (f j).shape = j.shape)
    (hst : ∀ j, (f j).status = j.status) : Firing i (t.updateJobs p f) := by
  refine h.updateJobs p f hf ?_ fun _ j _ _ he => .inl ((hst j).symm.trans he)
  refine h.settled.updateJobs p f (fun j => ⟨(SameIcon.of_shape (hf j)).id, (SameIcon.of_shape (hf j)).jobnet⟩)
    (fun j hj _ hl r hr hrn hq => ?_) fun j hj _ hi r hr hri => ?_
  · rw [Job.live, hst] at hl
    exact h.settled.jobs r hr hq j hj hrn.symm hl
  · rw [Job.idle, hst, (SameIcon.of_shape (hf j)).cont] at hi
    exact h.settled.icons r hr j hj hri.symm hi

/-- A target that no sub-jobnet in progress hangs on is counted up. -/
theorem setCount (h : Firing i t) {f : Flow} (ho : FlowOpen t i) (hf : f ∈ flowsFrom t i) {s : Status}
    (hs : s = .begin ∨ s = .ready) (n : Nat)
    (hk : ∀ k ∈ t.jobs, k.innerJobId = f.endInnerJobId →
      k.status = .begin ∨ k.status = .ended ∨ k.status = .runErr) :
    Firing i (setCount t f.endInnerJobId s n) := by
  refine h.updateJobs _ _ (fun _ => rfl) ?_ fun _ _ _ _ he => ?_
  · refine h.settled.updateJobs _ _ (fun _ => ⟨rfl, rfl⟩) (fun k hkm hp _ r hr hrn hq => ?_)
      fun k hkm hp _ r hr hri => ?_
    · -- the jobnet of the target is running
      obtain ⟨r', hr', hn', -, hrun⟩ := h.wired.target_running ho hf hkm (by simpa using hp)
      obtain rfl := Table.eq_of_key h.wired.jobnetKey hr hr' (hrn.trans hn'.symm)
      rcases hrun with hrun | hrun <;> rcases hq with hq | hq <;> rw [hrun] at hq <;> cases hq
    · have hid : k.innerJobId = f.endInnerJobId := by simpa using hp
      rcases hk k hkm hid with hst | hst | hst
      · exact h.settled.icons r hr k hkm hri.symm (.inl hst)
      · exact h.settled.icons r hr k hkm hri.symm (.inr (.inr (.inl hst)))
      · exact h.targets ho f hf k hkm hid hst r hr hri
  · rcases hs with rfl | rfl <;> cases he

/-- The jobs of a jobnet that is not in progress are reset. -/
theorem resetJobs (h : Firing i t) {n : Id}
    (hn : ∀ q ∈ t.jobnets, q.innerJobnetId = n → Quiet q.status) : Firing i (resetJobs t n) := by
  refine h.updateJobs _ _ (fun _ => rfl) ?_ fun _ _ _ _ he => by cases he
  refine h.settled.updateJobs _ _ (fun _ => ⟨rfl, rfl⟩) (fun _ _ _ hl => by rcases hl with hl | hl <;> cases hl)
    fun k hk hp _ r hr hri => ?_
  obtain ⟨q, hq, hqn, -⟩ := h.wired.jobNet k hk
  have hkn : k.innerJobnetId = n := by simpa using hp
  exact h.settled.nested q hq (hn q hq (hqn.trans hkn)) k hk hqn.symm r hr hri

theorem flowStep (h : Firing i t) (hst : FlowStep i t t') : Firing i t' := by
  cases hst with
  | frame hf => exact frame hf h
  | own s hs =>
    refine h.setStatus ?_ ?_
    · rcases hs with rfl | rfl | rfl <;> decide
    · rcases hs with rfl | rfl | rfl <;> decide
  | @fire f j s n ho hf hj hc =>
    obtain ⟨hs, hjs⟩ := flowCount_count hc
    obtain ⟨hjm, hjid⟩ := Table.lookup_mem hj
    refine h.setCount ho hf hs n fun k hk hid => ?_
    rw [Table.eq_of_key h.wired.jobKey hk hjm (hid.trans hjid.symm)]
    exact hjs
  | @fireJobnet f j link n ho hf hj hc _ hl =>
    obtain ⟨-, hjs⟩ := flowCount_count hc
    obtain ⟨hjm, hjid⟩ := Table.lookup_mem hj
    have hquiet : ∀ q ∈ t.jobnets, q.innerJobnetId = link.linkInnerJobnetId → Quiet q.status := by
      intro q hq hqn
      have hicon : q.innerJobId = j.innerJobId := (h.wired.linked hl hq hqn).trans hjid.symm
      rcases hjs with hst | hst | hst
      · exact h.settled.icons q hq j hjm hicon.symm (.inl hst)
      · exact h.settled.icons q hq j hjm hicon.symm (.inr (.inr (.inl hst)))
      · exact h.targets ho f hf j hjm hjid hst q hq hicon
    refine (h.resetJobs hquiet).setCount (f := f) (ho.congr ⟨rfl, rfl, rfl, rfl, rfl⟩) hf (.inr rfl) n ?_
    intro k' hk' hid
    obtain ⟨k, hk, rfl⟩ := Table.mem_update.1 hk'
    split
    · exact .inl rfl
    · rename_i hp
      rw [if_neg hp] at hid
      rw [Table.eq_of_key h.wired.jobKey hk hjm (hid.trans hjid.symm)]
      exact hjs

theorem iconSteps (h : Firing i t) (hst : IconSteps i t t') : Firing i t' := by
  induction hst with
  | refl => exact h
  | tail _ hst ih =>
    cases hst with
    | flow hst => exact ih.flowStep hst
    | abort => exact ih.setStatus (by decide) (by decide)
    | timeout => exact ih.keepStatus _ _ (fun _ => rfl) fun _ => rfl
    | method k m => exact ih.keepStatus _ _ (fun _ => rfl) fun _ => rfl

end Firing

/-! ## What `jajobnet_run` passes on -/

theorem foldlM_add_testFlag {js : List Job} (hjs : ∀ j ∈ js, j.testFlag = false) {c₀ c : RunCounts}
    (h0 : c₀.testFlag = false) (h : js.foldlM RunCounts.add c₀ = some c) : c.testFlag = false := by
  induction js generalizing c₀ with
  | nil =>
    obtain rfl := Option.some.inj h
    exact h0
  | cons j js ih =>
    obtain ⟨c₁, h1, h2⟩ := Option.bind_eq_some_iff.1 h
    refine ih (fun k hk => hjs k (List.mem_cons_of_mem _ hk)) ?_ h2
    have hj := hjs j List.mem_cons_self
    unfold RunCounts.add at h1
    obtain ⟨d, hd, hc⟩ := Option.bind_eq_some_iff.1 h1
    split at hc
    · cases hc
    obtain rfl := Option.some.inj hc
    cases hs : j.status with
    | endErr => simp [hs] at hd
    | begin | ready | run =>
      simp only [hs, Option.some.injEq] at hd
      simp [← hd, hj]
    | ended | runErr | abort =>
      simp only [hs] at hd
      split at hd
      all_goals
        obtain rfl := Option.some.inj hd
        exact hj

theorem resetStatus_cases (c : RunCounts) {status : Status} (h : status = .run ∨ status = .runErr) :
    (resetStatus c status = .run) ∨ (resetStatus c status = .runErr ∧ 0 < c.runerrCnt) := by
  unfold resetStatus
  rcases h with rfl | rfl
  · by_cases hc : 0 < c.runerrCnt
    · simp [hc]
    · simp [hc]
  · by_cases hc : c.runerrCnt = 0
    · simp [hc]
    · simp [hc, Nat.pos_of_ne_zero hc]

/-- The counts and the status behind a status that is passed on. -/
theorem PassedOn.counts {t : Tables} {n : Id} {status s : Status} {tf : Bool}
    (h : PassedOn status (decision t n status tf) s) :
    s = .endErr ∨ ∃ c, countJobs t n = some c ∧
      ((s = .ended ∧ if c.testFlag then c.count = c.endCnt
          else c.readyCnt = 0 ∧ c.runCnt = 0 ∧ c.runerrCnt = 0) ∨
        s = .run ∨ (s = .runErr ∧ 0 < c.runerrCnt)) := by
  obtain ⟨hactive, hd⟩ := h
  rcases hd with ⟨tf', hd⟩ | ⟨-, hs⟩
  · unfold decision at hd
    split at hd
    · cases hd
    rename_i c hc
    refine .inr ⟨c, hc, ?_⟩
    rcases (runDecision_renew hd).2.2 with hs | hs
    · exact .inl hs
    · rw [hs]
      exact .inr (resetStatus_cases c hactive)
  · exact .inl hs

/-- END is passed on: every icon of the jobnet is idle, none READY or RUN. -/
theorem PassedOn.ended_jobs {t : Tables} {n : Id} {status : Status} {tf : Bool}
    (h : PassedOn status (decision t n status tf) .ended) (htest : ∀ j ∈ t.jobs, j.testFlag = false) :
    ∀ j ∈ t.jobs, j.innerJobnetId = n → ¬j.live ∧ j.idle := by
  intro j hj hn
  have hmem : j ∈ jobsOf t n := List.mem_filter.2 ⟨hj, by simp [hn]⟩
  obtain h | ⟨c, hc, h | h | ⟨h, -⟩⟩ := h.counts
  · cases h
  · have hflag : c.testFlag = false :=
      foldlM_add_testFlag (fun k hk => htest k (List.mem_of_mem_filter hk)) rfl hc
    obtain ⟨-, hcounts⟩ := h
    simp only [hflag, Bool.false_eq_true, if_false] at hcounts
    obtain ⟨hready, hrun, herr⟩ := hcounts
    have hspec := countJobs_spec hc
    have h1 := hspec.ready
    have h2 := hspec.run
    have h3 := hspec.runerr
    rw [hready, zero_add, eq_comm, List.countP_eq_zero] at h1
    rw [hrun, zero_add, eq_comm, List.countP_eq_zero] at h2
    rw [herr, zero_add, eq_comm, List.countP_eq_zero] at h3
    have hnr : j.status ≠ .ready := by simpa using h1 j hmem
    have hnn : j.status ≠ .run := by simpa using h2 j hmem
    have hne := hspec.noEnderr j hmem
    have hok : ¬j.errored := h3 j hmem
    refine ⟨fun hl => hl.elim hnr hnn, ?_⟩
    cases hs : j.status with
    | begin => exact .inl hs
    | ready => exact absurd hs hnr
    | run => exact absurd hs hnn
    | ended => exact .inr (.inr (.inl hs))
    | endErr => exact absurd hs hne
    | runErr =>
      refine .inr (.inr (.inr ⟨?_, .inl hs⟩))
      simpa [Job.errored, hs] using hok
    | abort =>
      refine .inr (.inr (.inr ⟨?_, .inr hs⟩))
      simpa [Job.errored, hs] using hok
  · cases h
  · cases h

/-- RUNERR is passed on: an icon of the jobnet is in error. -/
theorem PassedOn.runErr_job {t : Tables} {n : Id} {status : Status} {tf : Bool}
    (h : PassedOn status (decision t n status tf) .runErr) : ∃ j ∈ jobsOf t n, j.errored := by
  obtain h | ⟨c, hc, ⟨h, -⟩ | h | ⟨-, h⟩⟩ := h.counts
  · cases h
  · cases h
  · cases h
  · rw [(countJobs_spec hc).runerr, zero_add] at h
    exact List.countP_pos_iff.1 h

/-- Anything else leaves the jobnet in progress. -/
theorem PassedOn.busy {t : Tables} {n : Id} {status s : Status} {tf : Bool}
    (h : PassedOn status (decision t n status tf) s) (hs : s ≠ .ended) : ¬Quiet s := by
  obtain rfl | ⟨c, -, ⟨h, -⟩ | rfl | ⟨rfl, -⟩⟩ := h.counts
  · decide
  · exact absurd h hs
  · decide
  · decide

/-! ## What the transactions keep -/

/-- Running or completing an icon writes only jobs. -/
theorem iconSteps_sameNets {i : Id} {t t' : Tables} (h : IconSteps i t t') : SameNets t t' := by
  induction h with
  | refl => exact ⟨rfl, rfl, rfl, rfl, rfl⟩
  | tail _ hst ih =>
    refine ih.trans ?_
    cases hst with
    | flow hst => exact hst.sameNets
    | abort | timeout | method => exact ⟨rfl, rfl, rfl, rfl, rfl⟩

/-- Jobnet `n` on `icon` is in progress; it is there as long as its icon is. -/
structure Busy (t : Tables) (n icon : Id) : Prop where
  net : ∀ r ∈ t.jobnets, r.innerJobnetId = n → ¬Quiet r.status ∧ r.innerJobId = icon
  icon : ∀ j ∈ t.jobs, j.innerJobId = icon → ∃ r ∈ t.jobnets, r.innerJobnetId = n

namespace Settled

variable {t t' : Tables}

/-- A row of `process_jarun` for a READY icon. -/
theorem jarun (h : Settled t) (hw : Wired t) {j : Job} (hj : j ∈ t.jobs) (hs : j.status = .ready)
    (hn : NoRestart t j.innerJobId) (hst : JarunWrites j.innerJobId t t') : Settled t' := by
  have hown : SubDone t j.innerJobId := fun _ _ _ r hr hri => h.icons r hr j hj hri.symm (.inr (.inl hs))
  have hnet : ∀ r ∈ t.jobnets, r.innerJobnetId = j.innerJobnetId → ¬Quiet r.status := fun r hr hrn hq =>
    h.jobs r hr hq j hj hrn.symm (.inl hs)
  have hfire : Firing j.innerJobId t := ⟨hw, h, hown, fun _ => hn⟩
  have hrun : Firing j.innerJobId (jaSetStatusJob t j.innerJobId .run).1 := by
    refine hfire.updateJobs _ _ (fun _ => rfl) ?_ fun _ _ _ _ he => by cases he
    refine h.updateJobs _ _ (fun _ => ⟨rfl, rfl⟩) (fun k hk hp _ r hr hrn => ?_) fun _ _ _ hi => ?_
    · rw [Table.eq_of_key hw.jobKey hk hj (by simpa using hp)] at hrn
      exact hnet r hr hrn
    · simp [Job.idle] at hi
  cases hst with
  | skip hst => exact (hfire.iconSteps hst.iconSteps).settled
  | icon hf hst => exact ((hrun.frame hf).iconSteps hst).settled
  | @jobnet t₁ _ link hf hl hst =>
    refine frame hst ((frame hf hrun.settled).busyJobnets _ _ (fun _ => ⟨rfl, rfl, by simp [Quiet]⟩)
      fun r hr hp _ => ?_)
    rw [hf.jobnets] at hr
    have hicon : r.innerJobId = j.innerJobId := hw.linked hl hr (by simpa using hp)
    refine ⟨fun k' hk' hid => ?_, fun x hx hid => ?_⟩
    · rw [hf.jobs] at hk'
      obtain ⟨k, hk, rfl⟩ := Table.mem_update.1 hk'
      have hkid : k.innerJobId = j.innerJobId := by
        split at hid <;> exact hid.trans hicon
      obtain rfl := Table.eq_of_key hw.jobKey hk hj hkid
      rw [if_pos (by simp)]
      refine ⟨by simp [Job.idle], fun q hq hqn => ?_⟩
      rw [hf.jobnets] at hq
      exact hnet q hq hqn
    · -- a summary belongs to a main jobnet, which hangs on no icon
      rw [hf.summaries] at hx
      obtain ⟨q, hq, hqn, hqm⟩ := hw.summaryNet _ (List.mem_map_of_mem hx)
      obtain rfl := Table.eq_of_key hw.jobnetKey hq hr (hqn.trans hid)
      have h0 := hw.main q hq (hqn.trans hqm.symm)
      exact absurd (hicon.symm.trans h0) (hw.jobId j hj)

/-- A row of `process_jajobnet`. -/
theorem jobnetRow (h : Settled t) (hw : Wired t) (htest : ∀ j ∈ t.jobs, j.testFlag = false) {n icon : Id}
    (hb : Busy t n icon) (hn : NoRestart t icon)
    (herr : continues t icon → ∀ j ∈ jobsOf t n, ¬j.errored) {status : Status} {tf : Bool}
    (hst : JobnetWrites t n icon status (decision t n status tf) t') : Settled t' := by
  have hset : ∀ {t₁ : Tables} {s : Status} {f : Jobnet → Jobnet}, Settled t₁ → t₁.jobnets = t.jobnets →
      ¬Quiet s → (∀ r, (f r).innerJobnetId = r.innerJobnetId ∧ (f r).innerJobId = r.innerJobId ∧
        (f r).status = s) → Settled (t₁.updateJobnets (·.innerJobnetId == n) f) := by
    intro t₁ s f hs ht hq hf
    refine hs.busyJobnets _ _ (fun r => ⟨(hf r).1, (hf r).2.1, (hf r).2.2 ▸ hq⟩) fun r hr hp hrq => ?_
    exact absurd hrq (hb.net r (ht ▸ hr) (by simpa using hp)).1
  have hsync : ∀ (s : Status) (tf : Bool) (r : Jobnet), (r.sync s tf).innerJobnetId = r.innerJobnetId ∧
      (r.sync s tf).innerJobId = r.innerJobId ∧ (r.sync s tf).status = s := by
    intro s tf r
    unfold Jobnet.sync
    split <;> exact ⟨rfl, rfl, rfl⟩
  have hended : ∀ tf', PassedOn status (decision t n status tf) .ended → Settled (setJobnet t n .ended tf') := by
    intro tf' hd
    refine h.quietJobnet n _ (fun r => ?_) fun j hj hjn => ?_
    · obtain ⟨h1, h2, h3⟩ := hsync .ended tf' r
      exact ⟨h1, h2, by rw [h3]; exact .inr rfl⟩
    · obtain ⟨hl, hi⟩ := hd.ended_jobs htest j hj hjn
      exact ⟨hl, fun r hr hri => h.icons r hr j hj hri.symm hi⟩
  -- the jobnet of the icon is in progress
  have hicon : ∀ j ∈ t.jobs, j.innerJobId = icon → ∀ q ∈ t.jobnets, q.innerJobnetId = j.innerJobnetId →
      ¬Quiet q.status := by
    intro j hj hid q hq hqn hqs
    obtain ⟨r, hr, hrn⟩ := hb.icon j hj hid
    obtain ⟨hrs, hri⟩ := hb.net r hr hrn
    exact hrs (h.nested q hq hqs j hj hqn.symm r hr (hri.trans hid.symm))
  cases hst with
  | frame hf => exact h.frame hf
  | startErr hf =>
    have hq : ¬Quiet Status.endErr := by decide
    exact frame hf (hset h rfl hq fun _ => ⟨rfl, rfl, rfl⟩)
  | @start _ start hmem hsn hty hf =>
    have hq : ¬Quiet Status.run := by decide
    have hnet : Settled (jaSetStatusJobnet t n .run).1 := hset h rfl hq fun _ => ⟨rfl, rfl, rfl⟩
    refine frame hf (hnet.updateJobs _ _ (fun _ => ⟨rfl, rfl⟩) (fun j hj hp _ r' hr' hrn => ?_)
      fun j hj hp _ r' hr' hri => ?_)
    all_goals
      have hjs : j = start := Table.eq_of_key hw.jobKey hj hmem (by simpa using hp)
      subst hjs
      obtain ⟨r, hr, rfl⟩ := Table.mem_update.1 hr'
    · have hid : r.innerJobnetId = n := by
        split at hrn <;> exact hrn.trans hsn
      rw [if_pos (by simpa using hid)]
      simp [Quiet]
    · have hid : j.innerJobId = r.innerJobId := by
        split at hri <;> exact hri.symm
      rw [(hw.icon r hr j hmem hid).1] at hty
      cases hty
  | @main _ s tf' js h0 hd hf =>
    by_cases hs : s = .ended
    · subst hs
      refine frame hf ((hended tf' hd).updateSummaries _ _ (fun _ => rfl) fun x _ hp _ r' hr' hid => ?_)
      obtain ⟨r, hr, rfl⟩ := Table.mem_update.1 hr'
      have hx : x.innerJobnetId = n := by simpa using hp
      split
      · rw [(hsync .ended tf' r).2.2]
        exact .inr rfl
      · rename_i hne
        rw [if_neg hne] at hid
        exact absurd (by simpa using hid.trans hx) hne
    · have hnet : Settled (setJobnet t n s tf') := hset h rfl (hd.busy hs) (hsync s tf')
      refine frame hf (hnet.updateSummaries _ _ (fun _ => rfl) fun _ _ _ hq => ?_)
      simp [Quiet, hs] at hq
  | @run _ tf' _ hd hf =>
    have hjob : Settled (t.updateJobs (·.innerJobId == icon) fun j =>
        { j with status := .run, timeoutFlag := tf' }) := by
      refine h.updateJobs _ _ (fun _ => ⟨rfl, rfl⟩) (fun j hj hp _ => hicon j hj (by simpa using hp)) ?_
      intro _ _ _ hi
      simp [Job.idle] at hi
    have hq : ¬Quiet Status.run := by decide
    exact frame hf (hset hjob rfl hq (hsync .run tf'))
  | @ended t₁ _ tf' hne hd hf hst =>
    have hfire : Firing icon (setJobnet t n .ended tf') := by
      refine ⟨hw.of_same ((SameRows.refl t).setJobnet n .ended tf'), hended tf' hd, ?_, fun _ => ?_⟩
      · intro j hj hid r' hr' hri
        obtain ⟨r, hr, rfl⟩ := Table.mem_update.1 hr'
        obtain ⟨q, hq, hqn⟩ := hb.icon j hj hid
        have hri' : r.innerJobId = icon := by
          split at hri
          · exact (hsync .ended tf' r).2.1.symm.trans hri
          · exact hri
        have hrn : r.innerJobnetId = n :=
          (hw.sub r hr q hq (hri'.trans (hb.net q hq hqn).2.symm) (hri' ▸ hne)).trans hqn
        rw [if_pos (by simpa using hrn), (hsync .ended tf' r).2.2]
        exact .inr rfl
      · intro f hf' k hk hid hks r' hr' hri
        obtain ⟨r, hr, rfl⟩ := Table.mem_update.1 hr'
        split
        · rw [(hsync .ended tf' r).2.2]
          exact .inr rfl
        · rename_i hp
          rw [if_neg hp] at hri
          exact hn f hf' k hk hid hks r hr hri
    exact ((hfire.frame hf).iconSteps hst.iconSteps).settled
  | @runErr t₁ _ tf' _ hd hf _ hhalt =>
    obtain ⟨j, hj, hje⟩ := hd.runErr_job
    have hc : continues t icon = false := by
      rw [← Bool.not_eq_true]
      exact fun hc => herr hc j hj hje
    have hjob : Settled (jaSetStatusJob t icon .runErr).1 := by
      refine h.updateJobs _ _ (fun _ => ⟨rfl, rfl⟩) (fun _ _ _ hl => by rcases hl with hl | hl <;> cases hl) ?_
      intro k hk hp hi
      have hrow : t.job? icon = some k := by
        have hid : k.innerJobId = icon := by simpa using hp
        exact hid ▸ Table.lookup_eq hw.jobKey hk
      rw [continues, hrow] at hc
      simp only [Option.map_some, Option.getD_some] at hc
      simp [Job.idle, hc] at hi
    have hq : ¬Quiet Status.runErr := by decide
    exact frame ((hf.updateJobs _ _).trans (hhalt hc)) (hset hjob rfl hq (hsync .runErr tf'))
  | @endErr _ tf' _ hd hf =>
    have hjob : Settled (jaSetStatusJob t icon .endErr).1 :=
      h.updateJobs _ _ (fun _ => ⟨rfl, rfl⟩) (fun _ _ _ hl => by rcases hl with hl | hl <;> cases hl)
        fun _ _ _ hi => by simp [Job.idle] at hi
    have hq : ¬Quiet Status.endErr := by decide
    exact frame hf (hset hjob rfl hq (hsync .endErr tf'))

/-- `jajobnet_kill` of any instance. -/
theorem killUpdates (h : Settled t) (m : Id) : Settled (killUpdates t m) := by
  have h1 := h.updateJobs (fun j => j.innerJobnetMainId == m && j.status == .ready)
    (fun j => { j with status := .begin }) (fun _ => ⟨rfl, rfl⟩)
    (fun _ _ _ hl => by rcases hl with hl | hl <;> cases hl) fun j hj hp _ r hr hri => by
      simp only [Bool.and_eq_true, beq_iff_eq] at hp
      exact h.icons r hr j hj hri.symm (.inr (.inl hp.2))
  have h2 := h1.updateJobs (fun j => j.innerJobnetMainId == m && j.jobType == .jobnet &&
    (j.status == .run || j.status == .runErr)) (fun j => { j with status := .endErr }) (fun _ => ⟨rfl, rfl⟩)
    (fun _ _ _ hl => by rcases hl with hl | hl <;> cases hl) fun _ _ _ hi => by simp [Job.idle] at hi
  have h3 := h2.busyJobnets (fun n => n.innerJobnetMainId == m && (n.status == .run || n.status == .runErr))
    (fun n => { n with status := .endErr }) (fun _ => ⟨rfl, rfl, by simp [Quiet]⟩) fun r _ hp hq => by
      simp only [Bool.and_eq_true, Bool.or_eq_true, beq_iff_eq] at hp
      rcases hp.2 with hp | hp <;> simp [Quiet, hp] at hq
  exact ⟨h3.jobs, h3.icons, h3.nested, h3.main⟩

/-- After the kill no flow of the instance fires. -/
theorem not_open_killed (hw : Wired t) {m : Id}
    (hk : ∀ r ∈ t.jobnets, r.innerJobnetMainId = m → r.status ≠ .run ∧ r.status ≠ .runErr) {j : Job}
    (hj : j ∈ t.jobs) (hm : j.innerJobnetMainId = m) : ¬FlowOpen t j.innerJobId := by
  rintro ⟨f, fs, hfs, hs⟩
  have hf : f ∈ flowsFrom t j.innerJobId := hfs ▸ List.mem_cons_self
  simp only [flowsFrom, List.mem_filter, beq_iff_eq] at hf
  obtain ⟨r, hr, hrn, hrm⟩ := hw.jobNet j hj
  have hrow : t.jobnet? f.innerJobnetId = some r := by
    rw [← hw.flowStart f hf.1 j hj hf.2.symm, ← hrn]
    exact Table.lookup_eq hw.jobnetKey hr
  rw [jaGetStatusJobnet, hrow] at hs
  obtain ⟨h1, h2⟩ := hk r hr (hrm.trans hm)
  rcases hs with hs | hs
  · exact h1 (Option.some.inj hs)
  · exact h2 (Option.some.inj hs)

/-- Stopping icons of an instance after the kill. -/
theorem stops (h : Settled t) (hw : Wired t) {m : Id}
    (hk : ∀ r ∈ t.jobnets, r.innerJobnetMainId = m → r.status ≠ .run ∧ r.status ≠ .runErr) {js : List Job}
    (hjs : ∀ j ∈ js, j ∈ t.jobs ∧ j.innerJobnetMainId = m)
    (hst : Relation.ReflTransGen (StopStep js) t t') : Settled t' ∧ t'.jobnets = t.jobnets := by
  induction hst with
  | refl => exact ⟨h, rfl⟩
  | @tail t₁ t₂ hs hst ih =>
    obtain ⟨ih, hnets⟩ := ih
    obtain ⟨j, hjm, hty, hst⟩ := hst
    have hsame := SameRows.stops hs
    have hw₁ := hw.of_same hsame
    obtain ⟨hj, hm⟩ := hjs j hjm
    obtain ⟨j₁, hj₁, he⟩ := hsame.symm.job hj
    -- the icon is no jobnet icon, and its jobnet has been killed
    have hown : SubDone t₁ j.innerJobId := by
      intro k hk' hid r hr hri
      rw [Table.eq_of_key hw₁.jobKey hk' hj₁ (hid.trans he.id)] at hid
      have hjt := (hw₁.icon r hr j₁ hj₁ (hid.trans hri.symm)).1
      exact absurd (he.type.trans hjt) hty
    have hclosed : ¬FlowOpen t₁ j.innerJobId := by
      rw [he.id]
      refine not_open_killed hw₁ (hnets ▸ hk) hj₁ (he.main.symm.trans hm)
    have hfire : Firing j.innerJobId t₁ := ⟨hw₁, ih, hown, fun ho => absurd ho hclosed⟩
    exact ⟨(hfire.iconSteps hst).settled, (iconSteps_sameNets hst).jobnets.trans hnets⟩

theorem killed_jobnets (t : Tables) (m : Id) : ∀ r ∈ (JobArranger.killUpdates t m).jobnets,
    r.innerJobnetMainId = m → r.status ≠ .run ∧ r.status ≠ .runErr := by
  intro r' hr' hm
  obtain ⟨r, hr, rfl⟩ := Table.mem_update.1 hr'
  split
  · simp
  · rename_i hp
    rw [if_neg hp] at hm
    simp only [hm, beq_self_eq_true, Bool.true_and, Bool.or_eq_true, beq_iff_eq, not_or] at hp
    exact hp

/-- A row of `process_jajobnet_summary` for an instance that runs. -/
theorem summaryRow (h : Settled t) (hw : Wired t) {m : Id}
    (hmain : ∀ r ∈ t.jobnets, r.innerJobnetId = m → r.innerJobnetMainId = m)
    (hst : SummaryWrites t m t') : Settled t' := by
  have hkill := h.killUpdates m
  cases hst with
  | frame hf => exact frame hf h
  | start hf =>
    have hsum : Settled (t.updateSummaries (·.innerJobnetId == m) fun x => { x with status := .run }) :=
      h.updateSummaries _ _ (fun _ => rfl) fun _ _ _ hq => by simp [Quiet] at hq
    refine frame hf (hsum.busyJobnets (·.innerJobnetId == m) (fun r => { r with status := .ready })
      (fun _ => ⟨rfl, rfl, by simp [Quiet]⟩) fun r hr hp _ => ⟨fun j hj hid => ?_, fun x' hx' hid => ?_⟩)
    · have hrn : r.innerJobnetId = m := by simpa using hp
      have h0 := hw.main r hr (hrn.trans (hmain r hr hrn).symm)
      exact absurd (hid.trans h0) (hw.jobId j hj)
    · obtain ⟨x, hx, rfl⟩ := Table.mem_update.1 hx'
      have hxm : x.innerJobnetId = m := by
        split at hid <;> exact hid.trans (by simpa using hp)
      rw [if_pos (by simpa using hxm)]
      simp [Quiet]
  | killed _ hf =>
    exact frame hf (hkill.updateSummaries _ _ (fun _ => rfl) fun _ _ _ hq => by simp [Quiet] at hq)
  | stopping hst hf =>
    refine frame hf (hkill.stops (hw.of_same (.killUpdates t m)) (killed_jobnets t m) (fun j hj => ?_) hst).1
    simp only [liveJobs, List.mem_filter, Bool.and_eq_true, beq_iff_eq] at hj
    exact ⟨hj.1, hj.2.1⟩

/-- A row of `jobnet_boot` for an instance in BEGIN. -/
theorem bootRow (h : Settled t) (hw : Wired t) {m : Id} {x₀ : Summary} (hx₀ : x₀ ∈ t.summaries)
    (hm : x₀.innerJobnetId = m) (hb : x₀.status = .begin) (hst : BootWrites t m t') : Settled t' := by
  obtain ⟨r₀, hr₀, hrn, hrm⟩ := hw.summaryNet _ (List.mem_map_of_mem hx₀)
  rw [hm] at hrn hrm
  cases hst with
  | frame hf => exact frame hf h
  | @late start hmem _ hty hf =>
    have hsum : Settled (t.updateSummaries (·.innerJobnetId == m) fun x =>
        { x with status := .run, jobStatus := .error, loadStatus := .delay }) :=
      h.updateSummaries _ _ (fun _ => rfl) fun _ _ _ hq => by simp [Quiet] at hq
    have hjob := hsum.updateJobs (·.innerJobId == start.innerJobId) (fun j => { j with status := .runErr })
      (fun _ => ⟨rfl, rfl⟩) (fun _ _ _ hl => by rcases hl with hl | hl <;> cases hl) fun j hj hp _ r hr hri => by
        have hid : j.innerJobId = start.innerJobId := by simpa using hp
        rw [(hw.icon r hr start hmem (hid.symm.trans hri.symm)).1] at hty
        cases hty
    refine frame hf (hjob.busyJobnets (·.innerJobnetId == m) (fun r => { r with status := .runErr })
      (fun _ => ⟨rfl, rfl, by simp [Quiet]⟩) fun r hr hp _ => ⟨fun j' hj' hid => ?_, fun x' hx' hid => ?_⟩)
    · have hr' : r = r₀ := Table.eq_of_key hw.jobnetKey hr hr₀ ((by simpa using hp : r.innerJobnetId = m).trans hrn.symm)
      have h0 := hw.main r₀ hr₀ (hrn.trans hrm.symm)
      obtain ⟨j, hj, rfl⟩ := Table.mem_update.1 hj'
      have hj0 : j.innerJobId = 0 := by
        rw [hr', h0] at hid
        split at hid <;> exact hid
      exact absurd hj0 (hw.jobId j hj)
    · obtain ⟨x, hx, rfl⟩ := Table.mem_update.1 hx'
      have hxm : x.innerJobnetId = m := by
        split at hid <;> exact hid.trans (by simpa using hp)
      rw [if_pos (by simpa using hxm)]
      simp [Quiet]
  | skip hf =>
    -- the main jobnet has not started
    have hq : ∀ q ∈ t.jobnets, q.innerJobnetId = m → Quiet q.status := fun q hq hqn =>
      h.main x₀ hx₀ (.inl hb) q hq (hqn.trans hm.symm)
    have hnet : Settled (t.updateJobnets (·.innerJobnetId == m) fun r => { r with status := .ended }) := by
      refine h.quietJobnet m _ (fun _ => ⟨rfl, rfl, .inr rfl⟩) fun j hj hjn => ?_
      exact ⟨h.jobs r₀ hr₀ (hq r₀ hr₀ hrn) j hj (hjn.trans hrn.symm), fun r hr hri =>
        h.nested r₀ hr₀ (hq r₀ hr₀ hrn) j hj (hjn.trans hrn.symm) r hr hri⟩
    refine frame hf (hnet.updateSummaries _ _ (fun _ => rfl) fun x _ hp _ r' hr' hid => ?_)
    obtain ⟨r, hr, rfl⟩ := Table.mem_update.1 hr'
    have hrm' : r.innerJobnetId = m := by
      split at hid <;> exact hid.trans (by simpa using hp)
    rw [if_pos (by simpa using hrm')]
    exact .inr rfl
  | delay hf => exact frame hf (h.updateSummaries _ _ (fun _ => rfl) fun x hx _ hq => h.main x hx hq)
  | start hf =>
    exact frame hf (h.updateSummaries _ _ (fun _ => rfl) fun _ _ _ hq => by simp [Quiet] at hq)

end Settled

/-! ## The stored rows -/

/-- Apart from the jobnet and summary `m`, no jobnet comes to rest and no
summary changes its status. -/
structure Touches (m : Option Id) (t t' : Tables) : Prop where
  same : SameRows t t'
  quiet : ∀ r' ∈ t'.jobnets, Quiet r'.status → some r'.innerJobnetId = m ∨
    ∃ r ∈ t.jobnets, r.innerJobnetId = r'.innerJobnetId ∧ Quiet r.status
  summaries : ∀ x' ∈ t'.summaries, some x'.innerJobnetId ≠ m →
    ∃ x ∈ t.summaries, x.innerJobnetId = x'.innerJobnetId ∧ x.status = x'.status

namespace Touches

variable {m : Option Id} {t t' t'' : Tables}

theorem refl (m : Option Id) (t : Tables) : Touches m t t :=
  ⟨.refl t, fun r hr hq => .inr ⟨r, hr, rfl, hq⟩, fun x hx _ => ⟨x, hx, rfl, rfl⟩⟩

theorem frame (hf : StatusEq t' t'') (h : Touches m t t') : Touches m t t'' := by
  refine ⟨h.same.frame hf, ?_, ?_⟩
  · rw [hf.jobnets]
    exact h.quiet
  · rw [hf.summaries]
    exact h.summaries

theorem trans (h : Touches m t t') (h' : Touches m t' t'') : Touches m t t'' := by
  refine ⟨h.same.trans h'.same, fun r'' hr'' hq'' => ?_, fun x'' hx'' hne => ?_⟩
  · rcases h'.quiet r'' hr'' hq'' with hm | ⟨r', hr', hid', hq'⟩
    · exact .inl hm
    · rcases h.quiet r' hr' hq' with hm | ⟨r, hr, hid, hq⟩
      · exact .inl (hid' ▸ hm)
      · exact .inr ⟨r, hr, hid.trans hid', hq⟩
  · obtain ⟨x', hx', hid', hs'⟩ := h'.summaries x'' hx'' hne
    obtain ⟨x, hx, hid, hs⟩ := h.summaries x' hx' (hid' ▸ hne)
    exact ⟨x, hx, hid.trans hid', hs.trans hs'⟩

/-- Only jobs change. -/
theorem of_nets (m : Option Id) (hs : SameRows t t') (hn : t'.jobnets = t.jobnets)
    (hx : t'.summaries = t.summaries) : Touches m t t' :=
  ⟨hs, fun r hr hq => .inr ⟨r, hn ▸ hr, rfl, hq⟩, fun x hx' _ => ⟨x, hx ▸ hx', rfl, rfl⟩⟩

theorem updateJobnets (h : Touches m t t') (p : Jobnet → Bool) (f : Jobnet → Jobnet)
    (hf : ∀ r, (f r).shape = r.shape)
    (hq : ∀ r ∈ t'.jobnets, p r → Quiet (f r).status → some r.innerJobnetId = m) :
    Touches m t (t'.updateJobnets p f) := by
  refine h.trans ⟨(SameRows.refl t').updateJobnets p f hf, fun r' hr' hqs => ?_, fun x hx _ => ⟨x, hx, rfl, rfl⟩⟩
  obtain ⟨r, hr, rfl⟩ := Table.mem_update.1 hr'
  by_cases hp : p r
  · rw [if_pos hp] at hqs ⊢
    rw [(SameNet.of_shape (hf r)).id]
    exact .inl (hq r hr hp hqs)
  · rw [if_neg hp] at hqs ⊢
    exact .inr ⟨r, hr, rfl, hqs⟩

theorem updateSummaries (h : Touches m t t') (p : Summary → Bool) (f : Summary → Summary)
    (hf : ∀ x, (f x).innerJobnetId = x.innerJobnetId)
    (hs : ∀ x, p x → some x.innerJobnetId = m ∨ (f x).status = x.status) :
    Touches m t (t'.updateSummaries p f) := by
  refine h.trans ⟨(SameRows.refl t').updateSummaries p f hf, fun r hr hq => .inr ⟨r, hr, rfl, hq⟩, ?_⟩
  intro x' hx' hne
  obtain ⟨x, hx, rfl⟩ := Table.mem_update.1 hx'
  by_cases hp : p x
  · rw [if_pos hp, hf] at hne
    rw [if_pos hp]
    exact ⟨x, hx, (hf x).symm, ((hs x hp).resolve_left hne).symm⟩
  · rw [if_neg hp]
    exact ⟨x, hx, rfl, rfl⟩

/-- A status other than BEGIN and END is written to a jobnet. -/
theorem setStatusJobnet (h : Touches m t t') (n : Id) {s : Status} (hs : ¬Quiet s) :
    Touches m t (jaSetStatusJobnet t' n s).1 :=
  h.updateJobnets _ _ (fun _ => rfl) fun _ _ _ hq => absurd hq hs

theorem iconSteps {i : Id} (hst : IconSteps i t t') (m : Option Id) : Touches m t t' :=
  of_nets m (.iconSteps hst) (iconSteps_sameNets hst).jobnets (iconSteps_sameNets hst).summaries

theorem setStatusJob (m : Option Id) (t : Tables) (i : Id) (s : Status) : Touches m t (jaSetStatusJob t i s).1 :=
  of_nets m ((SameRows.refl t).setStatusJob i s) rfl rfl

theorem jarun {i : Id} (hst : JarunWrites i t t') (m : Option Id) : Touches m t t' := by
  cases hst with
  | skip hst => exact iconSteps hst.iconSteps m
  | icon hf hst => exact (frame hf (setStatusJob m t i .run)).trans (iconSteps hst m)
  | jobnet hf _ hst =>
    exact frame hst ((frame hf (setStatusJob m t i .run)).setStatusJobnet _ (by decide))

/-- A row of `process_jajobnet`. -/
theorem jobnetRow {n icon : Id} {status : Status} {d : RunDecision} (hst : JobnetWrites t n icon status d t') :
    Touches (some n) t t' := by
  have hset : ∀ s tf, Touches (some n) t (setJobnet t n s tf) := by
    intro s tf
    refine (refl (some n) t).updateJobnets _ _ (fun r => ?_) fun r _ hp _ => ?_
    · unfold Jobnet.sync
      split <;> rfl
    · simpa using hp
  have hjob : ∀ {t₁ : Tables} (p : Job → Bool) (f : Job → Job), (∀ j, (f j).shape = j.shape) →
      Touches (some n) t t₁ → Touches (some n) t (t₁.updateJobs p f) := by
    intro t₁ p f hf h
    exact h.trans (of_nets _ ((SameRows.refl t₁).updateJobs p f hf) rfl rfl)
  cases hst with
  | frame hf => exact frame hf (refl _ t)
  | startErr hf => exact frame hf ((refl _ t).setStatusJobnet n (by decide))
  | start _ _ _ hf => exact frame hf (hjob _ _ (fun _ => rfl) ((refl _ t).setStatusJobnet n (by decide)))
  | main js _ _ hf =>
    refine frame hf ((hset _ _).updateSummaries _ _ (fun _ => rfl) fun x hp => .inl ?_)
    simpa using hp
  | run _ _ hf => exact frame hf (hjob _ _ (fun _ => rfl) (hset _ _))
  | ended _ _ hf hst => exact (frame hf (hset _ _)).trans (iconSteps hst.iconSteps _)
  | runErr _ _ hf hst _ => exact (frame hf (hset _ _)).trans (iconSteps hst.iconSteps _)
  | endErr _ _ hf => exact frame hf (hjob _ _ (fun _ => rfl) (hset _ _))

theorem killUpdates (m : Option Id) (t : Tables) (k : Id) : Touches m t (killUpdates t k) := by
  refine ⟨.killUpdates t k, fun r' hr' hq => ?_, fun x hx _ => ⟨x, hx, rfl, rfl⟩⟩
  obtain ⟨r, hr, rfl⟩ := Table.mem_update.1 hr'
  split at hq
  · simp [Quiet] at hq
  · rename_i hp
    rw [if_neg hp]
    exact .inr ⟨r, hr, rfl, hq⟩

/-- A row of `process_jajobnet_summary`. -/
theorem summaryRow {k : Id} (hst : SummaryWrites t k t') : Touches (some k) t t' := by
  cases hst with
  | frame hf => exact frame hf (refl _ t)
  | start hf =>
    have hnet : Touches (some k) t (jaSetStatusJobnet t k .ready).1 := (refl _ t).setStatusJobnet k (by decide)
    exact frame hf (hnet.updateSummaries _ _ (fun _ => rfl) fun x hp => .inl (by simpa using hp))
  | killed _ hf =>
    exact frame hf ((killUpdates _ t k).updateSummaries _ _ (fun _ => rfl) fun x hp => .inl (by simpa using hp))
  | stopping hst hf =>
    refine frame hf ((killUpdates _ t k).trans ?_)
    clear hf
    induction hst with
    | refl => exact refl _ _
    | tail _ hst ih =>
      obtain ⟨j, -, -, hst⟩ := hst
      exact ih.trans (iconSteps hst _)

/-- A row of `jobnet_boot`. -/
theorem bootRow {k : Id} (hst : BootWrites t k t') : Touches (some k) t t' := by
  have hown : ∀ x : Summary, x.innerJobnetId == k → some x.innerJobnetId = some k := fun x hp => by simpa using hp
  cases hst with
  | frame hf => exact frame hf (refl _ t)
  | late _ _ _ hf =>
    refine frame hf (updateSummaries ?_ _ _ (fun _ => rfl) fun x hp => .inl (hown x hp))
    exact (setStatusJob _ t _ .runErr).setStatusJobnet k (s := .runErr) (by decide)
  | skip hf =>
    refine frame hf (updateSummaries ?_ _ _ (fun _ => rfl) fun x hp => .inl (hown x hp))
    refine (refl _ t).updateJobnets _ _ (fun _ => rfl) fun r _ hp _ => ?_
    simpa using hp
  | delay hf => exact frame hf ((refl _ t).updateSummaries _ _ (fun _ => rfl) fun x hp => .inl (hown x hp))
  | start hf => exact frame hf ((refl _ t).updateSummaries _ _ (fun _ => rfl) fun x hp => .inl (hown x hp))

end Touches

/-- The summary of instance `m` is there, with status `s`. -/
def Held (t : Tables) (m : Id) (s : Status) : Prop := ∃ x ∈ t.summaries, x.innerJobnetId = m ∧ x.status = s

section Stored

variable {m : Option Id} {t t' : Tables}

theorem Busy.touches {n icon : Id} (h : Busy t n icon) (ht : Touches m t t') (hne : some n ≠ m) :
    Busy t' n icon := by
  constructor
  · intro r' hr' hid
    obtain ⟨r, hr, hsame⟩ := ht.same.jobnet hr'
    refine ⟨fun hq => ?_, hsame.icon.trans (h.net r hr (hsame.id.symm.trans hid)).2⟩
    rcases ht.quiet r' hr' hq with hm | ⟨r₁, hr₁, hid₁, hq₁⟩
    · exact hne (hid ▸ hm)
    · exact (h.net r₁ hr₁ (hid₁.trans hid)).1 hq₁
  · intro j' hj' hid
    obtain ⟨j, hj, hsame⟩ := ht.same.job hj'
    obtain ⟨r, hr, hrn⟩ := h.icon j hj (hsame.id.symm.trans hid)
    obtain ⟨r', hr', hsame'⟩ := ht.same.symm.jobnet hr
    exact ⟨r', hr', hsame'.id.symm.trans hrn⟩

theorem Busy.delete {n icon : Id} (h : Busy t n icon) (hw : Wired t) (k : Id) :
    Busy (deleteInstance t k) n icon := by
  refine ⟨fun r hr => h.net r (mem_jobnets_delete.1 hr).1, fun j hj hid => ?_⟩
  obtain ⟨hj, hjm⟩ := hw.mem_jobs_delete.1 hj
  obtain ⟨r, hr, hrn⟩ := h.icon j hj hid
  have hmain := (hw.icon r hr j hj (hid.trans (h.net r hr hrn).2.symm)).2
  exact ⟨r, mem_jobnets_delete.2 ⟨hr, hmain ▸ hjm⟩, hrn⟩

/-- The summary of a jobnet in progress is neither in BEGIN nor in END. -/
theorem Busy.not_held {n icon : Id} (h : Busy t n icon) (hs : Settled t) (hw : Wired t) {s : Status}
    (hq : Quiet s) : ¬Held t n s := by
  rintro ⟨x, hx, hid, rfl⟩
  obtain ⟨r, hr, hrn, -⟩ := hw.summaryNet _ (List.mem_map_of_mem hx)
  exact (h.net r hr (hrn.trans hid)).1 (hs.main x hx hq r hr hrn)

theorem Held.touches {k : Id} {s : Status} (h : Held t k s) (hw : Wired t) (ht : Touches m t t')
    (hne : some k ≠ m) : Held t' k s := by
  obtain ⟨x, hx, hid, hs⟩ := h
  have hmem : x.innerJobnetId ∈ t'.summaries.map Summary.innerJobnetId :=
    ht.same.summaries ▸ List.mem_map_of_mem hx
  obtain ⟨x', hx', hid'⟩ := List.mem_map.1 hmem
  obtain ⟨y, hy, hyid, hys⟩ := ht.summaries x' hx' (by rw [hid', hid]; exact hne)
  obtain rfl := Table.eq_of_key hw.summaryKey hy hx (hyid.trans hid')
  exact ⟨x', hx', hid'.trans hid, hys.symm.trans hs⟩

theorem Held.delete {k : Id} {s : Status} (h : Held t k s) (hw : Wired t) {n : Id} (hne : k ≠ n) :
    Held (deleteInstance t n) k s := by
  obtain ⟨x, hx, hid, hs⟩ := h
  exact ⟨x, hw.mem_summaries_delete.2 ⟨hx, hid ▸ hne⟩, hid, hs⟩

/-- The summary of instance `k` runs, if it is there. -/
def Runs (t : Tables) (k : Id) : Prop := ∀ x ∈ t.summaries, x.innerJobnetId = k → ¬Quiet x.status

theorem Runs.touches {k : Id} (h : Runs t k) (ht : Touches m t t') (hne : some k ≠ m) : Runs t' k := by
  intro x' hx' hid
  obtain ⟨x, hx, hid', hs⟩ := ht.summaries x' hx' (hid ▸ hne)
  exact hs ▸ h x hx (hid'.trans hid)

theorem Runs.not_held {k : Id} (h : Runs t k) {s : Status} (hq : Quiet s) : ¬Held t k s := by
  rintro ⟨x, hx, hid, rfl⟩
  exact h x hx hid hq

end Stored

end JobArranger
