import JobArranger.L3Loader.Define
import Mathlib.Data.List.Forall2

/-!
# What one `load_job_definition` adds

On `SUCCEED` the call appends one run job per icon of the jobnet, a link
row per jobnet icon, and one run flow per flow, and changes no row that was
there before.

* `RowOf`: the run job of an icon; `LinkOf`: the link row of a jobnet icon;
  `FlowOf`: the run flow of a flow.
* `loadJobDefinition_level`: the rows appended, in definition order.
-/
namespace JobArranger

namespace Defs

/-- The jobnet a jobnet icon refers to. -/
def linkOf (d : Defs) (key : DefKey) : Option String :=
  match d.iconJobnets.filter (·.1 == key) with
  | [(_, linkJobnetId)] => some linkJobnetId
  | _ => none

end Defs

/-- `r` is the run job of icon `jd` in run jobnet `net`, as it is loaded. -/
structure RowOf (d : Defs) (main net : Id) (jd : JobDef) (r : Job) : Prop where
  net : r.innerJobnetId = net
  main : r.innerJobnetMainId = main
  jobId : r.jobId = jd.key.jobId
  type : r.jobType = jd.jobType
  boot : r.bootCount = Loader.getBootCount d jd.key
  cont : r.continueFlag = jd.continueFlag
  endCount : r.endCount = 0
  status : r.status = .begin
  invo : r.invoFlag = false

/-- `link` is the link row of the jobnet icon `jd`, run job `r`. -/
structure LinkOf (d : Defs) (jd : JobDef) (r : Job) (link : IconJobnet) : Prop where
  job : link.innerJobId = r.innerJobId
  name : d.linkOf jd.key = some link.linkJobnetId

namespace Loader

theorem getNextId_tables {s s' : Loader} {c : CountId} {id : Id}
    (h : s.getNextId c = some (s', id)) : s'.tables = s.tables := by
  unfold getNextId at h
  split at h
  · cases h
  dsimp only at h
  split at h <;> split at h <;> simp_all only [Option.some.injEq, Prod.mk.injEq, reduceCtorEq]
  all_goals exact h.1 ▸ rfl

/-- What loading one icon adds. -/
structure IconAdded (d : Defs) (main net : Id) (t t' : Tables) (jd : JobDef) (r : Job)
    (links : List IconJobnet) : Prop where
  jobs : t'.jobs = t.jobs ++ [r]
  row : RowOf d main net jd r
  fresh : r.innerJobId ∉ t.jobs.map Job.innerJobId
  iconJobnets : t'.iconJobnets = t.iconJobnets ++ links
  links : ∀ l ∈ links, l.innerJobId = r.innerJobId
  link : jd.jobType = .jobnet → ∃ l, t'.iconJobnet? r.innerJobId = some l ∧ LinkOf d jd r l
  jobnets : t'.jobnets = t.jobnets
  flows : t'.flows = t.flows

theorem insertJob_eq {s s' : Loader} {j : Job} (h : s.insertJob j = some s') :
    s'.tables = { s.tables with jobs := s.tables.jobs ++ [j] } ∧
      j.innerJobId ∉ s.tables.jobs.map Job.innerJobId := by
  unfold insertJob at h
  split at h
  · cases h
  rename_i hc
  cases h
  refine ⟨rfl, fun hmem => hc (.inl ?_)⟩
  obtain ⟨j', hj', he⟩ := List.mem_map.mp hmem
  exact Table.lookup_isSome hj' he

theorem insertIconJobnet_eq {s s' : Loader} {r : IconJobnet} (h : s.insertIconJobnet r = some s') :
    s'.tables = { s.tables with iconJobnets := s.tables.iconJobnets ++ [r] } ∧
      s'.tables.iconJobnet? r.innerJobId = some r := by
  unfold insertIconJobnet at h
  split at h
  · cases h
  rename_i hc
  cases h
  refine ⟨rfl, ?_⟩
  simp only [Bool.not_eq_true, Option.isSome_eq_false_iff, Option.isNone_iff_eq_none,
    Tables.iconJobnet?, Table.lookup] at hc ⊢
  rw [List.find?_append, hc]
  simp

/-- Setting a column of the row just appended. -/
theorem updateJobs_last {t : Tables} {r : Job} (f : Job → Job)
    (hr : r.innerJobId ∉ t.jobs.map Job.innerJobId) :
    ({ t with jobs := t.jobs ++ [r] } : Tables).updateJobs (·.innerJobId == r.innerJobId) f =
      { t with jobs := t.jobs ++ [f r] } := by
  have hold : t.jobs.map (fun j => if j.innerJobId == r.innerJobId then f j else j) = t.jobs := by
    conv_rhs => rw [← List.map_id t.jobs]
    refine List.map_congr_left fun j hj => ?_
    have : j.innerJobId ≠ r.innerJobId := fun e => hr (e ▸ List.mem_map_of_mem hj)
    simp [this]
  simp only [Tables.updateJobs, Table.update, List.map_append, hold, List.map_cons, List.map_nil,
    beq_self_eq_true, if_true]

/-- The icon's own rows, once its run job is inserted. -/
theorem loadIcon_added {d : Defs} {main net : Id} {rt : RunType} {t : Tables} {s s' : Loader}
    {jd : JobDef} {r : Job} (hs : s.tables = { t with jobs := t.jobs ++ [r] })
    (hrow : RowOf d main net jd r) (hr : r.innerJobId ∉ t.jobs.map Job.innerJobId)
    (h : loadIcon d rt s net r.innerJobId jd = some s') :
    ∃ r' links, r'.innerJobId = r.innerJobId ∧ IconAdded d main net t s'.tables jd r' links := by
  -- the icon types that add nothing
  have same : s' = s → jd.jobType ≠ .jobnet → IconAdded d main net t s'.tables jd r [] := by
    rintro rfl hne
    exact ⟨by rw [hs], hrow, hr, by rw [hs]; simp, by simp, fun e => absurd e hne, by rw [hs],
      by rw [hs]⟩
  -- start and end icons may get their method flag set to WAIT
  have wait : s' = s.setMethod r.innerJobId .wait → jd.jobType ≠ .jobnet →
      IconAdded d main net t s'.tables jd { r with methodFlag := .wait } [] := by
    rintro rfl hne
    have ht : (s.setMethod r.innerJobId .wait).tables =
        { t with jobs := t.jobs ++ [{ r with methodFlag := .wait }] } := by
      rw [setMethod, hs]
      exact updateJobs_last _ hr
    obtain ⟨h1, h2, h3, h4, h5, h6, h7, h8, h9⟩ := hrow
    exact ⟨by rw [ht], ⟨h1, h2, h3, h4, h5, h6, h7, h8, h9⟩, hr, by rw [ht]; simp, by simp,
      fun e => absurd e hne, by rw [ht], by rw [ht]⟩
  unfold loadIcon at h
  split at h
  · rename_i hty
    have hne : jd.jobType ≠ .jobnet := by rw [hty]; decide
    split at h
    · exact ⟨{ r with methodFlag := .wait }, [], rfl, wait (Option.some.inj h).symm hne⟩
    · exact ⟨_, _, rfl, same (Option.some.inj h).symm hne⟩
  · rename_i hty
    have hne : jd.jobType ≠ .jobnet := by rw [hty]; decide
    unfold loadIconEnd at h
    split at h
    · cases h
    split at h
    · exact ⟨{ r with methodFlag := .wait }, [], rfl, wait (Option.some.inj h).symm hne⟩
    · exact ⟨_, _, rfl, same (Option.some.inj h).symm hne⟩
  · rename_i hty
    unfold loadIconJobnet at h
    split at h
    · cases h
    rename_i s₁ link hnext
    split at h
    · rename_i k name hfilter
      obtain ⟨ht, hl⟩ := insertIconJobnet_eq h
      rw [getNextId_tables hnext, hs] at ht
      refine ⟨r, [_], rfl, by rw [ht], hrow, hr, by rw [ht], by simp, fun _ => ⟨_, hl, rfl, ?_⟩,
        by rw [ht], by rw [ht]⟩
      rw [Defs.linkOf, hfilter]
    · cases h
  · rename_i hty
    have hne : jd.jobType ≠ .jobnet := by rw [hty]; decide
    unfold loadIconLess at h
    split at h
    · cases h
    rename_i k flag hflag
    have hnext : ∃ (s₁ : Loader) (i : Bool), s₁.tables = s.tables ∧ s₁.insertAgentless ⟨r.innerJobId, i⟩ = some s' := by
      split at h
      · cases h
      · rename_i s₁ i hs₁
        refine ⟨s₁, _, ?_, h⟩
        split at hs₁
        · exact getNextId_tables hs₁
        · cases hs₁
          rfl
    obtain ⟨s₁, i, h₁, hins⟩ := hnext
    unfold insertAgentless at hins
    split at hins
    · cases hins
    · cases hins
      exact ⟨r, [], rfl, by simp [h₁, hs], hrow, hr, by simp [h₁, hs], by simp,
        fun e => absurd e hne, by simp [h₁, hs], by simp [h₁, hs]⟩
  · rename_i hty
    split at h
    · exact ⟨_, _, rfl, same (Option.some.inj h).symm (by rw [hty]; decide)⟩
    · cases h
  all_goals
    rename_i hty
  iterate 5 exact ⟨_, _, rfl, same (Option.some.inj h).symm (by rw [hty]; decide)⟩
  split at h
  · refine ⟨_, _, rfl, same (Option.some.inj h).symm ?_⟩
    assumption
  · cases h

theorem fsLinkId_tables {s s' : Loader} {jobType : JobType} {id : Id} (h : s.fsLinkId jobType = some (s', id)) :
    s'.tables = s.tables := by
  unfold fsLinkId at h
  split at h
  · exact getNextId_tables h
  · cases h
    rfl

theorem loadJob_added {d : Defs} {main net : Id} {test : Bool} {rt : RunType} {s s' : Loader}
    {jd : JobDef} (h : loadJob d main net test rt s jd = some s') :
    ∃ r links, IconAdded d main net s.tables s'.tables jd r links := by
  simp only [loadJob, Option.bind_eq_bind, Option.bind_eq_some_iff, Prod.exists] at h
  obtain ⟨s₁, id, h₁, s₂, _, h₂, s₃, h₃, h₄⟩ := h
  have ht₂ : s₂.tables = s.tables := (fsLinkId_tables h₂).trans (getNextId_tables h₁)
  obtain ⟨ht₃, hfresh⟩ := insertJob_eq h₃
  rw [ht₂] at ht₃ hfresh
  obtain ⟨r, links, -, hadd⟩ := loadIcon_added ht₃ ⟨rfl, rfl, rfl, rfl, rfl, rfl, rfl, rfl, rfl⟩ hfresh h₄
  exact ⟨r, links, hadd⟩

/-- The run job of an icon, with the link row of a jobnet icon in `t`. -/
def IconIn (d : Defs) (main net : Id) (t : Tables) (jd : JobDef) (r : Job) : Prop :=
  RowOf d main net jd r ∧
    (jd.jobType = .jobnet → ∃ l, t.iconJobnet? r.innerJobId = some l ∧ LinkOf d jd r l)

/-- What the icon loop adds. -/
structure IconsAdded (d : Defs) (main net : Id) (t t' : Tables) (jds : List JobDef) (rows : List Job) :
    Prop where
  jobs : t'.jobs = t.jobs ++ rows
  icons : List.Forall₂ (IconIn d main net t') jds rows
  nodup : (rows.map Job.innerJobId).Nodup
  fresh : ∀ r ∈ rows, r.innerJobId ∉ t.jobs.map Job.innerJobId
  oldLinks : ∀ i l, t.iconJobnet? i = some l → t'.iconJobnet? i = some l
  jobnets : t'.jobnets = t.jobnets
  flows : t'.flows = t.flows

theorem IconAdded.oldLinks {d : Defs} {main net : Id} {t t' : Tables} {jd : JobDef} {r : Job}
    {links : List IconJobnet} (h : IconAdded d main net t t' jd r links) (i : Id) (l : IconJobnet)
    (hl : t.iconJobnet? i = some l) : t'.iconJobnet? i = some l := by
  simp only [Tables.iconJobnet?, Table.lookup] at hl ⊢
  rw [h.iconJobnets, List.find?_append, hl]
  rfl

theorem loadJobs_added {d : Defs} {main net : Id} {test : Bool} {rt : RunType} :
    ∀ {jds : List JobDef} {s s' : Loader}, jds.foldlM (loadJob d main net test rt) s = some s' →
      ∃ rows, IconsAdded d main net s.tables s'.tables jds rows
  | [], s, s', h => by
    cases h
    exact ⟨[], by simp, .nil, by simp, by simp, fun _ _ h => h, rfl, rfl⟩
  | jd :: jds, s, s', h => by
    simp only [List.foldlM_cons, Option.bind_eq_bind, Option.bind_eq_some_iff] at h
    obtain ⟨s₁, h₁, h₂⟩ := h
    obtain ⟨r, links, ha⟩ := loadJob_added h₁
    obtain ⟨rows, hr⟩ := loadJobs_added h₂
    have hfresh : ∀ x ∈ rows, x.innerJobId ∉ s.tables.jobs.map Job.innerJobId ∧
        x.innerJobId ≠ r.innerJobId := by
      intro x hx
      have := hr.fresh x hx
      rw [ha.jobs] at this
      simpa using this
    refine ⟨r :: rows, ?_, .cons ⟨ha.row, fun hty => ?_⟩ hr.icons, ?_, ?_, ?_, ?_, ?_⟩
    · rw [hr.jobs, ha.jobs, List.append_assoc]
      rfl
    · obtain ⟨l, hl, hlink⟩ := ha.link hty
      exact ⟨l, hr.oldLinks _ l hl, hlink⟩
    · refine List.nodup_cons.mpr ⟨fun hmem => ?_, hr.nodup⟩
      obtain ⟨x, hx, he⟩ := List.mem_map.mp hmem
      exact (hfresh x hx).2 he
    · intro x hx
      rcases List.mem_cons.mp hx with rfl | hx
      · exact ha.fresh
      · exact (hfresh x hx).1
    · exact fun i l hl => hr.oldLinks i l (ha.oldLinks i l hl)
    · rw [hr.jobnets, ha.jobnets]
    · rw [hr.flows, ha.flows]

/-! ## Flows -/

/-- `f` is the run flow of `fd` between the run jobs of jobnet `net`. -/
structure FlowOf (jobs : List Job) (net : Id) (fd : FlowDef) (f : Flow) : Prop where
  jobnet : f.innerJobnetId = net
  type : f.flowType = fd.flowType
  start : ∃ a ∈ jobs, a.innerJobnetId = net ∧ a.jobId = fd.startJobId ∧ a.innerJobId = f.startInnerJobId
  stop : ∃ b ∈ jobs, b.innerJobnetId = net ∧ b.jobId = fd.endJobId ∧ b.innerJobId = f.endInnerJobId

theorem getFlowInnerJobId_eq {s : Loader} {net : Id} {jobId : String} {i : Id}
    (h : s.getFlowInnerJobId net jobId = some i) :
    ∃ a ∈ s.tables.jobs, a.innerJobnetId = net ∧ a.jobId = jobId ∧ a.innerJobId = i := by
  simp only [getFlowInnerJobId, Option.map_eq_some_iff] at h
  obtain ⟨a, ha, hi⟩ := h
  have hp := List.find?_some ha
  simp only [Bool.and_eq_true, beq_iff_eq] at hp
  exact ⟨a, List.mem_of_find?_eq_some ha, hp.1, hp.2, hi⟩

theorem loadFlow_added {net : Id} {s s' : Loader} {fd : FlowDef} (h : loadFlow net s fd = some s') :
    ∃ f, s'.tables = { s.tables with flows := s.tables.flows ++ [f] } ∧
      FlowOf s.tables.jobs net fd f ∧ f.innerFlowId ∉ s.tables.flows.map Flow.innerFlowId := by
  simp only [loadFlow, Option.bind_eq_bind, Option.bind_eq_some_iff, Prod.exists] at h
  obtain ⟨s₁, id, h₁, a, ha, b, hb, h₂⟩ := h
  have ht := getNextId_tables h₁
  unfold insertFlow at h₂
  split at h₂
  · cases h₂
  rename_i hc
  cases h₂
  refine ⟨⟨id, net, a, b, fd.flowType⟩, by rw [ht], ⟨rfl, rfl, ?_, ?_⟩, fun hmem => hc (.inl ?_)⟩
  · rw [← ht]
    exact getFlowInnerJobId_eq ha
  · rw [← ht]
    exact getFlowInnerJobId_eq hb
  · rw [← ht] at hmem
    obtain ⟨f', hf', he⟩ := List.mem_map.mp hmem
    exact Table.lookup_isSome hf' he

theorem loadFlows_added {net : Id} :
    ∀ {fds : List FlowDef} {s s' : Loader}, fds.foldlM (loadFlow net) s = some s' →
      ∃ fl, s'.tables = { s.tables with flows := s.tables.flows ++ fl } ∧
        List.Forall₂ (FlowOf s.tables.jobs net) fds fl ∧ (fl.map Flow.innerFlowId).Nodup ∧
        ∀ f ∈ fl, f.innerFlowId ∉ s.tables.flows.map Flow.innerFlowId
  | [], s, s', h => by
    cases h
    exact ⟨[], by simp, .nil, by simp, by simp⟩
  | fd :: fds, s, s', h => by
    simp only [List.foldlM_cons, Option.bind_eq_bind, Option.bind_eq_some_iff] at h
    obtain ⟨s₁, h₁, h₂⟩ := h
    obtain ⟨f, ht₁, hf, hfid⟩ := loadFlow_added h₁
    obtain ⟨fl, ht₂, hfl, hnd, hids⟩ := loadFlows_added h₂
    rw [ht₁] at ht₂ hfl hids
    have hids' : ∀ g ∈ fl, g.innerFlowId ∉ s.tables.flows.map Flow.innerFlowId ∧
        g.innerFlowId ≠ f.innerFlowId := fun g hg => by simpa using hids g hg
    refine ⟨f :: fl, by simp [ht₂], .cons hf hfl, List.nodup_cons.mpr ⟨fun hmem => ?_, hnd⟩, ?_⟩
    · obtain ⟨g, hg, he⟩ := List.mem_map.mp hmem
      exact (hids' g hg).2 he
    · intro g hg
      rcases List.mem_cons.mp hg with rfl | hg
      · exact hfid
      · exact (hids' g hg).1

/-- **What one level adds.** Jobs, links and flows of the jobnet version,
appended in definition order. -/
structure LevelAdded (d : Defs) (main net : Id) (jobnetId : String) (updateDate : Nat) (t t' : Tables)
    (rows : List Job) (fl : List Flow) : Prop where
  jobs : t'.jobs = t.jobs ++ rows
  icons : List.Forall₂ (IconIn d main net t') (d.jobsOf jobnetId updateDate) rows
  nodup : (rows.map Job.innerJobId).Nodup
  fresh : ∀ r ∈ rows, r.innerJobId ∉ t.jobs.map Job.innerJobId
  oldLinks : ∀ i l, t.iconJobnet? i = some l → t'.iconJobnet? i = some l
  jobnets : t'.jobnets = t.jobnets
  flows : t'.flows = t.flows ++ fl
  edges : List.Forall₂ (FlowOf t'.jobs net) (d.flowsOf jobnetId updateDate) fl
  flowNodup : (fl.map Flow.innerFlowId).Nodup
  flowFresh : ∀ f ∈ fl, f.innerFlowId ∉ t.flows.map Flow.innerFlowId

theorem loadJobDefinition_level {d : Defs} {main net : Id} {jobnetId : String} {updateDate : Nat}
    {test : Bool} {rt : RunType} {s s' : Loader}
    (h : loadJobDefinition d s main net jobnetId updateDate test rt = some s') :
    ∃ rows fl, LevelAdded d main net jobnetId updateDate s.tables s'.tables rows fl := by
  simp only [loadJobDefinition, Option.bind_eq_bind, Option.bind_eq_some_iff] at h
  obtain ⟨s₁, h₁, h₂⟩ := h
  obtain ⟨rows, hr⟩ := loadJobs_added h₁
  obtain ⟨fl, ht, hfl, hnd, hids⟩ := loadFlows_added h₂
  refine ⟨rows, fl, ?_, ?_, hr.nodup, hr.fresh, ?_, ?_, ?_, ?_, hnd, hr.flows ▸ hids⟩
  · rw [ht, ← hr.jobs]
  · rw [ht]
    exact hr.icons
  · rw [ht]
    exact hr.oldLinks
  · rw [ht, ← hr.jobnets]
  · rw [ht, ← hr.flows]
  · simpa only [ht] using hfl

end Loader
end JobArranger
