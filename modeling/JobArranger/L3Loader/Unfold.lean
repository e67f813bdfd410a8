import JobArranger.L3Loader.Level
import Mathlib.Data.List.Nodup
import Mathlib.Logic.Relation
import Mathlib.Data.Finset.Card

/-!
# Expansion is the unfolding of the definition

A jobnet that refers to other jobnets by jobnet icons unfolds to a tree:
one node per path of icons from the root. `IsOcc d root p n` says that the
path `p` of icon ids leads to an occurrence of jobnet `n`.

The scan loop works on the run tables themselves. Its invariant is
`Expanded`: a list `E` of the occurrences expanded so far, such that the
run jobnets and jobs of the instance are exactly the copies for `E`
(`Levels`), and an icon has `invo_flag` ON exactly when its occurrence is
in `E` (`Tree`). When no icon is pending, `E` is closed under icons and so
is the whole unfolding.

* `load_unfolds`: for acyclic definitions the two loads terminate, and on
  `SUCCEED` the run tables hold exactly the unfolding tree.
-/
namespace JobArranger

/-- The occurrences of jobnets in the unfolding of `root`, by the path of
icon ids that leads to them. -/
inductive IsOcc (d : Defs) (root : JobnetDef) : List String → JobnetDef → Prop where
  | root : IsOcc d root [] root
  | icon {p : List String} {n m : JobnetDef} {jd : JobDef} {name : String} : IsOcc d root p n →
      jd ∈ d.jobsOf n.jobnetId n.updateDate → jd.jobType = .jobnet → d.linkOf jd.key = some name →
      d.valid name = some m → IsOcc d root (p ++ [jd.key.jobId]) m

/-- An expanded occurrence with its `inner_jobnet_id`. -/
structure Occ where
  path : List String
  jn : JobnetDef
  net : Id

/-- The columns of a run job that its icon determines. -/
def jobKey (r : Job) : Id × String × JobType × Nat × Bool × Status × Nat :=
  (r.innerJobnetId, r.jobId, r.jobType, r.bootCount, r.continueFlag, r.status, r.endCount)

/-- The same columns of the copy of icon `jd` in run jobnet `net`. -/
def iconKey (d : Defs) (net : Id) (jd : JobDef) : Id × String × JobType × Nat × Bool × Status × Nat :=
  (net, jd.key.jobId, jd.jobType, Loader.getBootCount d jd.key, jd.continueFlag, .begin, 0)

/-- The icons of a jobnet version. -/
def Defs.iconsOf (d : Defs) (jn : JobnetDef) : List JobDef := d.jobsOf jn.jobnetId jn.updateDate

def jobsOfMain (t : Tables) (main : Id) : List Job := t.jobs.filter fun r => r.innerJobnetMainId == main

def netsOfMain (t : Tables) (main : Id) : List Jobnet :=
  t.jobnets.filter fun n => n.innerJobnetMainId == main

/-- The run jobs and flows are the copies of the occurrences `E`; foreign
rows are left as they were. -/
structure Levels (d : Defs) (main : Id) (t : Tables) (E : List Occ) : Prop where
  jobs : (jobsOfMain t main).map jobKey = E.flatMap fun e => (d.iconsOf e.jn).map (iconKey d e.net)
  jobIds : (t.jobs.map Job.innerJobId).Nodup
  jobJobnet : ∀ j ∈ t.jobs, ∃ n ∈ t.jobnets, n.innerJobnetId = j.innerJobnetId
  ofMain : ∀ j ∈ t.jobs, ∀ e ∈ E, j.innerJobnetId = e.net → j.innerJobnetMainId = main
  flowEnds : ∀ f ∈ t.flows,
    (∃ a ∈ t.jobs, a.innerJobId = f.startInnerJobId ∧ a.innerJobnetId = f.innerJobnetId) ∧
      ∃ b ∈ t.jobs, b.innerJobId = f.endInnerJobId ∧ b.innerJobnetId = f.innerJobnetId
  flows : ∀ e ∈ E, List.Forall₂ (Loader.FlowOf t.jobs e.net) (d.flowsOf e.jn.jobnetId e.jn.updateDate)
    (t.flows.filter fun f => f.innerJobnetId == e.net)
  flowIds : (t.flows.map Flow.innerFlowId).Nodup
  links : ∀ e ∈ E, ∀ r ∈ t.jobs, r.innerJobnetId = e.net → r.jobType = .jobnet →
    ∃ l, t.iconJobnet? r.innerJobId = some l ∧
      d.linkOf ⟨e.jn.jobnetId, r.jobId, e.jn.updateDate⟩ = some l.linkJobnetId

theorem jobKey_of_rowOf {d : Defs} {main net : Id} {jd : JobDef} {r : Job} (h : RowOf d main net jd r) :
    jobKey r = iconKey d net jd := by
  simp only [jobKey, iconKey, h.net, h.jobId, h.type, h.boot, h.cont, h.status, h.endCount]

theorem key_of_mem_icons {d : Defs} {jn : JobnetDef} {jd : JobDef} (h : jd ∈ d.iconsOf jn) :
    jd.key = ⟨jn.jobnetId, jd.key.jobId, jn.updateDate⟩ := by
  simp only [Defs.iconsOf, Defs.jobsOf, List.mem_filter, Bool.and_eq_true, beq_iff_eq] at h
  obtain ⟨-, h1, h2⟩ := h
  rw [← h1, ← h2]

theorem Loader.FlowOf.mono {jobs jobs' : List Job} {net : Id} {fd : FlowDef} {f : Flow}
    (h : Loader.FlowOf jobs net fd f)
    (hj : ∀ a ∈ jobs, ∃ a' ∈ jobs', a'.innerJobId = a.innerJobId ∧
      a'.innerJobnetId = a.innerJobnetId ∧ a'.jobId = a.jobId) : Loader.FlowOf jobs' net fd f := by
  obtain ⟨hn, ht, ⟨a, ha, ha1, ha2, ha3⟩, ⟨b, hb, hb1, hb2, hb3⟩⟩ := h
  obtain ⟨a', ha', e1, e2, e3⟩ := hj a ha
  obtain ⟨b', hb', e4, e5, e6⟩ := hj b hb
  exact ⟨hn, ht, ⟨a', ha', e2.trans ha1, e3.trans ha2, e1.trans ha3⟩,
    ⟨b', hb', e5.trans hb1, e6.trans hb2, e4.trans hb3⟩⟩

/-- Aligned lists: every member on the right has its partner. -/
theorem forall₂_mem_right {α β : Type*} {R : α → β → Prop} {l : List α} {l' : List β}
    (h : List.Forall₂ R l l') {b : β} (hb : b ∈ l') : ∃ a ∈ l, R a b := by
  induction h with
  | nil => cases hb
  | cons hr _ ih =>
    rcases List.mem_cons.mp hb with rfl | hb
    · exact ⟨_, List.mem_cons_self, hr⟩
    · obtain ⟨a, ha, hab⟩ := ih hb
      exact ⟨a, List.mem_cons_of_mem _ ha, hab⟩

theorem map_jobKey_of_icons {d : Defs} {main net : Id} {t : Tables} {jds : List JobDef}
    {rows : List Job} (h : List.Forall₂ (Loader.IconIn d main net t) jds rows) :
    rows.map jobKey = jds.map (iconKey d net) := by
  induction h with
  | nil => rfl
  | cons hr _ ih => rw [List.map_cons, List.map_cons, ih, jobKey_of_rowOf hr.1]

/-- One more level, for a jobnet row no job hangs on yet. -/
theorem Levels.add {d : Defs} {main : Id} {t t' : Tables} {E : List Occ} {e : Occ} {rows : List Job}
    {fl : List Flow} (h : Levels d main t E)
    (hl : Loader.LevelAdded d main e.net e.jn.jobnetId e.jn.updateDate t t' rows fl)
    (hnet : ∃ n ∈ t.jobnets, n.innerJobnetId = e.net) (hfree : ∀ j ∈ t.jobs, j.innerJobnetId ≠ e.net)
    (hne : ∀ e' ∈ E, e'.net ≠ e.net) : Levels d main t' (E ++ [e]) := by
  have hicon : ∀ r ∈ rows, ∃ jd ∈ d.iconsOf e.jn, Loader.IconIn d main e.net t' jd r := fun r hr =>
    forall₂_mem_right hl.icons hr
  have hrow : ∀ r ∈ rows, r.innerJobnetId = e.net ∧ r.innerJobnetMainId = main := fun r hr => by
    obtain ⟨jd, -, hin⟩ := hicon r hr
    exact ⟨hin.1.net, hin.1.main⟩
  have hmono : ∀ a ∈ t.jobs, ∃ a' ∈ t'.jobs, a'.innerJobId = a.innerJobId ∧
      a'.innerJobnetId = a.innerJobnetId ∧ a'.jobId = a.jobId := fun a ha =>
    ⟨a, by rw [hl.jobs]; exact List.mem_append_left _ ha, rfl, rfl, rfl⟩
  have hfl : ∀ f ∈ fl, ∃ fd, Loader.FlowOf t'.jobs e.net fd f := fun f hf => by
    obtain ⟨fd, -, hfd⟩ := forall₂_mem_right hl.edges hf
    exact ⟨fd, hfd⟩
  refine ⟨?_, ?_, ?_, ?_, ?_, ?_, ?_, ?_⟩
  · have hall : rows.filter (fun r => r.innerJobnetMainId == main) = rows :=
      List.filter_eq_self.mpr fun r hr => by simp [(hrow r hr).2]
    have hold : (jobsOfMain t main).map jobKey = _ := h.jobs
    rw [jobsOfMain, hl.jobs, List.filter_append, hall, List.map_append,
      map_jobKey_of_icons hl.icons, List.flatMap_append]
    rw [jobsOfMain] at hold
    rw [hold]
    simp [Defs.iconsOf]
  · rw [hl.jobs, List.map_append]
    refine List.nodup_append.mpr ⟨h.jobIds, hl.nodup, fun a ha b hb => ?_⟩
    obtain ⟨r, hr, rfl⟩ := List.mem_map.mp hb
    exact fun e => hl.fresh r hr (e ▸ ha)
  · intro j hj
    rw [hl.jobs] at hj
    rw [hl.jobnets]
    rcases List.mem_append.mp hj with hj | hj
    · exact h.jobJobnet j hj
    · rw [(hrow j hj).1]
      exact hnet
  · intro j hj e' he' hje
    rw [hl.jobs] at hj
    rcases List.mem_append.mp hj with hj | hj
    · rcases List.mem_append.mp he' with he' | he'
      · exact h.ofMain j hj e' he' hje
      · rw [List.mem_singleton.mp he'] at hje
        exact absurd hje (hfree j hj)
    · exact (hrow j hj).2
  · intro f hf
    rw [hl.flows] at hf
    rcases List.mem_append.mp hf with hf | hf
    · obtain ⟨⟨a, ha, ha1, ha2⟩, ⟨b, hb, hb1, hb2⟩⟩ := h.flowEnds f hf
      rw [hl.jobs]
      exact ⟨⟨a, List.mem_append_left _ ha, ha1, ha2⟩, ⟨b, List.mem_append_left _ hb, hb1, hb2⟩⟩
    · obtain ⟨fd, hfd⟩ := hfl f hf
      obtain ⟨a, ha, ha1, -, ha3⟩ := hfd.start
      obtain ⟨b, hb, hb1, -, hb3⟩ := hfd.stop
      exact ⟨⟨a, ha, ha3, ha1.trans hfd.jobnet.symm⟩, ⟨b, hb, hb3, hb1.trans hfd.jobnet.symm⟩⟩
  · intro e' he'
    rw [hl.flows, List.filter_append]
    rcases List.mem_append.mp he' with he' | he'
    · have hnone : fl.filter (fun f => f.innerJobnetId == e'.net) = [] := by
        refine List.filter_eq_nil_iff.mpr fun f hf => ?_
        obtain ⟨fd, hfd⟩ := hfl f hf
        simpa [hfd.jobnet] using (hne e' he').symm
      rw [hnone, List.append_nil]
      exact (h.flows e' he').imp fun _ _ hf => hf.mono hmono
    · rw [List.mem_singleton.mp he']
      have hnone : t.flows.filter (fun f => f.innerJobnetId == e.net) = [] := by
        refine List.filter_eq_nil_iff.mpr fun f hf => ?_
        obtain ⟨⟨a, ha, -, ha2⟩, -⟩ := h.flowEnds f hf
        simpa [← ha2] using hfree a ha
      have hall : fl.filter (fun f => f.innerJobnetId == e.net) = fl :=
        List.filter_eq_self.mpr fun f hf => by
          obtain ⟨fd, hfd⟩ := hfl f hf
          simp [hfd.jobnet]
      rw [hnone, hall, List.nil_append]
      exact hl.edges
  · rw [hl.flows, List.map_append]
    refine List.nodup_append.mpr ⟨h.flowIds, hl.flowNodup, fun a ha b hb => ?_⟩
    obtain ⟨f, hf, rfl⟩ := List.mem_map.mp hb
    exact fun e => hl.flowFresh f hf (e ▸ ha)
  · intro e' he' r hr hre hty
    rw [hl.jobs] at hr
    rcases List.mem_append.mp hr with hr | hr
    · rcases List.mem_append.mp he' with he' | he'
      · obtain ⟨l, hl1, hl2⟩ := h.links e' he' r hr hre hty
        exact ⟨l, hl.oldLinks _ l hl1, hl2⟩
      · rw [List.mem_singleton.mp he'] at hre
        exact absurd hre (hfree r hr)
    · have hee : e' = e := by
        rcases List.mem_append.mp he' with he' | he'
        · exact absurd (hre.symm.trans (hrow r hr).1) (hne e' he')
        · exact List.mem_singleton.mp he'
      subst hee
      obtain ⟨jd, hjd, hin⟩ := hicon r hr
      obtain ⟨l, hl1, hl2⟩ := hin.2 (hin.1.type.symm.trans hty)
      refine ⟨l, hl1, ?_⟩
      rw [hin.1.jobId, ← key_of_mem_icons hjd]
      exact hl2.name

/-! ## `invo_flag` -/

/-- The row of icon `i` expanded. -/
def markInvo (i : Id) (r : Job) : Job := if r.innerJobId == i then { r with invoFlag := true } else r

theorem setInvo_jobs (s : Loader) (i : Id) : (s.setInvo i).tables.jobs = s.tables.jobs.map (markInvo i) :=
  rfl

theorem markInvo_same (i : Id) (r : Job) :
    (markInvo i r).innerJobId = r.innerJobId ∧ (markInvo i r).innerJobnetId = r.innerJobnetId ∧
      (markInvo i r).innerJobnetMainId = r.innerJobnetMainId ∧ (markInvo i r).jobId = r.jobId ∧
      (markInvo i r).jobType = r.jobType ∧ jobKey (markInvo i r) = jobKey r := by
  unfold markInvo
  split <;> exact ⟨rfl, rfl, rfl, rfl, rfl, rfl⟩

theorem Levels.setInvo {d : Defs} {main : Id} {s : Loader} {E : List Occ}
    (h : Levels d main s.tables E) (i : Id) : Levels d main (s.setInvo i).tables E := by
  have hmem : ∀ r' ∈ (s.setInvo i).tables.jobs, ∃ r ∈ s.tables.jobs, r' = markInvo i r := by
    intro r' hr'
    rw [setInvo_jobs] at hr'
    obtain ⟨r, hr, he⟩ := List.mem_map.mp hr'
    exact ⟨r, hr, he.symm⟩
  have hmono : ∀ a ∈ s.tables.jobs, ∃ a' ∈ (s.setInvo i).tables.jobs, a'.innerJobId = a.innerJobId ∧
      a'.innerJobnetId = a.innerJobnetId ∧ a'.jobId = a.jobId := fun a ha =>
    ⟨markInvo i a, List.mem_map_of_mem ha, (markInvo_same i a).1, (markInvo_same i a).2.1,
      (markInvo_same i a).2.2.2.1⟩
  refine ⟨?_, ?_, ?_, ?_, ?_, ?_, h.flowIds, ?_⟩
  · rw [← h.jobs, jobsOfMain, jobsOfMain, setInvo_jobs, List.filter_map, List.map_map]
    have hfilter : ((fun r : Job => r.innerJobnetMainId == main) ∘ markInvo i) =
        fun r => r.innerJobnetMainId == main := by
      funext r
      simp only [Function.comp, (markInvo_same i r).2.2.1]
    rw [hfilter]
    exact List.map_congr_left fun r _ => (markInvo_same i r).2.2.2.2.2
  · rw [setInvo_jobs, List.map_map]
    have : Job.innerJobId ∘ markInvo i = Job.innerJobId := by
      funext r
      exact (markInvo_same i r).1
    rw [this]
    exact h.jobIds
  · intro r' hr'
    obtain ⟨r, hr, rfl⟩ := hmem r' hr'
    rw [(markInvo_same i r).2.1]
    exact h.jobJobnet r hr
  · intro r' hr' e he hre
    obtain ⟨r, hr, rfl⟩ := hmem r' hr'
    rw [(markInvo_same i r).2.1] at hre
    rw [(markInvo_same i r).2.2.1]
    exact h.ofMain r hr e he hre
  · intro f hf
    obtain ⟨⟨a, ha, ha1, ha2⟩, ⟨b, hb, hb1, hb2⟩⟩ := h.flowEnds f hf
    obtain ⟨a', ha', e1, e2, -⟩ := hmono a ha
    obtain ⟨b', hb', e3, e4, -⟩ := hmono b hb
    exact ⟨⟨a', ha', e1.trans ha1, e2.trans ha2⟩, ⟨b', hb', e3.trans hb1, e4.trans hb2⟩⟩
  · intro e he
    exact (h.flows e he).imp fun _ _ hf => hf.mono hmono
  · intro e he r' hr' hre hty
    obtain ⟨r, hr, rfl⟩ := hmem r' hr'
    obtain ⟨h1, h2, h3, h4, h5, -⟩ := markInvo_same i r
    rw [h1, h4]
    exact h.links e he r hr (h2 ▸ hre) (h5 ▸ hty)

/-! ## The tree of occurrences -/

/-- The primary key of `ja_job_control_table`. -/
def Defs.Keyed (d : Defs) : Prop := (d.jobs.map JobDef.key).Nodup

instance (d : Defs) : Decidable d.Keyed := inferInstanceAs (Decidable (List.Nodup _))

/-- `E` is a prefix of the unfolding tree: closed under parents, and an icon
is expanded exactly when its `invo_flag` is ON. -/
structure Tree (d : Defs) (root : JobnetDef) (main : Id) (t : Tables) (E : List Occ) : Prop where
  occ : ∀ e ∈ E, IsOcc d root e.path e.jn
  paths : (E.map Occ.path).Nodup
  nets : (netsOfMain t main).map (fun n => (n.innerJobnetId, n.jobnetId, n.updateDate)) =
    E.map fun e => (e.net, e.jn.jobnetId, e.jn.updateDate)
  netIds : (t.jobnets.map Jobnet.innerJobnetId).Nodup
  root : ⟨[], root, main⟩ ∈ E
  done : ∀ e ∈ E, ∀ r ∈ t.jobs, r.innerJobnetId = e.net → r.jobType = .jobnet → r.invoFlag = true →
    ∀ l, t.iconJobnet? r.innerJobId = some l → ∃ e' ∈ E, e'.path = e.path ++ [r.jobId] ∧
      e'.net = l.linkInnerJobnetId ∧ d.valid l.linkJobnetId = some e'.jn ∧
      ∃ n ∈ t.jobnets, n.innerJobnetId = e'.net ∧ n.innerJobId = r.innerJobId
  parent : ∀ e' ∈ E, e'.path ≠ [] → ∃ e ∈ E, ∃ r ∈ t.jobs, r.innerJobnetId = e.net ∧
    r.invoFlag = true ∧ e'.path = e.path ++ [r.jobId]

theorem Tree.net_nodup {d : Defs} {root : JobnetDef} {main : Id} {t : Tables} {E : List Occ}
    (h : Tree d root main t E) : (E.map Occ.net).Nodup := by
  have hmap : E.map Occ.net = (netsOfMain t main).map Jobnet.innerJobnetId := by
    have := congrArg (List.map Prod.fst) h.nets
    simpa [List.map_map, Function.comp_def] using this.symm
  rw [hmap]
  exact (List.filter_sublist.map _).nodup h.netIds

theorem Tree.net_mem {d : Defs} {root : JobnetDef} {main : Id} {t : Tables} {E : List Occ}
    (h : Tree d root main t E) {e : Occ} (he : e ∈ E) : ∃ n ∈ t.jobnets, n.innerJobnetId = e.net := by
  have hmem : (e.net, e.jn.jobnetId, e.jn.updateDate) ∈
      (netsOfMain t main).map fun n => (n.innerJobnetId, n.jobnetId, n.updateDate) := by
    rw [h.nets]
    exact List.mem_map_of_mem (f := fun e : Occ => (e.net, e.jn.jobnetId, e.jn.updateDate)) he
  obtain ⟨n, hn, heq⟩ := List.mem_map.mp hmem
  exact ⟨n, (List.mem_filter.mp hn).1, (Prod.mk.inj heq).1⟩

theorem icons_jobId_nodup {d : Defs} (hd : d.Keyed) (jn : JobnetDef) :
    ((d.iconsOf jn).map fun jd => jd.key.jobId).Nodup := by
  have hk : ((d.iconsOf jn).map JobDef.key).Nodup := (List.filter_sublist.map _).nodup hd
  refine List.Nodup.map_on ?_ (List.Nodup.of_map _ hk)
  intro a ha b hb hab
  refine List.inj_on_of_nodup_map hk ha hb ?_
  rw [key_of_mem_icons ha, key_of_mem_icons hb, hab]

/-- In an expanded jobnet an icon id names one run job. -/
theorem Levels.unique {d : Defs} {main : Id} {t : Tables} {E : List Occ} (h : Levels d main t E)
    (hd : d.Keyed) (hnets : (E.map Occ.net).Nodup) {e : Occ} (he : e ∈ E) {r r' : Job}
    (hr : r ∈ t.jobs) (hr' : r' ∈ t.jobs) (hre : r.innerJobnetId = e.net)
    (hre' : r'.innerJobnetId = e.net) (hid : r.jobId = r'.jobId) : r = r' := by
  have hnd : ((jobsOfMain t main).map fun r => (r.innerJobnetId, r.jobId)).Nodup := by
    have hproj : (jobsOfMain t main).map (fun r => (r.innerJobnetId, r.jobId)) =
        E.flatMap fun e => (d.iconsOf e.jn).map fun jd => (e.net, jd.key.jobId) := by
      have := congrArg (List.map fun k : Id × String × JobType × Nat × Bool × Status × Nat => (k.1, k.2.1)) h.jobs
      simpa [List.map_map, List.map_flatMap, Function.comp_def, jobKey, iconKey] using this
    rw [hproj]
    refine List.nodup_flatMap.mpr ⟨fun e _ => ?_, ?_⟩
    · have := (icons_jobId_nodup hd e.jn).map (f := fun id => (e.net, id)) fun _ _ h => (Prod.mk.inj h).2
      simpa [List.map_map, Function.comp_def] using this
    · refine (List.pairwise_map.mp hnets).imp fun hne => ?_
      intro x hx hx'
      obtain ⟨_, _, rfl⟩ := List.mem_map.mp hx
      obtain ⟨_, _, heq⟩ := List.mem_map.mp hx'
      exact hne (Prod.mk.inj heq).1.symm
  have hm : ∀ x ∈ t.jobs, x.innerJobnetId = e.net → x ∈ jobsOfMain t main := fun x hx hxe => by
    simp [jobsOfMain, hx, h.ofMain x hx e he hxe]
  refine List.inj_on_of_nodup_map hnd (hm r hr hre) (hm r' hr' hre') ?_
  rw [hre, hre', hid]

/-- A run job of the instance is the copy of an icon of an occurrence. -/
theorem Levels.icon_of_job {d : Defs} {main : Id} {t : Tables} {E : List Occ} (h : Levels d main t E)
    {r : Job} (hr : r ∈ t.jobs) (hm : r.innerJobnetMainId = main) :
    ∃ e ∈ E, ∃ jd ∈ d.iconsOf e.jn, jobKey r = iconKey d e.net jd := by
  have hmem : jobKey r ∈ (jobsOfMain t main).map jobKey :=
    List.mem_map_of_mem (by simp [jobsOfMain, hr, hm])
  rw [h.jobs] at hmem
  obtain ⟨e, he, hk⟩ := List.mem_flatMap.mp hmem
  obtain ⟨jd, hjd, heq⟩ := List.mem_map.mp hk
  exact ⟨e, he, jd, hjd, heq.symm⟩

/-! ## One icon of a scan -/

theorem insertJobnet_eq {s s' : Loader} {n : Jobnet} (h : s.insertJobnet n = some s') :
    s'.tables = { s.tables with jobnets := s.tables.jobnets ++ [n] } ∧
      n.innerJobnetId ∉ s.tables.jobnets.map Jobnet.innerJobnetId := by
  unfold Loader.insertJobnet at h
  split at h
  · cases h
  rename_i hc
  cases h
  refine ⟨rfl, fun hmem => hc ?_⟩
  obtain ⟨n', hn', he⟩ := List.mem_map.mp hmem
  exact Table.lookup_isSome hn' he

theorem Levels.insertJobnet {d : Defs} {main : Id} {t : Tables} {E : List Occ} (h : Levels d main t E)
    (n : Jobnet) : Levels d main { t with jobnets := t.jobnets ++ [n] } E :=
  ⟨h.jobs, h.jobIds, fun j hj => by
    obtain ⟨n', hn', he⟩ := h.jobJobnet j hj
    exact ⟨n', List.mem_append_left _ hn', he⟩, h.ofMain, h.flowEnds, h.flows, h.flowIds, h.links⟩

/-- The result of expanding the icon of run job `r`: the occurrence `e'` and
what the tables gained. -/
structure IconExpanded (d : Defs) (main : Id) (t t' : Tables) (r : Job) (e e' : Occ) (l : IconJobnet)
    (rows : List Job) : Prop where
  parent : r.innerJobnetId = e.net
  link : t.iconJobnet? r.innerJobId = some l
  path : e'.path = e.path ++ [r.jobId]
  net : e'.net = l.linkInnerJobnetId
  def_ : d.valid l.linkJobnetId = some e'.jn
  fresh : e'.net ∉ t.jobnets.map Jobnet.innerJobnetId
  jobnets : ∃ n : Jobnet, t'.jobnets = t.jobnets ++ [n] ∧ n.innerJobnetId = e'.net ∧
    n.innerJobnetMainId = main ∧ n.innerJobId = r.innerJobId ∧ n.jobnetId = e'.jn.jobnetId ∧
    n.updateDate = e'.jn.updateDate
  jobs : t'.jobs = (t.jobs ++ rows).map (markInvo r.innerJobId)
  rows : ∀ x ∈ rows, x.innerJobnetId = e'.net ∧ x.invoFlag = false ∧ x.innerJobId ≠ r.innerJobId
  oldLinks : ∀ i l, t.iconJobnet? i = some l → t'.iconJobnet? i = some l

theorem expandIcon_levels {d : Defs} {main : Id} {rt : RunType} {s s' : Loader} {E : List Occ}
    {root : JobnetDef} (hL : Levels d main s.tables E) (hT : Tree d root main s.tables E) {r : Job}
    (hr : r ∈ s.tables.jobs) (hm : r.innerJobnetMainId = main) (hty : r.jobType = .jobnet)
    (h : s.expandIcon d main rt r.innerJobId = some s') :
    ∃ e ∈ E, ∃ e' l rows, IconExpanded d main s.tables s'.tables r e e' l rows ∧
      IsOcc d root e'.path e'.jn ∧ Levels d main s'.tables (E ++ [e']) := by
  simp only [Loader.expandIcon, Option.bind_eq_bind, Option.bind_eq_some_iff, Option.pure_def,
    Option.some.injEq] at h
  obtain ⟨l, hl, m, hmdef, s₁, h₁, s₂, h₂, rfl⟩ := h
  obtain ⟨e, he, jd, hjd, hkey⟩ := hL.icon_of_job hr hm
  simp only [jobKey, iconKey, Prod.mk.injEq] at hkey
  obtain ⟨hre, hjobId, htype, -⟩ := hkey
  obtain ⟨l', hl', hname⟩ := hL.links e he r hr hre hty
  rw [hl] at hl'
  cases hl'
  obtain ⟨ht₁, hfresh⟩ := insertJobnet_eq h₁
  obtain ⟨rows, fl, hlev⟩ := Loader.loadJobDefinition_level h₂
  let e' : Occ := ⟨e.path ++ [r.jobId], m, l.linkInnerJobnetId⟩
  have hfree : ∀ j ∈ s₁.tables.jobs, j.innerJobnetId ≠ e'.net := by
    intro j hj hje
    rw [ht₁] at hj
    obtain ⟨n, hn, hne⟩ := hL.jobJobnet j hj
    exact hfresh (List.mem_map.mpr ⟨n, hn, hne.trans hje⟩)
  have hne : ∀ x ∈ E, x.net ≠ e'.net := by
    intro x hx hxe
    obtain ⟨n, hn, hnx⟩ := hT.net_mem hx
    exact hfresh (List.mem_map.mpr ⟨n, hn, hnx.trans hxe⟩)
  have hL₁ : Levels d main s₁.tables E := by
    rw [ht₁]
    exact hL.insertJobnet _
  have hnet : ∃ n ∈ s₁.tables.jobnets, n.innerJobnetId = e'.net := by
    rw [ht₁]
    exact ⟨_, List.mem_append_right _ List.mem_cons_self, rfl⟩
  have hL₂ : Levels d main s₂.tables (E ++ [e']) := hL₁.add (e := e') hlev hnet hfree hne
  have hrid : r.innerJobId ∈ s₁.tables.jobs.map Job.innerJobId := by
    rw [ht₁]
    exact List.mem_map_of_mem hr
  have hjobnets := hlev.jobnets
  rw [ht₁] at hjobnets
  refine ⟨e, he, e', l, rows, ⟨hre, hl, rfl, rfl, hmdef, hfresh, ⟨_, hjobnets, rfl, rfl, rfl, rfl, rfl⟩,
    ?_, ?_, ?_⟩, ?_, hL₂.setInvo _⟩
  · rw [setInvo_jobs, hlev.jobs, ht₁]
  · intro x hx
    obtain ⟨jd', -, hin⟩ := forall₂_mem_right hlev.icons hx
    exact ⟨hin.1.net, hin.1.invo, fun hxe => hlev.fresh x hx (hxe ▸ hrid)⟩
  · intro i l hil
    refine hlev.oldLinks i l ?_
    rw [ht₁]
    exact hil
  · have := IsOcc.icon (hT.occ e he) hjd (htype.symm.trans hty)
      (by rw [key_of_mem_icons hjd, ← hjobId]; exact hname) hmdef
    rw [← hjobId] at this
    exact this

/-- Expanding a pending icon adds its occurrence to the tree. -/
theorem Tree.expand {d : Defs} {root : JobnetDef} {main : Id} {t t' : Tables} {E : List Occ} {r : Job}
    {e e' : Occ} {l : IconJobnet} {rows : List Job} (hT : Tree d root main t E)
    (hL : Levels d main t E) (hd : d.Keyed) (he : e ∈ E) (hr : r ∈ t.jobs) (hinvo : r.invoFlag = false)
    (hx : IconExpanded d main t t' r e e' l rows) (hocc : IsOcc d root e'.path e'.jn) :
    Tree d root main t' (E ++ [e']) := by
  obtain ⟨n, hn, hnid, hnmain, hnjob, hnname, hndate⟩ := hx.jobnets
  have hmem : ∀ x' ∈ t'.jobs, (∃ x ∈ t.jobs, x' = markInvo r.innerJobId x) ∨
      (x'.innerJobnetId = e'.net ∧ x'.invoFlag = false) := by
    intro x' hx'
    rw [hx.jobs] at hx'
    obtain ⟨x, hxm, rfl⟩ := List.mem_map.mp hx'
    rcases List.mem_append.mp hxm with hxm | hxm
    · exact .inl ⟨x, hxm, rfl⟩
    · obtain ⟨h1, h2, h3⟩ := hx.rows x hxm
      have : markInvo r.innerJobId x = x := by simp [markInvo, h3]
      rw [this]
      exact .inr ⟨h1, h2⟩
  have hold : ∀ x ∈ t.jobs, markInvo r.innerJobId x ∈ t'.jobs := fun x hxm => by
    rw [hx.jobs]
    exact List.mem_map_of_mem (List.mem_append_left _ hxm)
  have hnetE : ∀ x ∈ E, x.net ≠ e'.net := by
    intro x hxE hxe
    obtain ⟨n', hn', hnx⟩ := hT.net_mem hxE
    exact hx.fresh (List.mem_map.mpr ⟨n', hn', hnx.trans hxe⟩)
  have hnetJ : ∀ x ∈ t.jobs, x.innerJobnetId ≠ e'.net := by
    intro x hxm hxe
    obtain ⟨n', hn', hnx⟩ := hL.jobJobnet x hxm
    exact hx.fresh (List.mem_map.mpr ⟨n', hn', hnx.trans hxe⟩)
  refine ⟨?_, ?_, ?_, ?_, List.mem_append_left _ hT.root, ?_, ?_⟩
  · intro x hxE
    rcases List.mem_append.mp hxE with hxE | hxE
    · exact hT.occ x hxE
    · rw [List.mem_singleton.mp hxE]
      exact hocc
  · rw [List.map_append]
    refine List.nodup_append.mpr ⟨hT.paths, by simp, fun a ha b hb => ?_⟩
    obtain ⟨x, hxE, rfl⟩ := List.mem_map.mp ha
    simp only [List.map_cons, List.map_nil, List.mem_singleton] at hb
    rw [hb, hx.path]
    -- an occurrence on this path would have its icon expanded, and that icon is `r`
    intro hpath
    obtain ⟨p, hp, q, hq, hqn, hqi, hqp⟩ := hT.parent x hxE (by rw [hpath]; simp)
    rw [hpath] at hqp
    obtain ⟨hpe, hid⟩ := List.append_inj' hqp rfl
    have hep : p = e := List.inj_on_of_nodup_map hT.paths hp he hpe.symm
    subst hep
    have : r = q := hL.unique hd hT.net_nodup hp hr hq hx.parent hqn (List.cons.inj hid).1
    rw [this, hqi] at hinvo
    cases hinvo
  · rw [netsOfMain, hn, List.filter_append, List.map_append, List.map_append]
    have : ([n].filter fun n => n.innerJobnetMainId == main) = [n] := by simp [hnmain]
    rw [this]
    have hnets := hT.nets
    rw [netsOfMain] at hnets
    rw [hnets]
    simp [hnid, hnname, hndate]
  · rw [hn, List.map_append]
    refine List.nodup_append.mpr ⟨hT.netIds, by simp, fun a ha b hb => ?_⟩
    simp only [List.map_cons, List.map_nil, List.mem_singleton] at hb
    rw [hb, hnid]
    exact fun hab => hx.fresh (hab ▸ ha)
  · intro x hxE r' hr' hrx hty hinv l' hl'
    rcases hmem r' hr' with ⟨q, hq, rfl⟩ | ⟨-, hoff⟩
    · obtain ⟨hsid, hsnet, -, hsjob, hstype, -⟩ := markInvo_same r.innerJobId q
      rw [hsnet] at hrx
      rw [hsid] at hl'
      rw [hsid, hsjob]
      rw [hstype] at hty
      have hxE' : x ∈ E := by
        rcases List.mem_append.mp hxE with hxE | hxE
        · exact hxE
        · rw [List.mem_singleton.mp hxE] at hrx
          exact absurd hrx (hnetJ q hq)
      obtain ⟨l₀, hl₀, -⟩ := hL.links x hxE' q hq hrx hty
      have hll : l₀ = l' := by
        have := hx.oldLinks _ l₀ hl₀
        rw [hl'] at this
        exact (Option.some.inj this).symm
      subst hll
      by_cases hqr : q.innerJobId = r.innerJobId
      · -- the icon just expanded
        have hq' : q = r := List.inj_on_of_nodup_map hL.jobIds hq hr hqr
        subst hq'
        have hxe : x = e := List.inj_on_of_nodup_map hT.net_nodup hxE' he (hrx.symm.trans hx.parent)
        subst hxe
        rw [hx.link] at hl₀
        cases hl₀
        exact ⟨e', List.mem_append_right _ List.mem_cons_self, hx.path, hx.net, hx.def_, n,
          by rw [hn]; exact List.mem_append_right _ List.mem_cons_self, hnid, hnjob⟩
      · have hqi : q.invoFlag = true := by simpa [markInvo, hqr] using hinv
        obtain ⟨y, hy, h1, h2, h3, m, hm, h4, h5⟩ := hT.done x hxE' q hq hrx hty hqi l₀ hl₀
        exact ⟨y, List.mem_append_left _ hy, h1, h2, h3, m,
          by rw [hn]; exact List.mem_append_left _ hm, h4, h5⟩
    · rw [hoff] at hinv
      cases hinv
  · intro x hxE hne
    rcases List.mem_append.mp hxE with hxE | hxE
    · obtain ⟨p, hp, q, hq, hqn, hqi, hqp⟩ := hT.parent x hxE hne
      obtain ⟨-, hsnet, -, hsjob, -, -⟩ := markInvo_same r.innerJobId q
      refine ⟨p, List.mem_append_left _ hp, _, hold q hq, hsnet.trans hqn, ?_, by rw [hsjob]; exact hqp⟩
      unfold markInvo
      split
      · rfl
      · exact hqi
    · rw [List.mem_singleton.mp hxE]
      obtain ⟨-, hsnet, -, hsjob, -, -⟩ := markInvo_same r.innerJobId r
      refine ⟨e, List.mem_append_left _ he, _, hold r hr, hsnet.trans hx.parent, ?_, by rw [hsjob]; exact hx.path⟩
      simp [markInvo]

/-! ## The scan loop -/

/-- The run tables hold the occurrences `E` and nothing else of the instance. -/
structure Expanded (d : Defs) (root : JobnetDef) (main : Id) (t : Tables) (E : List Occ) : Prop where
  levels : Levels d main t E
  tree : Tree d root main t E

/-- Icon `i` is in the scan and not expanded yet. -/
def Pending (main : Id) (t : Tables) (i : Id) : Prop :=
  ∃ r ∈ t.jobs, r.innerJobId = i ∧ r.innerJobnetMainId = main ∧ r.jobType = .jobnet ∧ r.invoFlag = false

theorem Expanded.expandIcon {d : Defs} {root : JobnetDef} {main : Id} {rt : RunType} {s s' : Loader}
    {E : List Occ} (h : Expanded d root main s.tables E) (hd : d.Keyed) {i : Id}
    (hi : Pending main s.tables i) (hs : s.expandIcon d main rt i = some s') :
    (∃ E', Expanded d root main s'.tables E') ∧
      ∀ k, k ≠ i → Pending main s.tables k → Pending main s'.tables k := by
  obtain ⟨r, hr, rfl, hm, hty, hinvo⟩ := hi
  obtain ⟨e, he, e', l, rows, hx, hocc, hL⟩ := expandIcon_levels h.levels h.tree hr hm hty hs
  refine ⟨⟨_, hL, h.tree.expand h.levels hd he hr hinvo hx hocc⟩, ?_⟩
  rintro k hk ⟨q, hq, rfl, hqm, hqt, hqi⟩
  have hsame : markInvo r.innerJobId q = q := by simp [markInvo, hk]
  refine ⟨q, ?_, rfl, hqm, hqt, hqi⟩
  rw [hx.jobs]
  exact List.mem_map.mpr ⟨q, List.mem_append_left _ hq, hsame⟩

/-- One scan keeps the invariant. -/
theorem Expanded.scan {d : Defs} {root : JobnetDef} {main : Id} {rt : RunType} (hd : d.Keyed) :
    ∀ {ids : List Id} {s s' : Loader} {E : List Occ}, Expanded d root main s.tables E → ids.Nodup →
      (∀ i ∈ ids, Pending main s.tables i) → ids.foldlM (Loader.expandIcon d main rt) s = some s' →
      ∃ E', Expanded d root main s'.tables E'
  | [], s, s', E, h, _, _, hs => by
    cases hs
    exact ⟨E, h⟩
  | i :: ids, s, s', E, h, hnd, hp, hs => by
    simp only [List.foldlM_cons, Option.bind_eq_bind, Option.bind_eq_some_iff] at hs
    obtain ⟨s₁, h₁, h₂⟩ := hs
    rw [List.nodup_cons] at hnd
    obtain ⟨⟨E₁, hE₁⟩, hkeep⟩ := h.expandIcon hd (hp i List.mem_cons_self) h₁
    refine scan hd hE₁ hnd.2 (fun k hk => ?_) h₂
    exact hkeep k (fun e => hnd.1 (e ▸ hk)) (hp k (List.mem_cons_of_mem _ hk))

theorem mem_pending {s : Loader} {main i : Id} : i ∈ s.pending main ↔ Pending main s.tables i := by
  simp only [Loader.pending, List.mem_map, List.mem_filter, Bool.and_eq_true, beq_iff_eq,
    Bool.not_eq_eq_eq_not, Bool.not_true]
  constructor
  · rintro ⟨r, ⟨hr, ⟨hm, ht⟩, hi⟩, rfl⟩
    exact ⟨r, hr, rfl, hm, ht, hi⟩
  · rintro ⟨r, hr, rfl, hm, ht, hi⟩
    exact ⟨r, ⟨hr, ⟨hm, ht⟩, hi⟩, rfl⟩

theorem Expanded.loop {d : Defs} {root : JobnetDef} {main : Id} {rt : RunType} (hd : d.Keyed) :
    ∀ {fuel : Nat} {s s' : Loader} {E : List Occ}, Expanded d root main s.tables E →
      Loader.loadSubJobnetDefinition d main rt fuel s = some (some s') →
      (∃ E', Expanded d root main s'.tables E') ∧ s'.pending main = []
  | 0, _, _, _, _, hs => by cases hs
  | fuel + 1, s, s', E, h, hs => by
    rw [Loader.loadSubJobnetDefinition] at hs
    split at hs
    · rename_i hnil
      cases hs
      exact ⟨⟨E, h⟩, hnil⟩
    · split at hs
      · cases hs
      · rename_i s₁ hfold
        have hnd : (s.pending main).Nodup := (List.filter_sublist.map _).nodup h.levels.jobIds
        obtain ⟨E₁, hE₁⟩ := scan hd h hnd (fun i hi => mem_pending.mp hi) hfold
        exact loop hd hE₁ hs

/-! ## The result -/

/-- The run tables of the instance are the unfolding tree `E` of `root`. -/
structure Unfolded (d : Defs) (root : JobnetDef) (main : Id) (t : Tables) (E : List Occ) : Prop where
  /-- `E` lists every occurrence once; the root is the main jobnet -/
  main_ : ⟨[], root, main⟩ ∈ E
  occ : ∀ p n, IsOcc d root p n ↔ ∃ e ∈ E, e.path = p ∧ e.jn = n
  paths : (E.map Occ.path).Nodup
  /-- one run jobnet per occurrence, with distinct ids -/
  nets : (netsOfMain t main).map (fun n => (n.innerJobnetId, n.jobnetId, n.updateDate)) =
    E.map fun e => (e.net, e.jn.jobnetId, e.jn.updateDate)
  netIds : (E.map Occ.net).Nodup
  /-- one run job per icon of each occurrence, with distinct ids -/
  jobs : (jobsOfMain t main).map jobKey = E.flatMap fun e => (d.iconsOf e.jn).map (iconKey d e.net)
  jobIds : ((jobsOfMain t main).map Job.innerJobId).Nodup
  /-- every jobnet icon is expanded, and linked to the jobnet of its own occurrence -/
  invo : ∀ r ∈ jobsOfMain t main, r.jobType = .jobnet → r.invoFlag = true ∧
    ∃ e ∈ E, r.innerJobnetId = e.net ∧ ∃ e' ∈ E, e'.path = e.path ++ [r.jobId] ∧
      ∃ l, t.iconJobnet? r.innerJobId = some l ∧ l.linkInnerJobnetId = e'.net ∧
      ∃ n ∈ t.jobnets, n.innerJobnetId = e'.net ∧ n.innerJobId = r.innerJobId
  /-- the run flows of an occurrence are its flows, between jobs of the same run jobnet -/
  flows : ∀ e ∈ E, List.Forall₂ (Loader.FlowOf (jobsOfMain t main) e.net)
    (d.flowsOf e.jn.jobnetId e.jn.updateDate) (t.flows.filter fun f => f.innerJobnetId == e.net)
  boot : ∀ r ∈ jobsOfMain t main,
    r.bootCount = (t.flows.filter fun f => f.endInnerJobId == r.innerJobId).length

theorem forall₂_filter_length {α β : Type*} {R : α → β → Prop} {p : α → Bool} {q : β → Bool} {l : List α}
    {l' : List β} (h : List.Forall₂ R l l') (hpq : ∀ a b, R a b → p a = q b) :
    (l.filter p).length = (l'.filter q).length := by
  induction h with
  | nil => rfl
  | cons hr _ ih =>
    simp only [List.filter_cons, hpq _ _ hr]
    split <;> simp [ih]

theorem Expanded.boot {d : Defs} {root : JobnetDef} {main : Id} {t : Tables} {E : List Occ}
    (h : Expanded d root main t E) (hd : d.Keyed) {r : Job} (hr : r ∈ jobsOfMain t main) :
    r.bootCount = (t.flows.filter fun f => f.endInnerJobId == r.innerJobId).length := by
  have hrj : r ∈ t.jobs := (List.mem_filter.mp hr).1
  have hrm : r.innerJobnetMainId = main := by simpa using (List.mem_filter.mp hr).2
  obtain ⟨e, he, jd, hjd, hkey⟩ := h.levels.icon_of_job hrj hrm
  simp only [jobKey, iconKey, Prod.mk.injEq] at hkey
  obtain ⟨hre, hjobId, -, hboot, -⟩ := hkey
  have hnet : t.flows.filter (fun f => f.endInnerJobId == r.innerJobId) =
      (t.flows.filter fun f => f.innerJobnetId == e.net).filter fun f =>
        f.endInnerJobId == r.innerJobId := by
    rw [List.filter_filter]
    refine List.filter_congr fun f hf => ?_
    by_cases hfe : f.endInnerJobId = r.innerJobId
    · obtain ⟨-, b, hb, hb1, hb2⟩ := h.levels.flowEnds f hf
      have hbr : b = r := List.inj_on_of_nodup_map h.levels.jobIds hb hrj (hb1.trans hfe)
      subst hbr
      simp [hfe, ← hb2, hre]
    · simp [hfe]
  have hk := key_of_mem_icons hjd
  rw [hboot, Loader.getBootCount, hnet, show jd.key.jobnetId = e.jn.jobnetId from congrArg DefKey.jobnetId hk,
    show jd.key.updateDate = e.jn.updateDate from congrArg DefKey.updateDate hk]
  refine forall₂_filter_length (h.levels.flows e he) fun fd f hf => ?_
  obtain ⟨b, hb, hb1, hb2, hb3⟩ := hf.stop
  rw [Bool.eq_iff_iff, beq_iff_eq, beq_iff_eq, ← hb2, ← hb3, ← hjobId]
  constructor
  · intro hid
    rw [h.levels.unique hd h.tree.net_nodup he hb hrj hb1 hre hid]
  · intro hid
    rw [List.inj_on_of_nodup_map h.levels.jobIds hb hrj hid]

theorem Expanded.unfolded {d : Defs} {root : JobnetDef} {main : Id} {s : Loader} {E : List Occ}
    (h : Expanded d root main s.tables E) (hd : d.Keyed) (hp : s.pending main = []) :
    Unfolded d root main s.tables E := by
  have hinvo : ∀ r ∈ jobsOfMain s.tables main, r.jobType = .jobnet → r.invoFlag = true := by
    intro r hr hty
    by_contra hoff
    have : r.innerJobId ∈ s.pending main := mem_pending.mpr
      ⟨r, (List.mem_filter.mp hr).1, rfl, by simpa using (List.mem_filter.mp hr).2, hty, by simpa using hoff⟩
    rw [hp] at this
    cases this
  have hmain : ∀ r ∈ s.tables.jobs, ∀ e ∈ E, r.innerJobnetId = e.net → r ∈ jobsOfMain s.tables main :=
    fun r hr e he hre => by simp [jobsOfMain, hr, h.levels.ofMain r hr e he hre]
  refine ⟨h.tree.root, ?_, h.tree.paths, h.tree.nets, h.tree.net_nodup, h.levels.jobs,
    (List.filter_sublist.map _).nodup h.levels.jobIds, ?_, ?_, fun r hr => h.boot hd hr⟩
  · intro p n
    constructor
    · intro hocc
      induction hocc with
      | root => exact ⟨_, h.tree.root, rfl, rfl⟩
      | @icon p n m jd name _ hjd hty hname hvalid ih =>
        obtain ⟨e, he, rfl, rfl⟩ := ih
        -- the run job of the icon
        have hmem : iconKey d e.net jd ∈ (jobsOfMain s.tables main).map jobKey := by
          rw [h.levels.jobs]
          exact List.mem_flatMap.mpr ⟨e, he, List.mem_map_of_mem hjd⟩
        obtain ⟨r, hr, hkey⟩ := List.mem_map.mp hmem
        simp only [jobKey, iconKey, Prod.mk.injEq] at hkey
        obtain ⟨hre, hjobId, htype, -⟩ := hkey
        have hrj := (List.mem_filter.mp hr).1
        have hrt : r.jobType = .jobnet := htype.trans hty
        obtain ⟨l, hl, hlname⟩ := h.levels.links e he r hrj hre hrt
        rw [hjobId, ← key_of_mem_icons hjd, hname] at hlname
        obtain ⟨e', he', hpath, -, hdef, -⟩ := h.tree.done e he r hrj hre hrt (hinvo r hr hrt) l hl
        rw [← Option.some.inj hlname, hvalid] at hdef
        exact ⟨e', he', by rw [hpath, hjobId], (Option.some.inj hdef).symm⟩
    · rintro ⟨e, he, rfl, rfl⟩
      exact h.tree.occ e he
  · intro r hr hty
    have hrj := (List.mem_filter.mp hr).1
    obtain ⟨e, he, jd, -, hkey⟩ := h.levels.icon_of_job hrj (by simpa using (List.mem_filter.mp hr).2)
    have hre : r.innerJobnetId = e.net := (Prod.mk.inj hkey).1
    obtain ⟨l, hl, -⟩ := h.levels.links e he r hrj hre hty
    obtain ⟨e', he', hpath, hnet, -, n, hn, hn1, hn2⟩ :=
      h.tree.done e he r hrj hre hty (hinvo r hr hty) l hl
    exact ⟨hinvo r hr hty, e, he, hre, e', he', hpath, l, hl, hnet.symm, n, hn, hn1, hn2⟩
  · intro e he
    refine (h.levels.flows e he).imp fun fd f hf => ?_
    obtain ⟨h1, h2, ⟨a, ha, ha1, ha2, ha3⟩, ⟨b, hb, hb1, hb2, hb3⟩⟩ := hf
    exact ⟨h1, h2, ⟨a, hmain a ha e he ha1, ha1, ha2, ha3⟩, ⟨b, hmain b hb e he hb1, hb1, hb2, hb3⟩⟩

/-! ## Termination -/

namespace Defs

/-- The valid version of jobnet `a` has a jobnet icon that refers to `b`. -/
def Refers (d : Defs) (a b : String) : Prop :=
  ∃ n, d.valid a = some n ∧ ∃ jd ∈ d.iconsOf n, jd.jobType = .jobnet ∧ d.linkOf jd.key = some b

def Acyclic (d : Defs) : Prop := ∀ a, ¬Relation.TransGen d.Refers a a

/-- Every jobnet some icon refers to. -/
def referred (d : Defs) : Finset String := (d.iconJobnets.map Prod.snd).toFinset

open Classical in
/-- How many jobnets `a` unfolds to, at most: those it refers to, directly
or through others. -/
noncomputable def height (d : Defs) (a : String) : Nat :=
  (d.referred.filter fun b => Relation.TransGen d.Refers a b).card

theorem Refers.mem_referred {d : Defs} {a b : String} (h : d.Refers a b) : b ∈ d.referred := by
  obtain ⟨_, _, jd, _, _, hl⟩ := h
  unfold linkOf at hl
  split at hl
  · rename_i k name hf
    cases hl
    have hmem : (k, b) ∈ d.iconJobnets.filter fun x => x.1 == jd.key := by rw [hf]; simp
    rw [referred, List.mem_toFinset]
    exact List.mem_map.mpr ⟨(k, b), (List.mem_filter.mp hmem).1, rfl⟩
  · cases hl

open Classical in
theorem height_le (d : Defs) (a : String) : d.height a ≤ d.referred.card :=
  Finset.card_le_card (Finset.filter_subset _ _)

open Classical in
theorem Refers.height_lt {d : Defs} (hac : d.Acyclic) {a b : String} (h : d.Refers a b) :
    d.height b < d.height a := by
  refine Finset.card_lt_card ⟨fun c hc => ?_, fun hsub => ?_⟩
  · simp only [Finset.mem_filter] at hc ⊢
    exact ⟨hc.1, .head h hc.2⟩
  · have hb := hsub (Finset.mem_filter.mpr ⟨h.mem_referred, .single h⟩)
    exact hac b (Finset.mem_filter.mp hb).2

end Defs

/-- The icons pending after an expansion: those pending before, less the
expanded one, and icons of the jobnet it refers to. -/
theorem Expanded.pending_expandIcon {d : Defs} {root : JobnetDef} {main : Id} {rt : RunType}
    {s s' : Loader} {E : List Occ} (h : Expanded d root main s.tables E) (hd : d.Keyed) {i : Id}
    (hi : Pending main s.tables i) (hs : s.expandIcon d main rt i = some s') :
    (∀ k, Pending main s'.tables k → (Pending main s.tables k ∧ k ≠ i) ∨
      ∃ l l', s.tables.iconJobnet? i = some l ∧ s'.tables.iconJobnet? k = some l' ∧
        d.Refers l.linkJobnetId l'.linkJobnetId) ∧
      ∀ k l, s.tables.iconJobnet? k = some l → s'.tables.iconJobnet? k = some l := by
  obtain ⟨r, hr, rfl, hm, hty, hinvo⟩ := hi
  obtain ⟨e, he, e', l, rows, hx, hocc, hL⟩ := expandIcon_levels h.levels h.tree hr hm hty hs
  have hT := h.tree.expand h.levels hd he hr hinvo hx hocc
  refine ⟨?_, hx.oldLinks⟩
  rintro k ⟨q, hq, rfl, hqm, hqt, hqi⟩
  have hq' := hq
  rw [hx.jobs] at hq'
  obtain ⟨x, hxm, hxq⟩ := List.mem_map.mp hq'
  rcases List.mem_append.mp hxm with hxm | hxm
  · refine .inl ?_
    by_cases hxr : x.innerJobId = r.innerJobId
    · rw [← hxq] at hqi
      simp [markInvo, hxr] at hqi
    · have hsame : markInvo r.innerJobId x = x := by simp [markInvo, hxr]
      rw [hsame] at hxq
      subst hxq
      exact ⟨⟨x, hxm, rfl, hqm, hqt, hqi⟩, hxr⟩
  · refine .inr ?_
    obtain ⟨hnet, -, hne⟩ := hx.rows x hxm
    have hsame : markInvo r.innerJobId x = x := by simp [markInvo, hne]
    rw [hsame] at hxq
    subst hxq
    have he' : e' ∈ E ++ [e'] := List.mem_append_right _ List.mem_cons_self
    obtain ⟨l', hl', hname⟩ := hL.links e' he' x hq hnet hqt
    obtain ⟨e₂, he₂, jd, hjd, hkey⟩ := hL.icon_of_job hq hqm
    simp only [jobKey, iconKey, Prod.mk.injEq] at hkey
    have hee : e₂ = e' := List.inj_on_of_nodup_map hT.net_nodup he₂ he' (hkey.1.symm.trans hnet)
    subst hee
    refine ⟨l, l', hx.link, hl', e₂.jn, hx.def_, jd, hjd, hkey.2.2.1.symm.trans hqt, ?_⟩
    rw [key_of_mem_icons hjd, ← hkey.2.1]
    exact hname

/-- Every pending icon refers to a jobnet of height below `b`. -/
def Below (d : Defs) (b : Nat) (s : Loader) (i : Id) : Prop :=
  ∀ l, s.tables.iconJobnet? i = some l → d.height l.linkJobnetId < b

/-- A pending icon has its link row. -/
theorem Expanded.link {d : Defs} {root : JobnetDef} {main : Id} {t : Tables} {E : List Occ}
    (h : Expanded d root main t E) {i : Id} (hi : Pending main t i) : ∃ l, t.iconJobnet? i = some l := by
  obtain ⟨r, hr, rfl, hm, hty, -⟩ := hi
  obtain ⟨e, he, _, _, hkey⟩ := h.levels.icon_of_job hr hm
  obtain ⟨l, hl, -⟩ := h.levels.links e he r hr (Prod.mk.inj hkey).1 hty
  exact ⟨l, hl⟩

/-- A scan lowers the height of what is pending. -/
theorem Expanded.scan_below {d : Defs} {root : JobnetDef} {main : Id} {rt : RunType} (hd : d.Keyed)
    (hac : d.Acyclic) {b : Nat} :
    ∀ {ids : List Id} {s s' : Loader} {E : List Occ}, Expanded d root main s.tables E → ids.Nodup →
      (∀ i ∈ ids, Pending main s.tables i) →
      (∀ k, Pending main s.tables k → (k ∈ ids ∧ Below d (b + 1) s k) ∨ Below d b s k) →
      ids.foldlM (Loader.expandIcon d main rt) s = some s' →
      ∀ k, Pending main s'.tables k → Below d b s' k
  | [], s, s', E, _, _, _, hb, hs => by
    cases hs
    intro k hk
    exact (hb k hk).resolve_left fun h => by simp at h
  | i :: ids, s, s', E, h, hnd, hp, hb, hs => by
    simp only [List.foldlM_cons, Option.bind_eq_bind, Option.bind_eq_some_iff] at hs
    obtain ⟨s₁, h₁, h₂⟩ := hs
    rw [List.nodup_cons] at hnd
    have hpi := hp i List.mem_cons_self
    obtain ⟨⟨E₁, hE₁⟩, hkeep⟩ := h.expandIcon hd hpi h₁
    obtain ⟨hpend, hlinks⟩ := h.pending_expandIcon hd hpi h₁
    have hold : ∀ c k, Pending main s.tables k → Below d c s k → Below d c s₁ k := by
      intro c k hk hbk l hl
      obtain ⟨l₀, hl₀⟩ := h.link hk
      rw [hlinks k l₀ hl₀, Option.some.injEq] at hl
      exact hl ▸ hbk l₀ hl₀
    refine scan_below hd hac hE₁ hnd.2 (fun k hk => ?_) (fun k hk => ?_) h₂
    · exact hkeep k (fun e => hnd.1 (e ▸ hk)) (hp k (List.mem_cons_of_mem _ hk))
    · rcases hpend k hk with ⟨hks, hki⟩ | ⟨l, l', hl, hl', href⟩
      · rcases hb k hks with ⟨hmem, hbk⟩ | hbk
        · exact .inl ⟨(List.mem_cons.mp hmem).resolve_left hki, hold _ k hks hbk⟩
        · exact .inr (hold _ k hks hbk)
      · refine .inr fun l'' hl'' => ?_
        rw [hl'] at hl''
        cases hl''
        have hlt := href.height_lt hac
        have hle : d.height l.linkJobnetId < b + 1 := by
          rcases hb i hpi with ⟨-, hbi⟩ | hbi
          · exact hbi l hl
          · exact Nat.lt_succ_of_lt (hbi l hl)
        omega

theorem Expanded.terminates {d : Defs} {root : JobnetDef} {main : Id} {rt : RunType} (hd : d.Keyed)
    (hac : d.Acyclic) :
    ∀ {b : Nat} {s : Loader} {E : List Occ}, Expanded d root main s.tables E →
      (∀ k, Pending main s.tables k → Below d b s k) →
      (Loader.loadSubJobnetDefinition d main rt (b + 1) s).isSome
  | b, s, E, h, hb => by
    rw [Loader.loadSubJobnetDefinition]
    split
    · rfl
    · rename_i ids hne
      split
      · rfl
      · rename_i s₁ hfold
        have hnd : (s.pending main).Nodup := (List.filter_sublist.map _).nodup h.levels.jobIds
        have hp : ∀ i ∈ s.pending main, Pending main s.tables i := fun i hi => mem_pending.mp hi
        cases b with
        | zero =>
          -- a pending icon would refer to a jobnet of negative height
          obtain ⟨i, hi⟩ := List.exists_mem_of_ne_nil _ hne
          obtain ⟨l, hl⟩ := h.link (hp i hi)
          exact absurd (hb i (hp i hi) l hl) (Nat.not_lt_zero _)
        | succ b =>
          obtain ⟨E₁, hE₁⟩ := h.scan hd hnd hp hfold
          refine terminates hd hac hE₁ (h.scan_below hd hac hnd hp (fun k hk => ?_) hfold)
          exact .inl ⟨mem_pending.mpr hk, hb k hk⟩

/-! ## A whole load -/

/-- The tables when the instance `main` of `root` is about to be loaded: its
jobnet row is inserted, and nothing else of it is there. The other fields
are the keys of the schema, and that stored flows connect stored jobs of
their own jobnet. -/
structure LoadStart (t : Tables) (root : JobnetDef) (main : Id) : Prop where
  nets : (netsOfMain t main).map (fun n => (n.innerJobnetId, n.jobnetId, n.updateDate)) =
    [(main, root.jobnetId, root.updateDate)]
  noJobs : ∀ j ∈ t.jobs, j.innerJobnetMainId ≠ main ∧ j.innerJobnetId ≠ main
  netIds : (t.jobnets.map Jobnet.innerJobnetId).Nodup
  jobIds : (t.jobs.map Job.innerJobId).Nodup
  flowIds : (t.flows.map Flow.innerFlowId).Nodup
  jobJobnet : ∀ j ∈ t.jobs, ∃ n ∈ t.jobnets, n.innerJobnetId = j.innerJobnetId
  flowEnds : ∀ f ∈ t.flows,
    (∃ a ∈ t.jobs, a.innerJobId = f.startInnerJobId ∧ a.innerJobnetId = f.innerJobnetId) ∧
      ∃ b ∈ t.jobs, b.innerJobId = f.endInnerJobId ∧ b.innerJobnetId = f.innerJobnetId

/-- The root level. -/
theorem LoadStart.expanded {d : Defs} {root : JobnetDef} {main : Id} {test : Bool} {rt : RunType}
    {s s₁ : Loader} (h : LoadStart s.tables root main)
    (hs : s.loadJobDefinition d main main root.jobnetId root.updateDate test rt = some s₁) :
    Expanded d root main s₁.tables [⟨[], root, main⟩] := by
  obtain ⟨rows, fl, hlev⟩ := Loader.loadJobDefinition_level hs
  have hL₀ : Levels d main s.tables [] := by
    refine ⟨?_, h.jobIds, h.jobJobnet, by simp, h.flowEnds, by simp, h.flowIds, by simp⟩
    have : jobsOfMain s.tables main = [] :=
      List.filter_eq_nil_iff.mpr fun j hj => by simpa using (h.noJobs j hj).1
    rw [this]
    rfl
  have hnet : ∃ n ∈ s.tables.jobnets, n.innerJobnetId = main := by
    have hmem : (main, root.jobnetId, root.updateDate) ∈
        (netsOfMain s.tables main).map fun n => (n.innerJobnetId, n.jobnetId, n.updateDate) := by
      rw [h.nets]
      exact List.mem_cons_self
    obtain ⟨n, hn, heq⟩ := List.mem_map.mp hmem
    exact ⟨n, (List.mem_filter.mp hn).1, (Prod.mk.inj heq).1⟩
  refine ⟨hL₀.add (e := ⟨[], root, main⟩) hlev hnet (fun j hj => (h.noJobs j hj).2) (by simp), ?_⟩
  refine ⟨?_, by simp, ?_, ?_, by simp, ?_, ?_⟩
  · intro e he
    rw [List.mem_singleton.mp he]
    exact .root
  · rw [netsOfMain, hlev.jobnets]
    exact h.nets
  · rw [hlev.jobnets]
    exact h.netIds
  · intro e he r hr hre hty hinvo
    rw [List.mem_singleton.mp he] at hre
    rw [hlev.jobs] at hr
    rcases List.mem_append.mp hr with hr | hr
    · exact absurd hre (h.noJobs r hr).2
    · obtain ⟨jd, -, hin⟩ := forall₂_mem_right hlev.icons hr
      rw [hin.1.invo] at hinvo
      cases hinvo
  · intro e he hne
    rw [List.mem_singleton.mp he] at hne
    exact absurd rfl hne

/-- **Expansion is the exact unfolding.** For acyclic definitions the load
of the sub-jobnets returns, and whenever it returns `SUCCEED` the run
tables of the instance are the unfolding tree of the root. -/
theorem load_unfolds (d : Defs) (root : JobnetDef) (main : Id) (test : Bool) (rt rt' : RunType)
    (s s₁ : Loader) (hd : d.Keyed) (hac : d.Acyclic) (hstart : LoadStart s.tables root main)
    (hs : s.loadJobDefinition d main main root.jobnetId root.updateDate test rt = some s₁) :
    (∃ fuel, (Loader.loadSubJobnetDefinition d main rt' fuel s₁).isSome) ∧
      ∀ fuel s₂, Loader.loadSubJobnetDefinition d main rt' fuel s₁ = some (some s₂) →
        ∃ E, Unfolded d root main s₂.tables E := by
  have hE := hstart.expanded hs
  refine ⟨⟨d.referred.card + 1 + 1, ?_⟩, fun fuel s₂ h => ?_⟩
  · refine hE.terminates hd hac fun k _ l _ => ?_
    exact Nat.lt_succ_of_le (d.height_le _)
  · obtain ⟨⟨E, hE'⟩, hp⟩ := hE.loop hd h
    exact ⟨E, hE'.unfolded hd hp⟩

/-- `NET` refers to `SUB` twice; both have a start and an end icon. -/
def shareDefs : Defs where
  jobnets := [⟨"NET", 1, true, "user", "NET", .on⟩, ⟨"SUB", 1, true, "user", "SUB", .on⟩]
  jobs := [⟨⟨"NET", "START", 1⟩, .startIcon, .normal, false⟩, ⟨⟨"NET", "A", 1⟩, .jobnet, .normal, false⟩,
    ⟨⟨"NET", "B", 1⟩, .jobnet, .normal, false⟩, ⟨⟨"NET", "END", 1⟩, .endIcon, .normal, false⟩,
    ⟨⟨"SUB", "START", 1⟩, .startIcon, .normal, false⟩, ⟨⟨"SUB", "END", 1⟩, .endIcon, .normal, false⟩]
  flows := [⟨"NET", "START", "A", 1, .normal⟩, ⟨"NET", "START", "B", 1, .normal⟩,
    ⟨"NET", "A", "END", 1, .normal⟩, ⟨"NET", "B", "END", 1, .normal⟩, ⟨"SUB", "START", "END", 1, .normal⟩]
  iconJobnets := [(⟨"NET", "A", 1⟩, "SUB"), (⟨"NET", "B", 1⟩, "SUB")]
  iconEnds := [(⟨"NET", "END", 1⟩, false), (⟨"SUB", "END", 1⟩, false)]
  iconAgentless := []
  icons := []
  jobCommands := []

def shareRoot : JobnetDef := ⟨"NET", 1, true, "user", "NET", .on⟩

/-- Instance 7 of `NET`, before its icons are loaded. -/
def shareStart : Loader where
  tables := { Tables.empty with
    jobnets := [⟨7, 7, 0, 1, .normal, true, false, .begin, 0, .on, "NET", "NET", "user"⟩] }
  nextid := fun c => match c with
    | .jobnetLd => some 8
    | _ => some 1

theorem shareDefs_refers {a b : String} (h : shareDefs.Refers a b) : a = "NET" ∧ b = "SUB" := by
  obtain ⟨n, hn, jd, hjd, hty, hl⟩ := h
  have hname : n.jobnetId = a := by
    have := List.find?_some hn
    simp only [Bool.and_eq_true, beq_iff_eq] at this
    exact this.1
  obtain ⟨hmem, hkey⟩ := List.mem_filter.mp hjd
  simp only [Bool.and_eq_true, beq_iff_eq] at hkey
  have hicon : jd.key = ⟨"NET", "A", 1⟩ ∨ jd.key = ⟨"NET", "B", 1⟩ := by
    simp only [shareDefs, List.mem_cons, List.not_mem_nil, or_false] at hmem
    rcases hmem with rfl | rfl | rfl | rfl | rfl | rfl <;> simp_all
  rw [← hname, ← hkey.1]
  rcases hicon with hk | hk <;> rw [hk] at hl ⊢ <;> exact ⟨rfl, (Option.some.inj hl).symm⟩

theorem shareDefs_acyclic : shareDefs.Acyclic := by
  intro a h
  have hb : ∀ b, Relation.TransGen shareDefs.Refers a b → a = "NET" ∧ b = "SUB" := by
    intro b h
    induction h with
    | single h => exact shareDefs_refers h
    | tail _ h ih => exact ⟨ih.1, (shareDefs_refers h).2⟩
  obtain ⟨h1, h2⟩ := hb a h
  rw [h1] at h2
  exact absurd h2 (by decide)

theorem shareStart_loadStart : LoadStart shareStart.tables shareRoot 7 :=
  ⟨by decide, by decide, by decide, by decide, by decide, by simp [shareStart, Tables.empty],
    by simp [shareStart, Tables.empty]⟩

/-- The load of `NET` succeeds and is its unfolding, with two copies of `SUB`. -/
theorem load_unfolds_share : ∃ s₁ s₂ E,
    shareStart.loadJobDefinition shareDefs 7 7 "NET" 1 false .normal = some s₁ ∧
      Loader.loadSubJobnetDefinition shareDefs 7 .normal 2 s₁ = some (some s₂) ∧
      (netsOfMain s₂.tables 7).length = 3 ∧ Unfolded shareDefs shareRoot 7 s₂.tables E := by
  have hrun : ((shareStart.loadJobDefinition shareDefs 7 7 "NET" 1 false .normal).bind fun s₁ =>
      (Loader.loadSubJobnetDefinition shareDefs 7 .normal 2 s₁).bind fun r =>
        r.map fun s₂ => (netsOfMain s₂.tables 7).length) = some 3 := by decide +kernel
  simp only [Option.bind_eq_some_iff, Option.map_eq_some_iff] at hrun
  obtain ⟨s₁, h₁, r, h₂, s₂, rfl, h₃⟩ := hrun
  obtain ⟨E, hE⟩ := (load_unfolds shareDefs shareRoot 7 false .normal .normal shareStart s₁ (by decide)
    shareDefs_acyclic shareStart_loadStart h₁).2 2 s₂ h₂
  exact ⟨s₁, s₂, E, h₁, h₂, h₃, hE⟩

end JobArranger
