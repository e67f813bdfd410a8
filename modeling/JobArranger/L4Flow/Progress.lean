import JobArranger.Core.Propagate
import JobArranger.L4Flow.Join

/-!
# A jobnet does not get stuck

The icons of a jobnet wait for one another: an AND-join is READY when all its
incoming flows have fired, and these fire when the icons they come from
complete. In a jobnet without branches and loops nobody waits in a circle,
whatever the order of the completions and whatever other processes do to
single icons.

* `fires_reachable`: where every completion fires all its flows, no flow of a
  completed icon is missing.
* `join_progress`: behind every icon that has not completed there is one that
  can go on: another process has it, it is READY, or no flow leads to it.
-/
namespace JobArranger

open Tables

/-! ## The flows of a jobnet version -/

/-- A flow of the definition leads from icon `a` to icon `b`. -/
def Defs.Leads (d : Defs) (root : JobnetDef) (a b : String) : Prop :=
  ∃ fd ∈ d.flowsOf root.jobnetId root.updateDate, fd.startJobId = a ∧ fd.endJobId = b

theorem Defs.leads_wellFounded {d : Defs} {root : JobnetDef}
    (hacyc : ∀ x, ¬ Relation.TransGen (d.Leads root) x x) : WellFounded (d.Leads root) := by
  have hnodes : ∀ a b, d.Leads root a b → a ∈ (d.flowsOf root.jobnetId root.updateDate).map (·.startJobId) := by
    intro a b h
    obtain ⟨fd, hfd, ha, -⟩ := h
    exact List.mem_map.2 ⟨fd, hfd, ha⟩
  exact Propagate.wellFounded_of_acyclic hnodes hacyc

/-- No icon after which a branch is left out, or which a loop leads back to. -/
def Defs.Plain (d : Defs) (root : JobnetDef) : Prop :=
  ∀ jd ∈ d.iconsOf root, jd.jobType ≠ .ifend ∧ jd.jobType ≠ .l

/-! ## Completions that fire everything -/

/-- A completion of type NORMAL while the jobnet runs. -/
def FiresAll (s : JoinState) : JoinEvent → Prop
  | .complete i type _ => type = .normal ∧ (FlowOpen s.tables i ∨ flowsFrom s.tables i = [])
  | .touch _ _ => True
  | .jobnet _ _ => True

theorem firedBy_all {s : JoinState} {i : Id} {msg : Bool} (h : FiresAll s (.complete i .normal msg)) :
    firedBy s.tables i .normal = flowsFrom s.tables i := by
  unfold firedBy
  obtain ⟨-, hopen | hnil⟩ := h
  · rw [if_pos hopen, List.filter_eq_self]
    intro f _
    cases hf : f.flowType with
    | normal => simp [flowSelected]
    | onTrue => simp [flowSelected]
    | onFalse => simp [flowSelected]
  · rw [hnil]
    split
    · rfl
    · rfl

/-- Every flow of a completed icon has fired. -/
def AllFired (t₀ : Tables) (s : JoinState) : Prop :=
  ∀ f ∈ t₀.flows, f.startInnerJobId ∈ s.completed → f ∈ s.fired

theorem AllFired.step {t₀ : Tables} {net : Id} {s s' : JoinState} {e : JoinEvent} (hinv : JoinRunInv t₀ net s)
    (h : AllFired t₀ s) (hall : FiresAll s e) (hs : joinStep net s e = some s') : AllFired t₀ s' := by
  cases e with
  | complete i type msg =>
    obtain rfl : type = .normal := hall.1
    rw [joinStep] at hs
    split at hs
    · cases hs
    split at hs
    · cases hs
      exact h
    · cases hs
      intro f hf hstart
      rw [firedBy_all hall, List.mem_append]
      obtain rfl | hstart := List.mem_cons.1 hstart
      · right
        rw [flowsFrom, hinv.inv.flows]
        exact List.mem_filter.2 ⟨hf, by simp⟩
      · exact .inl (h f hf hstart)
  | touch i status =>
    cases hs
    exact h
  | jobnet n status =>
    cases hs
    exact h

theorem fires_reachable {t₀ : Tables} {net : Id} (hl : JoinLoaded t₀ net) {s : JoinState}
    (hr : ((joinLts t₀ net).restrict FiresAll).Reachable s) : JoinRunInv t₀ net s ∧ AllFired t₀ s := by
  have hind : ((joinLts t₀ net).restrict FiresAll).Inductive fun s => JoinRunInv t₀ net s ∧ AllFired t₀ s := by
    constructor
    · intro s hs
      refine ⟨joinRunInv_reachable hl s ⟨s, [], hs, .nil s⟩, ?_⟩
      obtain rfl : s = joinStart t₀ := hs
      intro f _ hf
      cases hf
    · intro s e s' h hs
      exact ⟨h.1.step hl hs.1, h.2.step h.1 hs.2 hs.1⟩
  exact hind.reachable s hr

/-! ## Waiting -/

/-- Flow by flow, from icon `i` to icon `k` of the run. -/
def FlowPath (flows : List Flow) : Id → Id → Prop :=
  Relation.ReflTransGen fun i k => ∃ f ∈ flows, f.startInnerJobId = i ∧ f.endInnerJobId = k

/-- An icon that does not wait for a flow. -/
def CanGoOn (flows : List Flow) (s : JoinState) (i : Id) : Prop :=
  i ∈ s.touched ∨ (∃ j, s.tables.job? i = some j ∧ j.status = .ready) ∨ into flows i = 0

/-- A join short of its flows misses one. -/
theorem exists_missing {all fired : List Flow} (hnd : all.Nodup) {k : Id} (h : into fired k < into all k) :
    ∃ f ∈ all, f.endInnerJobId = k ∧ f ∉ fired := by
  by_contra hno
  have hsub : all.filter (fun f => f.endInnerJobId == k) ⊆ fired.filter fun f => f.endInnerJobId == k := by
    intro f hf
    obtain ⟨hf, hk⟩ := List.mem_filter.1 hf
    refine List.mem_filter.2 ⟨?_, hk⟩
    by_contra hnot
    exact hno ⟨f, hf, by simpa using hk, hnot⟩
  have hle := ((hnd.filter _).subperm hsub).length_le
  exact absurd h (Nat.not_lt.2 hle)

/-- The flows of the root are copies of those of its definition. -/
theorem flow_of_root {d : Defs} {root : JobnetDef} {main : Id} {t : Tables} {E : List Occ}
    (h : Unfolded d root main t E) {f : Flow} (hf : f ∈ t.flows) (hnet : f.innerJobnetId = main) :
    ∃ fd ∈ d.flowsOf root.jobnetId root.updateDate, Loader.FlowOf (jobsOfMain t main) main fd f :=
  forall₂_mem_right (h.flows _ h.main_) (List.mem_filter.2 ⟨hf, by simpa using hnet⟩)

/-- The jobs of the root are copies of its icons. -/
theorem plain_of_root {d : Defs} {root : JobnetDef} {main : Id} {t : Tables} {E : List Occ}
    (h : Expanded d root main t E) (hplain : d.Plain root) {j : Job} (hj : j ∈ t.jobs)
    (hnet : j.innerJobnetId = main) : j.jobType ≠ .ifend ∧ j.jobType ≠ .l := by
  have hmain := h.levels.ofMain j hj _ h.tree.root hnet
  obtain ⟨e, he, jd, hjd, hkey⟩ := h.levels.icon_of_job hj hmain
  simp only [jobKey, iconKey, Prod.mk.injEq] at hkey
  have hroot : e = ⟨[], root, main⟩ :=
    List.inj_on_of_nodup_map h.tree.net_nodup he h.tree.root (hkey.1.symm.trans hnet)
  rw [hroot] at hjd
  rw [hkey.2.2.1]
  exact hplain jd hjd

/-- A row of the run has the icon name it was loaded with. -/
theorem loaded_jobId {t₀ t : Tables} (h : t.jobs.map Job.static = t₀.jobs.map Job.static) {k : Id} {j j₀ : Job}
    (hj : t.job? k = some j) (hj₀ : t₀.job? k = some j₀) : j.jobId = j₀.jobId := by
  have hst := job?_static h k
  rw [hj, hj₀, Option.map_some, Option.map_some, Option.some.injEq] at hst
  have hid := congrArg Job.jobId hst
  exact hid

section Waiting

variable {d : Defs} {root : JobnetDef} {main : Id} {t₀ : Tables} {E : List Occ}

/-- An icon that waits for flows misses one from an icon that has not
completed. -/
theorem waits_for (hE : Expanded d root main t₀ E) (hu : Unfolded d root main t₀ E) (hl : JoinLoaded t₀ main)
    (hplain : d.Plain root) {s : JoinState} (hinv : JoinRunInv t₀ main s) (hall : AllFired t₀ s) {k : Id} {j : Job}
    (hj : s.tables.job? k = some j) (hnet : j.innerJobnetId = main) (hwait : ¬ CanGoOn t₀.flows s k) :
    ∃ i a, s.tables.job? i = some a ∧ a.innerJobnetId = main ∧ i ∉ s.completed ∧
      d.Leads root a.jobId j.jobId ∧ ∃ f ∈ t₀.flows, f.startInnerJobId = i ∧ f.endInnerJobId = k := by
  simp only [CanGoOn, not_or, not_exists, not_and] at hwait
  obtain ⟨htouched, hready, hsome⟩ := hwait
  obtain ⟨j₀, hj₀, hsame⟩ := loaded_row hinv.inv.static hj
  have hnet₀ : j₀.innerJobnetId = main := hsame.jobnet.symm.trans hnet
  have htype := plain_of_root hE hplain (Table.lookup_mem hj₀).1 hnet₀
  have hun : Untouched main s.touched k j :=
    ⟨hnet, htouched, hsame.type ▸ htype.1, hsame.type ▸ htype.2⟩
  have hboot : j.bootCount = into t₀.flows k := by
    rw [hsame.boot]
    exact hl.boot k j₀ hj₀ hnet₀
  have hlaw := hinv.law hl hj hun (by omega)
  have hbegin : j.status = .begin := by
    have hst := (hinv.inv.joins k j hj hun).2
    unfold joinStatus at hst
    split at hst
    · exact hst
    · exact absurd hst (hready j hj)
  have hlt : into s.fired k < into t₀.flows k := by
    have := hlaw.begin.1 hbegin
    have := hlaw.count
    omega
  obtain ⟨f, hf, hfk, hmissing⟩ := exists_missing hl.flows hlt
  obtain ⟨-, b, hb, hb1, hb2⟩ := hE.levels.flowEnds f hf
  have hbj : b = j₀ := List.inj_on_of_nodup_map hl.jobIds hb (Table.lookup_mem hj₀).1
    (hb1.trans (hfk.trans (Table.lookup_mem hj₀).2.symm))
  have hfnet : f.innerJobnetId = main := by
    rw [← hb2, hbj]
    exact hnet₀
  obtain ⟨fd, hfd, hflow⟩ := flow_of_root hu hf hfnet
  obtain ⟨a₀, ha₀, ha₀net, ha₀id, ha₀start⟩ := hflow.start
  obtain ⟨b₀, hb₀, -, hb₀id, hb₀end⟩ := hflow.stop
  have hbj₀ : b₀ = j₀ := List.inj_on_of_nodup_map hl.jobIds (List.mem_filter.1 hb₀).1 (Table.lookup_mem hj₀).1
    (hb₀end.trans (hfk.trans (Table.lookup_mem hj₀).2.symm))
  have ha₀row : t₀.job? f.startInnerJobId = some a₀ := by
    rw [← ha₀start]
    exact Table.lookup_eq hl.jobIds (List.mem_filter.1 ha₀).1
  obtain ⟨a, ha, hasame⟩ := loaded_row hinv.inv.static.symm ha₀row
  refine ⟨f.startInnerJobId, a, ha, hasame.jobnet.symm.trans ha₀net, ?_, ?_, f, hf, rfl, hfk⟩
  · exact fun hdone => hmissing (hall f hf hdone)
  · refine ⟨fd, hfd, ?_, ?_⟩
    · rw [← ha₀id]
      exact (loaded_jobId hinv.inv.static ha ha₀row).symm
    · rw [← hb₀id, hbj₀]
      exact (loaded_jobId hinv.inv.static hj hj₀).symm

end Waiting

/-- **Nobody waits in a circle.** In every run of a loaded jobnet without
branches, loops and cycles whose completions fire all their flows, there is
an icon behind every icon that has not completed, or the icon itself, that
has not completed either and does not wait for a flow. -/
theorem join_progress (d : Defs) (root : JobnetDef) (main : Id) (test : Bool) (rt rt' : RunType)
    (s s₁ s₂ : Loader) (fuel : Nat) (hd : d.Keyed) (hplain : d.Plain root)
    (hacyc : ∀ x, ¬ Relation.TransGen (d.Leads root) x x) (hstart : LoadStart s.tables root main)
    (hs₁ : s.loadJobDefinition d main main root.jobnetId root.updateDate test rt = some s₁)
    (hs₂ : Loader.loadSubJobnetDefinition d main rt' fuel s₁ = some (some s₂)) (st : JoinState)
    (hr : ((joinLts s₂.tables main).restrict FiresAll).Reachable st) {k : Id} {j : Job}
    (hj : st.tables.job? k = some j) (hnet : j.innerJobnetId = main) (hk : k ∉ st.completed) :
    ∃ i, FlowPath s₂.tables.flows i k ∧ i ∉ st.completed ∧ CanGoOn s₂.tables.flows st i := by
  obtain ⟨⟨E, hE⟩, hp⟩ := (hstart.expanded hs₁).loop hd hs₂
  have hl := hE.joinLoaded hd hp
  obtain ⟨hinv, hall⟩ := fires_reachable hl hr
  -- along the flows of the definition, from the icon backwards
  obtain ⟨x, hx⟩ : ∃ x, x = j.jobId := ⟨_, rfl⟩
  induction x using (Defs.leads_wellFounded hacyc).induction generalizing k j with
  | h x ih =>
    by_cases hgo : CanGoOn s₂.tables.flows st k
    · exact ⟨k, .refl, hk, hgo⟩
    · obtain ⟨i, a, ha, hanet, hi, hleads, hflow⟩ := waits_for hE (hE.unfolded hd hp) hl hplain hinv hall hj hnet hgo
      rw [← hx] at hleads
      obtain ⟨i', hpath, hi', hgo'⟩ := ih a.jobId hleads ha hanet hi rfl
      exact ⟨i', hpath.tail hflow, hi', hgo'⟩

theorem join_progress_share : ∃ s₁ s₂,
    shareStart.loadJobDefinition shareDefs 7 7 "NET" 1 false .normal = some s₁ ∧
      Loader.loadSubJobnetDefinition shareDefs 7 .normal 2 s₁ = some (some s₂) ∧
      ∀ k j, (joinStart s₂.tables).tables.job? k = some j → j.innerJobnetId = 7 →
        ∃ i, FlowPath s₂.tables.flows i k ∧ i ∉ (joinStart s₂.tables).completed ∧
          CanGoOn s₂.tables.flows (joinStart s₂.tables) i := by
  have hrun : ((shareStart.loadJobDefinition shareDefs 7 7 "NET" 1 false .normal).bind fun s₁ =>
      (Loader.loadSubJobnetDefinition shareDefs 7 .normal 2 s₁).bind fun r => r.map fun _ => true) =
      some true := by decide +kernel
  simp only [Option.bind_eq_some_iff, Option.map_eq_some_iff] at hrun
  obtain ⟨s₁, h₁, r, h₂, s₂, rfl, -⟩ := hrun
  have hplain : shareDefs.Plain shareRoot := by
    unfold Defs.Plain
    decide
  -- every flow leads to an icon of a higher rank
  have hrank : ∀ a b, shareDefs.Leads shareRoot a b →
      ["START", "A", "B", "END"].idxOf a < ["START", "A", "B", "END"].idxOf b := by
    intro a b h
    obtain ⟨fd, hfd, rfl, rfl⟩ := h
    revert fd
    decide
  have hacyc : ∀ x, ¬ Relation.TransGen (shareDefs.Leads shareRoot) x x := by
    have htrans : ∀ a b, Relation.TransGen (shareDefs.Leads shareRoot) a b →
        ["START", "A", "B", "END"].idxOf a < ["START", "A", "B", "END"].idxOf b := by
      intro a b h
      induction h with
      | single h => exact hrank _ _ h
      | tail _ h ih => exact ih.trans (hrank _ _ h)
    exact fun x h => Nat.lt_irrefl _ (htrans x x h)
  refine ⟨s₁, s₂, h₁, h₂, ?_⟩
  intro k j hj hnet
  exact join_progress shareDefs shareRoot 7 false .normal .normal shareStart s₁ s₂ 2 (by decide) hplain hacyc
    shareStart_loadStart h₁ h₂ (joinStart s₂.tables) ⟨_, [], rfl, .nil _⟩ hj hnet List.not_mem_nil

end JobArranger
