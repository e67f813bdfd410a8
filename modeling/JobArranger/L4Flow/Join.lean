import JobArranger.Core.LTS
import JobArranger.L2Status.Flow
import JobArranger.L3Loader.Unfold

/-!
# AND-joins over whole runs

One loaded jobnet, and any sequence of completions of its icons. An event
is a committed `ja_flow` call of an icon (a call that fails is rolled
back), a status write of another process, or a status change of a jobnet.
The state carries what the property talks about: which icons have
completed, which jobs another process touched, which flows fired, and
which jobs a flow moved to READY.

* `JoinInv`: a job that only flows have touched counts the fired flows, and
  is READY once they are all.
* `join_correct`: in every reachable state, for every such job with an
  incoming flow, `end_count` is the number of fired incoming flows, it is
  in BEGIN exactly while `end_count < boot_count`, and it became READY at
  most once, when the last incoming flow fired.
-/
namespace JobArranger

open Tables

/-! ## Writes to the icon's own row -/

/-- Only the status of job `i` changed, and no other status table. -/
structure OwnOnly (i : Id) (t t' : Tables) : Prop where
  nets : SameNets t t'
  static : t'.jobs.map Job.static = t.jobs.map Job.static
  other : ∀ k, k ≠ i → t'.job? k = t.job? k

theorem OwnOnly.trans {i : Id} {t t' t'' : Tables} (h : OwnOnly i t t') (h' : OwnOnly i t' t'') :
    OwnOnly i t t'' :=
  ⟨h.nets.trans h'.nets, h'.static.trans h.static, fun k hk => (h'.other k hk).trans (h.other k hk)⟩

theorem StatusEq.ownOnly {t t' : Tables} (h : StatusEq t t') (i : Id) : OwnOnly i t t' :=
  ⟨⟨h.flows, h.jobnets, h.summaries, h.iconJobnets, h.agentless⟩, by rw [h.jobs],
    fun k _ => by rw [Tables.job?, Tables.job?, h.jobs]⟩

theorem jaSetStatusJob_own (t : Tables) (i : Id) (s : Status) : OwnOnly i t (jaSetStatusJob t i s).1 := by
  refine ⟨⟨rfl, rfl, rfl, rfl, rfl⟩, static_updateJobs _ _ _ fun _ => rfl, fun k hk => ?_⟩
  rw [job?_jaSetStatusJob]
  cases hj : t.job? k with
  | none => rfl
  | some j =>
    have hid : j.innerJobId ≠ i := by rw [(Table.lookup_mem hj).2]; exact hk
    simp [hid]

theorem andThen_own {i : Id} {t : Tables} {r : Tables × Ret} {k : Tables → Tables × Ret}
    (hr : OwnOnly i t r.1) (hk : ∀ t', OwnOnly i t' (k t').1) : OwnOnly i t (andThen r k).1 :=
  andThen_keeps (P := OwnOnly i t) hr fun t' h => h.trans (hk t')

theorem jaSetEnderr_own (t : Tables) (i : Id) (msg : Bool) : OwnOnly i t (jaSetEnderr t i msg).1 := by
  unfold jaSetEnderr
  refine andThen_own ((jaCleanValueAfter_status t i).ownOnly i) fun t₁ => ?_
  refine andThen_own ?_ fun t₂ => jaSetStatusJob_own t₂ i .endErr
  split
  · exact (jaJoblog_status t₁ _ _ _).ownOnly i
  · exact (StatusEq.rfl' t₁).ownOnly i

theorem jaSetEnd_own (t : Tables) (i : Id) (msg : Bool) : OwnOnly i t (jaSetEnd t i msg).1 := by
  unfold jaSetEnd
  split
  · exact (StatusEq.rfl' t).ownOnly i
  refine andThen_own ((jaCleanValueAfter_status t i).ownOnly i) fun t₁ => ?_
  refine andThen_own ((jaJoblog_status t₁ _ _ _).ownOnly i) fun t₂ => ?_
  exact jaSetStatusJob_own t₂ i .ended

/-- A run error that does not continue writes only its own row. -/
theorem jaSetRunerr_stop_own (t : Tables) (i : Id) : OwnOnly i t (jaSetRunerr t i (-99)).1 := by
  unfold jaSetRunerr jaSetRunerrWith
  refine andThen_own ((jaCleanValueAfter_status t i).ownOnly i) fun t₁ => ?_
  refine andThen_own ((jaJoblog_status t₁ _ _ _).ownOnly i) fun t₂ => ?_
  dsimp only
  rw [if_pos (.inr (.inl rfl))]
  exact ((writeIconStatus_status t₂ _ _ _ _).ownOnly i).trans (jaSetStatusJob_own _ i .runErr)

/-! ## The run of one jobnet -/

instance (t : Tables) (i : Id) : Decidable (FlowOpen t i) :=
  match h : flowsFrom t i with
  | [] => .isFalse fun ⟨_, _, h', _⟩ => by rw [h] at h'; cases h'
  | f :: fs =>
    decidable_of_iff (jaGetStatusJobnet t f.innerJobnetId = some .run ∨
      jaGetStatusJobnet t f.innerJobnetId = some .runErr)
      ⟨fun hs => ⟨f, fs, h, hs⟩, fun ⟨f', fs', h', hs⟩ => by rw [h] at h'; cases h'; exact hs⟩

/-- The flows a completion of icon `i` fires. -/
def firedBy (t : Tables) (i : Id) (type : FlowType) : List Flow :=
  if FlowOpen t i then (flowsFrom t i).filter fun f => flowSelected type f.flowType else []

/-- The jobs a call moved to READY. -/
def newlyReady (t t' : Tables) : List Id :=
  (t'.jobs.filter fun j => j.status = .ready ∧ (t.job? j.innerJobId).map Job.status ≠ some .ready).map
    Job.innerJobId

structure JoinState where
  tables : Tables
  completed : List Id
  touched : List Id
  fired : List Flow
  readied : List Id

inductive JoinEvent where
  /-- an icon completes: `ja_flow(i, type, msg_flag)` -/
  | complete (i : Id) (type : FlowType) (msgFlag : Bool)
  /-- another process writes the status of a job -/
  | touch (i : Id) (status : Status)
  /-- a jobnet changes its status -/
  | jobnet (n : Id) (status : Status)

/-- One event on jobnet `net`. Each icon completes at most once; a `FAIL` is
rolled back. -/
def joinStep (net : Id) (s : JoinState) : JoinEvent → Option JoinState
  | .complete i type msgFlag =>
    if i ∈ s.completed ∨ (s.tables.job? i).map Job.innerJobnetId ≠ some net then none
    else match jaFlow s.tables i type msgFlag with
      | (_, .fail) => some s
      | (t', .succeed) => some
        { tables := t', completed := i :: s.completed, touched := i :: s.touched
          fired := s.fired ++ firedBy s.tables i type
          readied := s.readied ++ newlyReady s.tables t' }
  | .touch i status =>
    some { s with tables := (jaSetStatusJob s.tables i status).1, touched := i :: s.touched }
  | .jobnet n status => some { s with tables := (jaSetStatusJobnet s.tables n status).1 }

def joinStart (t : Tables) : JoinState := ⟨t, [], [], [], []⟩

/-- The runs of jobnet `net` from the tables `t` it was loaded into. -/
def joinLts (t : Tables) (net : Id) : LTS JoinState JoinEvent :=
  .ofFn (· = joinStart t) (joinStep net)

/-! ## The invariant -/

/-- How many of the flows end at job `k`. -/
def into (fl : List Flow) (k : Id) : Nat := (fl.filter fun f => f.endInnerJobId == k).length

/-- What a load leaves of one jobnet. -/
structure JoinLoaded (t : Tables) (net : Id) : Prop where
  jobIds : (t.jobs.map Job.innerJobId).Nodup
  flows : t.flows.Nodup
  begin : ∀ k j, t.job? k = some j → j.innerJobnetId = net → j.status = .begin ∧ j.endCount = 0
  boot : ∀ k j, t.job? k = some j → j.innerJobnetId = net → j.bootCount = into t.flows k
  link : ∀ k j, t.job? k = some j → j.innerJobnetId = net → j.jobType = .jobnet →
    ∃ l, t.iconJobnet? k = some l ∧ l.linkInnerJobnetId ≠ net
  ends : ∀ f ∈ t.flows, ∀ j, t.job? f.startInnerJobId = some j → j.innerJobnetId = net →
    ∃ b, t.job? f.endInnerJobId = some b ∧ b.innerJobnetId = net

/-- Status of a join after `c` of its incoming flows fired. -/
def joinStatus (boot c : Nat) : Status := if c = 0 ∨ c < boot then .begin else .ready

/-- An AND-join of the jobnet that only flows have touched. -/
structure Untouched (net : Id) (touched : List Id) (k : Id) (j : Job) : Prop where
  jobnet : j.innerJobnetId = net
  notTouched : k ∉ touched
  notIfend : j.jobType ≠ .ifend
  notLoop : j.jobType ≠ .l

structure JoinInv (t₀ : Tables) (net : Id) (t : Tables) (touched : List Id) (fired : List Flow) : Prop where
  flows : t.flows = t₀.flows
  iconJobnets : t.iconJobnets = t₀.iconJobnets
  static : t.jobs.map Job.static = t₀.jobs.map Job.static
  joins : ∀ k j, t.job? k = some j → Untouched net touched k j →
    j.endCount = into fired k ∧ j.status = joinStatus j.bootCount (into fired k)

/-- A row of the run and the row it was loaded as. -/
theorem loaded_row {t₀ t : Tables} (h : t.jobs.map Job.static = t₀.jobs.map Job.static) {k : Id} {j : Job}
    (hj : t.job? k = some j) : ∃ j₀, t₀.job? k = some j₀ ∧ SameJob j₀ j := by
  have hst := job?_static h k
  rw [hj, Option.map_some] at hst
  obtain ⟨j₀, hj₀, he⟩ := Option.map_eq_some_iff.mp hst.symm
  exact ⟨j₀, hj₀, .of_static he.symm⟩

theorem JoinInv.own {t₀ t t' : Tables} {net i : Id} {touched : List Id} {fired : List Flow}
    (h : JoinInv t₀ net t touched fired) (ho : OwnOnly i t t') (hi : i ∈ touched) :
    JoinInv t₀ net t' touched fired := by
  refine ⟨ho.nets.flows.trans h.flows, ho.nets.iconJobnets.trans h.iconJobnets,
    ho.static.trans h.static, fun k j hj hu => ?_⟩
  rw [ho.other k fun e => hu.notTouched (e ▸ hi)] at hj
  exact h.joins k j hj hu

theorem into_append (fl fl' : List Flow) (k : Id) : into (fl ++ fl') k = into fl k + into fl' k := by
  simp [into, List.filter_append]

theorem into_single (f : Flow) (k : Id) : into [f] k = if f.endInnerJobId = k then 1 else 0 := by
  by_cases h : f.endInnerJobId = k <;> simp [into, h]

/-- A flow that has not fired leaves its target short of its boot count. -/
theorem into_lt {all fired : List Flow} (hnd : fired.Nodup) (hsub : fired ⊆ all) {f : Flow}
    (hf : f ∈ all) (hnot : f ∉ fired) : into fired f.endInnerJobId < into all f.endInnerJobId := by
  have hle : into (f :: fired) f.endInnerJobId ≤ into all f.endInnerJobId := by
    refine List.Subperm.length_le (List.Nodup.subperm ?_ ?_)
    · exact (List.nodup_cons.mpr ⟨hnot, hnd⟩).filter _
    · exact List.filter_subset _ fun x hx => (List.mem_cons.mp hx).elim (fun e => e ▸ hf) fun h => hsub h
  have hcons : into (f :: fired) f.endInnerJobId = into fired f.endInnerJobId + 1 := by
    simp [into]
  omega

/-- A jobnet icon of `net` links to another jobnet. -/
def LinksAway (t : Tables) (net k : Id) (b : Job) : Prop :=
  b.jobType = .jobnet → ∃ l, t.iconJobnet? k = some l ∧ l.linkInnerJobnetId ≠ net

/-- What firing a flow into job `k` of `net` leaves alone: the other jobs of
`net`, except the start icon's own status. -/
theorem jaFlowSetStatus_frame {t : Tables} {i k net : Id} {b : Job} (hb : t.job? k = some b)
    (hlink : LinksAway t net k b) :
    (jaFlowSetStatus t i k).1.flows = t.flows ∧ (jaFlowSetStatus t i k).1.iconJobnets = t.iconJobnets ∧
      (jaFlowSetStatus t i k).1.jobs.map Job.static = t.jobs.map Job.static ∧
      ∀ x j, x ≠ k → x ≠ i → (jaFlowSetStatus t i k).1.job? x = some j → j.innerJobnetId = net →
        t.job? x = some j := by
  have hown : ∀ u, OwnOnly i t u → u.flows = t.flows ∧ u.iconJobnets = t.iconJobnets ∧
      u.jobs.map Job.static = t.jobs.map Job.static ∧
      ∀ x j, x ≠ k → x ≠ i → u.job? x = some j → j.innerJobnetId = net → t.job? x = some j :=
    fun u h => ⟨h.nets.flows, h.nets.iconJobnets, h.static, fun x j _ hxi hj _ => h.other x hxi ▸ hj⟩
  have hset : ∀ u x j st n, x ≠ k → (setCount u k st n).job? x = some j → u.job? x = some j := by
    intro u x j st n hx hj
    rw [job?_setCount] at hj
    obtain ⟨y, hy, rfl⟩ := Option.map_eq_some_iff.mp hj
    have hid : y.innerJobId ≠ k := by rw [(Table.lookup_mem hy).2]; exact hx
    simpa [hid] using hy
  unfold jaFlowSetStatus
  simp only [hb]
  split
  · exact hown t ((StatusEq.rfl' t).ownOnly i)
  · exact hown _ (jaSetEnderr_own t i true)
  · rename_i st n hc
    split
    · rename_i hjn
      obtain ⟨l, hl, hne⟩ := hlink hjn.1
      simp only [hl]
      refine ⟨rfl, rfl, ?_, fun x j hx _ hj hjnet => ?_⟩
      · exact (static_setCount _ _ _ _).trans (static_resetJobs _ _)
      · have hr : (resetJobs t l.linkInnerJobnetId).job? x = some j := hset _ x j _ _ hx hj
        rw [job?_resetJobs] at hr
        obtain ⟨y, hy, rfl⟩ := Option.map_eq_some_iff.mp hr
        by_cases hyl : y.innerJobnetId = l.linkInnerJobnetId
        · simp only [hyl, beq_self_eq_true, if_true] at hjnet
          exact absurd hjnet hne
        · simpa [hyl] using hy
    · exact ⟨rfl, rfl, static_setCount _ _ _ _, fun x j hx _ hj _ => hset t x j _ _ hx hj⟩

/-- The target row after a flow counted it up. -/
theorem jaFlowSetStatus_target {t : Tables} {i k net : Id} {b : Job} {st : Status} {n : Nat}
    (hb : t.job? k = some b) (hnet : b.innerJobnetId = net) (hlink : LinksAway t net k b)
    (hc : flowCount b = .count st n) :
    (jaFlowSetStatus t i k).1.job? k = some { b with status := st, endCount := n } := by
  have hid : b.innerJobId = k := (Table.lookup_mem hb).2
  unfold jaFlowSetStatus
  simp only [hb, hc]
  split
  · rename_i hjn
    obtain ⟨l, hl, hne⟩ := hlink hjn.1
    simp only [hl]
    change (setCount (resetJobs t l.linkInnerJobnetId) k st n).job? k = _
    have hbl : b.innerJobnetId ≠ l.linkInnerJobnetId := by rw [hnet]; exact hne.symm
    rw [job?_setCount, job?_resetJobs, hb]
    simp [hbl, hid]
  · change (setCount t k st n).job? k = _
    rw [job?_setCount, hb]
    simp [hid]

/-- One flow fires. -/
theorem JoinInv.fire {t₀ t : Tables} {net i : Id} {touched : List Id} {fired : List Flow} {f : Flow}
    (hl : JoinLoaded t₀ net) (h : JoinInv t₀ net t touched fired) (hi : i ∈ touched)
    (hf : f ∈ t₀.flows) {a : Job} (ha : t₀.job? f.startInnerJobId = some a)
    (hanet : a.innerJobnetId = net) (hnd : fired.Nodup) (hsub : fired ⊆ t₀.flows) (hnot : f ∉ fired) :
    JoinInv t₀ net (jaFlowSetStatus t i f.endInnerJobId).1 touched (fired ++ [f]) := by
  obtain ⟨b₀, hb₀, hb₀net⟩ := hl.ends f hf a ha hanet
  obtain ⟨b, hb, hsame⟩ := loaded_row h.static.symm hb₀
  have hbnet : b.innerJobnetId = net := hsame.jobnet.symm.trans hb₀net
  have hlink : LinksAway t net f.endInnerJobId b := fun hty => by
    obtain ⟨l, hl1, hl2⟩ := hl.link _ b₀ hb₀ hb₀net (hsame.type.trans hty)
    exact ⟨l, by rw [Tables.iconJobnet?, h.iconJobnets]; exact hl1, hl2⟩
  obtain ⟨hflows, hicons, hstatic, hframe⟩ := jaFlowSetStatus_frame (i := i) hb hlink
  refine ⟨hflows.trans h.flows, hicons.trans h.iconJobnets, hstatic.trans h.static, fun k j hj hu => ?_⟩
  by_cases hk : k = f.endInnerJobId
  · subst hk
    -- the target itself: it was short of its boot count, so it was in BEGIN
    obtain ⟨b', hb', hsame'⟩ := loaded_row hstatic hj
    rw [hb] at hb'
    cases hb'
    have hub : Untouched net touched f.endInnerJobId b :=
      ⟨hbnet, hu.notTouched, hsame'.type ▸ hu.notIfend, hsame'.type ▸ hu.notLoop⟩
    obtain ⟨hcount, hstatus⟩ := h.joins _ b hb hub
    have hboot : b.bootCount = into t₀.flows f.endInnerJobId := by
      rw [← hsame.boot]
      exact hl.boot _ b₀ hb₀ hb₀net
    have hlt : into fired f.endInnerJobId < b.bootCount := hboot ▸ into_lt hnd hsub hf hnot
    have hbegin : b.status = .begin := by rw [hstatus, joinStatus, if_pos (.inr hlt)]
    rw [jaFlowSetStatus_target hb hbnet hlink (flowCount_begin hbegin hub.notIfend hub.notLoop)] at hj
    cases hj
    have hinto : into (fired ++ [f]) f.endInnerJobId = into fired f.endInnerJobId + 1 := by
      rw [into_append, into_single, if_pos rfl]
    rw [hinto, hcount]
    refine ⟨rfl, ?_⟩
    simp only [joinStatus]
    by_cases hle : b.bootCount ≤ into fired f.endInnerJobId + 1
    · rw [if_pos hle, if_neg (by omega)]
    · rw [if_neg hle, if_pos (.inr (by omega))]
  · have hinto : into (fired ++ [f]) k = into fired k := by
      rw [into_append, into_single, if_neg fun e => hk e.symm]
      rfl
    rw [hinto]
    exact h.joins k j (hframe k j hk (fun e => hu.notTouched (e ▸ hi)) hj hu.jobnet) hu

/-- The flows of one completion fire in turn. -/
theorem JoinInv.loop {t₀ : Tables} {net i : Id} {touched : List Id} {type : FlowType}
    (hl : JoinLoaded t₀ net) (hi : i ∈ touched) {a : Job} (ha : t₀.job? i = some a)
    (hanet : a.innerJobnetId = net) :
    ∀ {fs : List Flow} {t t' : Tables} {fired : List Flow}, JoinInv t₀ net t touched fired → fs.Nodup →
      (∀ f ∈ fs, f ∈ t₀.flows ∧ f.startInnerJobId = i ∧ f ∉ fired) → fired.Nodup → fired ⊆ t₀.flows →
      flowLoop i type fs t = (t', .succeed) →
      JoinInv t₀ net t' touched (fired ++ fs.filter fun f => flowSelected type f.flowType)
  | [], t, t', fired, h, _, _, _, _, hs => by
    cases hs
    simpa using h
  | f :: fs, t, t', fired, h, hnd, hfs, hfnd, hsub, hs => by
    rw [List.nodup_cons] at hnd
    obtain ⟨hf, hstart, hnot⟩ := hfs f List.mem_cons_self
    rw [flowLoop] at hs
    split at hs
    · rename_i hsel
      cases hr : jaFlowSetStatus t i f.endInnerJobId with
      | mk t₁ r =>
        rw [hr] at hs
        cases r with
        | fail => cases hs
        | succeed =>
          rw [andThen_succeed] at hs
          have h₁ := h.fire hl hi hf (by rw [hstart]; exact ha) hanet hfnd hsub hnot
          rw [hr] at h₁
          have hrest := JoinInv.loop hl hi ha hanet h₁ hnd.2
            (fun g hg => by
              obtain ⟨hg1, hg2, hg3⟩ := hfs g (List.mem_cons_of_mem _ hg)
              refine ⟨hg1, hg2, fun hmem => ?_⟩
              rcases List.mem_append.mp hmem with hmem | hmem
              · exact hg3 hmem
              · exact hnd.1 (List.mem_singleton.mp hmem ▸ hg))
            (List.nodup_append.mpr ⟨hfnd, by simp, fun x hx y hy hxy =>
              hnot (List.mem_singleton.mp hy ▸ hxy ▸ hx)⟩)
            (fun g hg => (List.mem_append.mp hg).elim (fun h => hsub h)
              fun h => List.mem_singleton.mp h ▸ hf) hs
          simpa [hsel] using hrest
    · rename_i hsel
      have := JoinInv.loop hl hi ha hanet h hnd.2 (fun g hg => hfs g (List.mem_cons_of_mem _ hg)) hfnd hsub hs
      simpa [hsel] using this

theorem JoinInv.touch {t₀ t : Tables} {net : Id} {touched : List Id} {fired : List Flow}
    (h : JoinInv t₀ net t touched fired) (i : Id) : JoinInv t₀ net t (i :: touched) fired :=
  ⟨h.flows, h.iconJobnets, h.static, fun k j hj hu => h.joins k j hj
    ⟨hu.jobnet, fun hk => hu.notTouched (List.mem_cons_of_mem _ hk), hu.notIfend, hu.notLoop⟩⟩

/-- A committed completion. -/
theorem JoinInv.complete {t₀ t t' : Tables} {net i : Id} {touched : List Id} {fired : List Flow}
    {type : FlowType} {msg : Bool} (hl : JoinLoaded t₀ net) (h : JoinInv t₀ net t touched fired)
    (hnd : fired.Nodup) (hsub : fired ⊆ t₀.flows) (hnew : ∀ f ∈ fired, f.startInnerJobId ≠ i)
    (hinet : (t.job? i).map Job.innerJobnetId = some net) (hs : jaFlow t i type msg = (t', .succeed)) :
    JoinInv t₀ net t' (i :: touched) (fired ++ firedBy t i type) := by
  have h' := h.touch i
  have hi : i ∈ i :: touched := List.mem_cons_self
  unfold firedBy
  split
  · rename_i ho
    rw [jaFlow_running ho] at hs
    cases hloop : flowLoop i type (flowsFrom t i) (jaCleanValueAfter t i).1 with
    | mk t₁ r =>
      rw [hloop] at hs
      cases r with
      | fail => cases hs
      | succeed =>
        rw [andThen_succeed] at hs
        obtain ⟨ai, hai, hainet⟩ := Option.map_eq_some_iff.mp hinet
        obtain ⟨a, ha, hsame⟩ := loaded_row h.static hai
        have hfrom : ∀ f ∈ flowsFrom t i, f ∈ t₀.flows ∧ f.startInnerJobId = i ∧ f ∉ fired := by
          intro f hf
          rw [flowsFrom, h.flows] at hf
          obtain ⟨hf1, hf2⟩ := List.mem_filter.mp hf
          have hst : f.startInnerJobId = i := by simpa using hf2
          exact ⟨hf1, hst, fun hmem => hnew f hmem hst⟩
        have hfnd : (flowsFrom t i).Nodup := by
          rw [flowsFrom, h.flows]
          exact hl.flows.filter _
        have h₁ := JoinInv.loop hl hi ha (hsame.jobnet.symm.trans hainet)
          (h'.own ((jaCleanValueAfter_status t i).ownOnly i) hi) hfnd hfrom hnd hsub hloop
        have hown := jaSetEnd_own t₁ i msg
        rw [hs] at hown
        exact h₁.own hown hi
  · rename_i ho
    rw [List.append_nil]
    by_cases hf : flowsFrom t i = []
    · rw [jaFlow_no_flows hf] at hs
      have hown := ((jaCleanValueAfter_status t i).ownOnly i).trans (jaSetEnderr_own _ i true)
      rw [hs] at hown
      exact h'.own hown hi
    · rw [jaFlow_not_running hf ho] at hs
      have hown := ((jaCleanValueAfter_status t i).ownOnly i).trans (jaSetRunerr_stop_own _ i)
      rw [hs] at hown
      exact h'.own hown hi

/-! ## Runs -/

structure JoinRunInv (t₀ : Tables) (net : Id) (s : JoinState) : Prop where
  inv : JoinInv t₀ net s.tables s.touched s.fired
  nodup : s.fired.Nodup
  sub : s.fired ⊆ t₀.flows
  starts : ∀ f ∈ s.fired, f.startInnerJobId ∈ s.completed
  readied : ∀ k j, s.tables.job? k = some j → Untouched net s.touched k j →
    s.readied.count k = if j.status = .ready then 1 else 0

theorem jobIds_static {t t' : Tables} (h : t'.jobs.map Job.static = t.jobs.map Job.static) :
    t'.jobs.map Job.innerJobId = t.jobs.map Job.innerJobId := by
  have hid : ∀ l : List Job, l.map Job.innerJobId = (l.map Job.static).map Job.innerJobId := by
    intro l
    rw [List.map_map]
    rfl
  rw [hid, h, ← hid]

theorem count_newlyReady {t t' : Tables} (hnd : (t'.jobs.map Job.innerJobId).Nodup) {k : Id} {j' : Job}
    (hj' : t'.job? k = some j') :
    (newlyReady t t').count k =
      if j'.status = .ready ∧ (t.job? k).map Job.status ≠ some .ready then 1 else 0 := by
  obtain ⟨hmem, hid⟩ := Table.lookup_mem hj'
  have hnd' : (newlyReady t t').Nodup := (List.filter_sublist.map _).nodup hnd
  by_cases hc : j'.status = .ready ∧ (t.job? k).map Job.status ≠ some .ready
  · rw [if_pos hc]
    refine List.count_eq_one_of_mem hnd' (List.mem_map.mpr ⟨j', List.mem_filter.mpr ⟨hmem, ?_⟩, hid⟩)
    simpa [hid] using hc
  · rw [if_neg hc]
    refine List.count_eq_zero_of_not_mem fun hk => hc ?_
    obtain ⟨x, hx, hxk⟩ := List.mem_map.mp hk
    obtain ⟨hx1, hx2⟩ := List.mem_filter.mp hx
    have hxj : x = j' := List.inj_on_of_nodup_map hnd hx1 hmem (hxk.trans hid.symm)
    subst hxj
    simpa [hxk] using hx2

theorem joinStatus_mono {boot c c' : Nat} (hle : c ≤ c') (h : joinStatus boot c = .ready) :
    joinStatus boot c' = .ready := by
  unfold joinStatus at h ⊢
  split at h
  · cases h
  · rw [if_neg (by omega)]

theorem JoinRunInv.step {t₀ : Tables} {net : Id} {s s' : JoinState} {e : JoinEvent}
    (hl : JoinLoaded t₀ net) (h : JoinRunInv t₀ net s) (hs : joinStep net s e = some s') :
    JoinRunInv t₀ net s' := by
  cases e with
  | complete i type msg =>
    rw [joinStep] at hs
    split at hs
    · cases hs
    rename_i hguard
    simp only [not_or, not_not] at hguard
    split at hs
    · cases hs
      exact h
    · rename_i t' hflow
      cases hs
      have hnew : ∀ f ∈ s.fired, f.startInnerJobId ≠ i := fun f hf e => hguard.1 (e ▸ h.starts f hf)
      have hinv := h.inv.complete hl h.nodup h.sub hnew hguard.2 hflow
      have hby : ∀ f ∈ firedBy s.tables i type, f ∈ t₀.flows ∧ f.startInnerJobId = i := by
        intro f hf
        unfold firedBy at hf
        split at hf
        · have hf' := (List.mem_filter.mp hf).1
          rw [flowsFrom, h.inv.flows] at hf'
          exact ⟨(List.mem_filter.mp hf').1, by simpa using (List.mem_filter.mp hf').2⟩
        · cases hf
      refine ⟨hinv, ?_, ?_, ?_, ?_⟩
      · refine List.nodup_append.mpr ⟨h.nodup, ?_, fun x hx y hy hxy => hnew x hx (hxy ▸ (hby y hy).2)⟩
        unfold firedBy
        split
        · rw [flowsFrom, h.inv.flows]
          exact (hl.flows.filter _).filter _
        · exact List.nodup_nil
      · intro f hf
        rcases List.mem_append.mp hf with hf | hf
        · exact h.sub hf
        · exact (hby f hf).1
      · intro f hf
        rcases List.mem_append.mp hf with hf | hf
        · exact List.mem_cons_of_mem _ (h.starts f hf)
        · rw [(hby f hf).2]
          exact List.mem_cons_self
      · intro k j' hj' hu
        have hst : t'.jobs.map Job.static = s.tables.jobs.map Job.static :=
          hinv.static.trans h.inv.static.symm
        obtain ⟨j, hj, hsame⟩ := loaded_row hst hj'
        have hub : Untouched net s.touched k j :=
          ⟨hsame.jobnet ▸ hu.jobnet, fun hk => hu.notTouched (List.mem_cons_of_mem _ hk),
            hsame.type ▸ hu.notIfend, hsame.type ▸ hu.notLoop⟩
        have hbefore := h.inv.joins k j hj hub
        have hafter := hinv.joins k j' hj' hu
        have hnd' : (t'.jobs.map Job.innerJobId).Nodup := by
          rw [jobIds_static hinv.static]
          exact hl.jobIds
        have hmono : j.status = .ready → j'.status = .ready := fun hr => by
          rw [hbefore.2] at hr
          rw [hafter.2, hsame.boot, into_append]
          exact joinStatus_mono (Nat.le_add_right _ _) hr
        rw [List.count_append, h.readied k j hj hub, count_newlyReady hnd' hj', hj]
        by_cases hjr : j.status = .ready
        · simp [hjr, hmono hjr]
        · simp [hjr]
  | touch i status =>
    cases hs
    have hown := jaSetStatusJob_own s.tables i status
    refine ⟨(h.inv.touch i).own hown List.mem_cons_self, h.nodup, h.sub, h.starts, fun k j hj hu => ?_⟩
    have hki : k ≠ i := fun e => hu.notTouched (e ▸ List.mem_cons_self)
    refine h.readied k j (hown.other k hki ▸ hj) ⟨hu.jobnet, fun hk => ?_, hu.notIfend, hu.notLoop⟩
    exact hu.notTouched (List.mem_cons_of_mem _ hk)
  | jobnet n status =>
    cases hs
    exact ⟨⟨h.inv.flows, h.inv.iconJobnets, h.inv.static, h.inv.joins⟩, h.nodup, h.sub, h.starts, h.readied⟩

theorem joinRunInv_reachable {t₀ : Tables} {net : Id} (hl : JoinLoaded t₀ net) (s : JoinState)
    (hr : (joinLts t₀ net).Reachable s) : JoinRunInv t₀ net s := by
  refine LTS.Inductive.reachable (J := JoinRunInv t₀ net) ⟨?_, fun s e s' h hs => h.step hl hs⟩ s hr
  rintro s rfl
  have hbegin : ∀ k j, t₀.job? k = some j → Untouched net [] k j → j.status = .begin ∧ j.endCount = 0 :=
    fun k j hj hu => hl.begin k j hj hu.jobnet
  refine ⟨⟨rfl, rfl, rfl, fun k j hj hu => ?_⟩, List.nodup_nil, by simp [joinStart], by simp [joinStart],
    fun k j hj hu => ?_⟩
  · obtain ⟨h1, h2⟩ := hbegin k j hj hu
    exact ⟨h2, by rw [h1]; rfl⟩
  · rw [(hbegin k j hj hu).1]
    rfl

/-! ## The loaded jobnet -/

/-- A completed load gives what the joins need. -/
theorem Expanded.joinLoaded {d : Defs} {root : JobnetDef} {main : Id} {s : Loader} {E : List Occ}
    (h : Expanded d root main s.tables E) (hd : d.Keyed) (hp : s.pending main = []) :
    JoinLoaded s.tables main := by
  have hu := h.unfolded hd hp
  have hmain : ∀ k j, s.tables.job? k = some j → j.innerJobnetId = main → j ∈ jobsOfMain s.tables main :=
    fun k j hj hnet => by
      have hmem := (Table.lookup_mem hj).1
      simp [jobsOfMain, hmem, h.levels.ofMain j hmem _ h.tree.root hnet]
  refine ⟨h.levels.jobIds, List.Nodup.of_map _ h.levels.flowIds, ?_, ?_, ?_, ?_⟩
  · intro k j hj hnet
    have hm := List.mem_filter.mp (hmain k j hj hnet)
    obtain ⟨e, -, jd, -, hkey⟩ := h.levels.icon_of_job hm.1 (by simpa using hm.2)
    simp only [jobKey, iconKey, Prod.mk.injEq] at hkey
    exact hkey.2.2.2.2.2
  · intro k j hj hnet
    rw [hu.boot j (hmain k j hj hnet), (Table.lookup_mem hj).2]
    rfl
  · intro k j hj hnet hty
    obtain ⟨-, e, -, -, e', he', hpath, l, hl, hle, -⟩ := hu.invo j (hmain k j hj hnet) hty
    rw [(Table.lookup_mem hj).2] at hl
    refine ⟨l, hl, fun hlm => ?_⟩
    -- the link is the jobnet of another occurrence than the root
    have hroot : e' = ⟨[], root, main⟩ :=
      List.inj_on_of_nodup_map h.tree.net_nodup he' h.tree.root (hle.symm.trans hlm)
    rw [hroot] at hpath
    simp at hpath
  · intro f hf j hj hnet
    obtain ⟨⟨a, ha, ha1, ha2⟩, ⟨b, hb, hb1, hb2⟩⟩ := h.levels.flowEnds f hf
    have haj : a = j := List.inj_on_of_nodup_map h.levels.jobIds ha (Table.lookup_mem hj).1
      (ha1.trans (Table.lookup_mem hj).2.symm)
    subst haj
    refine ⟨b, ?_, hb2.trans (ha2.symm.trans hnet)⟩
    rw [← hb1]
    exact Table.lookup_eq h.levels.jobIds hb

/-- The join law for one job in one state of a run. -/
structure JoinLaw (flows : List Flow) (s : JoinState) (k : Id) (j : Job) : Prop where
  /-- `end_count` counts the incoming flows that have fired -/
  count : j.endCount = into s.fired k
  /-- in BEGIN exactly while some are missing -/
  begin : j.status = .begin ↔ j.endCount < j.bootCount
  /-- READY exactly when the count has reached `boot_count` -/
  ready : j.status = .ready ↔ j.endCount = j.bootCount
  /-- moved to READY at most once, and not before -/
  once : s.readied.count k = if j.endCount = j.bootCount then 1 else 0
  /-- never before every incoming flow has fired -/
  all : j.status = .ready → ∀ f ∈ flows, f.endInnerJobId = k → f ∈ s.fired

theorem JoinRunInv.law {t₀ : Tables} {net : Id} {s : JoinState} (hl : JoinLoaded t₀ net)
    (h : JoinRunInv t₀ net s) {k : Id} {j : Job} (hj : s.tables.job? k = some j)
    (hu : Untouched net s.touched k j) (hpos : 0 < j.bootCount) : JoinLaw t₀.flows s k j := by
  obtain ⟨hcount, hstatus⟩ := h.inv.joins k j hj hu
  obtain ⟨j₀, hj₀, hsame⟩ := loaded_row h.inv.static hj
  have hboot : j.bootCount = into t₀.flows k := by
    rw [hsame.boot]
    exact hl.boot k j₀ hj₀ (hsame.jobnet.symm.trans hu.jobnet)
  have hle : into s.fired k ≤ into t₀.flows k :=
    List.Subperm.length_le (List.Nodup.subperm (h.nodup.filter _) (List.filter_subset _ h.sub))
  have hready : j.status = .ready ↔ j.endCount = j.bootCount := by
    rw [hstatus, joinStatus, hcount]
    split
    · simp only [reduceCtorEq, false_iff]
      omega
    · simp only [true_iff]
      omega
  refine ⟨hcount, ?_, hready, ?_, fun hr f hf hfk => ?_⟩
  · rw [hstatus, joinStatus, hcount]
    split
    · simp only [true_iff]
      omega
    · simp only [reduceCtorEq, false_iff]
      omega
  · rw [h.readied k j hj hu]
    simp only [hready]
  · by_contra hnot
    have hlt := into_lt h.nodup h.sub hf hnot
    rw [hfk, ← hboot, ← hcount, hready.mp hr] at hlt
    exact lt_irrefl _ hlt

/-- **AND-join correctness over whole runs.** For every loaded jobnet and
every run of its icons' completions, each job with an incoming flow that
only flows have touched obeys the join law in every reachable state, and a
step moves it to READY exactly when it brings `end_count` up to
`boot_count`. -/
theorem join_correct (d : Defs) (root : JobnetDef) (main : Id) (test : Bool) (rt rt' : RunType)
    (s s₁ s₂ : Loader) (fuel : Nat) (hd : d.Keyed) (hstart : LoadStart s.tables root main)
    (hs₁ : s.loadJobDefinition d main main root.jobnetId root.updateDate test rt = some s₁)
    (hs₂ : Loader.loadSubJobnetDefinition d main rt' fuel s₁ = some (some s₂))
    (st : JoinState) (hr : (joinLts s₂.tables main).Reachable st) :
    (∀ k j, st.tables.job? k = some j → Untouched main st.touched k j → 0 < j.bootCount →
      JoinLaw s₂.tables.flows st k j) ∧
    ∀ e st', joinStep main st e = some st' → ∀ k j j', st.tables.job? k = some j →
      st'.tables.job? k = some j' → Untouched main st.touched k j → Untouched main st'.touched k j' →
      0 < j.bootCount →
      ((j.status ≠ .ready ∧ j'.status = .ready) ↔
        (j.endCount < j.bootCount ∧ j'.endCount = j.bootCount)) := by
  obtain ⟨⟨E, hE⟩, hp⟩ := (hstart.expanded hs₁).loop hd hs₂
  have hl := hE.joinLoaded hd hp
  have hinv := joinRunInv_reachable hl st hr
  refine ⟨fun k j hj hu hpos => hinv.law hl hj hu hpos, ?_⟩
  intro e st' hstep k j j' hj hj' hu hu' hpos
  have hinv' := hinv.step hl hstep
  obtain ⟨j₀, hj₀, hsame⟩ := loaded_row (hinv'.inv.static.trans hinv.inv.static.symm) hj'
  rw [hj] at hj₀
  cases hj₀
  have hlaw := hinv.law hl hj hu hpos
  have hlaw' := hinv'.law hl hj' hu' (hsame.boot ▸ hpos)
  have hle : j.status = .begin ∨ j.status = .ready := by
    rw [(hinv.inv.joins k j hj hu).2, joinStatus]
    split <;> simp
  rw [hlaw'.ready, hsame.boot, ← hlaw.begin]
  constructor
  · rintro ⟨h1, h2⟩
    exact ⟨hle.resolve_right h1, h2⟩
  · rintro ⟨h1, h2⟩
    exact ⟨by rw [h1]; decide, h2⟩

/-- The start icon of a loaded jobnet is in BEGIN although no flow is
missing: it has none. -/
theorem start_icon_begins : ∃ s₁ s₂ k j,
    shareStart.loadJobDefinition shareDefs 7 7 "NET" 1 false .normal = some s₁ ∧
      Loader.loadSubJobnetDefinition shareDefs 7 .normal 2 s₁ = some (some s₂) ∧
      (joinLts s₂.tables 7).Reachable (joinStart s₂.tables) ∧
      (joinStart s₂.tables).tables.job? k = some j ∧
      Untouched 7 (joinStart s₂.tables).touched k j ∧
      ¬(j.status = .begin ↔ j.endCount < j.bootCount) := by
  have hrun : ((shareStart.loadJobDefinition shareDefs 7 7 "NET" 1 false .normal).bind fun s₁ =>
      (Loader.loadSubJobnetDefinition shareDefs 7 .normal 2 s₁).bind fun r =>
        r.bind fun s₂ => s₂.tables.job? 1) =
      some ⟨1, 7, 7, false, .startIcon, false, .normal, false, .begin, 0, 0, "START", false⟩ := by
    decide +kernel
  simp only [Option.bind_eq_some_iff] at hrun
  obtain ⟨s₁, h₁, r, h₂, s₂, rfl, h₃⟩ := hrun
  exact ⟨s₁, s₂, 1, _, h₁, h₂, ⟨_, [], rfl, .nil _⟩, h₃,
    ⟨rfl, by simp [joinStart], by decide, by decide⟩, by decide⟩

theorem join_correct_share : ∃ s₁ s₂,
    shareStart.loadJobDefinition shareDefs 7 7 "NET" 1 false .normal = some s₁ ∧
      Loader.loadSubJobnetDefinition shareDefs 7 .normal 2 s₁ = some (some s₂) ∧
      ∀ st, (joinLts s₂.tables 7).Reachable st → ∀ k j, st.tables.job? k = some j →
        Untouched 7 st.touched k j → 0 < j.bootCount → JoinLaw s₂.tables.flows st k j := by
  have hrun : ((shareStart.loadJobDefinition shareDefs 7 7 "NET" 1 false .normal).bind fun s₁ =>
      (Loader.loadSubJobnetDefinition shareDefs 7 .normal 2 s₁).bind fun r => r.map fun _ => true) =
      some true := by decide +kernel
  simp only [Option.bind_eq_some_iff, Option.map_eq_some_iff] at hrun
  obtain ⟨s₁, h₁, r, h₂, s₂, rfl, -⟩ := hrun
  exact ⟨s₁, s₂, h₁, h₂, fun st hr => (join_correct shareDefs shareRoot 7 false .normal .normal
    shareStart s₁ s₂ 2 (by decide) shareStart_loadStart h₁ h₂ st hr).1⟩

end JobArranger
