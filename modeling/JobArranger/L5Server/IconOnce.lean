import JobArranger.Core.LTS
import JobArranger.L4Flow.Reject
import JobArranger.L5Server.Jobnet

/-!
# The flows of a jobnet icon

Between one start of a jobnet icon and the next, `process_jajobnet` passes
over its sub-jobnet; before each pass the icons of the sub-jobnet are in any
states the other processes left them in. A pass may call `ja_flow` on the
icon: from `jajobnet_run_sync` when the sub-jobnet ends, and from
`ja_set_runerr` when an error is passed on to an icon with `continue_flag`.

The second call is made again on every later change: while the sub-jobnet is
in RUNERR the timeout flag is compared with a column that only RUN stores,
and RUNERR can turn back to RUN or go on to END.

* `fires`: a committed pass that calls `ja_flow` on the icon.
* `icon_fires_once_iff`: at most one firing in every run, exactly when no
  error can be passed on to a continuing icon.
-/
namespace JobArranger

open Tables

/-- `jajobnet_run` calls `ja_flow`: its result is that of `ja_flow`. (The
callers pass `FAIL` on and call it at most once.) -/
def reachesFlow (t : Tables) (n icon : Id) (status : Status) (timeoutFlag : Bool) : Bool :=
  (jajobnetRunWith (fun t _ _ _ => (t, .fail)) t n icon status timeoutFlag).2 = .fail ∧
    (jajobnetRunWith (fun t _ _ _ => (t, .succeed)) t n icon status timeoutFlag).2 = .succeed

/-- A pass over jobnet `n`. -/
def passOver (t : Tables) (n : Id) (bootTime : Text) : Tables :=
  match t.jobnet? n with
  | some r => processJajobnetRow t n r.innerJobId r.timeoutFlag r.status bootTime
  | none => t

/-- The pass over `n` calls `ja_flow` on the icon of `n` and is committed. -/
def fires (t : Tables) (n : Id) : Bool :=
  match t.jobnet? n with
  | some r => (r.status = .run ∨ r.status = .runErr) ∧
      reachesFlow t n r.innerJobId r.status r.timeoutFlag ∧
      (jajobnetRun t n r.innerJobId r.status r.timeoutFlag).2 = .succeed
  | none => false

/-- The icons of `n` with other statuses and timeout flags. -/
def setIcons (t : Tables) (n : Id) (g : Job → Status × Bool) : Tables :=
  t.updateJobs (·.innerJobnetId == n) fun j => { j with status := (g j).1, timeoutFlag := (g j).2 }

/-- What happens between two passes over `n`: at least any statuses and
timeout flags of its icons, at most anything but the row of `n`, which only
`process_jajobnet` writes once it is started, and the fixed columns. -/
structure Environment (n : Id) (env : Tables → Tables → Prop) : Prop where
  icons : ∀ t g, env t (setIcons t n g)
  shape : ∀ t t', env t t' → t'.jobs.map Job.shape = t.jobs.map Job.shape
  row : ∀ t t', env t t' → t'.jobnet? n = t.jobnet? n

structure PassState where
  tables : Tables
  fired : Nat

inductive PassLabel where
  | between (t : Tables)
  | pass (bootTime : Text)

/-- The passes over `n` after a start that left the tables `t₀`. -/
def passSystem (env : Tables → Tables → Prop) (n : Id) (t₀ : Tables) : LTS PassState PassLabel where
  init s := s = ⟨t₀, 0⟩
  step s l s' := match l with
    | .between t' => env s.tables t' ∧ s' = ⟨t', s.fired⟩
    | .pass bootTime =>
      s' = ⟨passOver s.tables n bootTime, s.fired + if fires s.tables n then 1 else 0⟩

/-! ## What a pass keeps -/

/-- The icon's part of a synchronisation. -/
theorem syncIcon_keeps (t : Tables) (icon iconEnd : Id) (status : Status) (timeoutFlag : Bool) :
    (syncIconWith jaFlow t icon iconEnd status timeoutFlag).1.jobnets = t.jobnets ∧
      (syncIconWith jaFlow t icon iconEnd status timeoutFlag).1.jobs.map Job.shape = t.jobs.map Job.shape := by
  by_cases hs : status = .run
  · subst hs
    exact ⟨rfl, shape_updateJobs t _ _ fun _ => rfl⟩
  · have hst := syncIcon_steps t icon iconEnd hs timeoutFlag
    exact ⟨hst.sameNets.jobnets, shape_of_static hst.static⟩

theorem jobnet?_setJobnet {t : Tables} {n : Id} {r : Jobnet} (hr : t.jobnet? n = some r) (status : Status)
    (timeoutFlag : Bool) : (setJobnet t n status timeoutFlag).jobnet? n = some (r.sync status timeoutFlag) := by
  have hid := (Table.lookup_mem hr).2
  have hsync : ∀ r : Jobnet, (r.sync status timeoutFlag).innerJobnetId = r.innerJobnetId := by
    intro r
    unfold Jobnet.sync
    split <;> rfl
  rw [setJobnet, jobnet?_updateJobnets _ _ _ _ hsync, hr, Option.map_some]
  simp [hid]

/-- A committed synchronisation of `n`: its row has the status, the icons
their shape. -/
theorem sync_keeps {t t' : Tables} {n icon iconEnd : Id} {status : Status} {timeoutFlag : Bool} {r : Jobnet}
    (hi : icon ≠ 0) (hr : t.jobnet? n = some r)
    (h : jajobnetRunSyncWith jaFlow t n icon iconEnd status timeoutFlag = (t', .succeed)) :
    t'.jobnet? n = some (r.sync status timeoutFlag) ∧ t'.jobs.map Job.shape = t.jobs.map Job.shape := by
  obtain ⟨t₁, h₁, h₂⟩ := jajobnetRunSync_icon hi h
  obtain ⟨hn, hj⟩ := syncIcon_keeps t₁ icon iconEnd status timeoutFlag
  rw [h₂] at hn hj
  refine ⟨?_, hj.trans (congrArg _ h₁.jobs)⟩
  rw [Tables.jobnet?, hn, h₁.jobnets]
  exact jobnet?_setJobnet hr status timeoutFlag

/-- Without `continue_flag` an error does not reach `ja_flow`. -/
theorem jaSetRunerrWith_halts {t : Tables} {i : Id} (hc : continues t i = false)
    (flow flow' : Tables → Tables × Ret) (st : Int) :
    jaSetRunerrWith flow t i st = jaSetRunerrWith flow' t i st := by
  unfold jaSetRunerrWith
  rw [show jaCleanValueAfter t i = ((jaCleanValueAfter t i).1, .succeed) from rfl, andThen_succeed,
    andThen_succeed]
  have hlog := jaJoblog_status (jaCleanValueAfter t i).1 .jobErrEnd 0 i
  cases hl : jaJoblog (jaCleanValueAfter t i).1 .jobErrEnd 0 i with
  | mk t₁ r =>
    cases r with
    | fail => rfl
    | succeed =>
      rw [hl] at hlog
      have hrow : t₁.job? i = t.job? i := by
        rw [Tables.job?, Tables.job?, hlog.jobs]
        rfl
      have hf : ((t₁.job? i).map Job.continueFlag).getD false = false := by rw [hrow]; exact hc
      simp only [andThen_succeed, hf, true_or, if_true]

/-- `ja_flow` is only reached by passing on END, or RUNERR to a continuing
icon. -/
theorem reachesFlow_decision {t : Tables} {n icon : Id} {status : Status} {timeoutFlag : Bool}
    (h : reachesFlow t n icon status timeoutFlag) :
    ∃ tf, decision t n status timeoutFlag = .renew .ended tf ∨
      (decision t n status timeoutFlag = .renew .runErr tf ∧ continues t icon) := by
  simp only [reachesFlow, decide_eq_true_eq] at h
  obtain ⟨hf, hs⟩ := h
  -- the branches that do not call `ja_flow` give one result
  have hcontra : ∀ iconEnd s tf, s ≠ .ended → (s = .runErr → continues t icon = false) →
      (jajobnetRunSyncWith (fun t _ _ _ => (t, .fail)) t n icon iconEnd s tf).2 = .fail →
      (jajobnetRunSyncWith (fun t _ _ _ => (t, .succeed)) t n icon iconEnd s tf).2 = .succeed → False := by
    intro iconEnd s tf hne hrun h1 h2
    have heq : jajobnetRunSyncWith (fun t _ _ _ => (t, .fail)) t n icon iconEnd s tf =
        jajobnetRunSyncWith (fun t _ _ _ => (t, .succeed)) t n icon iconEnd s tf := by
      unfold jajobnetRunSyncWith
      cases hsync : syncJobnet t n s tf with
      | mk t₁ r =>
        cases r with
        | fail => rfl
        | succeed =>
          rw [andThen_succeed, andThen_succeed]
          split
          · rfl
          · cases s with
            | ended => exact absurd rfl hne
            | runErr =>
              have hjobs := (syncJobnet_spec hsync).jobs
              have hc : continues t₁ icon = false := by
                rw [continues, Tables.job?, hjobs]
                exact hrun rfl
              simp only [syncIconWith]
              exact jaSetRunerrWith_halts hc _ _ 2
            | begin | ready | run | endErr | abort => rfl
    rw [heq, h2] at h1
    cases h1
  unfold decision
  unfold jajobnetRunWith at hf hs
  cases hcount : countJobs t n with
  | none =>
    simp only [hcount] at hf hs
    exact (hcontra _ .endErr _ (by simp) (by simp) hf hs).elim
  | some c =>
    simp only [hcount] at hf hs ⊢
    cases hd : runDecision c status timeoutFlag with
    | error =>
      simp only [hd] at hf hs
      exact (hcontra _ .endErr _ (by simp) (by simp) hf hs).elim
    | keep =>
      simp only [hd] at hf
      cases hf
    | renew s tf =>
      simp only [hd] at hf hs
      by_cases hend : s = .ended
      · exact ⟨tf, .inl (by rw [hend])⟩
      · by_cases hrun : s = .runErr ∧ continues t icon
        · exact ⟨tf, .inr ⟨by rw [hrun.1], hrun.2⟩⟩
        · refine (hcontra _ _ _ hend (fun he => ?_) hf hs).elim
          simpa [he] using hrun

/-! ## No error is passed on -/

/-- The icons of `n`, by shape. -/
def shapesOf (t : Tables) (n : Id) : List Job :=
  (t.jobs.map Job.shape).filter (·.innerJobnetId == n)

theorem shapesOf_eq (t : Tables) (n : Id) : shapesOf t n = (jobsOf t n).map Job.shape := by
  rw [shapesOf, jobsOf, List.filter_map]
  rfl

/-- No error of the sub-jobnet can be passed on to a continuing icon: the
icon does not continue, or the sub-jobnet cannot be in RUNERR. -/
def NoErrorPassedOn (t : Tables) (n icon : Id) : Prop :=
  continues t icon = false ∨ (jobsOf t n).countP (·.jobType = .startIcon) ≠ 1 ∨
    (jobsOf t n).countP (·.jobType = .endIcon) = 0 ∨ ∀ j ∈ jobsOf t n, j.continueFlag

theorem continues_shape {t t' : Tables} (h : t'.jobs.map Job.shape = t.jobs.map Job.shape) (icon : Id) :
    continues t' icon = continues t icon := by
  have hflag : ∀ o : Option Job, o.map Job.continueFlag = (o.map Job.shape).map Job.continueFlag := by
    intro o
    cases o <;> rfl
  rw [continues, continues, hflag, job?_shape h, ← hflag]

theorem jobsOf_all_congr {t t' : Tables} (h : t'.jobs.map Job.shape = t.jobs.map Job.shape) (n : Id)
    (ha : ∀ j ∈ jobsOf t n, j.continueFlag) : ∀ j ∈ jobsOf t' n, j.continueFlag := by
  intro j hj
  have hmem : j.shape ∈ (jobsOf t n).map Job.shape := by
    rw [← shapesOf_eq, shapesOf, ← h, ← shapesOf, shapesOf_eq]
    exact List.mem_map_of_mem hj
  obtain ⟨k, hk, hkj⟩ := List.mem_map.1 hmem
  rw [← (SameIcon.of_shape hkj).cont]
  exact ha k hk

theorem NoErrorPassedOn.congr {t t' : Tables} {n icon : Id} (h : t'.jobs.map Job.shape = t.jobs.map Job.shape)
    (hn : NoErrorPassedOn t n icon) : NoErrorPassedOn t' n icon := by
  have hs : (jobsOf t' n).map Job.shape = (jobsOf t n).map Job.shape := by
    rw [← shapesOf_eq, ← shapesOf_eq, shapesOf, shapesOf, h]
  have hcount : ∀ p : Job → Bool,
      (jobsOf t' n).countP (fun j => p j.shape) = (jobsOf t n).countP fun j => p j.shape := by
    intro p
    have := congrArg (List.countP p) hs
    rwa [List.countP_map, List.countP_map] at this
  rcases hn with hc | hstart | hend | hall
  · exact .inl ((continues_shape h icon).trans hc)
  · exact .inr (.inl ((hcount fun s => s.jobType = .startIcon).symm ▸ hstart))
  · exact .inr (.inr (.inl ((hcount fun s => s.jobType = .endIcon).trans hend)))
  · exact .inr (.inr (.inr (jobsOf_all_congr h n hall)))

/-- From RUN, no RUNERR is passed on when every icon of the sub-jobnet
continues. -/
theorem decision_no_runerr {t : Tables} {n : Id} {status : Status} {timeoutFlag tf : Bool}
    (h : decision t n status timeoutFlag = .renew .runErr tf) :
    (jobsOf t n).countP (·.jobType = .startIcon) = 1 ∧ (jobsOf t n).countP (·.jobType = .endIcon) ≠ 0 ∧
      (status ≠ .runErr → ∃ j ∈ jobsOf t n, j.continueFlag = false) := by
  unfold decision at h
  cases hcount : countJobs t n with
  | none => simp [hcount] at h
  | some c =>
    have hc := countJobs_spec hcount
    simp only [hcount] at h
    obtain ⟨hstart, hend, hs⟩ := runDecision_renew h
    have hcs := hc.start
    have hce := hc.ends
    have hcr := hc.runerr
    simp only [Nat.zero_add] at hcs hce hcr
    refine ⟨hcs ▸ hstart, hce ▸ hend, fun hne => ?_⟩
    rcases hs with ⟨hs, -⟩ | hs
    · cases hs
    unfold resetStatus at hs
    split at hs
    · rename_i hpos
      rw [hcr] at hpos
      obtain ⟨j, hj, he⟩ := List.countP_pos_iff.1 hpos.2
      simp only [Job.errored, decide_eq_true_eq] at he
      exact ⟨j, hj, he.2⟩
    · split at hs
      · cases hs
      · exact absurd hs.symm hne

/-! ## One pass -/

/-- What a pass over `n` with row `r` leaves: the status of the row, and
whether `ja_flow` was called. -/
inductive PassOutcome (t : Tables) (n : Id) (r : Jobnet) : Status → Bool → Prop where
  | kept : PassOutcome t n r r.status false
  | started {s : Status} : r.status = .ready → s = .run ∨ s = .endErr → PassOutcome t n r s false
  | passedOn {s : Status} {tf fired : Bool} : r.status = .run ∨ r.status = .runErr →
      decision t n r.status r.timeoutFlag = .renew s tf →
      (fired → s = .ended ∨ s = .runErr ∧ continues t r.innerJobId) → PassOutcome t n r s fired
  | error : r.status = .run ∨ r.status = .runErr →
      decision t n r.status r.timeoutFlag = .error → PassOutcome t n r .endErr false

theorem jajobnetReady_keeps {t t' : Tables} {n : Id} {bootTime : Text} {r : Jobnet}
    (hr : t.jobnet? n = some r) (h : jajobnetReady t n bootTime = (t', .succeed)) :
    t'.jobs.map Job.shape = t.jobs.map Job.shape ∧
      ∃ s, (s = .run ∨ s = .endErr) ∧ t'.jobnet? n = some { r with status := s } := by
  rcases jajobnetReady_spec h with hs | ⟨start, -, -, -, hs⟩
  · refine ⟨by rw [hs.jobs]; rfl, .endErr, .inr rfl, ?_⟩
    rw [Tables.jobnet?, hs.jobnets]
    exact jobnet?_jaSetStatusJobnet hr .endErr
  · refine ⟨?_, .run, .inl rfl, ?_⟩
    · rw [hs.jobs]
      exact shape_updateJobs _ _ _ fun _ => rfl
    · rw [Tables.jobnet?, hs.jobnets]
      exact jobnet?_jaSetStatusJobnet hr .run

theorem jajobnetRun_outcome {t t' : Tables} {n : Id} {r : Jobnet} (hr : t.jobnet? n = some r)
    (hi : r.innerJobId ≠ 0) (ha : r.status = .run ∨ r.status = .runErr)
    (h : jajobnetRun t n r.innerJobId r.status r.timeoutFlag = (t', .succeed)) :
    t'.jobs.map Job.shape = t.jobs.map Job.shape ∧ ∃ r', t'.jobnet? n = some r' ∧
      r'.innerJobId = r.innerJobId ∧
      PassOutcome t n r r'.status (reachesFlow t n r.innerJobId r.status r.timeoutFlag) := by
  have hflow : ∀ {d : RunDecision}, decision t n r.status r.timeoutFlag = d →
      reachesFlow t n r.innerJobId r.status r.timeoutFlag →
      ∃ tf, d = .renew .ended tf ∨ d = .renew .runErr tf ∧ continues t r.innerJobId := by
    rintro d rfl hf
    exact reachesFlow_decision hf
  have hnone : ∀ {d : RunDecision}, decision t n r.status r.timeoutFlag = d → (d = .keep ∨ d = .error) →
      reachesFlow t n r.innerJobId r.status r.timeoutFlag = false := by
    intro d hd hne
    by_contra hf
    obtain ⟨tf, h | ⟨h, -⟩⟩ := hflow hd (Bool.eq_true_of_not_eq_false hf) <;> rcases hne with rfl | rfl <;> cases h
  rcases jajobnetRunWith_cases jaFlow t n r.innerJobId r.status r.timeoutFlag with
    ⟨hd, he⟩ | ⟨iconEnd, s, tf, hd, he⟩
  · obtain rfl : t = t' := congrArg Prod.fst (he.symm.trans h)
    refine ⟨rfl, r, hr, rfl, ?_⟩
    rw [hnone hd (.inl rfl)]
    exact .kept
  · obtain ⟨hrow, hshape⟩ := sync_keeps hi hr (he.symm.trans h)
    have hsync : (r.sync s tf).status = s ∧ (r.sync s tf).innerJobId = r.innerJobId := by
      unfold Jobnet.sync
      split
      · exact ⟨rfl, rfl⟩
      · exact ⟨rfl, rfl⟩
    refine ⟨hshape, r.sync s tf, hrow, hsync.2, ?_⟩
    rw [hsync.1]
    rcases hd with hd | ⟨hd, rfl, -⟩
    · refine .passedOn ha hd fun hf => ?_
      obtain ⟨tf', h1 | ⟨h1, h2⟩⟩ := hflow hd hf
      · exact .inl (RunDecision.renew.inj h1).1
      · exact .inr ⟨(RunDecision.renew.inj h1).1, h2⟩
    · rw [hnone hd (.inr rfl)]
      exact .error ha hd

theorem passOver_outcome {t : Tables} {n : Id} {r : Jobnet} (hr : t.jobnet? n = some r) (hi : r.innerJobId ≠ 0)
    (bootTime : Text) :
    (passOver t n bootTime).jobs.map Job.shape = t.jobs.map Job.shape ∧
      ∃ r', (passOver t n bootTime).jobnet? n = some r' ∧ r'.innerJobId = r.innerJobId ∧
        PassOutcome t n r r'.status (fires t n) := by
  have hkeep : ∀ {t' : Tables}, t' = t → fires t n = false → t'.jobs.map Job.shape = t.jobs.map Job.shape ∧
      ∃ r', t'.jobnet? n = some r' ∧ r'.innerJobId = r.innerJobId ∧
        PassOutcome t n r r'.status (fires t n) := by
    rintro t' rfl hf
    exact ⟨rfl, r, hr, rfl, hf ▸ .kept⟩
  unfold passOver
  simp only [hr]
  cases hs : r.status with
  | ready =>
    have hf : fires t n = false := by simp [fires, hr, hs]
    simp only [processJajobnetRow]
    cases hready : jajobnetReady t n bootTime with
    | mk t₁ ret =>
      cases ret with
      | fail => exact hkeep rfl hf
      | succeed =>
        obtain ⟨hshape, s, hs', hrow⟩ := jajobnetReady_keeps hr hready
        refine ⟨hshape, _, hrow, rfl, ?_⟩
        rw [hf]
        exact .started hs hs'
  | run | runErr =>
    have ha : r.status = .run ∨ r.status = .runErr := by simp [hs]
    simp only [processJajobnetRow, ← hs]
    cases hrun : jajobnetRun t n r.innerJobId r.status r.timeoutFlag with
    | mk t₁ ret =>
      cases ret with
      | fail => exact hkeep rfl (by simp [fires, hr, hrun])
      | succeed =>
        have hf : fires t n = reachesFlow t n r.innerJobId r.status r.timeoutFlag := by
          simp [fires, hr, hrun, ha]
        rw [hf]
        exact jajobnetRun_outcome hr hi ha hrun
  | begin | ended | endErr | abort => exact hkeep rfl (by simp [fires, hr, hs])

/-! ## At most one firing -/

/-- While no error can be passed on, an active sub-jobnet has not fired. -/
structure Once (n icon : Id) (t₀ : Tables) (s : PassState) : Prop where
  shape : s.tables.jobs.map Job.shape = t₀.jobs.map Job.shape
  row : ∃ r, s.tables.jobnet? n = some r ∧ r.innerJobId = icon ∧
    (r.status = .ready ∨ r.status = .run ∨ r.status = .runErr → s.fired = 0) ∧
    ((∀ j ∈ jobsOf t₀ n, j.continueFlag) → r.status ≠ .runErr)
  once : s.fired ≤ 1

theorem Once.pass {n icon : Id} {t₀ : Tables} {s : PassState} (hi : icon ≠ 0) (hn : NoErrorPassedOn t₀ n icon)
    (h : Once n icon t₀ s) (bootTime : Text) :
    Once n icon t₀ ⟨passOver s.tables n bootTime, s.fired + if fires s.tables n then 1 else 0⟩ := by
  obtain ⟨r, hr, rfl, hactive, hall⟩ := h.row
  obtain ⟨hshape, r', hr', hicon, hout⟩ := passOver_outcome hr hi bootTime
  have hn' := hn.congr h.shape
  -- a RUNERR passed on needs an icon that does not continue
  have hrunerr : ∀ {tf}, decision s.tables n r.status r.timeoutFlag = .renew .runErr tf →
      ¬(∀ j ∈ jobsOf t₀ n, j.continueFlag) := by
    intro tf hd hc
    obtain ⟨-, -, hex⟩ := decision_no_runerr hd
    obtain ⟨j, hj, hf⟩ := hex (hall hc)
    rw [jobsOf_all_congr h.shape n hc j hj] at hf
    cases hf
  -- no error fires
  have hnofire : ∀ {tf}, decision s.tables n r.status r.timeoutFlag = .renew .runErr tf →
      ¬continues s.tables r.innerJobId := by
    intro tf hd hc
    obtain ⟨hstart, hend, -⟩ := decision_no_runerr hd
    rcases hn' with h1 | h1 | h1 | h1
    · rw [h1] at hc
      cases hc
    · exact h1 hstart
    · exact hend h1
    · exact hrunerr hd (jobsOf_all_congr h.shape.symm n h1)
  have key : ∀ {s' : Status} {fired : Bool}, PassOutcome s.tables n r s' fired →
      (s' = .ready ∨ s' = .run ∨ s' = .runErr → s.fired + (if fired then 1 else 0) = 0) ∧
      ((∀ j ∈ jobsOf t₀ n, j.continueFlag) → s' ≠ .runErr) ∧ s.fired + (if fired then 1 else 0) ≤ 1 := by
    intro s' fired hout
    cases hout with
    | kept => exact ⟨hactive, hall, h.once⟩
    | started hready hs' =>
      refine ⟨fun _ => hactive (.inl hready), fun _ => ?_, h.once⟩
      rcases hs' with rfl | rfl <;> decide
    | passedOn hrun hd hfired =>
      have h0 := hactive (.inr hrun)
      rw [h0, Nat.zero_add]
      refine ⟨fun hs' => ?_, fun hc he => hrunerr (he ▸ hd) hc, by split <;> omega⟩
      rw [if_neg]
      intro hf
      rcases hfired hf with rfl | ⟨rfl, hc⟩
      · rcases hs' with hs' | hs' | hs' <;> cases hs'
      · exact hnofire hd hc
    | error =>
      refine ⟨fun hs' => ?_, fun _ => nofun, h.once⟩
      rcases hs' with hs' | hs' | hs' <;> cases hs'
  obtain ⟨h1, h2, h3⟩ := key hout
  exact ⟨hshape.trans h.shape, ⟨r', hr', hicon, h1, h2⟩, h3⟩

theorem once_inductive {env : Tables → Tables → Prop} {n icon : Id} {t₀ : Tables} {r : Jobnet}
    (henv : Environment n env) (hi : icon ≠ 0) (hn : NoErrorPassedOn t₀ n icon)
    (hr : t₀.jobnet? n = some r) (hicon : r.innerJobId = icon) (hs : r.status = .ready) :
    (passSystem env n t₀).Inductive (Once n icon t₀) where
  init := by
    rintro s rfl
    exact ⟨rfl, ⟨r, hr, hicon, fun _ => rfl, fun _ => by rw [hs]; decide⟩, Nat.zero_le 1⟩
  step := by
    rintro s l s' h hst
    cases l with
    | between t' =>
      obtain ⟨hb, rfl⟩ := hst
      obtain ⟨r, hr, hrow⟩ := h.row
      exact ⟨(henv.shape _ _ hb).trans h.shape, ⟨r, (henv.row _ _ hb).trans hr, hrow⟩, h.once⟩
    | pass bootTime =>
      obtain rfl := hst
      exact h.pass hi hn bootTime

/-! ## An error passed on again and again -/

/-- What logging an icon needs does not depend on the statuses. -/
theorem Loggable.congr {t t' : Tables} {i : Id} (h : Loggable t i)
    (hj : t'.jobs.map Job.shape = t.jobs.map Job.shape)
    (hn : t'.jobnets.map Jobnet.innerJobnetId = t.jobnets.map Jobnet.innerJobnetId)
    (ha : t'.agentless = t.agentless) (hv : t'.after = t.after) : Loggable t' i := by
  obtain ⟨j, hready, rfl⟩ := h.ready
  have hrow := job?_shape hj j.innerJobId
  rw [hready.row, Option.map_some, Option.map_eq_some_iff] at hrow
  obtain ⟨j', hj', he⟩ := hrow
  obtain ⟨hid, hnet, -, hty, -, -⟩ := SameIcon.of_shape he
  refine ⟨h.id, ⟨j', ⟨hid ▸ hj', ?_, ?_⟩, hid⟩, hv ▸ h.afterSeq⟩
  · obtain ⟨m, hm, hmid⟩ := hready.jobnet
    have : m.innerJobnetId ∈ t'.jobnets.map Jobnet.innerJobnetId := hn ▸ List.mem_map_of_mem hm
    obtain ⟨m', hm', he⟩ := List.mem_map.1 this
    exact ⟨m', hm', by rw [he, hmid, hnet]⟩
  · rw [ha, hty, hid]
    exact hready.agentless

/-- `ja_set_runerr` logs and then goes on to its continuation, if the icon
continues. -/
theorem jaSetRunerrWith_eq {t : Tables} {i : Id} (h : Loggable t i) (st : Int)
    (hv : st = -99 ∨ (t.job? i).map Job.jobType = some .jobnet) :
    ∃ t₁, StatusEq t t₁ ∧ Loggable t₁ i ∧ ∀ flow, jaSetRunerrWith flow t i st =
      if continues t i = false ∨ st = -99 then jaSetStatusJob t₁ i .runErr
      else andThen (flow t₁) fun t => jaSetStatusJob t i .runErr := by
  obtain ⟨t₁, h₁, hst, ha⟩ := h.log .jobErrEnd
  refine ⟨t₁, hst, h.of_steps (frame_steps hst) (ha ▸ cleanRows_sublist _ i), fun flow => ?_⟩
  have hrow : t₁.job? i = t.job? i := by rw [Tables.job?, Tables.job?, hst.jobs]
  obtain ⟨j, hj, rfl⟩ := h.ready
  change andThen (andThen (jaCleanValueAfter t j.innerJobId) fun t => jaJoblog t .jobErrEnd 0 j.innerJobId) _ = _
  rw [h₁, andThen_succeed]
  simp only [hrow, continues, hj.row, Option.map_some, Option.getD_some, Option.some.injEq] at hv ⊢
  rcases hv with rfl | hv
  · simp [writeIconStatus]
  · simp [writeIconStatus, hv]

theorem Loggable.setStatusJob {t : Tables} {i : Id} (h : Loggable t i) (k : Id) (s : Status) :
    Loggable (jaSetStatusJob t k s).1 i :=
  h.congr (shape_updateJobs t _ _ fun _ => rfl) rfl rfl rfl

/-- `ja_flow` does not fail on an icon that can be logged. -/
theorem jaFlow_ok {t : Tables} {i : Id} (h : Loggable t i) (type : FlowType) :
    ∃ t', jaFlow t i type false = (t', .succeed) ∧ Loggable t' i := by
  have hc := h.of_steps (frame_steps (jaCleanValueAfter_status t i)) (cleanRows_sublist _ i)
  by_cases hf : flowsFrom t i = []
  · rw [jaFlow_no_flows hf]
    exact jaSetEnderr_ok hc
  by_cases ho : FlowOpen t i
  · rw [jaFlow_running ho]
    obtain ⟨f, fs, hfs, hs⟩ := ho
    have hloop : ∃ t', flowLoop i type (flowsFrom t i) (jaCleanValueAfter t i).1 = (t', .succeed) ∧ Loggable t' i :=
      flowLoop_ok hc ⟨f, fs, hfs, hs⟩ fun g hg => hg
    obtain ⟨t₁, h₁, hl₁⟩ := hloop
    exact ⟨t₁, by rw [h₁]; rfl, hl₁⟩
  · obtain ⟨t₁, -, hl₁, he⟩ := jaSetRunerrWith_eq hc (-99) (.inl rfl)
    rw [jaFlow_not_running hf ho, jaSetRunerr, he, if_pos (.inr rfl)]
    exact ⟨_, rfl, hl₁.setStatusJob i .runErr⟩

/-- A message about a stored jobnet is always logged. -/
theorem jaJoblog_jobnet {t : Tables} {n : Id} {r : Jobnet} (hr : t.jobnet? n = some r) (hn : n ≠ 0)
    (msg : LogMsg) : (jaJoblog t msg n 0).2 = .succeed := by
  obtain ⟨hmem, hid⟩ := Table.lookup_mem hr
  have hrows : ∀ t' : Tables, t'.jobnets = t.jobnets → joblogRows t' msg 0 n 0 ≠ [] := by
    intro t' ht
    refine List.ne_nil_of_mem (a := jobnetLogRow msg r) ?_
    simp only [joblogRows, ht]
    exact List.mem_map_of_mem (List.mem_filter.2 ⟨hmem, by simpa using hid⟩)
  simp only [jaJoblog, hn, false_and, if_false, joblogSqlFlag, if_true]
  split
  · rename_i hnil
    refine absurd hnil (hrows _ ?_)
    split <;> rfl
  · rfl

/-- Tables in which the sub-jobnet `n` can pass an error on to its icon,
which continues. -/
structure Erring (t : Tables) (n icon : Id) : Prop where
  log : Loggable t icon
  type : (t.job? icon).map Job.jobType = some .jobnet
  passedOn : ¬NoErrorPassedOn t n icon

theorem Erring.congr {t t' : Tables} {n icon : Id} (h : Erring t n icon)
    (hs : t'.jobs.map Job.shape = t.jobs.map Job.shape) (hl : Loggable t' icon) : Erring t' n icon := by
  refine ⟨hl, ?_, fun hn => h.passedOn (hn.congr hs.symm)⟩
  have htype : ∀ o : Option Job, o.map Job.jobType = (o.map Job.shape).map Job.jobType := by
    intro o
    cases o <;> rfl
  rw [htype, job?_shape hs, ← htype]
  exact h.type

theorem readyValues_after (t : Tables) (n : Jobnet) (bootTime : Text) :
    (readyValues t n bootTime).after = t.after := by
  have hset : ∀ (t : Tables) (name : String) (value : Text),
      (jaSetValueJobnetBefore t n.innerJobnetId name value).1.after = t.after := by
    intro t name value
    unfold jaSetValueJobnetBefore
    split <;> rfl
  unfold readyValues
  dsimp only
  split
  · split <;> simp only [hset]
  · simp only [hset]

/-- With one START icon the start is committed. -/
theorem jajobnetReady_ok {t : Tables} {n : Id} {r : Jobnet} (hn : n ≠ 0) (hr : t.jobnet? n = some r)
    (hstart : (jobsOf t n).countP (·.jobType = .startIcon) = 1) (bootTime : Text) :
    ∃ t' start, jajobnetReady t n bootTime = (t', .succeed) ∧ t'.after = t.after ∧
      StatusEq (jaSetStatusJob (jaSetStatusJobnet t n .run).1 start .ready).1 t' := by
  let t₁ := (jaCleanValueJobnetBefore (readyValues t r bootTime) n).1
  have hst₁ : StatusEq t t₁ :=
    (readyValues_status t r bootTime).trans ⟨rfl, rfl, rfl, rfl, rfl, rfl⟩
  have hr₁ : t₁.jobnet? n = some r := by
    rw [Tables.jobnet?, hst₁.jobnets]
    exact hr
  let t₂ := (jaJoblog t₁ .jobnetStart n 0).1
  have hlog : jaJoblog t₁ .jobnetStart n 0 = (t₂, .succeed) := Prod.ext rfl (jaJoblog_jobnet hr₁ hn _)
  have hst₂ : StatusEq t t₂ := hst₁.trans (jaJoblog_status t₁ _ _ _)
  have hrun : jaSetRunJobnet (readyValues t r bootTime) n = ((jaSetStatusJobnet t₂ n .run).1, .succeed) := by
    change andThen (jaJoblog t₁ .jobnetStart n 0) _ = _
    rw [hlog]
    rfl
  obtain ⟨start, hfilter⟩ : ∃ start, (jaSetStatusJobnet t₂ n .run).1.jobs.filter
      (fun j => j.innerJobnetId == n && j.jobType == .startIcon) = [start] := by
    have hjobs : (jaSetStatusJobnet t₂ n .run).1.jobs = t.jobs := hst₂.jobs
    rw [hjobs, ← List.length_eq_one_iff, ← List.countP_eq_length_filter, ← hstart, jobsOf, List.countP_filter]
    refine congrArg (fun p => List.countP p t.jobs) (funext fun j => ?_)
    by_cases h1 : j.innerJobnetId = n <;> by_cases h2 : j.jobType = .startIcon <;> simp [h1, h2]
  refine ⟨(jaSetStatusJob (jaValueBeforeJobnetOut (jaSetStatusJobnet t₂ n .run).1 n start.innerJobId).1
    start.innerJobId .ready).1, start.innerJobId, ?_, ?_, ?_⟩
  · unfold jajobnetReady
    simp only [hr]
    rw [hrun, andThen_succeed, hfilter]
    rfl
  · change t₂.after = t.after
    rw [show t₂.after = t₁.after from jaJoblog_after _ _ _ _]
    exact readyValues_after t r bootTime
  · have hout : StatusEq (jaSetStatusJobnet t₂ n .run).1
        (jaValueBeforeJobnetOut (jaSetStatusJobnet t₂ n .run).1 n start.innerJobId).1 :=
      ⟨rfl, rfl, rfl, rfl, rfl, rfl⟩
    exact ((hst₂.updateJobnets _ _).trans hout).updateJobs _ _

/-- The start of such a sub-jobnet is committed. -/
theorem Erring.start {t : Tables} {n icon : Id} {r : Jobnet} (h : Erring t n icon) (hn : n ≠ 0)
    (hr : t.jobnet? n = some r) (hs : r.status = .ready) (bootTime : Text) :
    (passOver t n bootTime).jobnet? n = some { r with status := .run } ∧
      Erring (passOver t n bootTime) n icon := by
  have hstart : (jobsOf t n).countP (·.jobType = .startIcon) = 1 := by
    by_contra hc
    exact h.passedOn (.inr (.inl hc))
  obtain ⟨t', start, hready, ha, hst⟩ := jajobnetReady_ok hn hr hstart bootTime
  have hpass : passOver t n bootTime = t' := by
    simp only [passOver, hr, hs, processJajobnetRow, hready, commit]
  have hshape : t'.jobs.map Job.shape = t.jobs.map Job.shape := by
    rw [hst.jobs]
    exact shape_updateJobs _ _ _ fun _ => rfl
  rw [hpass]
  refine ⟨?_, h.congr hshape (h.log.congr hshape ?_ hst.agentless ha)⟩
  · rw [Tables.jobnet?, hst.jobnets]
    exact jobnet?_jaSetStatusJobnet hr .run
  · rw [hst.jobnets]
    exact Table.map_update _ _ _ _ fun _ => rfl

/-- Every icon of `n` that does not continue in RUNERR, the timeout flags
other than the one the row has stored. -/
def errIcons (t : Tables) (n : Id) (timeoutFlag : Bool) : Tables :=
  setIcons t n fun j => (if j.continueFlag then .begin else .runErr, !timeoutFlag)

theorem setIcons_shape (t : Tables) (n : Id) (g : Job → Status × Bool) :
    (setIcons t n g).jobs.map Job.shape = t.jobs.map Job.shape :=
  shape_updateJobs t _ _ fun _ => rfl

theorem mem_errIcons {t : Tables} {n : Id} {timeoutFlag : Bool} {j : Job}
    (hj : j ∈ jobsOf (errIcons t n timeoutFlag) n) :
    j.status = (if j.continueFlag then .begin else .runErr) ∧ j.timeoutFlag = !timeoutFlag := by
  obtain ⟨hmem, hn⟩ := List.mem_filter.1 hj
  obtain ⟨k, -, rfl⟩ := Table.mem_update.1 hmem
  by_cases hk : k.innerJobnetId = n
  · simp [hk]
  · simp [hk] at hn

/-- With such icons RUNERR is passed on, from RUN and again from RUNERR. -/
theorem decision_errIcons {t : Tables} {n icon : Id} (h : ¬NoErrorPassedOn t n icon) {status : Status}
    (hs : status = .run ∨ status = .runErr) (timeoutFlag : Bool) :
    ∃ c, countJobs (errIcons t n timeoutFlag) n = some c ∧
      runDecision c status timeoutFlag = .renew .runErr !timeoutFlag := by
  have h' : ¬NoErrorPassedOn (errIcons t n timeoutFlag) n icon := fun hc =>
    h (hc.congr (setIcons_shape t n _).symm)
  simp only [NoErrorPassedOn, not_or, ne_eq, not_not, not_forall] at h'
  obtain ⟨-, hstart, hend, k, hk, hkc⟩ := h'
  have hmem := fun j (hj : j ∈ jobsOf (errIcons t n timeoutFlag) n) => mem_errIcons hj
  generalize hjs : jobsOf (errIcons t n timeoutFlag) n = js at hstart hend hk hmem
  obtain ⟨c, hc⟩ : ∃ c, js.foldlM RunCounts.add {} = some c := by
    refine foldlM_add_some (fun j hj => ?_) rfl
    rw [(hmem j hj).1]
    split <;> exact ⟨nofun, nofun⟩
  have hcount := foldlM_add_spec hc
  refine ⟨c, by rw [countJobs, hjs, hc], ?_⟩
  have hstarts : c.startIcons = 1 := by rw [hcount.start, hstart]
  have hends : c.endIcons ≠ 0 := by rw [hcount.ends, Nat.zero_add]; exact hend
  have hrunerr : 0 < c.runerrCnt := by
    rw [hcount.runerr, Nat.zero_add]
    refine List.countP_pos_iff.2 ⟨k, hk, ?_⟩
    simp [Job.errored, (hmem k hk).1, hkc]
  have hendsEnd : c.endIconsEnd = 0 := by
    rw [hcount.endsEnd, Nat.zero_add]
    refine List.countP_eq_zero.2 fun j hj => ?_
    rw [(hmem j hj).1]
    split <;> simp
  have htimeout : decide (0 < c.timeoutCnt) = !timeoutFlag := by
    rw [hcount.timeout, Nat.zero_add]
    cases timeoutFlag with
    | true =>
      have h0 : js.countP Job.timeoutFlag = 0 := List.countP_eq_zero.2 fun j hj => by simp [(hmem j hj).2]
      rw [h0]
      rfl
    | false => exact decide_eq_true (List.countP_pos_iff.2 ⟨k, hk, (hmem k hk).2⟩)
  have hended : c.count ≠ c.endCnt := by
    have := hcount.ended
    simp only [Nat.zero_add, Nat.add_zero] at this
    omega
  have hreset : resetStatus c status = .runErr := by
    have h0 : c.runerrCnt ≠ 0 := by omega
    rcases hs with rfl | rfl <;> simp [resetStatus, hrunerr, h0]
  simp [runDecision, hstarts, hends, hendsEnd, hended, hreset, htimeout]

/-- Passing RUNERR on to a continuing icon ends in `ja_flow`. -/
theorem Erring.sync {t : Tables} {n icon : Id} (h : Erring t n icon) (iconEnd : Id) (timeoutFlag : Bool) :
    ∃ t₁, StatusEq (jaSetStatusJobnet t n .runErr).1 t₁ ∧ Loggable t₁ icon ∧
      ∀ flow : FlowFn, jajobnetRunSyncWith flow t n icon iconEnd .runErr timeoutFlag =
        andThen (flow t₁ icon .normal false) fun t => jaSetStatusJob t icon .runErr := by
  let t' := (jaSetRunerrJobnet t n).1
  have hst : StatusEq (jaSetStatusJobnet t n .runErr).1 t' := ⟨rfl, rfl, rfl, rfl, rfl, rfl⟩
  have h' : Erring t' n icon :=
    h.congr rfl (h.log.congr rfl (Table.map_update _ _ _ _ fun _ => rfl) rfl rfl)
  have hcont : ¬(continues t' icon = false ∨ (2 : Int) = -99) := by
    rintro (hc | hc)
    · exact h'.passedOn (.inl hc)
    · exact absurd hc (by decide)
  obtain ⟨t₁, hst₁, hl₁, he⟩ := jaSetRunerrWith_eq h'.log 2 (.inr h'.type)
  refine ⟨t₁, hst.trans hst₁, hl₁, fun flow => ?_⟩
  rw [jajobnetRunSyncWith, show syncJobnet t n .runErr timeoutFlag = (t', .succeed) from rfl, andThen_succeed,
    if_neg h.log.id]
  exact (he fun t => flow t icon .normal false).trans (if_neg hcont)

/-- The pass over such icons calls `ja_flow`, is committed, and leaves the
stored timeout flag as it was. -/
theorem Erring.pass {t : Tables} {n icon : Id} {r : Jobnet} (h : Erring t n icon)
    (hr : t.jobnet? n = some r) (hicon : r.innerJobId = icon) (hs : r.status = .run ∨ r.status = .runErr)
    (bootTime : Text) :
    fires (errIcons t n r.timeoutFlag) n ∧
      (passOver (errIcons t n r.timeoutFlag) n bootTime).jobnet? n = some { r with status := .runErr } ∧
      Erring (passOver (errIcons t n r.timeoutFlag) n bootTime) n icon := by
  subst hicon
  let t' := errIcons t n r.timeoutFlag
  have hshape : t'.jobs.map Job.shape = t.jobs.map Job.shape := setIcons_shape t n _
  have h' : Erring t' n r.innerJobId := h.congr hshape (h.log.congr hshape rfl rfl rfl)
  have hr' : t'.jobnet? n = some r := hr
  obtain ⟨c, hc, hd⟩ := decision_errIcons h.passedOn hs r.timeoutFlag
  obtain ⟨t₁, hst₁, hl₁, hsync⟩ := h'.sync c.iconEndId !r.timeoutFlag
  have hrun : ∀ flow : FlowFn, jajobnetRunWith flow t' n r.innerJobId r.status r.timeoutFlag =
      andThen (flow t₁ r.innerJobId .normal false) fun t => jaSetStatusJob t r.innerJobId .runErr := by
    intro flow
    simp only [jajobnetRunWith, t', hc, hd]
    exact hsync flow
  obtain ⟨t₂, hflow, hl₂⟩ := jaFlow_ok hl₁ .normal
  have hres : jajobnetRun t' n r.innerJobId r.status r.timeoutFlag =
      ((jaSetStatusJob t₂ r.innerJobId .runErr).1, .succeed) := by
    rw [jajobnetRun, hrun, hflow, andThen_succeed]
    rfl
  have hpass : passOver t' n bootTime = (jaSetStatusJob t₂ r.innerJobId .runErr).1 := by
    rw [passOver, hr']
    rcases hs with hs | hs
    · simp only [processJajobnetRow, hs] at hres ⊢
      rw [hres]
      rfl
    · simp only [processJajobnetRow, hs] at hres ⊢
      rw [hres]
      rfl
  have hsteps := jaFlow_steps t₁ r.innerJobId .normal false
  rw [hflow] at hsteps
  refine ⟨?_, ?_, ?_⟩
  · have hreach : reachesFlow t' n r.innerJobId r.status r.timeoutFlag := by
      simp only [reachesFlow, decide_eq_true_eq]
      exact ⟨by rw [hrun]; rfl, by rw [hrun]; rfl⟩
    change fires t' n = true
    simp [fires, hr', hs, hreach, hres]
  · change (passOver t' n bootTime).jobnet? n = _
    rw [hpass, Tables.jobnet?]
    change Table.lookup Jobnet.innerJobnetId n t₂.jobnets = _
    rw [hsteps.sameNets.jobnets, hst₁.jobnets]
    exact jobnet?_jaSetStatusJobnet hr' .runErr
  · change Erring (passOver t' n bootTime) n r.innerJobId
    rw [hpass]
    refine h'.congr ?_ (hl₂.setStatusJob _ _)
    have h1 : (jaSetStatusJob t₂ r.innerJobId .runErr).1.jobs.map Job.shape = t₂.jobs.map Job.shape :=
      shape_updateJobs t₂ _ _ fun _ => rfl
    rw [h1, shape_of_static hsteps.static, hst₁.jobs]
    rfl

/-- One more firing. -/
theorem Erring.again {env : Tables → Tables → Prop} {n icon : Id} {t t₀ : Tables} {r : Jobnet} {k : Nat}
    (henv : Environment n env) (h : Erring t n icon) (hr : t.jobnet? n = some r) (hicon : r.innerJobId = icon)
    (hs : r.status = .run ∨ r.status = .runErr) (hreach : (passSystem env n t₀).Reachable ⟨t, k⟩) :
    ∃ t', Erring t' n icon ∧ t'.jobnet? n = some { r with status := .runErr } ∧
      (passSystem env n t₀).Reachable ⟨t', k + 1⟩ := by
  obtain ⟨hf, hr', h'⟩ := h.pass hr hicon hs []
  have hbetween : (passSystem env n t₀).step ⟨t, k⟩ (.between (errIcons t n r.timeoutFlag))
      ⟨errIcons t n r.timeoutFlag, k⟩ := ⟨henv.icons t _, rfl⟩
  have hpass : (passSystem env n t₀).step ⟨errIcons t n r.timeoutFlag, k⟩ (.pass [])
      ⟨passOver (errIcons t n r.timeoutFlag) n [], k + 1⟩ := by
    simp only [passSystem, hf, if_true]
  exact ⟨_, h', hr', hreach.reaches (.trans (.single hbetween) (.single hpass))⟩

/-! ## Exactly when -/

/-- A started icon: the sub-jobnet is READY. -/
theorem jarunIconJobnet_ready {t : Tables} {icon : Id} {link : IconJobnet} {r : Jobnet}
    (hl : t.iconJobnet? icon = some link) (hr : t.jobnet? link.linkInnerJobnetId = some r) :
    (jarunIconJobnet t icon).2 = .succeed ∧
      (jarunIconJobnet t icon).1.jobnet? link.linkInnerJobnetId = some { r with status := .ready } ∧
      (jarunIconJobnet t icon).1.jobs = t.jobs ∧ (jarunIconJobnet t icon).1.after = t.after ∧
      (jarunIconJobnet t icon).1.agentless = t.agentless ∧
      (jarunIconJobnet t icon).1.jobnets.map Jobnet.innerJobnetId = t.jobnets.map Jobnet.innerJobnetId := by
  have hrow := jobnet?_jaSetStatusJobnet hr .ready
  have hrun : jarunIconJobnet t icon = jaValueBeforeJobnetIn
      (jaSetStatusJobnet t link.linkInnerJobnetId .ready).1 icon link.linkInnerJobnetId := by
    have hget : jaGetStatusJobnet (jaValueBeforeJobnetIn (jaSetStatusJobnet t link.linkInnerJobnetId .ready).1 icon
        link.linkInnerJobnetId).1 link.linkInnerJobnetId = some .ready := by
      change ((jaSetStatusJobnet t link.linkInnerJobnetId .ready).1.jobnet? _).map Jobnet.status = _
      rw [hrow]
      rfl
    simp only [jarunIconJobnet, hl]
    exact if_neg (not_not.2 hget)
  rw [hrun]
  exact ⟨rfl, hrow, rfl, rfl, rfl, Table.map_update _ _ _ _ fun _ => rfl⟩

/-- **When the flows of a jobnet icon fire once.** On every table state of
the schema, for every jobnet icon with its sub-jobnet, started by
`jarun_icon_jobnet`, and every run of passes over the sub-jobnet: at most
one pass calls `ja_flow` on the icon, if and only if no error of the
sub-jobnet can be passed on to a continuing icon. -/
theorem icon_fires_once_iff (t : Tables) (icon : Job) (link : IconJobnet) (r : Jobnet)
    (env : Tables → Tables → Prop) (hs : Schema t) (hicon : icon ∈ t.jobs) (htype : icon.jobType = .jobnet)
    (hl : t.iconJobnet? icon.innerJobId = some link) (hr : t.jobnet? link.linkInnerJobnetId = some r)
    (hback : r.innerJobId = icon.innerJobId) (hn : link.linkInnerJobnetId ≠ 0)
    (henv : Environment link.linkInnerJobnetId env) :
    (∀ s, (passSystem env link.linkInnerJobnetId (jarunIconJobnet t icon.innerJobId).1).Reachable s →
        s.fired ≤ 1) ↔
      NoErrorPassedOn t link.linkInnerJobnetId icon.innerJobId := by
  obtain ⟨-, hready, hjobs, hafter, hless, hids⟩ := jarunIconJobnet_ready hl hr
  generalize (jarunIconJobnet t icon.innerJobId).1 = t₀ at hready hjobs hafter hless hids ⊢
  have hshape : t₀.jobs.map Job.shape = t.jobs.map Job.shape := by rw [hjobs]
  constructor
  · intro honce
    by_contra herr
    have he : Erring t₀ link.linkInnerJobnetId icon.innerJobId := by
      have hlog := hs.loggable hicon
      refine ⟨hlog.congr hshape hids hless hafter, ?_, fun hc => herr (hc.congr hshape.symm)⟩
      rw [Tables.job?, hjobs, Table.lookup_eq hs.jobKey hicon]
      exact congrArg some htype
    obtain ⟨hr₁, he₁⟩ := he.start hn hready rfl []
    have hstart : (passSystem env link.linkInnerJobnetId t₀).Reachable
        ⟨passOver t₀ link.linkInnerJobnetId [], 0⟩ := by
      have hf : fires t₀ link.linkInnerJobnetId = false := by simp [fires, hready]
      refine ⟨⟨t₀, 0⟩, [.pass []], rfl, .cons ?_ (.nil _)⟩
      simp [passSystem, hf]
    obtain ⟨t₂, he₂, hr₂, hreach₂⟩ := he₁.again henv hr₁ hback (.inl rfl) hstart
    obtain ⟨t₃, -, -, hreach₃⟩ := he₂.again henv hr₂ hback (.inr rfl) hreach₂
    exact Nat.not_succ_le_self 1 (honce _ hreach₃)
  · intro hnone s hreach
    have hicon0 : icon.innerJobId ≠ 0 := hs.jobId icon hicon
    exact ((once_inductive henv hicon0 (hnone.congr hshape) hready hback rfl).reachable s hreach).once

/-- Only the icons of `n` change between the passes. -/
def IconsOnly (n : Id) (t t' : Tables) : Prop := ∃ g, t' = setIcons t n g

theorem iconsOnly_environment (n : Id) : Environment n (IconsOnly n) where
  icons t g := ⟨g, rfl⟩
  shape := by
    rintro t t' ⟨g, rfl⟩
    exact setIcons_shape t n g
  row := by
    rintro t t' ⟨g, rfl⟩
    rfl

/-- Jobnet 1 with START 1, the jobnet icon 10 and job 11 after it; icon 10
stands for jobnet 2 with START 20, job 21 and END 22. -/
def subTables (continueFlag : Bool) : Tables :=
  { Tables.empty with
    jobs := [⟨1, 1, 1, false, .startIcon, false, .normal, false, .ended, 0, 0, "START", false⟩,
             ⟨10, 1, 1, false, .jobnet, false, .normal, false, .run, 1, 1, "SUB", continueFlag⟩,
             ⟨11, 1, 1, false, .job, false, .normal, false, .begin, 1, 0, "B", false⟩,
             ⟨20, 2, 1, false, .startIcon, false, .normal, false, .begin, 0, 0, "START", false⟩,
             ⟨21, 2, 1, false, .job, false, .normal, false, .begin, 1, 0, "A", false⟩,
             ⟨22, 2, 1, false, .endIcon, false, .normal, false, .begin, 1, 0, "END", false⟩]
    flows := [⟨1, 1, 1, 10, .normal⟩, ⟨2, 1, 10, 11, .normal⟩, ⟨3, 2, 20, 21, .normal⟩, ⟨4, 2, 21, 22, .normal⟩]
    jobnets := [⟨1, 1, 0, 0, .normal, true, false, .run, 0, .on, "NET", "NET", "user"⟩,
                ⟨2, 1, 10, 0, .normal, false, false, .begin, 0, .on, "SUB", "SUB", "user"⟩]
    iconJobnets := [⟨10, 1, 2, "SUB"⟩] }

theorem subTables_schema : Schema (subTables false) := by
  refine ⟨by decide, by decide, ?_, by decide, by decide⟩
  simp [subTables]

theorem icon_fires_once_iff_subTables :
    NoErrorPassedOn (subTables false) 2 10 ∧
      ∀ s, (passSystem (IconsOnly 2) 2 (jarunIconJobnet (subTables false) 10).1).Reachable s → s.fired ≤ 1 :=
  ⟨.inl (by decide), (icon_fires_once_iff (subTables false)
    ⟨10, 1, 1, false, .jobnet, false, .normal, false, .run, 1, 1, "SUB", false⟩ ⟨10, 1, 2, "SUB"⟩
    ⟨2, 1, 10, 0, .normal, false, false, .begin, 0, .on, "SUB", "SUB", "user"⟩ (IconsOnly 2) subTables_schema
    (by decide) rfl (by decide) (by decide) rfl (by decide) (iconsOnly_environment 2)).2 (.inl (by decide))⟩

/-- Job 21 timed out and failed. -/
def timedOut (j : Job) : Status × Bool :=
  match j.jobType with
  | .startIcon => (.ended, false)
  | .job => (.runErr, true)
  | _ => (.begin, false)

/-- With `continue_flag` on icon 10, the error of job 21 fires its flows in
two passes: the second one finds the timeout flag still not stored. -/
theorem subTables_fire_twice :
    ¬∀ s, (passSystem (IconsOnly 2) 2 (jarunIconJobnet (subTables true) 10).1).Reachable s → s.fired ≤ 1 := by
  intro h
  let t₀ := (jarunIconJobnet (subTables true) 10).1
  let t₁ := setIcons (passOver t₀ 2 []) 2 timedOut
  let t₂ := passOver t₁ 2 []
  have hf₀ : fires t₀ 2 = false := by decide +kernel
  have hf₁ : fires t₁ 2 = true := by decide +kernel
  have hf₂ : fires t₂ 2 = true := by decide +kernel
  have hreach : (passSystem (IconsOnly 2) 2 t₀).Reachable ⟨passOver t₂ 2 [], 2⟩ := by
    refine ⟨⟨t₀, 0⟩, [.pass [], .between t₁, .pass [], .pass []], rfl, ?_⟩
    refine .cons (r := ⟨passOver t₀ 2 [], 0⟩) ?_ (.cons (r := ⟨t₁, 0⟩) ⟨⟨timedOut, rfl⟩, rfl⟩
      (.cons (r := ⟨t₂, 1⟩) ?_ (.cons ?_ (.nil _))))
    · simp [passSystem, hf₀]
    · simp [passSystem, hf₁, t₂]
    · simp [passSystem, hf₂]
  exact Nat.not_succ_le_self 1 (h _ hreach)

end JobArranger
