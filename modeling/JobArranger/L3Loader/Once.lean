import JobArranger.L3Loader.Level
import JobArranger.L3Loader.Load

/-!
# Each scheduled run is loaded once

Two passes, or two details of one schedule, may reach the same jobnet with
the same time, schedule and calendar: the second load finds the row of the
first. A load that fails is rolled back.

The database may refuse any statement. It may also lose the connection; the
transaction is then gone, and what the load does from there on is stored at
once and stays after its `FAIL`.

* `mainKeys`: the keys of the scheduled runs; `Keeps`, `Adds`: what a
  statement does to them.
* `once_passes`: no key is registered twice, with or without the connection.
* `wp_loadJobnetDefinition`: while the connection stays inside the
  transaction, a failed load leaves the database as it was.
-/
namespace JobArranger.Load

open Conn

/-! ## What the statements do to the registered runs -/

/-- The keys of the scheduled runs. -/
def mainKeys (s : LoadDb) : List Key := (s.keyRows.filter KeyRow.scheduled).map KeyRow.key

/-- The statement registers no scheduled run. -/
def Keeps (f : LoadDb → LoadDb) : Prop := ∀ s, mainKeys (f s) = mainKeys s

/-- It registers `key`, if anything. -/
def Adds (key : Key) (f : LoadDb → LoadDb) : Prop :=
  ∀ s, mainKeys (f s) = mainKeys s ∨ mainKeys (f s) = mainKeys s ++ [key]

theorem mainKeys_append {s t : LoadDb} {rows : List KeyRow} (h : t.keyRows = s.keyRows ++ rows) :
    mainKeys t = mainKeys s ++ (rows.filter KeyRow.scheduled).map KeyRow.key := by
  rw [mainKeys, h, List.filter_append, List.map_append]
  rfl

theorem scheduled_single (row : KeyRow) :
    ([row].filter KeyRow.scheduled).map KeyRow.key = [] ∨
      ([row].filter KeyRow.scheduled).map KeyRow.key = [row.key] := by
  cases h : row.scheduled with
  | true => exact .inr (by simp [h])
  | false => exact .inl (by simp [h])

theorem mainKeys_congr {s t : LoadDb} (hjobnets : t.loader.tables.jobnets = s.loader.tables.jobnets)
    (hheads : t.heads = s.heads) : mainKeys t = mainKeys s := by
  rw [mainKeys, mainKeys, LoadDb.keyRows, LoadDb.keyRows, hjobnets, hheads]

theorem keeps_id : Keeps id := fun _ => rfl

theorem Keeps.comp {f p : LoadDb → LoadDb} (hf : Keeps f) (hp : Keeps p) : Keeps (f ∘ p) := fun s =>
  (hf _).trans (hp s)

theorem Adds.nodup {f : LoadDb → LoadDb} {key : Key} (hf : Adds key f) {s : LoadDb} (hs : (mainKeys s).Nodup)
    (hkey : key ∉ mainKeys s) : (mainKeys (f s)).Nodup := by
  obtain h | h := hf s
  · rwa [h]
  · rw [h]
    exact hs.append (List.nodup_singleton key) (List.disjoint_singleton.2 hkey)

/-- The row of an inserted jobnet. -/
theorem keyRows_insertJobnet {s : LoadDb} {n : Jobnet} {loader : Loader} (head : Option Head)
    (h : s.loader.insertJobnet n = some loader) :
    LoadDb.keyRows { s with loader, heads := Function.update s.heads n.innerJobnetId head } =
      s.keyRows ++ [⟨n.innerJobnetId, n.runType, n.mainFlag, ⟨n.jobnetId, (head.getD .unset).initialScheduledTime,
        (head.getD .unset).scheduleId, (head.getD .unset).calendarId⟩⟩] := by
  unfold Loader.insertJobnet at h
  split at h
  · cases h
  rename_i hnew
  cases h
  have hold : ∀ m ∈ s.loader.tables.jobnets, m.innerJobnetId ≠ n.innerJobnetId := by
    intro m hm heq
    apply hnew
    exact Table.lookup_isSome hm heq
  unfold LoadDb.keyRows
  dsimp only
  rw [List.map_append]
  congr 1
  · refine List.map_congr_left fun m hm => ?_
    rw [Function.update_of_ne (hold m hm)]
  · simp

theorem keeps_insert {g : LoadDb → Option LoadDb} (h : ∀ s t, g s = some t → mainKeys t = mainKeys s) :
    (insert g).Effects Keeps := by
  refine ⟨fun s => ?_, fun o => trivial⟩
  dsimp only
  cases hg : g s with
  | none => rfl
  | some t => exact h s t hg

/-- The statement inserts no jobnet. -/
def NoJobnet (g : Loader → Option Loader) : Prop := ∀ l l', g l = some l' → l'.tables.jobnets = l.tables.jobnets

theorem NoJobnet.mainKeys {g : Loader → Option Loader} (h : NoJobnet g) {s t : LoadDb}
    (ht : onLoader g s = some t) : mainKeys t = mainKeys s := by
  unfold onLoader at ht
  cases hg : g s.loader with
  | none =>
    rw [hg] at ht
    cases ht
  | some l' =>
    rw [hg] at ht
    cases ht
    exact mainKeys_congr (h _ _ hg) rfl

theorem NoJobnet.keeps {g : Loader → Option Loader} (h : NoJobnet g) : (insert (onLoader g)).Effects Keeps :=
  keeps_insert fun _ _ => h.mainKeys

theorem noJobnet_guarded {p : Loader → Prop} [DecidablePred p] {g : Loader → Loader}
    (h : ∀ l, (g l).tables.jobnets = l.tables.jobnets) : NoJobnet fun l => if p l then some (g l) else none := by
  intro l l' hl
  dsimp only at hl
  split at hl
  · cases hl
    exact h l
  · cases hl

theorem noJobnet_insertJob (j : Job) : NoJobnet (·.insertJob j) := by
  intro l l' hl
  change l.insertJob j = some l' at hl
  rw [(Loader.insertJob_eq hl).1]

theorem noJobnet_insertIconJobnet (r : IconJobnet) : NoJobnet (·.insertIconJobnet r) := by
  intro l l' hl
  change l.insertIconJobnet r = some l' at hl
  rw [(Loader.insertIconJobnet_eq hl).1]

theorem noJobnet_insertFlow (f : Flow) : NoJobnet (·.insertFlow f) := by
  intro l l' hl
  dsimp only at hl
  unfold Loader.insertFlow at hl
  split at hl
  · cases hl
  · cases hl
    rfl

theorem noJobnet_insertAgentless (r : IconAgentless) : NoJobnet (·.insertAgentless r) := by
  intro l l' hl
  dsimp only at hl
  unfold Loader.insertAgentless at hl
  split at hl
  · cases hl
  · cases hl
    rfl

theorem keeps_copy (table : CopyTable) (innerJobnetId innerJobId : Id) (key : DefKey) (has : Defs → Bool) :
    (insert (copy table innerJobnetId innerJobId key has)).Effects Keeps := by
  refine keeps_insert fun s t ht => ?_
  unfold copy at ht
  split at ht
  · cases ht
    exact mainKeys_congr rfl rfl
  · cases ht

theorem keeps_select {α : Type} {k : Option LoadDb → Prog LoadDb α} (h : ∀ o, (k o).Effects Keeps) :
    (Prog.select >>= k).Effects Keeps := ⟨keeps_id, h⟩

theorem keeps_check {ok : Bool} {k : Prog LoadDb Outcome} (h : k.Effects Keeps) : (check ok k).Effects Keeps := by
  unfold check
  split
  · exact h
  · trivial

theorem keeps_join {α β : Type} {c : Prop} [Decidable c] {p : Prog LoadDb α} {a : α} {k : α → Prog LoadDb β}
    (hp : p.Effects Keeps) (hk : ∀ a, (k a).Effects Keeps) :
    (if c then p >>= k else pure a >>= k).Effects Keeps := by
  split
  · exact Prog.Effects.bind hp hk
  · exact hk a

theorem keeps_forRows {β : Type} {f : β → Prog LoadDb Outcome} (h : ∀ row, (f row).Effects Keeps)
    (rows : List β) : (forRows f rows).Effects Keeps := by
  induction rows with
  | nil => trivial
  | cons row rows ih =>
    refine Prog.Effects.bind (h row) fun out => ?_
    cases out with
    | succeed => exact ih
    | fail v => trivial
    | running => trivial

theorem keeps_getNextId (c : CountId) : (getNextId c).Effects Keeps := by
  refine keeps_select fun o => ?_
  cases o.bind fun s => s.loader.nextid c with
  | none => trivial
  | some v =>
    dsimp only
    have hset (next : Nat → Nat) : NoJobnet fun s => (s.nextid c).map fun w =>
        { s with nextid := Function.update s.nextid c (some (next w)) } := by
      intro l l' hl
      dsimp only at hl
      cases hn : l.nextid c with
      | none =>
        rw [hn] at hl
        cases hl
      | some w =>
        rw [hn] at hl
        cases hl
        rfl
    split
    · exact Prog.Effects.bind (hset _).keeps fun _ => trivial
    · exact Prog.Effects.bind (hset _).keeps fun _ => trivial

/-- Only the loader's own main jobnets count. -/
theorem keeps_insertJobnet {n : Jobnet} {head : Option Head} (h : n.mainFlag = false) :
    (insertJobnet n head).Effects Keeps := by
  refine keeps_insert fun s t ht => ?_
  cases hl : s.loader.insertJobnet n with
  | none =>
    rw [hl] at ht
    cases ht
  | some l =>
    rw [hl] at ht
    cases ht
    rw [mainKeys_append (keyRows_insertJobnet head hl)]
    simp [KeyRow.scheduled, h]

theorem adds_insertJobnet {n : Jobnet} {head : Head} {key : Key}
    (h : key = ⟨n.jobnetId, head.initialScheduledTime, head.scheduleId, head.calendarId⟩) :
    (insertJobnet n (some head)).Effects (Adds key) := by
  refine ⟨fun s => ?_, fun o => trivial⟩
  dsimp only
  cases hl : s.loader.insertJobnet n with
  | none => exact .inl rfl
  | some l =>
    have hkeys := mainKeys_append (keyRows_insertJobnet (some head) hl)
    subst h
    obtain hrow | hrow := scheduled_single ⟨n.innerJobnetId, n.runType, n.mainFlag,
      ⟨n.jobnetId, head.initialScheduledTime, head.scheduleId, head.calendarId⟩⟩
    · exact .inl (hkeys.trans (hrow ▸ List.append_nil _))
    · exact .inr (hkeys.trans (hrow ▸ rfl))

/-! ### The functions of the load -/

theorem noJobnet_setMethod (innerJobId : Id) (method : Method) : NoJobnet fun s =>
    if (s.tables.job? innerJobId).isSome then some (s.setMethod innerJobId method) else none :=
  noJobnet_guarded fun _ => rfl

theorem keeps_setWait (innerJobId : Id) : (setWait innerJobId).Effects Keeps :=
  (noJobnet_setMethod innerJobId .wait).keeps

theorem keeps_loadIconEnd (innerJobnetId innerJobId : Id) (key : DefKey) :
    (loadIconEnd innerJobnetId innerJobId key).Effects Keeps := by
  refine Prog.Effects.bind (keeps_copy _ _ _ _ _) fun ok => keeps_check (keeps_select fun o => ?_)
  cases o.bind fun s => s.defs.iconEnds.find? (·.1 == key) with
  | none => trivial
  | some row =>
    dsimp only
    split
    · exact Prog.Effects.bind (keeps_setWait innerJobId) fun _ => keeps_check trivial
    · trivial

theorem keeps_loadIconCopy (type : JobType) (innerJobnetId innerJobId : Id) (key : DefKey) :
    (loadIconCopy type innerJobnetId innerJobId key).Effects Keeps :=
  Prog.Effects.bind (keeps_copy _ _ _ _ _) fun _ => keeps_check trivial

theorem keeps_loadIconJob (innerJobnetId innerJobId : Id) (key : DefKey) :
    (loadIconJob innerJobnetId innerJobId key).Effects Keeps := by
  refine Prog.Effects.bind (keeps_copy _ _ _ _ _) fun _ => keeps_check ?_
  refine Prog.Effects.bind (keeps_copy _ _ _ _ _) fun _ => keeps_check ?_
  refine Prog.Effects.bind (keeps_copy _ _ _ _ _) fun _ => keeps_check ?_
  exact Prog.Effects.bind (keeps_copy _ _ _ _ _) fun _ => keeps_check trivial

theorem keeps_loadIconJobnet (innerJobnetId innerJobId : Id) (key : DefKey) :
    (loadIconJobnet innerJobnetId innerJobId key).Effects Keeps := by
  refine Prog.Effects.bind (keeps_getNextId _) fun o => ?_
  cases o with
  | none => trivial
  | some linkInnerJobnetId =>
    refine Prog.Effects.bind (keeps_insert fun s t ht => ?_) fun _ => keeps_check trivial
    split at ht
    · exact (noJobnet_insertIconJobnet _).mainKeys ht
    · cases ht

theorem keeps_loadIconLess (innerJobId : Id) (key : DefKey) : (loadIconLess innerJobId key).Effects Keeps := by
  refine keeps_select fun o => ?_
  cases o.bind fun s => s.defs.iconAgentless.find? (·.1 == key) with
  | none => trivial
  | some row =>
    obtain ⟨_, sessionFlag⟩ := row
    dsimp only
    refine keeps_join (keeps_getNextId _) fun session => ?_
    refine keeps_check (Prog.Effects.bind (keeps_insert fun s t ht => ?_) fun _ => keeps_check trivial)
    split at ht
    · exact (noJobnet_insertAgentless _).mainKeys ht
    · cases ht

theorem keeps_loadIcon (runType : RunType) (innerJobnetId innerJobId : Id) (jd : JobDef) :
    (loadIcon runType innerJobnetId innerJobId jd).Effects Keeps := by
  unfold loadIcon
  split
  · split
    · exact Prog.Effects.bind (keeps_setWait innerJobId) fun _ => keeps_check trivial
    · trivial
  · exact keeps_loadIconEnd innerJobnetId innerJobId jd.key
  · exact keeps_loadIconJobnet innerJobnetId innerJobId jd.key
  · exact keeps_loadIconLess innerJobId jd.key
  · exact keeps_loadIconJob innerJobnetId innerJobId jd.key
  all_goals first | trivial | exact keeps_loadIconCopy _ innerJobnetId innerJobId jd.key

theorem keeps_loadJob (innerJobnetMainId innerJobnetId : Id) (testFlag : Bool) (runType : RunType) (jd : JobDef) :
    (loadJob innerJobnetMainId innerJobnetId testFlag runType jd).Effects Keeps := by
  refine Prog.Effects.bind (keeps_getNextId _) fun o => ?_
  cases o with
  | none => trivial
  | some innerJobId =>
    dsimp only
    refine keeps_join (keeps_getNextId _) fun link => ?_
    refine keeps_check (Prog.Effects.bind (keeps_select fun _ => trivial) fun o => ?_)
    cases o with
    | none => trivial
    | some bootCount =>
      exact Prog.Effects.bind (noJobnet_insertJob _).keeps fun _ => keeps_check (keeps_loadIcon _ _ _ _)

theorem keeps_getFlowInnerJobId (innerJobnetId : Id) (jobId : String) :
    (getFlowInnerJobId innerJobnetId jobId).Effects Keeps := keeps_select fun _ => trivial

theorem keeps_loadFlow (innerJobnetId : Id) (fd : FlowDef) : (loadFlow innerJobnetId fd).Effects Keeps := by
  refine Prog.Effects.bind (keeps_getNextId _) fun o => ?_
  cases o with
  | none => trivial
  | some innerFlowId =>
    refine Prog.Effects.bind (keeps_getFlowInnerJobId _ _) fun o => ?_
    cases o with
    | none => trivial
    | some startInnerJobId =>
      refine Prog.Effects.bind (keeps_getFlowInnerJobId _ _) fun o => ?_
      cases o with
      | none => trivial
      | some endInnerJobId =>
        exact Prog.Effects.bind (noJobnet_insertFlow _).keeps fun _ => keeps_check trivial

theorem keeps_loadJobDefinition (innerJobnetMainId innerJobnetId : Id) (jobnetId : String) (updateDate : Nat)
    (testFlag : Bool) (runType : RunType) :
    (loadJobDefinition innerJobnetMainId innerJobnetId jobnetId updateDate testFlag runType).Effects Keeps := by
  refine keeps_select fun o => ?_
  refine Prog.Effects.bind (keeps_forRows (keeps_loadJob _ _ _ _) _) fun out => ?_
  cases out with
  | succeed => exact keeps_select fun o => keeps_forRows (keeps_loadFlow _) _
  | fail v => trivial
  | running => trivial

theorem keeps_expandIcon (innerJobnetMainId : Id) (runType : RunType) (innerJobId : Id) :
    (expandIcon innerJobnetMainId runType innerJobId).Effects Keeps := by
  refine keeps_select fun o => ?_
  cases o.bind fun s => s.loader.tables.iconJobnet? innerJobId with
  | none => trivial
  | some row2 =>
    refine keeps_select fun o => ?_
    cases o.bind fun s => s.defs.valid row2.linkJobnetId with
    | none => trivial
    | some row3 =>
      refine Prog.Effects.bind (keeps_insertJobnet (by simp)) fun _ => keeps_check ?_
      refine Prog.Effects.bind (keeps_loadJobDefinition _ _ _ _ _ _) fun out => ?_
      cases out with
      | succeed =>
        refine Prog.Effects.bind (NoJobnet.keeps ?_) fun _ => keeps_check trivial
        exact noJobnet_guarded fun _ => rfl
      | fail v => trivial
      | running => trivial

theorem keeps_loadSubJobnetDefinition (innerJobnetMainId : Id) (runType : RunType) (fuel : Nat) :
    (loadSubJobnetDefinition innerJobnetMainId runType fuel).Effects Keeps := by
  induction fuel with
  | zero => trivial
  | succ fuel ih =>
    refine keeps_select fun o => ?_
    cases o.elim [] fun s => s.loader.pending innerJobnetMainId with
    | nil => trivial
    | cons row rows =>
      refine Prog.Effects.bind (keeps_forRows (keeps_expandIcon _ _) _) fun out => ?_
      cases out with
      | succeed => exact ih
      | fail v => trivial
      | running => trivial

theorem keeps_insertSummary (main : Id) (row : JobnetDef) (call : ScheduleCall) :
    (insertSummary main row call).Effects Keeps := by
  refine NoJobnet.keeps fun l l' hl => ?_
  dsimp only at hl
  split at hl
  · cases hl
  · cases hl
    rfl

theorem keeps_invalidate (row : ScheduleControl) : (invalidate row).Effects Keeps := by
  refine keeps_insert fun s t ht => ?_
  split at ht
  · cases ht
    exact mainKeys_congr rfl rfl
  · cases ht

/-! ## Each key once -/

theorem not_mem_mainKeys {s : LoadDb} {key : Key}
    (h : ¬ 0 < (s.keyRows.filter fun r => r.scheduled ∧ r.key = key).length) : key ∉ mainKeys s := by
  intro hmem
  obtain ⟨row, hrow, hkey⟩ := List.mem_map.1 hmem
  obtain ⟨hrow, hs⟩ := List.mem_filter.1 hrow
  apply h
  apply List.length_pos_of_mem (a := row)
  rw [List.mem_filter]
  exact ⟨hrow, by simp [hs, hkey]⟩

theorem valid_jobnetId {o : Option LoadDb} {jobnetId : String} {row : JobnetDef}
    (h : (o.bind fun s => s.defs.valid jobnetId) = some row) : row.jobnetId = jobnetId := by
  obtain ⟨s, -, hs⟩ := Option.bind_eq_some_iff.1 h
  have := List.find?_some hs
  simp at this
  exact this.1

/-- No scheduled run is registered twice. -/
def Once (s : LoadDb) : Prop := (mainKeys s).Nodup

/-- What the other processes do to the registered runs: they delete none,
change no key, and none they add is a scheduled one. -/
def Others (s t : LoadDb) : Prop := ∃ rows, t.keyRows = s.keyRows ++ rows ∧ ∀ r ∈ rows, r.scheduled = false

theorem Others.mainKeys {s t : LoadDb} (h : Others s t) : mainKeys t = mainKeys s := by
  obtain ⟨rows, hrows, hno⟩ := h
  rw [mainKeys_append hrows, List.filter_eq_nil_iff.2 fun r hr => by simp [hno r hr]]
  exact List.append_nil _

/-- No key twice, now and after the commit. -/
def Sound (s : LoadDb) (o : Option (LoadDb → LoadDb)) : Prop :=
  (mainKeys s).Nodup ∧ ∀ p, o = some p → ∀ t, mainKeys t = mainKeys s → (mainKeys (p t)).Nodup

/-- And `key` is not registered yet. -/
def Fresh (key : Key) (s : LoadDb) (o : Option (LoadDb → LoadDb)) : Prop :=
  (mainKeys s).Nodup ∧ key ∉ mainKeys s ∧ ∀ p, o = some p → Keeps p

section
variable {w : Outside LoadDb} {d : Conn LoadDb} {r : Reply} {key : Key} {f : LoadDb → LoadDb}

/-- Between two transactions. -/
def Idle (d : Conn LoadDb) : Prop := d.Closed ∧ (mainKeys d.stored).Nodup

def Unloaded (key : Key) (d : Conn LoadDb) : Prop := Idle d ∧ key ∉ mainKeys d.stored

theorem Idle.query (h : Idle d) : Idle (d.stmt id r).1 := by
  obtain ⟨hclosed, hstored⟩ := h.1.query (r := r)
  exact ⟨hclosed, hstored ▸ h.2⟩

theorem Idle.begin (h : Idle d) : (d.begin r).Meets Sound := by
  refine begin_meets ⟨h.2, fun p hp => by cases hp⟩ ⟨h.2, fun p hp t ht => ?_⟩
  cases hp
  exact ht.symm ▸ h.2

theorem Unloaded.begin (h : Unloaded key d) : (d.begin r).Meets (Fresh key) := by
  refine begin_meets ⟨h.1.2, h.2, fun p hp => ?_⟩ ⟨h.1.2, h.2, fun p hp => ?_⟩
  · cases hp
  · cases hp
    exact keeps_id

theorem sound_stmt (hf : Keeps f) (h : d.Meets Sound) : (d.stmt f r).1.Meets Sound := by
  refine h.stmt (fun _ _ h => h) (fun s h => ?_) (fun s p h => ?_)
  · refine ⟨(hf s).symm ▸ h.1, fun p hp => ?_⟩
    cases hp
  · refine ⟨h.1, fun q hq t ht => ?_⟩
    cases hq
    exact (hf (p t)).symm ▸ h.2 p rfl t ht

theorem fresh_stmt (hf : Keeps f) (h : d.Meets (Fresh key)) : (d.stmt f r).1.Meets (Fresh key) := by
  refine h.stmt (fun _ _ h => h) (fun s h => ?_) (fun s p h => ?_)
  · have hs := hf s
    refine ⟨hs.symm ▸ h.1, hs.symm ▸ h.2.1, fun p hp => ?_⟩
    cases hp
  · refine ⟨h.1, h.2.1, fun q hq => ?_⟩
    cases hq
    exact hf.comp (h.2.2 p rfl)

theorem Fresh.sound {s : LoadDb} {o : Option (LoadDb → LoadDb)} (h : Fresh key s o) : Sound s o :=
  ⟨h.1, fun p hp t ht => by rw [h.2.2 p hp t, ht]; exact h.1⟩

theorem fresh_add (hf : Adds key f) (h : d.Meets (Fresh key)) : (d.stmt f r).1.Meets Sound := by
  refine h.stmt (fun _ _ h => h.sound) (fun s h => ?_) (fun s p h => ?_)
  · refine ⟨hf.nodup h.1 h.2.1, fun p hp => ?_⟩
    cases hp
  · refine ⟨h.1, fun q hq t ht => ?_⟩
    cases hq
    have hp : mainKeys (p t) = mainKeys s := (h.2.2 p rfl t).trans ht
    exact hf.nodup (hp.symm ▸ h.1) (hp.symm ▸ h.2.1)

theorem sound_commit (h : d.Meets Sound) : Idle (d.commit r) :=
  ⟨commit_closed d r, h.commit (fun _ h => h.1) fun s p h => h.2 p rfl s rfl⟩

theorem sound_rollback (h : d.Meets Sound) : Idle (d.rollback r) := by
  obtain ⟨hclosed, hstored⟩ := rollback_closed d r
  exact ⟨hclosed, hstored ▸ h.1.1⟩

theorem sound_of_fresh (h : d.Meets (Fresh key)) : d.Meets Sound := ⟨h.1.sound, h.2.imp id Fresh.sound⟩

/-- What holds when a call has returned (`none`: it is still running). -/
def Ran (o : Option Bool) (d : Conn LoadDb) : Prop := (mainKeys d.stored).Nodup ∧ (o ≠ none → d.Closed)

theorem Idle.ran (h : Idle d) (o : Option Bool) : Ran o d := ⟨h.2, fun _ => h.1⟩

/-! ### Under interference -/

variable (hw : ∀ s t, w.rely s t → Others s t)
include hw

theorem stable_idle : w.Stable Idle := fun _ _ h ht =>
  ⟨⟨h.1.level, h.1.none⟩, (hw _ _ ht).mainKeys.symm ▸ h.2⟩

theorem stable_unloaded : w.Stable (Unloaded key) := fun d t h ht =>
  ⟨stable_idle hw d t h.1 ht, (hw _ _ ht).mainKeys.symm ▸ h.2⟩

theorem stable_sound : w.Stable (Meets Sound) := by
  intro d t h ht
  have hkeys := (hw _ _ ht).mainKeys
  have hsound (o : Option (LoadDb → LoadDb)) (h : Sound d.stored o) : Sound t o := by
    refine ⟨hkeys.symm ▸ h.1, fun p hp u hu => h.2 p hp u (hu.trans hkeys)⟩
  exact ⟨hsound _ h.1, h.2.imp id (hsound _)⟩

theorem stable_fresh : w.Stable (Meets (Fresh key)) := by
  intro d t h ht
  have hkeys := (hw _ _ ht).mainKeys
  have hfresh (o : Option (LoadDb → LoadDb)) (h : Fresh key d.stored o) : Fresh key t o :=
    ⟨hkeys.symm ▸ h.1, hkeys.symm ▸ h.2.1, h.2.2⟩
  exact ⟨hfresh _ h.1, h.2.imp id (hfresh _)⟩

/-! ### The loader's loops -/

theorem stable_ran (o : Option Bool) : w.Stable (Ran o) := fun _ _ h ht =>
  ⟨(hw _ _ ht).mainKeys.symm ▸ h.1, fun ho => ⟨(h.2 ho).level, (h.2 ho).none⟩⟩

theorem once_ret (o : Option Bool) (hd : Ran o d) :
    (Cmd.ret o).wp w Once Ran d :=
  Cmd.wp_ret (stable_ran hw o) (fun _ h => h.1) hd fun _ h => h

theorem once_out (out : Outcome) (hd : Ran out.noValid d) :
    (Cmd.ret out).wp w Once (fun out => Ran out.noValid) d :=
  Cmd.wp_ret (stable_ran hw out.noValid) (fun _ h => h.1) hd fun _ h => h

theorem once_rollback (out : Outcome) (hd : d.Meets Sound) :
    (Cmd.rollback (Cmd.ret out)).wp w Once (fun out => Ran out.noValid) d :=
  Cmd.wp_rollback (stable_sound hw) (fun _ h => h.1.1) hd fun _ _ hd _ =>
    once_out hw out ((sound_rollback hd).ran _)

omit hw in
theorem wp_insert {P P' : Conn LoadDb → Prop} {I : LoadDb → Prop} {g : LoadDb → Option LoadDb}
    {k : Bool → Cmd LoadDb Outcome} {Q : Outcome → Conn LoadDb → Prop} (hP : w.Stable P)
    (hI : ∀ d, P d → I d.stored) (hd : P d) (hkeep : ∀ d r, P d → P' (d.stmt (fun s => (g s).getD s) r).1)
    (h : ∀ ok d, P' d → (k ok).wp w I Q d) : ((insert g).cmd >>= k).wp w I Q d :=
  Cmd.wp_stmt hP hI hd fun d r hd _ => h _ _ (hkeep d r hd)

theorem once_commit (out : Outcome) (hd : d.Meets Sound) :
    (Cmd.commit (Cmd.ret out)).wp w Once (fun out => Ran out.noValid) d :=
  Cmd.wp_commit (stable_sound hw) (fun _ h => h.1.1) hd fun _ _ hd _ =>
    once_out hw out ((sound_commit hd).ran _)

theorem once_running (hd : d.Meets Sound) :
    (Cmd.ret Outcome.running).wp w Once (fun out => Ran out.noValid) d :=
  once_out hw .running ⟨hd.1.1, fun h => absurd rfl h⟩

theorem once_loadJobnetDefinition (fuel : Nat) (jobnetId : String) (call : ScheduleCall) (hd : Idle d) :
    (loadJobnetDefinition fuel jobnetId call).wp w Once
      (fun out => Ran out.noValid) d := by
  refine Cmd.wp_select (stable_idle hw) (fun _ h => h.2) hd fun d r hd _ => ?_
  have hq := hd.query (r := r)
  cases hs : (d.stmt id r).2 with
  | none => exact once_out hw _ (hq.ran _)
  | some s =>
    dsimp only
    split
    · exact once_out hw _ (hq.ran _)
    rename_i hnew
    have hfree : Unloaded (keyOf jobnetId call) (d.stmt id r).1 := by
      refine ⟨hq, ?_⟩
      rw [(hd.1.query (r := r)).2, ← hd.1.seen hs]
      exact not_mem_mainKeys hnew
    refine Cmd.wp_begin (stable_unloaded hw) (fun _ h => h.1.2) hfree fun d r hd _ => ?_
    refine Cmd.wp_prog_bind (keeps_getNextId .jobnetLd) (stable_fresh hw) (fun _ h => h.1.1)
      (fun _ _ _ hf hd _ => fresh_stmt hf hd) hd.begin fun main d hd => ?_
    cases main with
    | none => exact once_rollback hw _ (sound_of_fresh hd)
    | some main =>
      refine Cmd.wp_select (stable_fresh hw) (fun _ h => h.1.1) hd fun d r hd _ => ?_
      have hd := fresh_stmt (r := r) keeps_id hd
      cases hrow : (d.stmt id r).2.bind fun s => s.defs.valid jobnetId with
      | none => exact once_rollback hw _ (sound_of_fresh hd)
      | some row =>
        have hadds : (insertJobnet (mainRow main row call) (some (headOf call))).Effects
            (Adds (keyOf jobnetId call)) := by
          refine adds_insertJobnet ?_
          rw [← valid_jobnetId hrow]
          rfl
        refine wp_insert (stable_fresh hw) (fun _ h => h.1.1) hd (fun _ _ hd => fresh_add hadds.1 hd) fun ok d hd => ?_
        split
        · refine Cmd.wp_prog_bind (keeps_insertSummary main row call) (stable_sound hw) (fun _ h => h.1.1)
            (fun _ _ _ hf hd _ => sound_stmt hf hd) hd fun ok d hd => ?_
          split
          · refine Cmd.wp_prog_bind (keeps_loadJobDefinition _ _ _ _ _ _) (stable_sound hw) (fun _ h => h.1.1)
              (fun _ _ _ hf hd _ => sound_stmt hf hd) hd fun out d hd => ?_
            cases out with
            | fail v => exact once_rollback hw _ hd
            | running => exact once_running hw hd
            | succeed =>
              refine Cmd.wp_prog_bind (keeps_loadSubJobnetDefinition _ _ _) (stable_sound hw) (fun _ h => h.1.1)
                (fun _ _ _ hf hd _ => sound_stmt hf hd) hd fun out d hd => ?_
              cases out with
              | fail v => exact once_rollback hw _ hd
              | running => exact once_running hw hd
              | succeed => exact once_commit hw _ hd
          · exact once_rollback hw _ hd
        · exact once_rollback hw _ hd

theorem once_each {β : Type} {f : β → Cmd LoadDb (Option Bool)} (hf : ∀ row d, Idle d → (f row).wp w Once Ran d)
    (rows : List β) (hd : Idle d) : (each f rows).wp w Once Ran d := by
  induction rows generalizing d with
  | nil => exact once_ret hw _ (hd.ran _)
  | cons row rows ih =>
    refine Cmd.wp_bind (Cmd.wp_mono (hf row d hd) fun o d hd => ?_)
    cases o with
    | none => exact once_ret hw none hd
    | some noValidFlag =>
      refine Cmd.wp_bind (Cmd.wp_mono (ih ⟨hd.2 (by simp), hd.1⟩) fun o d hd => ?_)
      exact once_ret hw _ ⟨hd.1, fun h => hd.2 fun hnone => h (by rw [hnone]; rfl)⟩

theorem once_select {g : Option LoadDb → Cmd LoadDb (Option Bool)} (hd : Idle d)
    (h : ∀ o d, Idle d → (g o).wp w Once Ran d) : (Cmd.select >>= g).wp w Once Ran d :=
  Cmd.wp_select (stable_idle hw) (fun _ h => h.2) hd fun _ _ hd _ => h _ _ hd.query

theorem once_getScheduleJobnet (fuel : Nat) (call : ScheduleCall) (hd : Idle d) :
    (getScheduleJobnet fuel call).wp w Once Ran d := by
  refine once_select hw hd fun o d hd => once_each hw (fun j d hd => ?_) _ hd
  exact Cmd.wp_bind (Cmd.wp_mono (once_loadJobnetDefinition hw fuel j.jobnetId call hd) fun out _ hd =>
    once_ret hw out.noValid hd)

theorem once_getCalendarDetail (fuel : Nat) (startDate endDate : List Char) (row : ScheduleDetail) (hd : Idle d) :
    (getCalendarDetail fuel startDate endDate row).wp w Once Ran d := by
  refine once_select hw hd fun o d hd => ?_
  cases o with
  | none => exact once_ret hw _ (hd.ran _)
  | some s =>
    dsimp only
    split
    · exact once_ret hw _ (hd.ran _)
    · exact once_each hw (fun call _ hd => once_getScheduleJobnet hw fuel call hd) _ hd

theorem once_getScheduleDetail (fuel : Nat) (startDate endDate : List Char) (row : ScheduleControl) (hd : Idle d) :
    (getScheduleDetail fuel startDate endDate row).wp w Once Ran d :=
  once_select hw hd fun _ _ hd =>
    once_each hw (fun row _ hd => once_getCalendarDetail hw fuel startDate endDate row hd) _ hd

theorem once_jobnetLoadSchedule (fuel : Nat) (pass : Nat × Nat) (hd : Idle d) :
    (jobnetLoadSchedule fuel pass).wp w Once Ran d := by
  refine once_select hw hd fun o d hd => once_each hw (fun row d hd => ?_) _ hd
  refine Cmd.wp_bind (Cmd.wp_mono (once_getScheduleDetail hw fuel _ _ row hd) fun o d hd => ?_)
  cases o with
  | none => exact once_ret hw none hd
  | some noValidFlag =>
    have hidle : Idle d := ⟨hd.2 (by simp), hd.1⟩
    cases noValidFlag with
    | false => exact once_ret hw _ hd
    | true =>
      refine Cmd.wp_begin (stable_idle hw) (fun _ h => h.2) hidle fun d r hd _ => ?_
      refine Cmd.wp_prog_bind (keeps_invalidate row) (stable_sound hw) (fun _ h => h.1.1)
        (fun _ _ _ hf hd _ => sound_stmt hf hd) hd.begin fun ok d hd => ?_
      split
      · exact Cmd.wp_commit (stable_sound hw) (fun _ h => h.1.1) hd fun _ _ hd _ =>
          once_ret hw _ ((sound_commit hd).ran _)
      · exact Cmd.wp_rollback (stable_sound hw) (fun _ h => h.1.1) hd fun _ _ hd _ =>
          once_ret hw _ ((sound_rollback hd).ran _)

/-- Whatever the database answers, no scheduled run is registered twice. -/
theorem once_passes (fuel : Nat) (passes : List (Nat × Nat)) (hd : Idle d) :
    (each (jobnetLoadSchedule fuel) passes).wp w Once Ran d :=
  once_each hw (fun pass _ hd => once_jobnetLoadSchedule hw fuel pass hd) passes hd

end

/-! ## A failed load -/

theorem effects_any {α : Type} (p : Prog LoadDb α) : p.Effects fun _ => True := by
  induction p with
  | ret a => trivial
  | stmt f k ih => exact ⟨trivial, ih⟩

section
variable {w : Outside LoadDb} {s₀ : LoadDb} {d : Conn LoadDb}

/-- The database is as the others have made it since `s₀`. -/
def Untouched (w : Outside LoadDb) (s₀ : LoadDb) (P : Conn LoadDb → Prop) (d : Conn LoadDb) : Prop :=
  P d ∧ w.rely s₀ d.stored

theorem stable_closed : w.Stable (Untouched w s₀ Closed) := fun _ _ hd ht =>
  ⟨⟨hd.1.level, hd.1.none⟩, w.trans _ _ _ hd.2 ht⟩

theorem stable_open : w.Stable (Untouched w s₀ Open) := fun _ _ hd ht =>
  ⟨⟨hd.1.level, hd.1.pending⟩, w.trans _ _ _ hd.2 ht⟩

/-- What is known of a load that has returned. -/
def Returned (w : Outside LoadDb) (s₀ : LoadDb) (out : Outcome) (d : Conn LoadDb) : Prop :=
  (∃ v, out = .fail v) → w.rely s₀ d.stored

theorem wp_fail (out : Outcome) (hd : Untouched w s₀ Closed d) :
    (Cmd.ret out).wp w (fun _ => True) (Returned w s₀) d :=
  Cmd.wp_ret stable_closed (fun _ _ => trivial) hd fun _ h _ => h.2

theorem wp_rollback_fail (out : Outcome) (hd : Untouched w s₀ Open d) :
    (Cmd.rollback (Cmd.ret out)).wp w (fun _ => True) (Returned w s₀) d := by
  refine Cmd.wp_rollback stable_open (fun _ _ => trivial) hd fun d r hd _ => ?_
  obtain ⟨hclosed, hstored⟩ := rollback_closed d r
  exact wp_fail out ⟨hclosed, hstored ▸ hd.2⟩

theorem wp_running (hd : Untouched w s₀ Open d) :
    (Cmd.ret Outcome.running).wp w (fun _ => True) (Returned w s₀) d :=
  Cmd.wp_ret stable_open (fun _ _ => trivial) hd fun _ _ h => by
    obtain ⟨v, hv⟩ := h
    cases hv

theorem wp_succeed (hd : Untouched w s₀ Open d) :
    (Cmd.commit (Cmd.ret Outcome.succeed)).wp w (fun _ => True) (Returned w s₀) d := by
  refine Cmd.wp_commit stable_open (fun _ _ => trivial) hd fun d r _ _ => ?_
  refine Cmd.wp_ret (P := fun _ => True) (fun _ _ _ _ => trivial) (fun _ _ => trivial) trivial fun _ _ h => ?_
  obtain ⟨v, hv⟩ := h
  cases hv

theorem untouched_stmt (hup : w.Up) {r : Reply} (f : LoadDb → LoadDb) (hd : Untouched w s₀ Open d)
    (hr : w.reply d r) : Untouched w s₀ Open (d.stmt f r).1 := by
  obtain ⟨hopen, hstored⟩ := hd.1.stmt (hup d r hd.1.level hr) f
  exact ⟨hopen, hstored ▸ hd.2⟩

/-- A part of the transaction. -/
theorem wp_inside (hup : w.Up) {α : Type} (p : Prog LoadDb α) {g : α → Cmd LoadDb Outcome}
    (hd : Untouched w s₀ Open d)
    (h : ∀ a d, Untouched w s₀ Open d → (g a).wp w (fun _ => True) (Returned w s₀) d) :
    (p.cmd >>= g).wp w (fun _ => True) (Returned w s₀) d :=
  Cmd.wp_prog_bind (effects_any p) stable_open (fun _ _ => trivial)
    (fun f _ _ _ hd hr => untouched_stmt hup f hd hr) hd h

/-- While the connection stays, a load that returns `FAIL` has stored
nothing. -/
theorem wp_loadJobnetDefinition (hup : w.Up) (fuel : Nat) (jobnetId : String) (call : ScheduleCall)
    (hd : Untouched w s₀ Closed d) :
    (loadJobnetDefinition fuel jobnetId call).wp w (fun _ => True) (Returned w s₀) d := by
  refine Cmd.wp_select stable_closed (fun _ _ => trivial) hd fun d r hd _ => ?_
  obtain ⟨hclosed, hstored⟩ := hd.1.query (r := r)
  have hd' : Untouched w s₀ Closed (d.stmt id r).1 := ⟨hclosed, hstored ▸ hd.2⟩
  cases (d.stmt id r).2 with
  | none => exact wp_fail _ hd'
  | some s =>
    dsimp only
    split
    · exact wp_fail _ hd'
    refine Cmd.wp_begin stable_closed (fun _ _ => trivial) hd' fun d r hd _ => ?_
    obtain ⟨hopen, hstored⟩ := begin_open d r
    refine wp_inside hup _ ⟨hopen, hstored ▸ hd.2⟩ fun main d hd => ?_
    cases main with
    | none => exact wp_rollback_fail _ hd
    | some main =>
      refine Cmd.wp_select stable_open (fun _ _ => trivial) hd fun d r hd hr => ?_
      have hd := untouched_stmt hup id hd hr
      cases (d.stmt id r).2.bind fun s => s.defs.valid jobnetId with
      | none => exact wp_rollback_fail _ hd
      | some row =>
        refine wp_inside hup _ hd fun ok d hd => ?_
        split
        · refine wp_inside hup _ hd fun ok d hd => ?_
          split
          · refine wp_inside hup _ hd fun out d hd => ?_
            cases out with
            | fail v => exact wp_rollback_fail _ hd
            | running => exact wp_running hd
            | succeed =>
              refine wp_inside hup _ hd fun out d hd => ?_
              cases out with
              | fail v => exact wp_rollback_fail _ hd
              | running => exact wp_running hd
              | succeed => exact wp_succeed hd
          · exact wp_rollback_fail _ hd
        · exact wp_rollback_fail _ hd

end
/-- Over every sequence of passes no scheduled run is registered twice,
whatever the database answers and the other processes do; and a load that
returns `FAIL` leaves what they have made of the database, if the connection
is not lost inside its transaction. -/
theorem passes_once_load_atomic (fuel : Nat) (w : Outside LoadDb) (d : Conn LoadDb) (hd : d.Closed) :
    ((∀ s t, w.rely s t → Others s t) → (mainKeys d.stored).Nodup → ∀ passes s,
      (w.runs d (each (jobnetLoadSchedule fuel) passes)).Reachable s → (mainKeys s.1.stored).Nodup) ∧
    (w.Up → ∀ jobnetId call s v, (w.runs d (loadJobnetDefinition fuel jobnetId call)).Reachable s →
      s.2 = .ret (.fail v) → w.rely d.stored s.1.stored) := by
  constructor
  · intro hw hkeys passes s hs
    exact (Cmd.wp_reachable (once_passes hw fuel passes ⟨hd, hkeys⟩) hs).1
  · intro hup jobnetId call s v hs hout
    have hwp := wp_loadJobnetDefinition hup fuel jobnetId call ⟨hd, w.refl d.stored⟩
    exact (Cmd.wp_reachable hwp hs).2 _ hout ⟨v, rfl⟩

/-- A database that answers every statement and, inside a transaction, keeps
the connection unless it is `lossy`. -/
def alone (lossy : Bool) : Outside LoadDb where
  rely := Eq
  reply d r := lossy = true ∨ d.level = false ∨ r.lost = false
  refl _ := rfl
  trans _ _ _ := Eq.trans

theorem alone_up : (alone false).Up := fun d r hd h => by
  obtain h | h | h := h
  · cases h
  · exact absurd (hd.symm.trans h) Bool.noConfusion
  · exact h

/-- A jobnet with an end icon that has no row in `ja_icon_end_table`. -/
def noIcon : Conn LoadDb where
  stored :=
    { loader := { tables := ⟨[], [], [], [], [], [], [], [], [], [], [], [], 1⟩, nextid := fun _ => some 1 }
      heads := fun _ => none
      copies := []
      defs :=
        { jobnets := [⟨"NET", 1, true, "user", "net", .on⟩]
          jobs := [⟨⟨"NET", "END", 1⟩, .endIcon, .normal, false⟩]
          flows := []
          iconJobnets := []
          iconEnds := []
          iconAgentless := []
          icons := []
          jobCommands := [] }
      calendars := ⟨[], [], []⟩
      schedules := []
      details := []
      jobnets := [] }
  level := false
  failed := false
  pending := none

def noIconCall : ScheduleCall := ⟨"SCH", 1, "202312310900".toList, "CAL", "0900".toList⟩

/-- The replies to a load of it, with the connection lost at the first
statement of the transaction or not. -/
def noIconReplies (lost : Bool) : List Reply :=
  [⟨false, true⟩, ⟨false, true⟩, ⟨lost, true⟩] ++ List.replicate 11 ⟨false, true⟩

theorem noIcon_run (lost : Bool) : ∃ s : Conn LoadDb × Cmd LoadDb Outcome,
    (noIconReplies lost).foldlM (fun s r => s.2.next s.1 r) (noIcon, loadJobnetDefinition 1 "NET" noIconCall) =
      some s ∧ s.2 = .ret (.fail false) ∧ s.1.stored.keyRows.length = if lost then 1 else 0 := by
  cases lost with
  | false => exact ⟨_, rfl, rfl, rfl⟩
  | true => exact ⟨_, rfl, rfl, rfl⟩

theorem alone_others (lossy : Bool) (s t : LoadDb) (h : (alone lossy).rely s t) : Others s t := by
  obtain rfl := h
  exact ⟨[], (List.append_nil _).symm, fun _ h => absurd h List.not_mem_nil⟩

theorem noIcon_closed : noIcon.Closed := ⟨rfl, .inr rfl⟩

/-- The load that keeps its connection leaves no row. -/
theorem noIcon_untouched : ∃ s, ((alone false).runs noIcon (loadJobnetDefinition 1 "NET" noIconCall)).Reachable s ∧
    s.2 = .ret (.fail false) ∧ noIcon.stored = s.1.stored ∧
    ((alone false).runs noIcon (each (jobnetLoadSchedule 1) [(60, 0)])).Reachable
      (noIcon, each (jobnetLoadSchedule 1) [(60, 0)]) ∧ (mainKeys noIcon.stored).Nodup := by
  obtain ⟨s, hs, hout, -⟩ := noIcon_run false
  have hrun := Outside.runs_replies (w := alone false) (fun r hr d => .inr (.inr ?_)) hs
  · have hpass : ((alone false).runs noIcon (each (jobnetLoadSchedule 1) [(60, 0)])).Reachable
        (noIcon, each (jobnetLoadSchedule 1) [(60, 0)]) := ⟨_, [], rfl, .nil _⟩
    obtain ⟨honce, hatomic⟩ := passes_once_load_atomic 1 (alone false) noIcon noIcon_closed
    exact ⟨s, hrun, hout, hatomic alone_up "NET" noIconCall s false hrun hout, hpass,
      honce (alone_others false) List.nodup_nil [(60, 0)] _ hpass⟩
  · simp [noIconReplies] at hr
    rw [hr]

/-- The load that loses its connection at the first statement after
`DBbegin` leaves a row. -/
theorem lost_load_stays : ¬ ∀ (fuel : Nat) (w : Outside LoadDb) (d : Conn LoadDb), d.Closed →
    ∀ jobnetId call s v, (w.runs d (loadJobnetDefinition fuel jobnetId call)).Reachable s →
      s.2 = .ret (.fail v) → w.rely d.stored s.1.stored := by
  intro h
  obtain ⟨s, hs, hout, hrows⟩ := noIcon_run true
  have hrun := Outside.runs_replies (w := alone true) (fun r _ d => .inl rfl) hs
  have hsame : noIcon.stored = s.1.stored := h 1 (alone true) noIcon noIcon_closed "NET" noIconCall s false hrun hout
  rw [← hsame] at hrows
  cases hrows

end JobArranger.Load
