import JobArranger.L5Server.Start

/-!
# Holds and skips

A user sets `method_flag` of an icon in a transaction of the manager.
`process_jarun` reads the flag with its list and looks at the status alone
when it has the lock, so an update that falls between the two is not seen:
`hold_ignored` runs an icon that is on hold. The law holds in the runs in
which no commit changes the kind of flag of an icon a process still has on
its list (`FlagsKept`).

* `ListInv`: the flags on the lists, and of the rows being worked on, are
  of the kind stored.
* `method_respected`: the law.
-/
namespace JobArranger

open Tables Locks

/-- What the law asks of the action on a locked READY row, by the flag stored
in the row. -/
structure Obeyed (d : Dispatch) (stored : Method) : Prop where
  run : ∀ msg, d = .run msg → stored = .normal ∨ stored = .rerun
  skip : d = .skip → stored = .skip
  wait : stored = .wait → d = .hold ∨ d = .refuse

/-- NORMAL and RERUN run the icon alike. -/
def sameKind (m m' : Method) : Prop :=
  m = m' ∨ ((m = .normal ∨ m = .rerun) ∧ (m' = .normal ∨ m' = .rerun))

theorem sameKind.trans {m m' m'' : Method} (h : sameKind m m') (h' : sameKind m' m'') : sameKind m m'' := by
  unfold sameKind at *
  rcases h with rfl | ⟨h, h1⟩
  · exact h'
  · rcases h' with rfl | ⟨-, h2⟩
    · exact .inr ⟨h, h1⟩
    · exact .inr ⟨h, h2⟩

theorem sameKind.obeyed {m stored : Method} (h : sameKind m stored) : Obeyed (dispatch m) stored := by
  unfold sameKind at h
  constructor
  · intro msg hd
    cases m with
    | normal =>
      rcases h with rfl | ⟨-, h⟩
      · exact .inl rfl
      · exact h
    | rerun =>
      rcases h with rfl | ⟨-, h⟩
      · exact .inr rfl
      · exact h
    | wait => cases hd
    | skip => cases hd
    | abort => cases hd
  · intro hd
    cases m with
    | skip => simpa [eq_comm] using h
    | normal => cases hd
    | rerun => cases hd
    | wait => cases hd
    | abort => cases hd
  · intro hw
    subst hw
    cases m with
    | wait => exact .inl rfl
    | abort => exact .inr rfl
    | normal => simp at h
    | rerun => simp at h
    | skip => simp at h

section
variable {P : Type}

/-- Every process that has locked a READY row treats it as its stored flag
says. -/
def MethodRespected (s : StartState P) : Prop :=
  ∀ p row, (s.proc p).pc = .holding row → ∀ j, s.tables.job? row.innerJobId = some j →
    Obeyed (dispatch row.methodFlag) j.methodFlag

/-- The stored flag of icon `i` is of the kind on the list. -/
def Listed (t : Tables) (row : Job) : Prop :=
  ∀ j, t.job? row.innerJobId = some j → sameKind row.methodFlag j.methodFlag

/-- `t'` changes the kind of flag of no icon on a list. -/
def KeepsFlags (s : StartState P) (t' : Tables) : Prop :=
  ∀ p, ∀ row ∈ (s.proc p).todo, ∀ j', t'.job? row.innerJobId = some j' →
    ∃ j, s.tables.job? row.innerJobId = some j ∧ sameKind j.methodFlag j'.methodFlag

/-- No commit changes the flag of an icon a process has on its list. -/
def FlagsKept (s : StartState P) : StartLabel P → Prop
  | .commit _ _ _ t' => KeepsFlags s t'
  | .midCommit _ _ _ t' => KeepsFlags s t'
  | .lateCommit _ t' => KeepsFlags s t'
  | .strayWrite _ t' => KeepsFlags s t'
  | .other t' => KeepsFlags s t'
  | _ => True

/-- The processes have no lists yet. -/
def methodSystem (P : Type) [DecidableEq P] : LTS (StartState P) (StartLabel P) where
  init s := StartInit s ∧ ∀ p, (s.proc p).todo = []
  step := StartStep

structure ListInv (s : StartState P) : Prop where
  inv : StartInv s
  keyed : (s.tables.jobs.map Job.innerJobId).Nodup
  todo : ∀ p, ∀ row ∈ (s.proc p).todo, Listed s.tables row
  held : ∀ p row, (s.proc p).pc = .holding row → Listed s.tables row

theorem Listed.keep {s : StartState P} {t' : Tables} (hk : KeepsFlags s t') {p : P} {row : Job}
    (hm : row ∈ (s.proc p).todo) (h : Listed s.tables row) : Listed t' row := by
  intro j' hj'
  obtain ⟨j, hj, hkind⟩ := hk p row hm j' hj'
  exact (h j hj).trans hkind

theorem Listed.cell {t t' : Tables} {row : Job} (hc : cell t' row.innerJobId = cell t row.innerJobId)
    (h : Listed t row) : Listed t' row := by
  intro j hj
  apply h j
  rw [← hj]
  exact (congrArg Cell.job hc).symm

/-- The rows of a select are stored as they are read. -/
theorem listed_select {t : Tables} (hk : (t.jobs.map Job.innerJobId).Nodup) {row : Job} (hr : row ∈ t.jobs) :
    Listed t row := by
  intro j hj
  rw [Tables.job?, Table.lookup_eq hk hr] at hj
  rw [Option.some.inj hj]
  exact .inl rfl

variable [DecidableEq P] {s s' : StartState P}

/-- A step of `p` that commits `t'`, after which it holds nothing. -/
theorem ListInv.commits (h : ListInv s) (hinv : StartInv s') {p : P} {x : Proc}
    (hproc : s'.proc = Function.update s.proc p x) (hcom : Commits s (some p) s'.tables)
    (hk : KeepsFlags s s'.tables) (hx : ∀ row, x.pc ≠ .holding row)
    (htodo : x.todo = (s.proc p).todo) : ListInv s' := by
  refine ⟨hinv, hcom.keyed, ?_, ?_⟩
  · intro q row hm
    have hm' : row ∈ (s.proc q).todo := by
      rw [hproc] at hm
      by_cases hqp : q = p
      · rw [hqp, Function.update_self, htodo] at hm
        rw [hqp]
        exact hm
      · rwa [Function.update_of_ne hqp] at hm
    exact (h.todo q row hm').keep hk hm'
  · intro q row hq
    rw [hproc] at hq
    by_cases hqp : q = p
    · rw [hqp, Function.update_self] at hq
      exact absurd hq (hx row)
    · rw [Function.update_of_ne hqp] at hq
      refine (h.held q row hq).cell (hcom.respects.held (h.inv.held q row hq) ?_)
      simpa using Ne.symm hqp

/-- A step of `p` that commits nothing. -/
theorem ListInv.keeps (h : ListInv s) (hinv : StartInv s') {p : P} {x : Proc} (htables : s'.tables = s.tables)
    (hproc : s'.proc = Function.update s.proc p x) (htodo : ∀ row ∈ x.todo, Listed s.tables row)
    (hx : ∀ row, x.pc = .holding row → Listed s.tables row) : ListInv s' := by
  have hcase : ∀ q, s'.proc q = x ∨ s'.proc q = s.proc q := by
    intro q
    rw [hproc]
    by_cases hqp : q = p
    · rw [hqp, Function.update_self]
      exact .inl rfl
    · rw [Function.update_of_ne hqp]
      exact .inr rfl
  refine ⟨hinv, by rw [htables]; exact h.keyed, ?_, ?_⟩
  · intro q row hm
    rw [htables]
    rcases hcase q with hq | hq
    · rw [hq] at hm
      exact htodo row hm
    · rw [hq] at hm
      exact h.todo q row hm
  · intro q row hm
    rw [htables]
    rcases hcase q with hq | hq
    · rw [hq] at hm
      exact hx row hm
    · rw [hq] at hm
      exact h.held q row hm

theorem ListInv.step (h : ListInv s) {l : StartLabel P} (hs : StartStep s l s') (hk : FlagsKept s l) :
    ListInv s' := by
  have hinv := h.inv.step hs
  cases l with
  | select p =>
    obtain ⟨hpc, -, rfl⟩ := hs
    refine h.keeps hinv rfl rfl ?_ (by simp [hpc])
    intro row hr
    exact listed_select h.keyed (List.mem_of_mem_filter hr)
  | lock p =>
    obtain ⟨row, rest, hpc, htodo, -, rfl⟩ := hs
    have hlist : ∀ r ∈ row :: rest, Listed s.tables r := by
      rw [← htodo]
      exact h.todo p
    split at hinv
    · rename_i hready
      rw [if_pos hready]
      refine h.keeps hinv rfl rfl (fun r hr => hlist r (List.mem_cons_of_mem _ hr)) ?_
      intro r hr
      cases hr
      exact hlist row List.mem_cons_self
    · rename_i hready
      rw [if_neg hready]
      exact h.keeps hinv rfl rfl (fun r hr => hlist r (List.mem_cons_of_mem _ hr)) (by simp [hpc])
  | commit p body t t' =>
    obtain ⟨row, t₁, hpc, -, -, -, hcom, rfl⟩ := hs
    exact h.commits hinv rfl hcom hk (by simp) rfl
  | refuse p =>
    obtain ⟨row, hpc, -, rfl⟩ := hs
    exact h.keeps hinv rfl rfl (h.todo p) (by simp)
  | rollback p =>
    obtain ⟨row, hpc, rfl⟩ := hs
    exact h.keeps hinv rfl rfl (h.todo p) (by simp)
  | midCommit p body t t' =>
    obtain ⟨row, msg, t₁, hpc, -, -, -, -, -, hcom, rfl⟩ := hs
    exact h.commits hinv rfl hcom hk (by simp) rfl
  | lateCommit p t' =>
    obtain ⟨row, hpc, hcom, rfl⟩ := hs
    exact h.commits hinv rfl hcom hk (by simp) rfl
  | lateRollback p =>
    obtain ⟨row, hpc, rfl⟩ := hs
    exact h.keeps hinv rfl rfl (h.todo p) (by simp)
  | hostRollback p =>
    obtain ⟨row, hpc, -, rfl⟩ := hs
    exact h.keeps hinv rfl rfl (h.todo p) (by simp)
  | strayWrite p t' =>
    obtain ⟨row, hpc, hcom, rfl⟩ := hs
    exact h.commits hinv rfl hcom hk (by simp [hpc]) rfl
  | strayEnd p =>
    obtain ⟨row, hpc, rfl⟩ := hs
    exact h.keeps hinv rfl rfl (h.todo p) (by simp)
  | other t' =>
    obtain ⟨hcom, rfl⟩ := hs
    refine ⟨hinv, hcom.keyed, ?_, ?_⟩
    · exact fun q row hm => (h.todo q row hm).keep hk hm
    · exact fun q row hq => (h.held q row hq).cell (hcom.respects.held (h.inv.held q row hq) (by simp))

theorem listInv_inductive : ((methodSystem P).restrict FlagsKept).Inductive ListInv where
  init s hs := by
    obtain ⟨hi, htodo⟩ := hs
    refine ⟨startInv_inductive.init s hi, hi.keyed, ?_, ?_⟩
    · simp [htodo]
    · simp [hi.between]
  step _ _ _ h hs := h.step hs.1 hs.2

/-- **A hold or skip set by the user is respected** in the runs where no
flag changes behind a list. -/
theorem method_respected (s : StartState P) (hr : ((methodSystem P).restrict FlagsKept).Reachable s) :
    MethodRespected s := by
  intro p row hp j hj
  exact ((listInv_inductive.reachable s hr).held p row hp j hj).obeyed

end

/-- The tables after the user has put icon 1 on hold. -/
def heldTables : Tables :=
  (readyTables .job).updateJobs (·.innerJobId == 1) fun j => { j with methodFlag := .wait }

/-- Icon 1 is on hold before the list is read. -/
def heldState : StartState Unit := { readyState Unit .job with tables := heldTables }

theorem heldState_init : StartInit heldState :=
  ⟨fun _ => rfl, by decide, fun _ => rfl, fun _ => rfl, fun _ _ => Nat.le_refl 1, rfl⟩

theorem method_respected_heldState :
    ∃ s, ((methodSystem Unit).restrict FlagsKept).Reachable s ∧ (∃ row, (s.proc ()).pc = .holding row) ∧
      MethodRespected s := by
  have hreach : ∃ s, ((methodSystem Unit).restrict FlagsKept).Reachable s ∧
      ∃ row, (s.proc ()).pc = .holding row :=
    ⟨_, ⟨heldState, [.select (), .lock ()], ⟨heldState_init, fun _ => rfl⟩,
      .cons ⟨⟨rfl, rfl, rfl⟩, trivial⟩ (.cons ⟨⟨_, [], rfl, rfl, rfl, rfl⟩, trivial⟩ (.nil _))⟩, _, rfl⟩
  obtain ⟨s, hr, hrow⟩ := hreach
  exact ⟨s, hr, hrow, method_respected s hr⟩

/-- The hold is set after the list is read: the icon is run. -/
theorem hold_ignored :
    ∃ s row, (methodSystem Unit).Reachable s ∧ (s.proc ()).pc = .holding row ∧
      dispatch row.methodFlag = .run .jobStart ∧
      (s.tables.job? row.innerJobId).map Job.methodFlag = some .wait ∧ ¬ MethodRespected s := by
  refine ⟨_, _, ⟨readyState Unit .job, [.select (), .other heldTables, .lock ()],
    ⟨readyState_init _ _, fun _ => rfl⟩, .cons ⟨rfl, rfl, rfl⟩
      (.cons ⟨⟨by decide, fun _ _ hq _ => nomatch hq⟩, rfl⟩ (.cons ⟨_, [], rfl, rfl, rfl, rfl⟩ (.nil _)))⟩,
    rfl, rfl, rfl, ?_⟩
  intro h
  have hobey := h () _ rfl _ rfl
  have hwait := hobey.wait rfl
  simp [dispatch] at hwait

end JobArranger
