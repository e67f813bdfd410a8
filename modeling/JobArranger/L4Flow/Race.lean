import JobArranger.Core.LTS
import JobArranger.L2Status.Flow
import Mathlib.Data.Fintype.Card
import Mathlib.Data.Fintype.Basic
import Mathlib.Data.Fin.VecNotation

/-!
# Concurrent completions of the predecessors of one join

`n` predecessors of one AND-join complete at the same time, each in its own
process and on its own connection. A step is one SQL statement of one
process. `select … for update` and `update` on the target row wait while
another process holds the row lock; inside `DBbegin … DBcommit` the lock
stays until the commit, outside a transaction it ends with its statement.

The callers differ in that: `process_jarun`, `process_jajob` and
`jatrap_jobresult` call `ja_flow` inside a transaction, the forked children
of `jarun_icon_fcopy` (jaruniconfcopy.c:259-271) and of `jarun_icon_job`
(jaruniconjob.c:243-274) call `ja_flow` and `ja_set_runerr` after a fresh
`DBconnect` without `DBbegin`.

Statements on other rows (variables, log, the predecessor's own row) are
kept as statements without effect on the target row; the several statements
of `ja_clean_value_after` and `ja_joblog` are one each.

* `joined_iff`: every interleaving ends with the join READY at
  `end_count = boot_count` exactly when there is one predecessor or all run
  inside transactions.
-/
namespace JobArranger

inductive Stmt where
  | dbBegin | cleanAfter | selectFlows | selectJobnet | selectTarget | selectLink | resetLinked
  | updateTarget (status : Status) (endCount : Nat)
  | insertBefore | joblog | selectOwn | insertAfter | selectMain | selectExitCd
  | updateOwn (status : Status)
  | dbCommit
  deriving DecidableEq, Repr

/-- Statements of `ja_flow(…, NORMAL, msg_flag)` for an icon with one
outgoing flow.
mirrors src/jalibs/jaflow.c:175-236, src/jalibs/jastatus.c:543-563 -/
def flowStmts (msgFlag : Bool) : List Stmt :=
  [.cleanAfter, .selectFlows, .selectJobnet, .selectTarget] ++
    if msgFlag then [.cleanAfter, .joblog, .selectOwn, .updateOwn .ended] else []

/-- Statements of `ja_flow_set_status` after the target row was read.
mirrors src/jalibs/jaflow.c:80-157 -/
def setStatusStmts (j : Job) : List Stmt :=
  match flowCount j with
  | .keep => []
  | .reject => [.cleanAfter, .joblog, .selectOwn, .updateOwn .endErr]
  | .count status endCount =>
    (if j.jobType = .jobnet ∧ status = .ready then [.selectLink, .resetLinked] else []) ++
      [.updateTarget status endCount, .insertBefore]

/-- Who calls `ja_flow`: a server process inside its transaction, the
child of a file copy icon, or the failing child of a job icon (through
`ja_set_runerr` with `continue_flag` on). -/
inductive Caller where
  | transaction | fcopyChild | jobChild
  deriving DecidableEq, Repr

def Caller.inTx : Caller → Bool
  | .transaction => true
  | .fcopyChild | .jobChild => false

def Caller.program : Caller → List Stmt
  | .transaction => .dbBegin :: (flowStmts true ++ [.dbCommit])
  | .fcopyChild => flowStmts true
  | .jobChild =>
    [.cleanAfter, .joblog, .selectOwn, .insertAfter, .selectMain, .selectExitCd] ++ flowStmts false ++
      [.selectOwn, .updateOwn .runErr]

/-- The target row, who holds its lock, and what each process still has to
execute. -/
structure Race (n : Nat) where
  target : Job
  lock : Option (Fin n)
  todo : Fin n → List Stmt

variable {n : Nat}

namespace Race

def advance (s : Race n) (k : Fin n) (rest : List Stmt) : Race n :=
  { s with todo := Function.update s.todo k rest }

/-- A statement that locks the target row can run. -/
def Free (s : Race n) (k : Fin n) : Prop := s.lock = none ∨ s.lock = some k

instance (s : Race n) (k : Fin n) : Decidable (s.Free k) := inferInstanceAs (Decidable (_ ∨ _))

/-- The lock after process `k` locked the row. -/
def lockBy (c : Fin n → Caller) (s : Race n) (k : Fin n) : Option (Fin n) :=
  if (c k).inTx then some k else s.lock

/-- Process `k` executes its next statement (`none`: it waits or has
returned). -/
def step (c : Fin n → Caller) (s : Race n) (k : Fin n) : Option (Race n) :=
  match s.todo k with
  | [] => none
  | .selectTarget :: rest =>
    if s.Free k then
      some { s.advance k (setStatusStmts s.target ++ rest) with lock := s.lockBy c k }
    else none
  | .updateTarget status endCount :: rest =>
    if s.Free k then
      some { s.advance k rest with target := { s.target with status, endCount }, lock := s.lockBy c k }
    else none
  | .dbCommit :: rest =>
    some { s.advance k rest with lock := if s.lock = some k then none else s.lock }
  | _ :: rest => some (s.advance k rest)

def start (c : Fin n → Caller) (j : Job) : Race n := ⟨j, none, fun k => (c k).program⟩

/-- All interleavings of the callers' statements on target row `j`. -/
def lts (c : Fin n → Caller) (j : Job) : LTS (Race n) (Fin n) :=
  .ofFn (· = start c j) (step c)

/-- Every `ja_flow` call has returned. -/
def Done (s : Race n) : Prop := ∀ k, s.todo k = []

def Joined (s : Race n) : Prop := s.target.endCount = s.target.bootCount ∧ s.target.status = .ready

end Race

/-- A loaded AND-join with `n` incoming flows, none fired yet. -/
structure AndJoin (n : Nat) (j : Job) : Prop where
  status : j.status = .begin
  endCount : j.endCount = 0
  bootCount : j.bootCount = n
  notIfend : j.jobType ≠ .ifend
  notLoop : j.jobType ≠ .l

/-! ## Phases of a process -/

namespace Race

/-- Touches neither the target row nor a lock. -/
def Plain (l : List Stmt) : Prop :=
  ∀ x ∈ l, x ≠ .selectTarget ∧ x ≠ .dbCommit ∧ ∀ st m, x ≠ .updateTarget st m

/-- The end of a process's program. -/
def fin (c : Caller) : List Stmt := if c.inTx then [.dbCommit] else []

inductive Phase where
  /-- the target row is not read yet -/
  | waiting
  /-- read, and the update computed -/
  | selected (status : Status) (endCount : Nat)
  /-- updated, possibly still to commit -/
  | counted
  | returned
  deriving DecidableEq

inductive PhaseOf (c : Caller) : List Stmt → Phase → Prop where
  | waiting {a b : List Stmt} : Plain a → Plain b →
      PhaseOf c (a ++ .selectTarget :: (b ++ fin c)) .waiting
  | selected {a b : List Stmt} {status : Status} {endCount : Nat} : Plain a → Plain b →
      PhaseOf c (a ++ .updateTarget status endCount :: (b ++ fin c)) (.selected status endCount)
  | counted {b : List Stmt} : Plain b → PhaseOf c (b ++ fin c) .counted
  | returned : PhaseOf c [] .returned

theorem program_waiting (c : Caller) :
    ∃ a b, c.program = a ++ .selectTarget :: (b ++ fin c) ∧ Plain a ∧ Plain b := by
  cases c with
  | transaction =>
    refine ⟨[.dbBegin, .cleanAfter, .selectFlows, .selectJobnet],
      [.cleanAfter, .joblog, .selectOwn, .updateOwn .ended], rfl, ?_, ?_⟩ <;> simp [Plain]
  | fcopyChild =>
    refine ⟨[.cleanAfter, .selectFlows, .selectJobnet],
      [.cleanAfter, .joblog, .selectOwn, .updateOwn .ended], rfl, ?_, ?_⟩ <;> simp [Plain]
  | jobChild =>
    refine ⟨[.cleanAfter, .joblog, .selectOwn, .insertAfter, .selectMain, .selectExitCd, .cleanAfter,
      .selectFlows, .selectJobnet], [.selectOwn, .updateOwn .runErr], rfl, ?_, ?_⟩ <;> simp [Plain]

theorem step_plain {c : Fin n → Caller} {s : Race n} {k : Fin n} {x : Stmt} {rest : List Stmt}
    (hx : x ≠ .selectTarget ∧ x ≠ .dbCommit ∧ ∀ st m, x ≠ .updateTarget st m)
    (h : s.todo k = x :: rest) : step c s k = some (s.advance k rest) := by
  unfold step
  rw [h]
  cases x <;> first | rfl | exact absurd rfl hx.1 | exact absurd rfl hx.2.1 | exact absurd rfl (hx.2.2 _ _)

/-- The process has read the row and not committed yet. -/
def Phase.holds : Phase → Bool
  | .selected _ _ | .counted => true
  | .waiting | .returned => false

/-- The process has counted up the target. -/
def Phase.fired : Phase → Bool
  | .counted | .returned => true
  | .waiting | .selected _ _ => false

/-- Processes exclude each other between reading the row and writing it:
there is only one, or every one keeps its row lock. -/
def Exclusive (c : Fin n → Caller) : Prop := n ≤ 1 ∨ ∀ k, (c k).inTx

structure Inv (c : Fin n → Caller) (s : Race n) (ph : Fin n → Phase) : Prop where
  phase : ∀ k, PhaseOf (c k) (s.todo k) (ph k)
  lock : (∀ k, (c k).inTx) → ∀ k, (ph k).holds → s.lock = some k
  count : s.target.endCount = (Finset.univ.filter fun k => (ph k).fired).card
  status : s.target.status = if s.target.endCount < n then .begin else .ready
  decided : ∀ k st m, ph k = .selected st m → flowCount s.target = .count st m
  boot : s.target.bootCount = n
  notIfend : s.target.jobType ≠ .ifend
  notLoop : s.target.jobType ≠ .l

theorem Inv.start {c : Fin n → Caller} {j : Job} (hj : AndJoin n j) (hn : 0 < n) :
    Inv c (start c j) fun _ => .waiting where
  phase k := by
    obtain ⟨a, b, h, ha, hb⟩ := program_waiting (c k)
    change PhaseOf (c k) (c k).program .waiting
    rw [h]
    exact .waiting ha hb
  lock _ _ h := by simp [Phase.holds] at h
  count := by simpa [Phase.fired, Race.start] using hj.endCount
  status := by simp [Race.start, hj.endCount, hj.status, hn]
  decided _ _ _ h := by cases h
  boot := hj.bootCount
  notIfend := hj.notIfend
  notLoop := hj.notLoop

/-- A step that only moves process `k` on within its phase. -/
theorem Inv.advance {c : Fin n → Caller} {s : Race n} {ph : Fin n → Phase} (h : Inv c s ph) {k : Fin n}
    {rest : List Stmt} (hp : PhaseOf (c k) rest (ph k)) : Inv c (s.advance k rest) ph :=
  { h with
    phase := fun k' => by
      by_cases hk : k' = k
      · subst hk
        simpa [Race.advance] using hp
      · simpa [Race.advance, hk] using h.phase k' }

theorem card_fired_lt {ph : Fin n → Phase} {k : Fin n} (h : (ph k).fired = false) :
    (Finset.univ.filter fun k => (ph k).fired).card < n := by
  have hlt : (Finset.univ.filter fun k => (ph k).fired).card < (Finset.univ : Finset (Fin n)).card := by
    refine Finset.card_lt_card ⟨Finset.filter_subset _ _, fun hsub => ?_⟩
    have := hsub (Finset.mem_univ k)
    simp [h] at this
  simpa using hlt

theorem card_fired_update {ph : Fin n → Phase} {k : Fin n} {p : Phase} (h : (ph k).fired = false)
    (hp : p.fired = true) :
    (Finset.univ.filter fun i => (Function.update ph k p i).fired).card =
      (Finset.univ.filter fun i => (ph i).fired).card + 1 := by
  have he : (Finset.univ.filter fun i => (Function.update ph k p i).fired) =
      insert k (Finset.univ.filter fun i => (ph i).fired) := by
    ext i
    by_cases hi : i = k <;> simp [hi, hp]
  rw [he, Finset.card_insert_of_notMem (by simp [h])]

/-- While a process has not fired, the target is in BEGIN and its count is
decided by the current row. -/
theorem Inv.open_target {c : Fin n → Caller} {s : Race n} {ph : Fin n → Phase} (h : Inv c s ph)
    {k : Fin n} (hk : (ph k).fired = false) :
    s.target.status = .begin ∧
      flowCount s.target = .count (if n ≤ s.target.endCount + 1 then .ready else .begin)
        (s.target.endCount + 1) := by
  have hlt : s.target.endCount < n := by
    rw [h.count]
    exact card_fired_lt hk
  have hs : s.target.status = .begin := by rw [h.status, if_pos hlt]
  refine ⟨hs, ?_⟩
  rw [flowCount_begin hs h.notIfend h.notLoop, h.boot]

/-- Nobody else is between read and write while `k` can lock the row. -/
theorem Inv.alone {c : Fin n → Caller} {s : Race n} {ph : Fin n → Phase} (h : Inv c s ph)
    (hc : Exclusive c) {k : Fin n} (hf : s.Free k) {k' : Fin n} (hh : (ph k').holds) : k' = k := by
  rcases hc with h1 | htx
  · exact Fin.ext (by omega)
  · have hl := h.lock htx k' hh
    rcases hf with hf | hf <;> rw [hl] at hf
    · cases hf
    · exact Option.some.inj hf

theorem card_fired_same {ph : Fin n → Phase} {k : Fin n} {p : Phase} (h : p.fired = (ph k).fired) :
    (Finset.univ.filter fun i => (Function.update ph k p i).fired).card =
      (Finset.univ.filter fun i => (ph i).fired).card := by
  congr 1
  ext i
  by_cases hi : i = k
  · subst hi
    simp [h]
  · simp [hi]

theorem setStatusStmts_count {j : Job} {st : Status} {m : Nat} (h : flowCount j = .count st m) :
    ∃ a, setStatusStmts j = a ++ [.updateTarget st m, .insertBefore] ∧ Plain a := by
  rw [setStatusStmts, h]
  refine ⟨_, rfl, ?_⟩
  split <;> simp [Plain]

theorem plain_append {a b : List Stmt} (ha : Plain a) (hb : Plain b) : Plain (a ++ b) := fun x hx =>
  (List.mem_append.mp hx).elim (ha x) (hb x)

theorem Inv.select {c : Fin n → Caller} {s : Race n} {ph : Fin n → Phase} (h : Inv c s ph)
    (hc : Exclusive c) {k : Fin n} (hf : s.Free k) (hw : ph k = .waiting) {b : List Stmt}
    (hb : Plain b) :
    ∃ ph', Inv c { s.advance k (setStatusStmts s.target ++ (b ++ fin (c k))) with
      lock := s.lockBy c k } ph' := by
  obtain ⟨st, m, hcount⟩ : ∃ st m, flowCount s.target = .count st m :=
    ⟨_, _, (h.open_target (k := k) (by rw [hw]; rfl)).2⟩
  obtain ⟨a, ha, hpa⟩ := setStatusStmts_count hcount
  refine ⟨Function.update ph k (.selected st m), ?_, ?_, ?_, h.status, ?_, h.boot, h.notIfend, h.notLoop⟩
  · intro k'
    by_cases hk : k' = k
    · subst hk
      simp only [Race.advance, Function.update_self, ha]
      have hins : Plain (.insertBefore :: b) := plain_append (a := [.insertBefore]) (by simp [Plain]) hb
      have hsel : PhaseOf (c k') (a ++ .updateTarget st m :: ((.insertBefore :: b) ++ fin (c k'))) (.selected st m) :=
        .selected hpa hins
      simpa using hsel
    · simpa [Race.advance, hk] using h.phase k'
  · intro htx k' hh
    by_cases hk : k' = k
    · simp [lockBy, htx k, hk]
    · rw [Function.update_of_ne hk] at hh
      exact absurd (h.alone hc hf hh) hk
  · rw [card_fired_same (by rw [hw]; rfl)]
    exact h.count
  · intro k' st' m' hsel
    by_cases hk : k' = k
    · subst hk
      rw [Function.update_self] at hsel
      cases hsel
      exact hcount
    · rw [Function.update_of_ne hk] at hsel
      exact h.decided k' st' m' hsel

theorem Inv.update {c : Fin n → Caller} {s : Race n} {ph : Fin n → Phase} (h : Inv c s ph)
    (hc : Exclusive c) {k : Fin n} (hf : s.Free k) {st : Status} {m : Nat}
    (hsel : ph k = .selected st m) {b : List Stmt} (hb : Plain b) :
    ∃ ph', Inv c { s.advance k (b ++ fin (c k)) with
      target := { s.target with status := st, endCount := m }, lock := s.lockBy c k } ph' := by
  have hnf : (ph k).fired = false := by rw [hsel]; rfl
  obtain ⟨-, hcount⟩ := h.open_target hnf
  rw [h.decided k st m hsel, FlowAct.count.injEq] at hcount
  obtain ⟨hst, hm⟩ := hcount
  refine ⟨Function.update ph k .counted, ?_, ?_, ?_, ?_, ?_, h.boot, h.notIfend, h.notLoop⟩
  · intro k'
    by_cases hk : k' = k
    · subst hk
      simpa [Race.advance] using PhaseOf.counted (c := c k') hb
    · simpa [Race.advance, hk] using h.phase k'
  · intro htx k' hh
    by_cases hk : k' = k
    · simp [lockBy, htx k, hk]
    · rw [Function.update_of_ne hk] at hh
      exact absurd (h.alone hc hf hh) hk
  · rw [card_fired_update hnf rfl, ← h.count, hm]
  · change st = if m < n then .begin else .ready
    rw [hst, hm]
    by_cases hle : n ≤ s.target.endCount + 1
    · rw [if_pos hle, if_neg (by omega)]
    · rw [if_neg hle, if_pos (by omega)]
  · intro k' st' m' hsel'
    by_cases hk : k' = k
    · subst hk
      rw [Function.update_self] at hsel'
      cases hsel'
    · rw [Function.update_of_ne hk] at hsel'
      exact absurd (h.alone hc hf (by rw [hsel']; rfl)) hk

theorem Inv.commit {c : Fin n → Caller} {s : Race n} {ph : Fin n → Phase} (h : Inv c s ph)
    {k : Fin n} (hw : ph k = .counted) :
    ∃ ph', Inv c { s.advance k [] with lock := if s.lock = some k then none else s.lock } ph' := by
  refine ⟨Function.update ph k .returned, ?_, ?_, ?_, h.status, ?_, h.boot, h.notIfend, h.notLoop⟩
  · intro k'
    by_cases hk : k' = k
    · subst hk
      simpa [Race.advance] using PhaseOf.returned (c := c k')
    · simpa [Race.advance, hk] using h.phase k'
  · intro htx k' hh
    by_cases hk : k' = k
    · subst hk
      simp [Phase.holds] at hh
    · rw [Function.update_of_ne hk] at hh
      have hl := h.lock htx k' hh
      simp [hl, hk]
  · rw [card_fired_same (by rw [hw]; rfl)]
    exact h.count
  · intro k' st m hsel
    by_cases hk : k' = k
    · subst hk
      rw [Function.update_self] at hsel
      cases hsel
    · rw [Function.update_of_ne hk] at hsel
      exact h.decided k' st m hsel

/-- One statement of one process keeps the invariant. -/
theorem Inv.step {c : Fin n → Caller} {s s' : Race n} {ph : Fin n → Phase} (h : Inv c s ph)
    (hc : Exclusive c) {k : Fin n} (hst : Race.step c s k = some s') : ∃ ph', Inv c s' ph' := by
  have hp := h.phase k
  generalize htodo : s.todo k = l at hp
  generalize hph : ph k = q at hp
  cases hp with
  | @waiting a b ha hb =>
    cases a with
    | nil =>
      simp only [Race.step, htodo, List.nil_append] at hst
      split at hst
      · rename_i hf
        cases hst
        exact h.select hc hf hph hb
      · cases hst
    | cons x a =>
      rw [step_plain (ha x List.mem_cons_self) htodo] at hst
      cases hst
      exact ⟨ph, h.advance (hph ▸ .waiting (fun y hy => ha y (List.mem_cons_of_mem _ hy)) hb)⟩
  | @selected a b st m ha hb =>
    cases a with
    | nil =>
      simp only [Race.step, htodo, List.nil_append] at hst
      split at hst
      · rename_i hf
        cases hst
        exact h.update hc hf hph hb
      · cases hst
    | cons x a =>
      rw [step_plain (ha x List.mem_cons_self) htodo] at hst
      cases hst
      exact ⟨ph, h.advance (hph ▸ .selected (fun y hy => ha y (List.mem_cons_of_mem _ hy)) hb)⟩
  | @counted b hb =>
    cases b with
    | nil =>
      cases htx : (c k).inTx with
      | false => simp [Race.step, htodo, fin, htx] at hst
      | true =>
        simp only [Race.step, htodo, fin, htx, if_true, List.nil_append] at hst
        cases hst
        exact h.commit hph
    | cons x b =>
      rw [step_plain (hb x List.mem_cons_self) htodo] at hst
      cases hst
      exact ⟨ph, h.advance (hph ▸ .counted fun y hy => hb y (List.mem_cons_of_mem _ hy))⟩
  | returned => simp [Race.step, htodo] at hst

/-- Exclusive callers lose no increment. -/
theorem joined_of_exclusive {c : Fin n → Caller} {j : Job} (hj : AndJoin n j) (hn : 0 < n)
    (hc : Exclusive c) (s : Race n) (hr : (lts c j).Reachable s) (hd : s.Done) : s.Joined := by
  have hinv : ∃ ph, Inv c s ph := by
    refine LTS.Inductive.reachable (J := fun s => ∃ ph, Inv c s ph) ⟨?_, ?_⟩ s hr
    · rintro s rfl
      exact ⟨_, Inv.start hj hn⟩
    · rintro s k s' ⟨ph, h⟩ hst
      exact h.step hc hst
  obtain ⟨ph, h⟩ := hinv
  have hfired : ∀ k, (ph k).fired := by
    intro k
    have hp := h.phase k
    rw [hd k] at hp
    generalize hph : ph k = q at hp
    generalize hl : ([] : List Stmt) = l at hp
    cases hp with
    | waiting => simp at hl
    | selected => simp at hl
    | counted => rfl
    | returned => rfl
  have hcount : s.target.endCount = n := by
    rw [h.count, Finset.filter_true_of_mem fun k _ => hfired k, Finset.card_univ, Fintype.card_fin]
  refine ⟨hcount.trans h.boot.symm, ?_⟩
  rw [h.status, hcount, if_neg (lt_irrefl n)]

/-! ## A caller without a transaction loses an increment -/

section Lost

variable {c : Fin n → Caller} {j : Job}

theorem advance_advance (s : Race n) (k : Fin n) (l l' : List Stmt) :
    (s.advance k l).advance k l' = s.advance k l' := by
  simp [Race.advance]

theorem advance_todo (s : Race n) (k : Fin n) (l : List Stmt) : (s.advance k l).todo k = l := by
  simp [Race.advance]

/-- A process runs through statements that lock nothing. -/
theorem reaches_plain {k : Fin n} {r : List Stmt} :
    ∀ {a : List Stmt} {s : Race n}, Plain a → s.todo k = a ++ r →
      (lts c j).Reaches s (s.advance k r)
  | [], s, _, h => by
    have : s.advance k r = s := by
      simp only [List.nil_append] at h
      simp [Race.advance, ← h]
    rw [this]
    exact .refl _ s
  | x :: a, s, ha, h => by
    have hstep : Race.step c s k = some (s.advance k (a ++ r)) :=
      step_plain (ha x List.mem_cons_self) h
    refine .trans (.single (m := lts c j) hstep) ?_
    have := reaches_plain (a := a) (s := s.advance k (a ++ r))
      (fun y hy => ha y (List.mem_cons_of_mem _ hy)) (advance_todo s k _)
    rwa [advance_advance] at this

/-- Process `k` reads the row: up to its own update. -/
theorem reaches_selected {s : Race n} {k : Fin n} (hl : s.lock = none)
    (htodo : s.todo k = (c k).program) {st : Status} {m : Nat}
    (hcount : flowCount s.target = .count st m) :
    ∃ b, Plain b ∧ (lts c j).Reaches s { s.advance k (.updateTarget st m :: (b ++ fin (c k))) with
      lock := if (c k).inTx then some k else none } := by
  obtain ⟨a, b, hprog, ha, hb⟩ := program_waiting (c k)
  obtain ⟨a', ha', hpa'⟩ := setStatusStmts_count hcount
  refine ⟨.insertBefore :: b, plain_append (a := [.insertBefore]) (by simp [Plain]) hb, ?_⟩
  refine .trans (reaches_plain ha (htodo.trans hprog)) ?_
  have hsel : Race.step c (s.advance k (.selectTarget :: (b ++ fin (c k)))) k =
      some { s.advance k (a' ++ (.updateTarget st m :: .insertBefore :: (b ++ fin (c k)))) with
        lock := if (c k).inTx then some k else none } := by
    simp only [Race.step, advance_todo, advance_advance]
    rw [if_pos (.inl hl)]
    simp [Race.advance, lockBy, hl, ha']
  refine .trans (.single (m := lts c j) hsel) ?_
  have := reaches_plain (c := c) (j := j) (k := k) (a := a')
    (r := .updateTarget st m :: .insertBefore :: (b ++ fin (c k)))
    (s := { s.advance k (a' ++ (.updateTarget st m :: .insertBefore :: (b ++ fin (c k)))) with
      lock := if (c k).inTx then some k else none }) hpa' (advance_todo s k _)
  simpa [Race.advance] using this

/-- A process that has read the row writes it and returns. -/
theorem reaches_returned {s : Race n} {k : Fin n} {v : Status} {m : Nat} {b : List Stmt} (hb : Plain b)
    (hl : s.lock = if (c k).inTx then some k else none)
    (htodo : s.todo k = .updateTarget v m :: (b ++ fin (c k))) :
    (lts c j).Reaches s
      ⟨{ s.target with status := v, endCount := m }, none, Function.update s.todo k []⟩ := by
  have hfree : s.Free k := by
    rw [Race.Free, hl]
    cases (c k).inTx <;> simp
  have hupd : Race.step c s k = some { s.advance k (b ++ fin (c k)) with
      target := { s.target with status := v, endCount := m },
      lock := if (c k).inTx then some k else none } := by
    simp only [Race.step, htodo, if_pos hfree, lockBy, hl]
    cases (c k).inTx <;> rfl
  refine .trans (.single (m := lts c j) hupd) ?_
  refine .trans (reaches_plain (c := c) (j := j) (k := k) (a := b) (r := fin (c k)) hb
    (advance_todo s k _)) ?_
  cases htx : (c k).inTx with
  | false =>
    have : fin (c k) = [] := by simp [fin, htx]
    simp only [this, Race.advance, Bool.false_eq_true, if_false, Function.update_idem]
    exact .refl _ _
  | true =>
    have hfin : fin (c k) = [.dbCommit] := by simp [fin, htx]
    refine .single (m := lts c j) (l := k) ?_
    change Race.step c _ k = _
    simp [Race.step, Race.advance, hfin]

/-- Processes of `ks` complete one after the other. -/
theorem reaches_sequential (hi : j.jobType ≠ .ifend) (hlp : j.jobType ≠ .l) :
    ∀ {l : List (Fin n)} {s : Race n} {e : Nat}, l.Nodup →
      s.target = { j with status := .begin, endCount := e } → s.lock = none →
      (∀ k ∈ l, s.todo k = (c k).program) → e + l.length < j.bootCount →
      ∃ s', (lts c j).Reaches s s' ∧
        s'.target = { j with status := .begin, endCount := e + l.length } ∧ s'.lock = none ∧
        (∀ k ∈ l, s'.todo k = []) ∧ ∀ k, k ∉ l → s'.todo k = s.todo k
  | [], s, e, _, ht, hl, _, _ => ⟨s, .refl _ s, ht, hl, by simp, fun _ _ => rfl⟩
  | k :: ks, s, e, hnd, ht, hl, htodo, hlt => by
    simp only [List.nodup_cons, List.length_cons] at hnd hlt
    have hcount : flowCount s.target = .count .begin (e + 1) := by
      have := flowCount_begin (j := { j with status := .begin, endCount := e }) rfl hi hlp
      rw [ht, this, if_neg (by simp only; omega)]
    obtain ⟨b, hb, hsel⟩ := reaches_selected (c := c) (j := j) hl (htodo k List.mem_cons_self) hcount
    have hret := reaches_returned (c := c) (j := j) (k := k) (v := .begin) (m := e + 1) (b := b)
      (s := { s.advance k (.updateTarget .begin (e + 1) :: (b ++ fin (c k))) with
        lock := if (c k).inTx then some k else none }) hb rfl (advance_todo s k _)
    have hall := hsel.trans hret
    simp only [Race.advance, Function.update_idem] at hall
    obtain ⟨s', hs', ht', hl', hin, hout⟩ := reaches_sequential hi hlp (l := ks) (e := e + 1)
      (s := ⟨{ s.target with status := .begin, endCount := e + 1 }, none, Function.update s.todo k []⟩)
      hnd.2 (by rw [ht]) rfl
      (fun k' hk' => by
        have hne : k' ≠ k := fun h => hnd.1 (h ▸ hk')
        simpa [hne] using htodo k' (List.mem_cons_of_mem _ hk'))
      (by omega)
    refine ⟨s', hall.trans hs', ?_, hl', ?_, ?_⟩
    · rw [ht', List.length_cons, Nat.add_assoc, Nat.add_comm 1]
    · intro k' hk'
      rcases List.mem_cons.mp hk' with rfl | hk'
      · rw [hout k' hnd.1]
        simp
      · exact hin k' hk'
    · intro k' hk'
      simp only [List.mem_cons, not_or] at hk'
      rw [hout k' hk'.2]
      simp [hk'.1]

/-- **Lost update.** A caller without a transaction reads the row, every
other caller completes, and its write puts the count back to 1. -/
theorem lost_of_not_exclusive (hj : AndJoin n j) (hn : 2 ≤ n) {u : Fin n} (hu : (c u).inTx = false) :
    ∃ s, (lts c j).Reachable s ∧ s.Done ∧ ¬s.Joined := by
  have hcount : flowCount (start c j).target = .count .begin 1 := by
    refine (flowCount_begin hj.status hj.notIfend hj.notLoop).trans ?_
    rw [hj.endCount, hj.bootCount, if_neg (by omega)]
  obtain ⟨b, hb, hsel⟩ := reaches_selected (c := c) (j := j) (k := u) rfl rfl hcount
  let others := (Finset.univ.erase u : Finset (Fin n)).toList
  have hlen : others.length = n - 1 := by
    simp [others, Finset.length_toList, Finset.card_erase_of_mem]
  obtain ⟨s₂, h₂, ht₂, hl₂, hin, hout⟩ := reaches_sequential (c := c) (j := j) hj.notIfend hj.notLoop
    (l := others) (e := 0)
    (s := { (start c j).advance u (.updateTarget .begin 1 :: (b ++ fin (c u))) with
      lock := if (c u).inTx then some u else none })
    (Finset.nodup_toList _)
    (by obtain ⟨h1, h2, -, -, -⟩ := hj
        change j = _
        rw [← h1, ← h2])
    (by simp [hu])
    (fun k hk => by
      have hne : k ≠ u := by simpa [others] using hk
      simp [Race.advance, start, hne])
    (by rw [hlen, hj.bootCount]; omega)
  have hu₂ : s₂.todo u = .updateTarget .begin 1 :: (b ++ fin (c u)) := by
    rw [hout u (by simp [others])]
    exact advance_todo _ u _
  have h₃ := reaches_returned (c := c) (j := j) hb (by simp [hl₂, hu]) hu₂
  refine ⟨_, LTS.Reachable.reaches ⟨start c j, [], rfl, .nil _⟩ ((hsel.trans h₂).trans h₃), ?_, ?_⟩
  · intro k
    by_cases hk : k = u
    · simp [hk]
    · simpa [hk] using hin k (by simp [others, hk])
  · rintro ⟨h1, -⟩
    simp only [ht₂, hj.bootCount] at h1
    omega

end Lost

/-- **Exactly when no increment is lost.** Every complete interleaving
leaves the join READY with `end_count = boot_count` if and only if there is
a single predecessor or every predecessor completes inside a transaction. -/
theorem joined_iff (c : Fin n → Caller) (j : Job) (hn : 0 < n) (hj : AndJoin n j) :
    (∀ s, (lts c j).Reachable s → s.Done → s.Joined) ↔ n ≤ 1 ∨ ∀ k, (c k).inTx := by
  refine ⟨fun h => ?_, fun hc s hr hd => joined_of_exclusive hj hn hc s hr hd⟩
  by_contra hnot
  simp only [not_or, not_le, not_forall, Bool.not_eq_true] at hnot
  obtain ⟨hn2, u, hu⟩ := hnot
  obtain ⟨s, hr, hd, hns⟩ := lost_of_not_exclusive hj hn2 hu
  exact hns (h s hr hd)

/-- A join with two incoming flows. -/
def joinOfTwo : Job := ⟨3, 1, 1, false, .job, false, .normal, false, .begin, 2, 0, "J", false⟩

theorem joinOfTwo_andJoin : AndJoin 2 joinOfTwo := ⟨rfl, rfl, rfl, by decide, by decide⟩

/-- A file copy icon and a job that ends in a transaction: some
interleaving of their statements leaves the join waiting for ever. -/
theorem fcopy_loses_increment :
    ¬∀ s, (lts ![.fcopyChild, .transaction] joinOfTwo).Reachable s → s.Done → s.Joined := by
  intro h
  obtain ⟨s, hr, hd, hns⟩ := lost_of_not_exclusive (c := ![.fcopyChild, .transaction])
    joinOfTwo_andJoin (le_refl 2) (u := 0) rfl
  exact hns (h s hr hd)

theorem joined_iff_transactions :
    AndJoin 2 joinOfTwo ∧
      ∀ s, (lts ![.transaction, .transaction] joinOfTwo).Reachable s → s.Done → s.Joined :=
  ⟨joinOfTwo_andJoin, (joined_iff ![.transaction, .transaction] joinOfTwo (by decide) joinOfTwo_andJoin).mpr
    (.inr (by decide))⟩

end Race
end JobArranger
