import JobArranger.Core.LTS
import JobArranger.L1Data.Tables
import Mathlib.Data.List.Nodup

/-!
# Host locks of REBOOT icons

A REBOOT icon locks its host: `ja_host_lock` inserts a row into
`ja_host_lock_table`, and starts on that host are rolled back while the row
is there (`ja_host_lockinfo`). The transaction of the start inserts the row;
the trapper deletes it in the transaction of the job result, the forked
child in the paths where the agent does not take the job.

A step is one statement, or the end, of one transaction. Every transaction
locks the row of its job first (`select … for update`), so `txn` holds at
most one of them for each job. `HOST_LOCK_RECORD` is locked by the start
before its insert and by the trapper before its delete, until they end. The
child works without `DBbegin`: each of its statements is committed at once,
and waits for a row that an open transaction has written.

A transaction reads the lock table as it was at its begin (repeatable
reads); the insert and the deletes meet the committed rows.

* `locks_paired`: lock rows and running REBOOT jobs correspond in every run
  whose steps are `Regular`.
* `blocked_until_rollback`: a start that finds its host locked can only be
  rolled back.
* `two_reboots`: the child deletes the row before it changes the status.
-/
namespace JobArranger.HostLock

/-- `lock_host_name`. -/
abbrev Host := String

def hostLockRecord : Host := "HOST_LOCK_RECORD"

/-- What a start reads of its icon before it looks for a lock (`none`: a row
or a variable is missing). An icon of `jarun_agent` is as a job icon. -/
inductive Icon where
  | job (host : Option Host)
  | fcopy (hosts : Option (Host × Host))
  | reboot (host : Option Host)

namespace Icon

def hosts : Icon → Option (List Host)
  | .job host | .reboot host => host.map ([·])
  | .fcopy hosts => hosts.map fun (fromHost, toHost) => [fromHost, toHost]

def reboot? : Icon → Option Host
  | .reboot host => host
  | .job _ | .fcopy _ => none

end Icon

/-- mirrors src/jalibs/jahost.c:265-288 -/
def jaHostLockinfo (rows : List Host) (host : Host) : Bool := rows.contains host

/-- The start finds one of its hosts locked.
mirrors src/jobarg_server/jarun/jaruniconjob.c:161-168, jaruniconfcopy.c:139-150,
jaruniconreboot.c:105-110 -/
def Icon.locked (i : Icon) (rows : List Host) : Bool := (i.hosts.getD []).any (jaHostLockinfo rows)

/-- The open transaction on the row of a job. `begun` to `forked` belong to
`process_jarun`, the last two to `jatrap_jobresult`. -/
inductive Txn where
  | idle
  | begun (rows : List Host)
  | recorded (host : Host)
  | inserted (host : Host)
  | forked (host : Host)
  | result
  | deleted (host : Host)
  deriving DecidableEq

/-- The lock row a transaction has written. -/
def Txn.wrote : Txn → Option Host
  | .inserted host | .forked host | .deleted host => some host
  | .idle | .begun _ | .recorded _ | .result => none

/-- Where the child is. `failed`: the agent did not take the job, and
`HOST_LOCK_RECORD` was free; `unlocked`: the lock row is deleted, and the
status not (or, if `ja_set_runerr` fails, never) changed. -/
inductive At where
  | connecting | failed | unlocked
  deriving DecidableEq

/-- The child of a REBOOT start. -/
structure Child (J : Type) where
  job : J
  host : Host
  pc : At

abbrev Pid := Nat

/-- The committed rows, the open transactions, who has locked
`HOST_LOCK_RECORD`, the children, and the jobs `process_jajob` has read as
running. -/
structure State (J : Type) where
  rows : List Host
  status : J → Status
  txn : J → Txn
  record : Option J
  children : Pid → Option (Child J)
  listed : J → Bool

inductive Label (J : Type) where
  | ready (j : J)
  | begin (j : J) | rollback (j : J) | runerr (j : J) | run (j : J)
  | record (j : J) | insert (j : J) | fork (j : J) (p : Pid) | commit (j : J)
  | list (j : J) | abort (j : J)
  | result (j : J) | unlock (j : J) (host : Host) | answer (j : J) (status : Status)
  | exit (p : Pid) | fail (p : Pid) | delete (p : Pid) | childRunerr (p : Pid)
  deriving DecidableEq

variable {J : Type} [DecidableEq J]

namespace State

def setStatus (s : State J) (j : J) (status : Status) : State J :=
  { s with status := Function.update s.status j status }

def setTxn (s : State J) (j : J) (t : Txn) : State J := { s with txn := Function.update s.txn j t }

/-- The transaction ends; its row locks go. -/
def close (s : State J) (j : J) : State J :=
  { s.setTxn j .idle with record := if s.record = some j then none else s.record }

def setChild (s : State J) (p : Pid) (c : Option (Child J)) : State J :=
  { s with children := Function.update s.children p c }

def setListed (s : State J) (j : J) (b : Bool) : State J := { s with listed := Function.update s.listed j b }

/-- An open transaction has written the lock row of the host. -/
def writes (s : State J) (host : Host) : Bool := s.record.any fun j => (s.txn j).wrote == some host

end State

/-- `jatrap_jobresult` ignores the result of `ja_flow` and `ja_set_runerr`:
it commits also when they left the status alone. -/
def answers (old new : Status) : Prop := new = .ended ∨ new = .runErr ∨ new = old

instance (old new : Status) : Decidable (answers old new) := inferInstanceAs (Decidable (_ ∨ _ ∨ _))

/-- mirrors src/jobarg_server/jarun/jarun.c:84-125, jaruniconreboot.c:99-190,
src/jobarg_server/jajob/jajob.c:83-120, src/jobarg_server/jatrapper/jatrapjobresult.c:312-432 -/
def step (icon : J → Icon) (s : State J) : Label J → Option (State J)
  -- a flow or a rerun
  | .ready j =>
    if s.txn j = .idle ∧ s.status j ≠ .run ∧ s.status j ≠ .abort then some (s.setStatus j .ready) else none
  | .begin j => if s.txn j = .idle ∧ s.status j = .ready then some (s.setTxn j (.begun s.rows)) else none
  | .rollback j =>
    match s.txn j with
    | .idle | .forked _ => none
    | _ => some (s.close j)
  -- a start that ends in `ja_set_runerr`; a row it has inserted is deleted before
  | .runerr j =>
    match s.txn j with
    | .begun rows => if (icon j).locked rows then none else some ((s.close j).setStatus j .runErr)
    | .recorded _ | .inserted _ => some ((s.close j).setStatus j .runErr)
    | _ => none
  | .run j =>
    match icon j, s.txn j with
    | .job (some _), .begun rows | .fcopy (some _), .begun rows =>
      if (icon j).locked rows then none else some ((s.close j).setStatus j .run)
    | _, _ => none
  | .record j =>
    match icon j, s.txn j with
    | .reboot (some host), .begun rows =>
      if (icon j).locked rows = false ∧ s.record = none then
        some { s.setTxn j (.recorded host) with record := some j }
      else none
    | _, _ => none
  | .insert j =>
    match s.txn j with
    | .recorded host => if host ∈ s.rows then none else some (s.setTxn j (.inserted host))
    | _ => none
  | .fork j p =>
    match s.txn j, s.children p with
    | .inserted host, none => some ((s.setTxn j (.forked host)).setChild p (some ⟨j, host, .connecting⟩))
    | _, _ => none
  | .commit j =>
    match s.txn j with
    | .forked host => some { (s.close j).setStatus j .run with rows := host :: s.rows }
    | _ => none
  | .list j => if s.status j = .run then some (s.setListed j true) else none
  | .abort j =>
    match icon j with
    | .reboot host =>
      if s.txn j = .idle ∧ s.listed j then
        some ((s.setStatus j (if host.isSome then .abort else .runErr)).setListed j false)
      else none
    | _ => none
  | .result j =>
    if s.txn j = .idle ∧ (s.status j = .run ∨ s.status j = .abort) then some (s.setTxn j .result) else none
  | .unlock j host =>
    match icon j, s.txn j with
    | .reboot _, .result =>
      if s.record = none then some { s.setTxn j (.deleted host) with record := some j } else none
    | _, _ => none
  | .answer j status =>
    if answers (s.status j) status then
      match icon j, s.txn j with
      | .job _, .result | .fcopy _, .result => some ((s.close j).setStatus j status)
      | .reboot _, .deleted host =>
        some { (s.close j).setStatus j status with rows := s.rows.filter (· ≠ host) }
      | _, _ => none
    else none
  | .exit p =>
    match s.children p with
    | some ⟨_, _, .connecting⟩ => some (s.setChild p none)
    | _ => none
  | .fail p =>
    match s.children p with
    | some ⟨j, host, .connecting⟩ =>
      if s.record = none then some (s.setChild p (some ⟨j, host, .failed⟩)) else none
    | _ => none
  | .delete p =>
    match s.children p with
    | some ⟨j, host, .failed⟩ =>
      if s.writes host then none
      else some { s.setChild p (some ⟨j, host, .unlocked⟩) with rows := s.rows.filter (· ≠ host) }
    | _ => none
  | .childRunerr p =>
    match s.children p with
    | some ⟨j, _, .unlocked⟩ =>
      if s.txn j = .idle then some ((s.setChild p none).setStatus j .runErr) else none
    | _ => none

def lts (icon : J → Icon) : LTS (State J) (Label J) where
  init s := s.rows = [hostLockRecord] ∧ (∀ j, s.txn j = .idle) ∧ s.record = none ∧ (∀ p, s.children p = none) ∧
    (∀ j, s.listed j = false) ∧ ∀ j host, (icon j).reboot? = some host → s.status j ≠ .run ∧ s.status j ≠ .abort
  step s l s' := step icon s l = some s'

/-! ## The property and the condition -/

/-- RUN or ABORT. -/
def active (status : Status) : Prop := status = .run ∨ status = .abort

structure Paired (icon : J → Icon) (s : State J) : Prop where
  once : ∀ host, s.rows.count host ≤ 1
  owned : ∀ host ∈ s.rows, host ≠ hostLockRecord → ∃ j, (icon j).reboot? = some host ∧ active (s.status j)
  single : ∀ j j' host, (icon j).reboot? = some host → (icon j').reboot? = some host →
    s.status j = .run → s.status j' = .run → j = j'

/-- A start of `j` that begins in `s` has no way but back: until its rollback
it stands where it began, and the rollback leaves the job READY. -/
def RolledBack (icon : J → Icon) (s : State J) (j : J) : Prop :=
  ∀ s₁ ls s₂, step icon s (.begin j) = some s₁ → (lts icon).Run s₁ ls s₂ → .rollback j ∉ ls →
    s₂.txn j = .begun s.rows ∧ s₂.status j = .ready ∧
      ∃ s₃, step icon s₂ (.rollback j) = some s₃ ∧ s₃.txn j = .idle ∧ s₃.status j = .ready ∧ s₃.rows = s₂.rows

/-- No other REBOOT job of the host runs: the lock row is not another's. -/
def Alone (icon : J → Icon) (s : State J) (j : J) (host : Host) : Prop :=
  ∀ j', (icon j').reboot? = some host → s.status j' = .run → j' = j

/-- * A REBOOT start does not commit while a child of its host is between the
  delete of the lock row and the change of the status.
* A child, and the trapper, delete no row of another running job.
* The telegram of the result names the host of the job, and the trapper does
  change the status. -/
def Regular (icon : J → Icon) (s : State J) : Label J → Prop
  | .commit j => ∀ p c, s.children p = some c → c.pc = .unlocked → (icon j).reboot? ≠ some c.host
  | .delete p => ∀ c, s.children p = some c → Alone icon s c.job c.host
  | .answer j status => ∀ host, s.txn j = .deleted host →
    (icon j).reboot? = some host ∧ Alone icon s j host ∧ ¬active status
  | _ => True

/-! ## Transactions -/

variable {icon : J → Icon}

/-- What is known of a job while a transaction on its row is open. -/
def TxnOk (icon : J → Icon) (s : State J) (j : J) : Prop :=
  match s.txn j with
  | .idle => True
  | .begun rows => s.status j = .ready ∧ hostLockRecord ∈ rows
  | .recorded host => s.status j = .ready ∧ s.record = some j ∧ (icon j).reboot? = some host ∧ host ≠ hostLockRecord
  | .inserted host | .forked host => s.status j = .ready ∧ s.record = some j ∧ (icon j).reboot? = some host ∧
    host ≠ hostLockRecord ∧ host ∉ s.rows
  | .result => active (s.status j)
  | .deleted _ => active (s.status j) ∧ s.record = some j

omit [DecidableEq J] in
theorem TxnOk.idle {s : State J} {j : J} (h : s.txn j = .idle) : TxnOk icon s j := by
  simp only [TxnOk, h]

omit [DecidableEq J] in
theorem TxnOk.begun {s : State J} {j : J} {rows : List Host} (h : TxnOk icon s j) (ht : s.txn j = .begun rows) :
    s.status j = .ready ∧ hostLockRecord ∈ rows := by
  simpa only [TxnOk, ht] using h

omit [DecidableEq J] in
theorem TxnOk.recorded {s : State J} {j : J} {host : Host} (h : TxnOk icon s j) (ht : s.txn j = .recorded host) :
    s.status j = .ready ∧ s.record = some j ∧ (icon j).reboot? = some host ∧ host ≠ hostLockRecord := by
  simpa only [TxnOk, ht] using h

omit [DecidableEq J] in
/-- A row that a start has inserted and not committed. -/
theorem TxnOk.written {s : State J} {j : J} {host : Host} (h : TxnOk icon s j)
    (ht : s.txn j = .inserted host ∨ s.txn j = .forked host) :
    s.status j = .ready ∧ s.record = some j ∧ (icon j).reboot? = some host ∧ host ≠ hostLockRecord ∧
      host ∉ s.rows := by
  obtain ht | ht := ht <;> simpa only [TxnOk, ht] using h

omit [DecidableEq J] in
theorem TxnOk.deleted {s : State J} {j : J} {host : Host} (h : TxnOk icon s j) (ht : s.txn j = .deleted host) :
    active (s.status j) ∧ s.record = some j := by
  simpa only [TxnOk, ht] using h

omit [DecidableEq J] in
theorem TxnOk.result {s : State J} {j : J} (h : TxnOk icon s j) (ht : s.txn j = .result) : active (s.status j) := by
  simpa only [TxnOk, ht] using h

omit [DecidableEq J] in
/-- Only the rows of the transaction that has locked `HOST_LOCK_RECORD` have
to stay away. -/
theorem TxnOk.frame {s s' : State J} {j : J} (h : TxnOk icon s j) (htxn : s'.txn j = s.txn j)
    (hstatus : s'.status j = s.status j) (hrecord : s.record = some j → s'.record = some j ∧ s'.rows ⊆ s.rows) :
    TxnOk icon s' j := by
  unfold TxnOk at h ⊢
  rw [htxn, hstatus]
  cases ht : s.txn j with
  | idle => trivial
  | begun rows => simpa only [ht] using h
  | result => simpa only [ht] using h
  | recorded host =>
    simp only [ht] at h
    exact ⟨h.1, (hrecord h.2.1).1, h.2.2⟩
  | inserted host | forked host =>
    simp only [ht] at h
    obtain ⟨hready, hrec, hicon, hne, hfree⟩ := h
    exact ⟨hready, (hrecord hrec).1, hicon, hne, fun hm => hfree ((hrecord hrec).2 hm)⟩
  | deleted host =>
    simp only [ht] at h
    exact ⟨h.1, (hrecord h.2).1⟩

/-! ## The invariant -/

structure Inv (icon : J → Icon) (s : State J) : Prop where
  base : hostLockRecord ∈ s.rows
  nodup : s.rows.Nodup
  txn : ∀ j, TxnOk icon s j
  named : ∀ j, active (s.status j) ∨ s.listed j → (icon j).reboot? ≠ some hostLockRecord
  child : ∀ p c, s.children p = some c → (icon c.job).reboot? = some c.host ∧ c.host ≠ hostLockRecord
  unlocked : ∀ p c, s.children p = some c → c.pc = .unlocked → c.host ∉ s.rows
  owned : ∀ host ∈ s.rows, host ≠ hostLockRecord → ∃ j, (icon j).reboot? = some host ∧ active (s.status j)
  guarded : ∀ j host, (icon j).reboot? = some host → s.status j = .run →
    host ∈ s.rows ∨ ∃ p c, s.children p = some c ∧ c.job = j ∧ c.pc = .unlocked
  single : ∀ j j' host, (icon j).reboot? = some host → (icon j').reboot? = some host →
    s.status j = .run → s.status j' = .run → j = j'

namespace Inv

variable {s : State J} {j : J}

omit [DecidableEq J] in
theorem paired (h : Inv icon s) : Paired icon s :=
  ⟨fun host => List.nodup_iff_count_le_one.1 h.nodup host, h.owned, h.single⟩

theorem setTxn (h : Inv icon s) {t : Txn} (ht : TxnOk icon (s.setTxn j t) j) : Inv icon (s.setTxn j t) := by
  refine ⟨h.base, h.nodup, fun j' => ?_, h.named, h.child, h.unlocked, h.owned, h.guarded, h.single⟩
  by_cases hj : j' = j
  · rw [hj]
    exact ht
  · exact (h.txn j').frame (Function.update_of_ne hj _ _) rfl fun hrec => ⟨hrec, List.Subset.refl _⟩

/-- `select … for update` of `HOST_LOCK_RECORD`. -/
theorem takeRecord (h : Inv icon s) (hfree : s.record = none) {t : Txn}
    (ht : TxnOk icon { s.setTxn j t with record := some j } j) :
    Inv icon { s.setTxn j t with record := some j } := by
  refine ⟨h.base, h.nodup, fun j' => ?_, h.named, h.child, h.unlocked, h.owned, h.guarded, h.single⟩
  by_cases hj : j' = j
  · rw [hj]
    exact ht
  · refine (h.txn j').frame (Function.update_of_ne hj _ _) rfl fun hrec => ?_
    rw [hfree] at hrec
    cases hrec

/-- Commit or rollback, as far as the row locks go. -/
theorem close (h : Inv icon s) (j : J) : Inv icon (s.close j) := by
  refine ⟨h.base, h.nodup, fun j' => ?_, h.named, h.child, h.unlocked, h.owned, h.guarded, h.single⟩
  by_cases hj : j' = j
  · rw [hj]
    exact .idle (Function.update_self ..)
  · refine (h.txn j').frame (Function.update_of_ne hj _ _) rfl fun hrec => ⟨?_, List.Subset.refl _⟩
    have hne : ¬some j' = some j := fun he => hj (Option.some.inj he)
    change (if s.record = some j then none else s.record) = some j'
    rw [hrec, if_neg hne]

/-- The status of a job without a transaction changes, but not into RUN for
a REBOOT job, and not out of RUN or ABORT but into ABORT. -/
theorem setStatus (h : Inv icon s) (hidle : s.txn j = .idle) {status : Status}
    (hquiet : ∀ host, (icon j).reboot? = some host →
      status = .abort ∧ host ≠ hostLockRecord ∨ ¬active (s.status j) ∧ ¬active status) :
    Inv icon (s.setStatus j status) := by
  have hself : (s.setStatus j status).status j = status := Function.update_self ..
  have hother : ∀ j', j' ≠ j → (s.setStatus j status).status j' = s.status j' := fun j' hj =>
    Function.update_of_ne hj _ _
  have hrun : ∀ j' host, (icon j').reboot? = some host → (s.setStatus j status).status j' = .run →
      s.status j' = .run := fun j' host hicon hr => by
    by_cases hj : j' = j
    · subst hj
      rw [hself] at hr
      obtain ⟨ha, -⟩ | ⟨-, ha⟩ := hquiet host hicon
      · rw [ha] at hr
        cases hr
      · exact absurd (.inl hr) ha
    · rwa [hother j' hj] at hr
  refine ⟨h.base, h.nodup, fun j' => ?_, fun j' hn hicon => ?_, h.child, h.unlocked, fun host hm hne => ?_,
    fun j' host hicon hr => h.guarded j' host hicon (hrun j' host hicon hr),
    fun j₁ j₂ host h₁ h₂ hr₁ hr₂ => h.single j₁ j₂ host h₁ h₂ (hrun j₁ host h₁ hr₁) (hrun j₂ host h₂ hr₂)⟩
  · by_cases hj : j' = j
    · exact .idle (hj ▸ hidle)
    · exact (h.txn j').frame rfl (hother j' hj) fun hrec => ⟨hrec, List.Subset.refl _⟩
  · by_cases hj : j' = j
    · subst hj
      obtain ⟨-, hne⟩ | ⟨-, hna⟩ := hquiet _ hicon
      · exact hne rfl
      · rw [hself] at hn
        exact h.named j' (.inr (hn.resolve_left hna)) hicon
    · rw [hother j' hj] at hn
      exact h.named j' hn hicon
  · obtain ⟨j', hicon, ha⟩ := h.owned host hm hne
    refine ⟨j', hicon, ?_⟩
    by_cases hj : j' = j
    · subst hj
      rw [hself]
      obtain ⟨hst, -⟩ | ⟨hna, -⟩ := hquiet host hicon
      · exact .inr hst
      · exact absurd ha hna
    · rwa [hother j' hj]

theorem setListed (h : Inv icon s) {b : Bool} (hb : b → s.status j = .run) : Inv icon (s.setListed j b) := by
  refine ⟨h.base, h.nodup, fun j' => (h.txn j').frame rfl rfl fun hrec => ⟨hrec, List.Subset.refl _⟩,
    fun j' hn => ?_, h.child, h.unlocked, h.owned, h.guarded, h.single⟩
  by_cases hj : j' = j
  · subst hj
    have hself : (s.setListed j' b).listed j' = b := Function.update_self ..
    exact h.named j' (hn.elim .inl fun hl => .inl (.inl (hb (hself.symm.trans hl))))
  · have hother : (s.setListed j b).listed j' = s.listed j' := Function.update_of_ne hj _ _
    exact h.named j' (hn.imp_right hother.symm.trans)

omit [DecidableEq J] in
/-- A child starts, leaves or fails, with its row untouched. -/
theorem setChild (h : Inv icon s) {p : Pid} {c : Option (Child J)}
    (hold : ∀ c', s.children p = some c' → c'.pc ≠ .unlocked)
    (hnew : ∀ c', c = some c' →
      (icon c'.job).reboot? = some c'.host ∧ c'.host ≠ hostLockRecord ∧ c'.pc ≠ .unlocked) :
    Inv icon (s.setChild p c) := by
  have hself : (s.setChild p c).children p = c := Function.update_self ..
  have hother : ∀ p', p' ≠ p → (s.setChild p c).children p' = s.children p' := fun p' hp =>
    Function.update_of_ne hp _ _
  refine ⟨h.base, h.nodup, fun j' => (h.txn j').frame rfl rfl fun hrec => ⟨hrec, List.Subset.refl _⟩, h.named,
    fun p' c' hc => ?_, fun p' c' hc hpc => ?_, h.owned, fun j' host hicon hr => ?_, h.single⟩
  · by_cases hp : p' = p
    · rw [hp, hself] at hc
      exact ⟨(hnew c' hc).1, (hnew c' hc).2.1⟩
    · rw [hother p' hp] at hc
      exact h.child p' c' hc
  · by_cases hp : p' = p
    · rw [hp, hself] at hc
      exact absurd hpc (hnew c' hc).2.2
    · rw [hother p' hp] at hc
      exact h.unlocked p' c' hc hpc
  · obtain hm | ⟨p', c', hc, hjob, hpc⟩ := h.guarded j' host hicon hr
    · exact .inl hm
    · refine .inr ⟨p', c', ?_, hjob, hpc⟩
      rw [hother p' fun hp => hold c' (hp ▸ hc) hpc]
      exact hc

/-- A REBOOT start commits. -/
theorem start (h : Inv icon s) {host : Host} (hicon : (icon j).reboot? = some host) (hne : host ≠ hostLockRecord)
    (hidle : s.txn j = .idle) (hrec : s.record = none) (hfree : host ∉ s.rows)
    (hregular : ∀ p c, s.children p = some c → c.pc = .unlocked → (icon j).reboot? ≠ some c.host) :
    Inv icon { s.setStatus j .run with rows := host :: s.rows } := by
  have hself : (s.setStatus j .run).status j = .run := Function.update_self ..
  have hother : ∀ j', j' ≠ j → (s.setStatus j .run).status j' = s.status j' := fun j' hj =>
    Function.update_of_ne hj _ _
  -- a running job of this host has its row, or a child that has deleted it
  have hnone : ∀ j', (icon j').reboot? = some host → s.status j' ≠ .run := fun j' hicon' hr => by
    obtain hm | ⟨p, c, hc, rfl, hpc⟩ := h.guarded j' host hicon' hr
    · exact hfree hm
    · exact hregular p c hc hpc (hicon.trans (hicon'.symm.trans (h.child p c hc).1))
  refine ⟨List.mem_cons_of_mem _ h.base, List.nodup_cons.2 ⟨hfree, h.nodup⟩, fun j' => ?_, fun j' hn => ?_,
    h.child, fun p c hc hpc hm => ?_, fun host' hm hne' => ?_, fun j' host' hicon' hr => ?_,
    fun j₁ j₂ host' h₁ h₂ hr₁ hr₂ => ?_⟩
  · by_cases hj : j' = j
    · exact .idle (hj ▸ hidle)
    · refine (h.txn j').frame rfl (hother j' hj) fun hrec' => ?_
      rw [hrec] at hrec'
      cases hrec'
  · by_cases hj : j' = j
    · rw [hj, hicon]
      exact fun he => hne (Option.some.inj he)
    · refine h.named j' (hn.imp_left fun ha => ?_)
      rwa [← hother j' hj]
  · obtain rfl | hm := List.mem_cons.1 hm
    · exact hregular p c hc hpc hicon
    · exact h.unlocked p c hc hpc hm
  · obtain rfl | hm := List.mem_cons.1 hm
    · exact ⟨j, hicon, .inl hself⟩
    · obtain ⟨j', hicon', ha⟩ := h.owned host' hm hne'
      refine ⟨j', hicon', ?_⟩
      by_cases hj : j' = j
      · rw [hj]
        exact .inl hself
      · exact (hother j' hj).symm ▸ ha
  · by_cases hj : j' = j
    · rw [hj, hicon] at hicon'
      exact .inl (List.mem_cons.2 (.inl (Option.some.inj hicon').symm))
    · exact (h.guarded j' host' hicon' ((hother j' hj).symm.trans hr)).imp_left (List.mem_cons_of_mem _)
  · by_cases hj₁ : j₁ = j <;> by_cases hj₂ : j₂ = j
    · rw [hj₁, hj₂]
    · rw [hj₁, hicon] at h₁
      obtain rfl := Option.some.inj h₁
      exact absurd ((hother j₂ hj₂).symm.trans hr₂) (hnone j₂ h₂)
    · rw [hj₂, hicon] at h₂
      obtain rfl := Option.some.inj h₂
      exact absurd ((hother j₁ hj₁).symm.trans hr₁) (hnone j₁ h₁)
    · exact h.single j₁ j₂ host' h₁ h₂ ((hother j₁ hj₁).symm.trans hr₁) ((hother j₂ hj₂).symm.trans hr₂)

/-- The trapper commits the result of a REBOOT job. -/
theorem finish (h : Inv icon s) {host : Host} (hicon : (icon j).reboot? = some host) (hne : host ≠ hostLockRecord)
    (hidle : s.txn j = .idle) (halone : Alone icon s j host) {status : Status} (hna : ¬active status) :
    Inv icon { s.setStatus j status with rows := s.rows.filter (· ≠ host) } := by
  have hself : (s.setStatus j status).status j = status := Function.update_self ..
  have hother : ∀ j', j' ≠ j → (s.setStatus j status).status j' = s.status j' := fun j' hj =>
    Function.update_of_ne hj _ _
  have hrun : ∀ j', (s.setStatus j status).status j' = .run → j' ≠ j ∧ s.status j' = .run := fun j' hr => by
    by_cases hj : j' = j
    · rw [hj, hself] at hr
      exact absurd (.inl hr) hna
    · exact ⟨hj, (hother j' hj).symm.trans hr⟩
  have hsub : s.rows.filter (· ≠ host) ⊆ s.rows := List.filter_subset_self _
  refine ⟨List.mem_filter.2 ⟨h.base, decide_eq_true hne.symm⟩, h.nodup.filter _, fun j' => ?_, fun j' hn => ?_,
    h.child, fun p c hc hpc hm => h.unlocked p c hc hpc (hsub hm), fun host' hm hne' => ?_,
    fun j' host' hicon' hr => ?_,
    fun j₁ j₂ host' h₁ h₂ hr₁ hr₂ => h.single j₁ j₂ host' h₁ h₂ (hrun j₁ hr₁).2 (hrun j₂ hr₂).2⟩
  · by_cases hj : j' = j
    · exact .idle (hj ▸ hidle)
    · exact (h.txn j').frame rfl (hother j' hj) fun hrec => ⟨hrec, hsub⟩
  · by_cases hj : j' = j
    · rw [hj, hicon]
      exact fun he => hne (Option.some.inj he)
    · refine h.named j' (hn.imp_left fun ha => ?_)
      rwa [← hother j' hj]
  · obtain ⟨hm, hne₂⟩ := List.mem_filter.1 hm
    obtain ⟨j', hicon', ha⟩ := h.owned host' hm hne'
    refine ⟨j', hicon', ?_⟩
    have hj : j' ≠ j := fun hj => by
      rw [hj, hicon] at hicon'
      exact of_decide_eq_true hne₂ (Option.some.inj hicon').symm
    exact (hother j' hj).symm ▸ ha
  · obtain ⟨hj, hr⟩ := hrun j' hr
    refine (h.guarded j' host' hicon' hr).imp_left fun hm => List.mem_filter.2 ⟨hm, decide_eq_true fun he => ?_⟩
    exact hj (halone j' (he ▸ hicon') hr)

omit [DecidableEq J] in
/-- A child deletes the lock row of its host. -/
theorem drop (h : Inv icon s) {p : Pid} {host : Host} (hc : s.children p = some ⟨j, host, .failed⟩)
    (halone : Alone icon s j host) :
    Inv icon { s.setChild p (some ⟨j, host, .unlocked⟩) with rows := s.rows.filter (· ≠ host) } := by
  have hself : (s.setChild p (some ⟨j, host, .unlocked⟩)).children p = some ⟨j, host, .unlocked⟩ :=
    Function.update_self ..
  have hother : ∀ p', p' ≠ p → (s.setChild p (some ⟨j, host, .unlocked⟩)).children p' = s.children p' :=
    fun p' hp => Function.update_of_ne hp _ _
  have hsub : s.rows.filter (· ≠ host) ⊆ s.rows := List.filter_subset_self _
  have hne := (h.child p _ hc).2
  refine ⟨List.mem_filter.2 ⟨h.base, decide_eq_true hne.symm⟩, h.nodup.filter _,
    fun j' => (h.txn j').frame rfl rfl fun hrec => ⟨hrec, hsub⟩, h.named, fun p' c' hc' => ?_,
    fun p' c' hc' hpc hm => ?_, fun host' hm => h.owned host' (hsub hm), fun j' host' hicon' hr => ?_, h.single⟩
  · by_cases hp : p' = p
    · rw [hp, hself] at hc'
      obtain rfl := Option.some.inj hc'
      exact h.child p ⟨j, host, .failed⟩ hc
    · rw [hother p' hp] at hc'
      exact h.child p' c' hc'
  · by_cases hp : p' = p
    · rw [hp, hself] at hc'
      obtain rfl := Option.some.inj hc'
      exact of_decide_eq_true (List.mem_filter.1 hm).2 rfl
    · rw [hother p' hp] at hc'
      exact h.unlocked p' c' hc' hpc (hsub hm)
  · by_cases he : host' = host
    · exact .inr ⟨p, _, hself, (halone j' (he ▸ hicon') hr).symm, rfl⟩
    · obtain hm | ⟨p', c', hc', hjob, hpc⟩ := h.guarded j' host' hicon' hr
      · exact .inl (List.mem_filter.2 ⟨hm, decide_eq_true he⟩)
      · have hp : p' ≠ p := fun hp => by
          rw [hp, hc] at hc'
          rw [← Option.some.inj hc'] at hpc
          cases hpc
        exact .inr ⟨p', c', (hother p' hp).trans hc', hjob, hpc⟩

/-- The child changes the status of its job. -/
theorem settle (h : Inv icon s) {p : Pid} {host : Host} (hc : s.children p = some ⟨j, host, .unlocked⟩)
    (hidle : s.txn j = .idle) : Inv icon ((s.setChild p none).setStatus j .runErr) := by
  have hself : ((s.setChild p none).setStatus j .runErr).status j = .runErr := Function.update_self ..
  have hother : ∀ j', j' ≠ j → ((s.setChild p none).setStatus j .runErr).status j' = s.status j' := fun j' hj =>
    Function.update_of_ne hj _ _
  have hna : ¬active .runErr := fun ha => by
    obtain ha | ha := ha <;> cases ha
  have hrun : ∀ j', ((s.setChild p none).setStatus j .runErr).status j' = .run → j' ≠ j ∧ s.status j' = .run :=
    fun j' hr => by
      by_cases hj : j' = j
      · rw [hj, hself] at hr
        cases hr
      · exact ⟨hj, (hother j' hj).symm.trans hr⟩
  have hchild : ∀ p' c', ((s.setChild p none).setStatus j .runErr).children p' = some c' →
      s.children p' = some c' := fun p' c' hc' => by
    by_cases hp : p' = p
    · have hgone : ((s.setChild p none).setStatus j .runErr).children p = none := Function.update_self ..
      rw [hp, hgone] at hc'
      cases hc'
    · exact (Function.update_of_ne hp _ _).symm.trans hc'
  refine ⟨h.base, h.nodup, fun j' => ?_, fun j' hn => ?_, fun p' c' hc' => h.child p' c' (hchild p' c' hc'),
    fun p' c' hc' => h.unlocked p' c' (hchild p' c' hc'), fun host' hm hne => ?_, fun j' host' hicon' hr => ?_,
    fun j₁ j₂ host' h₁ h₂ hr₁ hr₂ => h.single j₁ j₂ host' h₁ h₂ (hrun j₁ hr₁).2 (hrun j₂ hr₂).2⟩
  · by_cases hj : j' = j
    · exact .idle (hj ▸ hidle)
    · exact (h.txn j').frame rfl (hother j' hj) fun hrec => ⟨hrec, List.Subset.refl _⟩
  · by_cases hj : j' = j
    · rw [hj] at hn ⊢
      rw [hself] at hn
      exact h.named j (.inr (hn.resolve_left hna))
    · exact h.named j' (hn.imp_left fun ha => (hother j' hj) ▸ ha)
  · obtain ⟨j', hicon', ha⟩ := h.owned host' hm hne
    have hj : j' ≠ j := fun hj => by
      have hhost := (h.child p _ hc).1
      rw [← hj, hicon'] at hhost
      exact h.unlocked p _ hc rfl (Option.some.inj hhost ▸ hm)
    exact ⟨j', hicon', (hother j' hj).symm ▸ ha⟩
  · obtain ⟨hj, hr⟩ := hrun j' hr
    obtain hm | ⟨p', c', hc', hjob, hpc⟩ := h.guarded j' host' hicon' hr
    · exact .inl hm
    · have hp : p' ≠ p := fun hp => by
        rw [hp, hc] at hc'
        rw [← Option.some.inj hc'] at hjob
        exact hj hjob.symm
      exact .inr ⟨p', c', (Function.update_of_ne hp _ _).trans hc', hjob, hpc⟩

end Inv

theorem not_active_ready : ¬active .ready := fun h => by
  obtain h | h := h <;> cases h

theorem not_active_runErr : ¬active .runErr := fun h => by
  obtain h | h := h <;> cases h

/-- A start that has locked `HOST_LOCK_RECORD` leaves it free when it ends. -/
theorem close_record {s : State J} {j : J} (h : s.record = some j) : (s.close j).record = none := if_pos h

theorem close_txn (s : State J) (j : J) : (s.close j).txn j = .idle := Function.update_self ..

/-- A start ends with a status that is not RUN or ABORT. -/
theorem Inv.giveUp {s : State J} {j : J} (h : Inv icon s) (hready : s.status j = .ready) :
    Inv icon ((s.close j).setStatus j .runErr) :=
  (h.close j).setStatus (close_txn s j) fun _ _ => .inr ⟨fun ha => not_active_ready (hready ▸ ha), not_active_runErr⟩

/-- A transaction on a job that is no REBOOT job ends. -/
theorem Inv.other {s : State J} {j : J} (h : Inv icon s) (hicon : (icon j).reboot? = none) (status : Status) :
    Inv icon ((s.close j).setStatus j status) :=
  (h.close j).setStatus (close_txn s j) fun host hhost => by
    rw [hicon] at hhost
    cases hhost

theorem Inv.step {s s' : State J} {l : Label J} (h : Inv icon s) (hs : step icon s l = some s')
    (hr : Regular icon s l) : Inv icon s' := by
  cases l with
  | ready j =>
    obtain ⟨⟨hidle, hrun, habort⟩, he⟩ := Option.ite_none_right_eq_some.1 hs
    obtain rfl := Option.some.inj he
    exact h.setStatus hidle fun _ _ => .inr ⟨fun ha => ha.elim hrun habort, not_active_ready⟩
  | begin j =>
    obtain ⟨⟨-, hready⟩, he⟩ := Option.ite_none_right_eq_some.1 hs
    obtain rfl := Option.some.inj he
    refine h.setTxn ?_
    simp only [TxnOk, State.setTxn, Function.update_self]
    exact ⟨hready, h.base⟩
  | rollback j =>
    simp only [HostLock.step] at hs
    split at hs
    · cases hs
    · cases hs
    · obtain rfl := Option.some.inj hs
      exact h.close j
  | runerr j =>
    simp only [HostLock.step] at hs
    split at hs
    · rename_i ht
      obtain ⟨-, he⟩ := Option.ite_none_left_eq_some.1 hs
      obtain rfl := Option.some.inj he
      exact h.giveUp ((h.txn j).begun ht).1
    · rename_i ht
      obtain rfl := Option.some.inj hs
      exact h.giveUp ((h.txn j).recorded ht).1
    · rename_i ht
      obtain rfl := Option.some.inj hs
      exact h.giveUp ((h.txn j).written (.inl ht)).1
    · cases hs
  | run j =>
    simp only [HostLock.step] at hs
    split at hs
    · rename_i hicon _
      obtain ⟨-, he⟩ := Option.ite_none_left_eq_some.1 hs
      obtain rfl := Option.some.inj he
      exact h.other (by rw [hicon]; rfl) .run
    · rename_i hicon _
      obtain ⟨-, he⟩ := Option.ite_none_left_eq_some.1 hs
      obtain rfl := Option.some.inj he
      exact h.other (by rw [hicon]; rfl) .run
    · cases hs
  | record j =>
    simp only [HostLock.step] at hs
    split at hs
    · rename_i host rows hicon ht
      obtain ⟨⟨hfree, hrec⟩, he⟩ := Option.ite_none_right_eq_some.1 hs
      obtain rfl := Option.some.inj he
      obtain ⟨hready, hbase⟩ := (h.txn j).begun ht
      have hhost : (icon j).reboot? = some host := by rw [hicon]; rfl
      refine h.takeRecord hrec ?_
      simp only [TxnOk, State.setTxn, Function.update_self]
      refine ⟨hready, trivial, hhost, fun he => ?_⟩
      rw [hicon, he] at hfree
      simp [Icon.locked, Icon.hosts, jaHostLockinfo, hbase] at hfree
    · cases hs
  | insert j =>
    simp only [HostLock.step] at hs
    split at hs
    · rename_i host ht
      obtain ⟨hfree, he⟩ := Option.ite_none_left_eq_some.1 hs
      obtain rfl := Option.some.inj he
      obtain ⟨hready, hrec, hhost, hne⟩ := (h.txn j).recorded ht
      refine h.setTxn ?_
      simp only [TxnOk, State.setTxn, Function.update_self]
      exact ⟨hready, hrec, hhost, hne, hfree⟩
    · cases hs
  | fork j p =>
    simp only [HostLock.step] at hs
    split at hs
    · rename_i host ht hnone
      obtain rfl := Option.some.inj hs
      obtain ⟨hready, hrec, hhost, hne, hfree⟩ := (h.txn j).written (.inl ht)
      refine (h.setTxn (t := .forked host) ?_).setChild (fun c' hc' => ?_) fun c' hc' => ?_
      · simp only [TxnOk, State.setTxn, Function.update_self]
        exact ⟨hready, hrec, hhost, hne, hfree⟩
      · cases hnone.symm.trans hc'
      · obtain rfl := Option.some.inj hc'
        exact ⟨hhost, hne, nofun⟩
    · cases hs
  | commit j =>
    simp only [HostLock.step] at hs
    split at hs
    · rename_i host ht
      obtain rfl := Option.some.inj hs
      obtain ⟨-, hrec, hhost, hne, hfree⟩ := (h.txn j).written (.inr ht)
      exact (h.close j).start hhost hne (close_txn s j) (close_record hrec) hfree hr
    · cases hs
  | list j =>
    obtain ⟨hrun, he⟩ := Option.ite_none_right_eq_some.1 hs
    obtain rfl := Option.some.inj he
    exact h.setListed fun _ => hrun
  | abort j =>
    simp only [HostLock.step] at hs
    split at hs
    · rename_i host hicon
      obtain ⟨⟨hidle, hlisted⟩, he⟩ := Option.ite_none_right_eq_some.1 hs
      obtain rfl := Option.some.inj he
      refine (h.setStatus hidle fun host' hhost => .inl ⟨?_, fun he => ?_⟩).setListed nofun
      · rw [hicon] at hhost
        obtain rfl : host = some host' := hhost
        rfl
      · exact h.named j (.inr hlisted) (he ▸ hhost)
    · cases hs
  | result j =>
    obtain ⟨⟨-, hactive⟩, he⟩ := Option.ite_none_right_eq_some.1 hs
    obtain rfl := Option.some.inj he
    refine h.setTxn ?_
    simp only [TxnOk, State.setTxn, Function.update_self]
    exact hactive
  | unlock j host =>
    simp only [HostLock.step] at hs
    split at hs
    · rename_i ht
      obtain ⟨hrec, he⟩ := Option.ite_none_right_eq_some.1 hs
      obtain rfl := Option.some.inj he
      refine h.takeRecord hrec ?_
      simp only [TxnOk, State.setTxn, Function.update_self]
      exact ⟨(h.txn j).result ht, trivial⟩
    · cases hs
  | answer j status =>
    obtain ⟨-, he⟩ := Option.ite_none_right_eq_some.1 hs
    split at he
    · rename_i hicon _
      obtain rfl := Option.some.inj he
      exact h.other (by rw [hicon]; rfl) status
    · rename_i hicon _
      obtain rfl := Option.some.inj he
      exact h.other (by rw [hicon]; rfl) status
    · rename_i host _ ht
      obtain rfl := Option.some.inj he
      obtain ⟨hhost, halone, hna⟩ := hr host ht
      have hne : host ≠ hostLockRecord := fun he =>
        h.named j (.inl ((h.txn j).deleted ht).1) (he ▸ hhost)
      exact (h.close j).finish hhost hne (close_txn s j) halone hna
    · cases he
  | exit p =>
    simp only [HostLock.step] at hs
    split at hs
    · rename_i hc
      obtain rfl := Option.some.inj hs
      refine h.setChild (fun c' hc' => ?_) nofun
      obtain rfl := Option.some.inj (hc.symm.trans hc')
      exact nofun
    · cases hs
  | fail p =>
    simp only [HostLock.step] at hs
    split at hs
    · rename_i hc
      obtain ⟨-, he⟩ := Option.ite_none_right_eq_some.1 hs
      obtain rfl := Option.some.inj he
      have hchild := h.child p _ hc
      refine h.setChild (fun c' hc' => ?_) fun c' hc' => ?_
      · obtain rfl := Option.some.inj (hc.symm.trans hc')
        exact nofun
      · obtain rfl := Option.some.inj hc'
        exact ⟨hchild.1, hchild.2, nofun⟩
    · cases hs
  | delete p =>
    simp only [HostLock.step] at hs
    split at hs
    · rename_i hc
      obtain ⟨-, he⟩ := Option.ite_none_left_eq_some.1 hs
      obtain rfl := Option.some.inj he
      exact h.drop hc (hr _ hc)
    · cases hs
  | childRunerr p =>
    simp only [HostLock.step] at hs
    split at hs
    · rename_i hc
      obtain ⟨hidle, he⟩ := Option.ite_none_right_eq_some.1 hs
      obtain rfl := Option.some.inj he
      exact h.settle hc hidle
    · cases hs

theorem Inv.init {s : State J} (h : (lts icon).init s) : Inv icon s := by
  obtain ⟨hrows, htxn, -, hchildren, hlisted, hstatus⟩ := h
  have hnone : ∀ p c, s.children p ≠ some c := fun p c hc => by
    rw [hchildren p] at hc
    cases hc
  have hrun : ∀ j host, (icon j).reboot? = some host → ¬active (s.status j) := fun j host hicon ha =>
    ha.elim (hstatus j host hicon).1 (hstatus j host hicon).2
  refine ⟨hrows ▸ List.mem_singleton_self _, hrows ▸ List.nodup_singleton _, fun j => .idle (htxn j),
    fun j hn hicon => ?_, fun p c hc => absurd hc (hnone p c), fun p c hc => absurd hc (hnone p c),
    fun host hm hne => ?_, fun j host hicon hr => absurd (.inl hr) (hrun j host hicon),
    fun j j' host hicon _ hr => absurd (.inl hr) (hrun j host hicon)⟩
  · obtain ha | hl := hn
    · exact hrun j _ hicon ha
    · rw [hlisted j] at hl
      cases hl
  · rw [hrows] at hm
    exact absurd (List.mem_singleton.1 hm) hne

theorem inv_reachable {s : State J} (h : ((lts icon).restrict (Regular icon)).Reachable s) : Inv icon s := by
  have hinductive : ((lts icon).restrict (Regular icon)).Inductive (Inv icon) :=
    ⟨fun _ h => .init h, fun _ _ _ hi hs => hi.step hs.1 hs.2⟩
  exact hinductive.reachable s h

/-! ## Starts on a locked host -/

def Waiting (s : State J) (j : J) (rows : List Host) : Prop := s.txn j = .begun rows ∧ s.status j = .ready

section
variable {s s' : State J} {j j' : J} {rows : List Host}

omit [DecidableEq J] in
/-- The transactions of other jobs leave it alone. -/
theorem Waiting.ne (h : Waiting s j rows) {t : Txn} (ht : s.txn j' = t) (hne : t ≠ .begun rows) : j' ≠ j :=
  fun he => hne (ht.symm.trans ((congrArg s.txn he).trans h.1))

omit [DecidableEq J] in
/-- Nor do they find their host unlocked where it is locked. -/
theorem Waiting.ne_begun (h : Waiting s j rows) (hlocked : (icon j).locked rows) {rows' : List Host}
    (ht : s.txn j' = .begun rows') (hfree : ¬(icon j').locked rows') : j' ≠ j := fun he => by
  rw [he, h.1] at ht
  obtain rfl := Txn.begun.inj ht
  exact hfree (he ▸ hlocked)

theorem Waiting.setTxn (h : Waiting s j rows) (hj : j' ≠ j) (t : Txn) : Waiting (s.setTxn j' t) j rows :=
  ⟨(Function.update_of_ne hj.symm _ _).trans h.1, h.2⟩

theorem Waiting.setStatus (h : Waiting s j rows) (hj : j' ≠ j) (status : Status) :
    Waiting (s.setStatus j' status) j rows :=
  ⟨h.1, (Function.update_of_ne hj.symm _ _).trans h.2⟩

theorem Waiting.close (h : Waiting s j rows) (hj : j' ≠ j) : Waiting (s.close j') j rows :=
  h.setTxn hj .idle

theorem Waiting.step (h : Waiting s j rows) (hlocked : (icon j).locked rows) {l : Label J}
    (hs : step icon s l = some s') (hl : l ≠ .rollback j) : Waiting s' j rows := by
  cases l with
  | ready j' =>
    obtain ⟨⟨hidle, -⟩, he⟩ := Option.ite_none_right_eq_some.1 hs
    obtain rfl := Option.some.inj he
    exact h.setStatus (h.ne hidle nofun) _
  | begin j' =>
    obtain ⟨⟨hidle, -⟩, he⟩ := Option.ite_none_right_eq_some.1 hs
    obtain rfl := Option.some.inj he
    exact h.setTxn (h.ne hidle nofun) _
  | rollback j' =>
    have hj : j' ≠ j := fun he => hl (he ▸ rfl)
    simp only [HostLock.step] at hs
    split at hs
    · cases hs
    · cases hs
    · obtain rfl := Option.some.inj hs
      exact h.close hj
  | runerr j' =>
    simp only [HostLock.step] at hs
    split at hs
    · rename_i rows' ht
      obtain ⟨hfree, he⟩ := Option.ite_none_left_eq_some.1 hs
      obtain rfl := Option.some.inj he
      have hj := h.ne_begun hlocked ht hfree
      exact (h.close hj).setStatus hj _
    · rename_i ht
      obtain rfl := Option.some.inj hs
      exact (h.close (h.ne ht nofun)).setStatus (h.ne ht nofun) _
    · rename_i ht
      obtain rfl := Option.some.inj hs
      exact (h.close (h.ne ht nofun)).setStatus (h.ne ht nofun) _
    · cases hs
  | run j' =>
    simp only [HostLock.step] at hs
    split at hs
    · rename_i ht
      obtain ⟨hfree, he⟩ := Option.ite_none_left_eq_some.1 hs
      obtain rfl := Option.some.inj he
      have hj := h.ne_begun hlocked ht hfree
      exact (h.close hj).setStatus hj _
    · rename_i ht
      obtain ⟨hfree, he⟩ := Option.ite_none_left_eq_some.1 hs
      obtain rfl := Option.some.inj he
      have hj := h.ne_begun hlocked ht hfree
      exact (h.close hj).setStatus hj _
    · cases hs
  | record j' =>
    simp only [HostLock.step] at hs
    split at hs
    · rename_i ht
      obtain ⟨⟨hfree, -⟩, he⟩ := Option.ite_none_right_eq_some.1 hs
      obtain rfl := Option.some.inj he
      exact h.setTxn (h.ne_begun hlocked ht (Bool.eq_false_iff.1 hfree)) _
    · cases hs
  | insert j' =>
    simp only [HostLock.step] at hs
    split at hs
    · rename_i ht
      obtain ⟨-, he⟩ := Option.ite_none_left_eq_some.1 hs
      obtain rfl := Option.some.inj he
      exact h.setTxn (h.ne ht nofun) _
    · cases hs
  | fork j' p =>
    simp only [HostLock.step] at hs
    split at hs
    · rename_i ht _
      obtain rfl := Option.some.inj hs
      exact h.setTxn (h.ne ht nofun) _
    · cases hs
  | commit j' =>
    simp only [HostLock.step] at hs
    split at hs
    · rename_i ht
      obtain rfl := Option.some.inj hs
      exact (h.close (h.ne ht nofun)).setStatus (h.ne ht nofun) _
    · cases hs
  | list j' =>
    obtain ⟨-, he⟩ := Option.ite_none_right_eq_some.1 hs
    obtain rfl := Option.some.inj he
    exact h
  | abort j' =>
    simp only [HostLock.step] at hs
    split at hs
    · obtain ⟨⟨hidle, -⟩, he⟩ := Option.ite_none_right_eq_some.1 hs
      obtain rfl := Option.some.inj he
      exact h.setStatus (h.ne hidle nofun) _
    · cases hs
  | result j' =>
    obtain ⟨⟨hidle, -⟩, he⟩ := Option.ite_none_right_eq_some.1 hs
    obtain rfl := Option.some.inj he
    exact h.setTxn (h.ne hidle nofun) _
  | unlock j' host =>
    simp only [HostLock.step] at hs
    split at hs
    · rename_i ht
      obtain ⟨-, he⟩ := Option.ite_none_right_eq_some.1 hs
      obtain rfl := Option.some.inj he
      exact h.setTxn (h.ne ht nofun) _
    · cases hs
  | answer j' status =>
    obtain ⟨-, he⟩ := Option.ite_none_right_eq_some.1 hs
    split at he
    · rename_i ht
      obtain rfl := Option.some.inj he
      exact (h.close (h.ne ht nofun)).setStatus (h.ne ht nofun) _
    · rename_i ht
      obtain rfl := Option.some.inj he
      exact (h.close (h.ne ht nofun)).setStatus (h.ne ht nofun) _
    · rename_i ht
      obtain rfl := Option.some.inj he
      exact (h.close (h.ne ht nofun)).setStatus (h.ne ht nofun) _
    · cases he
  | exit p =>
    simp only [HostLock.step] at hs
    split at hs
    · obtain rfl := Option.some.inj hs
      exact h
    · cases hs
  | fail p =>
    simp only [HostLock.step] at hs
    split at hs
    · obtain ⟨-, he⟩ := Option.ite_none_right_eq_some.1 hs
      obtain rfl := Option.some.inj he
      exact h
    · cases hs
  | delete p =>
    simp only [HostLock.step] at hs
    split at hs
    · obtain ⟨-, he⟩ := Option.ite_none_left_eq_some.1 hs
      obtain rfl := Option.some.inj he
      exact h
    · cases hs
  | childRunerr p =>
    simp only [HostLock.step] at hs
    split at hs
    · obtain ⟨hidle, he⟩ := Option.ite_none_right_eq_some.1 hs
      obtain rfl := Option.some.inj he
      exact h.setStatus (h.ne hidle nofun) _
    · cases hs

theorem Waiting.run (h : Waiting s j rows) (hlocked : (icon j).locked rows) {ls : List (Label J)}
    (hrun : (lts icon).Run s ls s') (hls : .rollback j ∉ ls) : Waiting s' j rows := by
  induction hrun with
  | nil _ => exact h
  | cons hs _ ih =>
    obtain ⟨hl, hls⟩ := not_or.1 (mt List.mem_cons.2 hls)
    exact ih (h.step hlocked hs (Ne.symm hl)) hls

end

theorem blocked_until_rollback {s : State J} {j : J} {host : Host} {hosts : List Host}
    (hicon : (icon j).hosts = some hosts) (hhost : host ∈ hosts) (hrow : host ∈ s.rows) : RolledBack icon s j := by
  intro s₁ ls s₂ hbegin hrun hls
  have hlocked : (icon j).locked s.rows := by
    rw [Icon.locked, hicon, Option.getD_some]
    exact List.any_eq_true.2 ⟨host, hhost, List.contains_iff_mem.2 hrow⟩
  obtain ⟨⟨-, hready⟩, he⟩ := Option.ite_none_right_eq_some.1 hbegin
  obtain rfl := Option.some.inj he
  have hw : Waiting (s.setTxn j (.begun s.rows)) j s.rows := ⟨Function.update_self .., hready⟩
  obtain ⟨htxn, hstatus⟩ := hw.run hlocked hrun hls
  refine ⟨htxn, hstatus, s₂.close j, ?_, close_txn s₂ j, hstatus, rfl⟩
  simp only [step, htxn]

/-! ## Runs -/

/-- Two REBOOT icons of one host. -/
def sameHost : Bool → Icon := fun _ => .reboot (some "host1")

def bothReady : State Bool :=
  ⟨[hostLockRecord], fun _ => .ready, fun _ => .idle, none, fun _ => none, fun _ => false⟩

theorem bothReady_init : (lts sameHost).init bothReady :=
  ⟨rfl, fun _ => rfl, rfl, fun _ => rfl, fun _ => rfl, fun _ _ _ => ⟨nofun, nofun⟩⟩

/-- The start of a REBOOT job, in process `p` its child. -/
def startOf (j : Bool) (p : Pid) : List (Label Bool) :=
  [.begin j, .record j, .insert j, .fork j p, .commit j]

/-- The second icon starts while the child of the first is on its way out. -/
def overtaken : List (Label Bool) := startOf true 0 ++ [.fail 0, .delete 0] ++ startOf false 1

end JobArranger.HostLock
