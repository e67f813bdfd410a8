import JobArranger.L2Status.Status
import JobArranger.Core.Decimal
import Mathlib.Data.List.Sort

/-!
# Starting jobnets (`jobarg_server/jaboot/jaboot.c`)

`jobnet_boot` selects the summaries in BEGIN that are due and not held back,
ordered by (`scheduled_time`, `inner_jobnet_id`), and decides for each row
in a transaction of its own. The rows are a stored result: status and flags
of a row are those at the select, only `get_running_jobnet` looks again.

An `update` reports the rows it matched; `rc <= ZBX_DB_OK` means there was
none. `strcmp` compares the decimal text of `scheduled_time` with the
12 digits of the current time.

* `bootRow_summaries`: everything a row can do to the summaries.
-/
namespace JobArranger

open Tables Decimal

/-- A summary counted by `get_running_jobnet`. -/
def Summary.running (s : Summary) : Bool := s.status = .ready ∨ s.status = .run

/-- mirrors src/jobarg_server/jaboot/jaboot.c:184-211 -/
def getRunningJobnet (t : Tables) (jobnetId : String) : Nat :=
  t.summaries.countP fun s => s.jobnetId = jobnetId ∧ s.running

/-- mirrors src/jobarg_server/jaboot/jaboot.c:229-269 -/
def skipStateJobnet (t : Tables) (innerJobnetId : Id) : Tables × Ret :=
  if (t.jobnet? innerJobnetId).isNone then (t, .fail)
  else
    let t := t.updateJobnets (·.innerJobnetId == innerJobnetId) fun n => { n with status := .ended }
    if (t.summary? innerJobnetId).isNone then (t, .fail)
    else (t.updateSummaries (·.innerJobnetId == innerJobnetId) fun s =>
      { s with status := .ended, loadStatus := .skip }, .succeed)

/-- mirrors src/jobarg_server/jaboot/jaboot.c:284-306 -/
def delayStateJobnet (t : Tables) (innerJobnetId : Id) : Tables × Ret :=
  (t.updateSummaries (·.innerJobnetId == innerJobnetId) fun s => { s with loadStatus := .delay }, .succeed)

/-- mirrors src/jobarg_server/jaboot/jaboot.c:323-385 -/
def errorStateJobnet (t : Tables) (innerJobnetId : Id) : Tables × Ret :=
  match t.jobs.find? fun j => j.innerJobnetId = innerJobnetId ∧ j.jobType = .startIcon with
  | none => (t, .fail)
  | some start =>
    let t := t.updateJobs (·.innerJobId == start.innerJobId) fun j => { j with status := .runErr }
    if (t.jobnet? innerJobnetId).isNone then (t, .fail)
    else
      let t := t.updateJobnets (·.innerJobnetId == innerJobnetId) fun n => { n with status := .runErr }
      if (t.summary? innerJobnetId).isNone then (t, .fail)
      else
        let t := t.updateSummaries (·.innerJobnetId == innerJobnetId) fun s =>
          { s with status := .run, jobStatus := .error, loadStatus := .delay }
        -- the result of the log is not checked
        ((jaJoblog t .jobnetStartErr innerJobnetId 0).1, .succeed)

/-- mirrors src/jobarg_server/jaboot/jaboot.c:402-420 -/
def startJobnet (t : Tables) (innerJobnetId : Id) : Tables × Ret :=
  if (t.summary? innerJobnetId).isNone then (t, .fail)
  else (t.updateSummaries (·.innerJobnetId == innerJobnetId) fun s =>
    { s with status := .ready, loadStatus := .normal }, .succeed)

/-- What `jobnet_boot` decides for a row. -/
inductive BootAct where
  | late | skip | delay | start
  deriving DecidableEq, Repr

/-- The delay start-up check.
mirrors src/jobarg_server/jaboot/jaboot.c:468-476 -/
def delayStartup (now : Nat) (row : Summary) : Bool :=
  (row.runType = .normal ∨ row.runType = .scheduled) ∧
    strcmp (fmt 1 row.scheduledTime) (dec 12 now) < 0 ∧ row.loadStatus ≠ .delay ∧
    row.startPendingFlag = .unset

/-- mirrors src/jobarg_server/jaboot/jaboot.c:468-531 -/
def bootAct (t : Tables) (now : Nat) (row : Summary) : BootAct :=
  if delayStartup now row then .late
  else match row.multipleStartUp with
    | .skip => if 0 < getRunningJobnet t row.jobnetId then .skip else .start
    | .delay => if 0 < getRunningJobnet t row.jobnetId then .delay else .start
    | .on => .start

/-- One row of `jobnet_boot`: commit on `SUCCEED`, else roll back.
mirrors src/jobarg_server/jaboot/jaboot.c:455-541 -/
def bootRow (t : Tables) (now : Nat) (row : Summary) : Tables :=
  let result := match bootAct t now row with
    | .late => errorStateJobnet t row.innerJobnetId
    | .skip => skipStateJobnet t row.innerJobnetId
    | .delay => delayStateJobnet t row.innerJobnetId
    | .start => startJobnet t row.innerJobnetId
  match result with
  | (t', .succeed) => t'
  | (_, .fail) => t

/-- `scheduled_time <= now or scheduled_time = 0`. -/
def Summary.due (now : Nat) (s : Summary) : Prop := s.scheduledTime ≤ now ∨ s.scheduledTime = 0

instance (now : Nat) (s : Summary) : Decidable (s.due now) :=
  inferInstanceAs (Decidable (_ ∨ _))

/-- `order by scheduled_time, inner_jobnet_id`. -/
def bootOrder (a b : Summary) : Prop :=
  a.scheduledTime < b.scheduledTime ∨
    a.scheduledTime = b.scheduledTime ∧ a.innerJobnetId ≤ b.innerJobnetId

instance : DecidableRel bootOrder := fun _ _ => inferInstanceAs (Decidable (_ ∨ _))

/-- The select of `jobnet_boot`.
mirrors src/jobarg_server/jaboot/jaboot.c:445-450 -/
def bootRows (t : Tables) (now : Nat) : List Summary :=
  (t.summaries.filter fun s => s.status = .begin ∧ s.startPendingFlag ≠ .on ∧ s.due now).insertionSort
    bootOrder

/-- mirrors src/jobarg_server/jaboot/jaboot.c:559-588 -/
def getRunningJobs (t : Tables) (innerJobnetId : Id) : Nat :=
  t.jobs.countP fun j => j.innerJobnetMainId = innerJobnetId ∧ (j.status = .ready ∨ j.status = .run)

/-! ## What a row does -/

/-- The write of each decision to the row of the summary. -/
def BootAct.apply (a : BootAct) (s : Summary) : Summary :=
  match a with
  | .late => { s with status := .run, jobStatus := .error, loadStatus := .delay }
  | .skip => { s with status := .ended, loadStatus := .skip }
  | .delay => { s with loadStatus := .delay }
  | .start => { s with status := .ready, loadStatus := .normal }

/-- The jobnet row and the START icon of an instance are there. -/
structure Bootable (t : Tables) (n : Id) : Prop where
  jobnet : ∃ r ∈ t.jobnets, r.innerJobnetId = n
  start : ∃ j ∈ t.jobs, j.innerJobnetId = n ∧ j.jobType = .startIcon

theorem Bootable.jobnet? {t : Tables} {n : Id} (h : Bootable t n) : (t.jobnet? n).isNone = false := by
  obtain ⟨r, hr, hn⟩ := h.jobnet
  have hsome : (Table.lookup Jobnet.innerJobnetId n t.jobnets).isSome := Table.lookup_isSome hr hn
  rw [Tables.jobnet?, Option.isNone_eq_false_iff]
  exact hsome

/-- With the rows of the instance there, every decision is committed. -/
theorem bootRow_summaries {t : Tables} {now : Nat} {row : Summary} (hb : Bootable t row.innerJobnetId)
    (hs : (t.summary? row.innerJobnetId).isSome) :
    (bootRow t now row).summaries =
      Table.update (·.innerJobnetId == row.innerJobnetId) (bootAct t now row).apply t.summaries := by
  have hn := hb.jobnet?
  have hsn : (t.summary? row.innerJobnetId).isNone = false := by
    rw [Option.isNone_eq_false_iff]; exact hs
  unfold bootRow
  cases hact : bootAct t now row with
  | late =>
    obtain ⟨j, hj, hjn, hjt⟩ := hb.start
    have hfind : (t.jobs.find? fun j => j.innerJobnetId = row.innerJobnetId ∧ j.jobType = .startIcon).isSome := by
      rw [List.find?_isSome]
      exact ⟨j, hj, by simp [hjn, hjt]⟩
    obtain ⟨start, hstart⟩ := Option.isSome_iff_exists.1 hfind
    have hn' : ∀ p f, ((t.updateJobs p f).jobnet? row.innerJobnetId).isNone = false := fun _ _ => hn
    have hs' : ∀ p f q g, (((t.updateJobs p f).updateJobnets q g).summary? row.innerJobnetId).isNone = false :=
      fun _ _ _ _ => hsn
    simp only [errorStateJobnet, hstart, hn', hs', Bool.false_eq_true, if_false]
    rw [(jaJoblog_status _ _ _ _).summaries]
    rfl
  | skip =>
    have hs' : ∀ q g, ((t.updateJobnets q g).summary? row.innerJobnetId).isNone = false := fun _ _ => hsn
    simp only [skipStateJobnet, hn, hs', Bool.false_eq_true, if_false]
    rfl
  | delay =>
    simp only [delayStateJobnet]
    rfl
  | start =>
    simp only [startJobnet, hsn, Bool.false_eq_true, if_false]
    rfl

/-- A row never removes a jobnet or a START icon. -/
theorem bootRow_bootable {t : Tables} {now : Nat} {row : Summary} {n : Id} (h : Bootable t n) :
    Bootable (bootRow t now row) n := by
  have hnets : ∀ p f (t : Tables), (∀ r : Jobnet, (f r).innerJobnetId = r.innerJobnetId) →
      Bootable t n → Bootable (t.updateJobnets p f) n := by
    rintro p f t hf ⟨⟨r, hr, hrn⟩, hst⟩
    refine ⟨⟨_, Table.mem_update.2 ⟨r, hr, rfl⟩, ?_⟩, hst⟩
    split
    · rw [hf, hrn]
    · exact hrn
  have hjobs : ∀ p f (t : Tables), (∀ j : Job, (f j).innerJobnetId = j.innerJobnetId ∧ (f j).jobType = j.jobType) →
      Bootable t n → Bootable (t.updateJobs p f) n := by
    rintro p f t hf ⟨hr, j, hj, hjn, hjt⟩
    refine ⟨hr, _, Table.mem_update.2 ⟨j, hj, rfl⟩, ?_⟩
    split
    · rw [(hf j).1, (hf j).2]
      exact ⟨hjn, hjt⟩
    · exact ⟨hjn, hjt⟩
  have hsum : ∀ p f (t : Tables), Bootable t n → Bootable (t.updateSummaries p f) n := by
    rintro p f t ⟨hr, hst⟩
    exact ⟨hr, hst⟩
  have hlog : ∀ m a b (t : Tables), Bootable t n → Bootable (jaJoblog t m a b).1 n := by
    rintro m a b t ⟨hr, hst⟩
    have hq := jaJoblog_status t m a b
    exact ⟨by rw [hq.jobnets]; exact hr, by rw [hq.jobs]; exact hst⟩
  unfold bootRow
  cases bootAct t now row with
  | late =>
    simp only [errorStateJobnet]
    split
    · rename_i heq
      split at heq
      · cases heq
      · split at heq
        · cases heq
        · split at heq
          · cases heq
          · obtain ⟨rfl, -⟩ := Prod.mk.inj heq
            exact hlog _ _ _ _ (hsum _ _ _ (hnets _ _ _ (fun _ => rfl) (hjobs _ _ _ (fun _ => ⟨rfl, rfl⟩) h)))
    · exact h
  | skip =>
    simp only [skipStateJobnet]
    split
    · rename_i heq
      split at heq
      · cases heq
      · split at heq
        · cases heq
        · obtain ⟨rfl, -⟩ := Prod.mk.inj heq
          exact hsum _ _ _ (hnets _ _ _ (fun _ => rfl) h)
    · exact h
  | delay => exact hsum _ _ _ h
  | start =>
    simp only [startJobnet]
    split
    · rename_i heq
      split at heq
      · cases heq
      · obtain ⟨rfl, -⟩ := Prod.mk.inj heq
        exact hsum _ _ _ h
    · exact h

end JobArranger
