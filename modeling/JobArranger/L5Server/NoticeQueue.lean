import JobArranger.Core.LTS
import JobArranger.Core.Table
import JobArranger.L6Agent.JobDb

/-!
# The queue of notices

`ja_log` puts a message into `ja_send_message_table`, `message_send` sends
what is due and marks what became of it, `message_purge` deletes what has
been sent or given up. Rows are inserted while a pass is going on, the mark
of an attempt may fail, and the process may die between an attempt and its
mark, or anywhere else.

* `mark`: what the mark of an attempt makes of its row.
* `QueueInv`: each row says how many of its attempts have been marked, and
  with what outcome.
* `notice_queue`: in every run a message is sent with success and marked once
  at most, it is tried as often as the parameters say and no more, unmarked
  attempts apart, and it does not go away before it has been sent or all its
  tries have failed.
-/
namespace JobArranger.Notice

open Agent.JobDb (atoi)

/-! ## Parameters -/

/-- `ja_zbxsnd_info_t`, what decides on sending again and on deleting. -/
structure Retry where
  retry : Int32
  retryCount : Int32
  retryInterval : Int32
  keepSpan : Int32
  flag : retry = 0 ∨ retry = 1
  count : 0 ≤ retryCount.toInt
  interval : 0 ≤ retryInterval.toInt
  span : 0 ≤ keepSpan.toInt

/-- A parameter with a value of `1` or up to `10` bytes; the default where it
is out of its range. -/
def intParameter (room : Nat → Bool) (bad : Int32 → Bool) (default : Int32) (value : Option Text) : Int32 :=
  match value with
  | none => default
  | some v =>
    let n := if room v.length then atoi v else default
    if bad n then default else n

/-- `DEFAULT_KEEP_SPAN`, `DEFAULT_RETRY`, `DEFAULT_RETRY_COUNT` and
`DEFAULT_RETRY_INTERVAL`.
mirrors src/jobarg_server/jamsgsnd/jamsgsnd.c:54-58 -/
def defaultKeepSpan : Int32 := 1440
def defaultRetry : Int32 := 0
def defaultRetryCount : Int32 := 3
def defaultRetryInterval : Int32 := 5

theorem intParameter_good (room : Nat → Bool) {bad : Int32 → Bool} {default : Int32} (h : bad default = false)
    (value : Option Text) : bad (intParameter room bad default value) = false := by
  unfold intParameter
  cases value with
  | none => exact h
  | some v =>
    dsimp only
    generalize (if room v.length then atoi v else default) = n
    by_cases hb : bad n = true
    · rwa [if_pos hb]
    · rw [if_neg hb]
      simpa using hb

def outsideFlag (n : Int32) : Bool := n < 0 ∨ n > 1

def negative (n : Int32) : Bool := n < 0

theorem flag_of_not_outside {n : Int32} (h : outsideFlag n = false) : n = 0 ∨ n = 1 := by
  have hn : ¬ (n < 0 ∨ n > 1) := by simpa [outsideFlag] using h
  have h0 : (0 : Int32).toInt = 0 := rfl
  have h1 : (1 : Int32).toInt = 1 := rfl
  rw [gt_iff_lt, Int32.lt_iff_toInt_lt, Int32.lt_iff_toInt_lt, h0, h1] at hn
  obtain he | he : n.toInt = 0 ∨ n.toInt = 1 := by omega
  · exact .inl (Int32.toInt_inj.1 (he.trans h0.symm))
  · exact .inr (Int32.toInt_inj.1 (he.trans h1.symm))

theorem nonneg_of_not_negative {n : Int32} (h : negative n = false) : 0 ≤ n.toInt := by
  have hn : ¬ n < 0 := by simpa [negative] using h
  have h0 : (0 : Int32).toInt = 0 := rfl
  rw [Int32.lt_iff_toInt_lt, h0] at hn
  omega

/-- The four numbers; the texts are those of `ZbxsndInfo`.
mirrors src/jobarg_server/jamsgsnd/jamsgsnd.c:125-268 -/
def getZbxsndParameters (parameter : String → Option Text) : Retry where
  retry := intParameter (· = 1) outsideFlag defaultRetry (parameter "ZBXSND_RETRY")
  retryCount := intParameter (· ≤ 10) negative defaultRetryCount (parameter "ZBXSND_RETRY_COUNT")
  retryInterval := intParameter (· ≤ 10) negative defaultRetryInterval (parameter "ZBXSND_RETRY_INTERVAL")
  keepSpan := intParameter (· ≤ 10) negative defaultKeepSpan (parameter "SNDMSG_KEEP_SPAN")
  flag := flag_of_not_outside (intParameter_good _ (by decide) _)
  count := nonneg_of_not_negative (intParameter_good _ (by decide) _)
  interval := nonneg_of_not_negative (intParameter_good _ (by decide) _)
  span := nonneg_of_not_negative (intParameter_good _ (by decide) _)

/-! ## The table and the process -/

/-- `JA_SNT_SEND_STATUS_*`. mirrors src/jainclude/jacommon.h:224-227 -/
inductive SendStatus where
  | begin | ended | retry | error
  deriving DecidableEq, Repr

/-- What a row of `ja_send_message_table` says about its sending; dates are
numbers of fourteen digits. -/
structure SendRow where
  sendNo : Nat
  messageDate : Nat
  sendStatus : SendStatus
  retryCount : Int
  retryDate : Nat
  sendDate : Nat
  sendErrorDate : Nat
  deriving DecidableEq, Repr

/-- A call of `system`, what came of it, and whether it was marked. -/
structure Attempt where
  sendNo : Nat
  ok : Bool
  marked : Bool
  deriving DecidableEq, Repr

/-- `used` has every number ever given to a message; `sending` the rows of
the result that are still to be fetched. -/
structure QueueState where
  rows : List SendRow
  used : List Nat
  sending : Option (List SendRow)
  log : List Attempt
  deriving DecidableEq, Repr

def SendRow.due (now : Nat) (r : SendRow) : Bool :=
  (r.sendStatus = .begin ∨ r.sendStatus = .retry) ∧ r.retryDate ≤ now

/-- `order by retry_date, message_date` -/
def sendOrder (r r' : SendRow) : Prop :=
  r.retryDate < r'.retryDate ∨ r.retryDate = r'.retryDate ∧ r.messageDate ≤ r'.messageDate

instance : DecidableRel sendOrder := fun _ _ => inferInstanceAs (Decidable (_ ∨ _))

/-- The update after an attempt, of the row fetched as `r`.
mirrors src/jobarg_server/jamsgsnd/jamsgsnd.c:494-552 -/
def mark (z : Retry) (r : SendRow) (ok : Bool) (now retryDate : Nat) (row : SendRow) : SendRow :=
  if ok then { row with sendStatus := .ended, sendDate := now }
  else if z.retry = 1 ∧ z.retryCount = 0 then { row with sendStatus := .retry, retryDate := retryDate }
  else if z.retry = 0 ∨ (z.retry = 1 ∧ r.retryCount ≥ z.retryCount.toInt) then
    { row with sendStatus := .error, sendErrorDate := now }
  else { row with sendStatus := .retry, retryCount := r.retryCount + 1, retryDate := retryDate }

/-- The first delete of `message_purge`, and the second. -/
def purgeEnded (date : Nat) (rows : List SendRow) : List SendRow :=
  rows.filter fun r => !(r.sendStatus = .ended && r.sendDate ≤ date)

def purgeError (date : Nat) (rows : List SendRow) : List SendRow :=
  rows.filter fun r => !(r.sendStatus = .error && r.sendErrorDate ≤ date)

/-- mirrors src/jobarg_server/jamsgsnd/jamsgsnd.c:284-327 -/
def messagePurge (date : Nat) (endedFails errorFails : Bool) (rows : List SendRow) : List SendRow :=
  if endedFails then rows
  else if errorFails then purgeEnded date rows
  else purgeError date (purgeEnded date rows)

/-- The dates are what the clock says at the time, whatever that is. An
attempt that is not marked is one whose update fails, or after which the
process dies. -/
inductive QueueEvent where
  | insert (sendNo messageDate : Nat)
  | purge (date : Nat) (endedFails errorFails : Bool)
  | select (now : Nat)
  | attempt (ok : Bool) (now retryDate : Nat) (marked : Bool)
  | done
  | die
  deriving DecidableEq, Repr

/-- The rows `ja_log` inserts may come at any time, purges and passes one
after the other.
mirrors src/jobarg_server/jamsgsnd/jamsgsnd.c:343-557 and :573-611, and
src/jalibs/jalog.c:540-549 -/
def queueStep (z : Retry) (s : QueueState) : QueueEvent → Option QueueState
  | .insert sendNo messageDate =>
    if sendNo ∈ s.used then none
    else some { s with rows := s.rows ++ [⟨sendNo, messageDate, .begin, 0, 0, 0, 0⟩], used := sendNo :: s.used }
  | .purge date endedFails errorFails =>
    if s.sending = none then some { s with rows := messagePurge date endedFails errorFails s.rows } else none
  | .select now =>
    if s.sending = none then
      some { s with sending := some ((s.rows.filter (·.due now)).insertionSort sendOrder) }
    else none
  | .attempt ok now retryDate marked =>
    match s.sending with
    | some (r :: rest) =>
      let log := s.log ++ [⟨r.sendNo, ok, marked⟩]
      if marked then
        some { s with
          rows := Table.update (fun row => row.sendNo == r.sendNo) (mark z r ok now retryDate) s.rows
          sending := some rest
          log := log }
      else some { s with sending := some rest, log := log }
    | _ => none
  | .done => if s.sending = some [] then some { s with sending := none } else none
  | .die => some { s with sending := none }

def queueLts (z : Retry) : LTS QueueState QueueEvent :=
  .ofFn (fun s => s = ⟨[], [], none, []⟩) (queueStep z)

/-! ## What a row knows -/

/-- The marked attempts of a message. -/
def QueueState.marks (s : QueueState) (n : Nat) : List Attempt := s.log.filter fun a => a.sendNo == n && a.marked

/-- How often a message is tried; `none`: until it is sent. -/
def Retry.tries (z : Retry) : Option Nat :=
  if z.retry = 1 ∧ z.retryCount = 0 then none
  else if z.retry = 0 then some 1
  else some (z.retryCount.toInt.toNat + 1)

def AllFailed (as : List Attempt) : Prop := ∀ a ∈ as, a.ok = false

/-- Sent at last, with one of its tries, the last attempt. -/
def Sent (z : Retry) (as : List Attempt) : Prop :=
  ∃ front a, as = front ++ [a] ∧ a.ok = true ∧ AllFailed front ∧ ∀ m, z.tries = some m → front.length < m

/-- Tried as often as is to be, in vain. -/
def GivenUp (z : Retry) (as : List Attempt) : Prop := AllFailed as ∧ z.tries = some as.length

/-- A row and the marked attempts of its message. -/
def Knows (z : Retry) (r : SendRow) (as : List Attempt) : Prop :=
  match r.sendStatus with
  | .begin => as = [] ∧ r.retryCount = 0
  | .retry => AllFailed as ∧ ∀ m, z.tries = some m → as.length < m ∧ r.retryCount = as.length
  | .ended => Sent z as
  | .error => GivenUp z as

/-- A message that is waiting has tries left. -/
theorem Knows.waiting {z : Retry} {r : SendRow} {as : List Attempt} (h : Knows z r as)
    (hr : r.sendStatus = .begin ∨ r.sendStatus = .retry) :
    AllFailed as ∧ ∀ m, z.tries = some m → as.length < m ∧ r.retryCount = as.length := by
  unfold Knows at h
  obtain hr | hr := hr
  · simp only [hr] at h
    obtain ⟨rfl, hcount⟩ := h
    refine ⟨by simp [AllFailed], ?_⟩
    intro m hm
    unfold Retry.tries at hm
    refine ⟨?_, hcount⟩
    split at hm
    · cases hm
    · split at hm
      · cases hm
        exact Nat.zero_lt_one
      · cases hm
        exact Nat.succ_pos _
  · simpa only [hr] using h

/-- One more attempt, marked. -/
theorem Knows.mark {z : Retry} {r : SendRow} {as : List Attempt} (h : Knows z r as)
    (hr : r.sendStatus = .begin ∨ r.sendStatus = .retry) (n : Nat) (ok : Bool) (now retryDate : Nat) :
    Knows z (mark z r ok now retryDate r) (as ++ [⟨n, ok, true⟩]) := by
  obtain ⟨hfailed, htries⟩ := h.waiting hr
  unfold Notice.mark
  cases ok with
  | true => exact ⟨as, ⟨n, true, true⟩, rfl, rfl, hfailed, fun m hm => (htries m hm).1⟩
  | false =>
    have hall : AllFailed (as ++ [⟨n, false, true⟩]) := by
      intro a ha
      obtain ha | rfl : a ∈ as ∨ a = ⟨n, false, true⟩ := by simpa using ha
      · exact hfailed a ha
      · rfl
    by_cases hendless : z.retry = 1 ∧ z.retryCount = 0
    · have hnone : z.tries = none := if_pos hendless
      rw [if_neg Bool.false_ne_true, if_pos hendless]
      refine ⟨hall, ?_⟩
      rw [hnone]
      intro m hm
      cases hm
    · by_cases hzero : z.retry = 0
      · have hone : z.tries = some 1 := by rw [Retry.tries, if_neg hendless, if_pos hzero]
        rw [if_neg Bool.false_ne_true, if_neg hendless, if_pos (.inl hzero)]
        refine ⟨hall, ?_⟩
        obtain ⟨hlt, -⟩ := htries 1 hone
        rw [hone, List.length_append, Nat.lt_one_iff.1 hlt]
        rfl
      · have hone : z.retry = 1 := z.flag.resolve_left hzero
        have hsome : z.tries = some (z.retryCount.toInt.toNat + 1) := by
          rw [Retry.tries, if_neg hendless, if_neg hzero]
        obtain ⟨hlt, hcount⟩ := htries _ hsome
        have hnonneg := z.count
        by_cases hfull : r.retryCount ≥ z.retryCount.toInt
        · rw [if_neg Bool.false_ne_true, if_neg hendless, if_pos (.inr ⟨hone, hfull⟩)]
          refine ⟨hall, ?_⟩
          rw [hsome, List.length_append]
          congr 1
          simp only [List.length_singleton]
          omega
        · have hnot : ¬ (z.retry = 0 ∨ (z.retry = 1 ∧ r.retryCount ≥ z.retryCount.toInt)) :=
            fun h => h.elim hzero fun h => hfull h.2
          rw [if_neg Bool.false_ne_true, if_neg hendless, if_neg hnot]
          refine ⟨hall, ?_⟩
          intro m hm
          obtain rfl := Option.some.inj (hsome.symm.trans hm)
          simp only [List.length_append, List.length_singleton]
          omega

/-! ## The invariant -/

/-- What has become of a message that is no longer in the table. -/
def Settled (z : Retry) (as : List Attempt) : Prop := Sent z as ∨ GivenUp z as

structure QueueInv (z : Retry) (s : QueueState) : Prop where
  nodup : (s.rows.map (·.sendNo)).Nodup
  used : ∀ r ∈ s.rows, r.sendNo ∈ s.used
  logged : ∀ a ∈ s.log, a.sendNo ∈ s.used
  knows : ∀ r ∈ s.rows, Knows z r (s.marks r.sendNo)
  gone : ∀ n ∈ s.used, n ∉ s.rows.map (·.sendNo) → Settled z (s.marks n)
  sending : ∀ rest, s.sending = some rest → (rest.map (·.sendNo)).Nodup ∧
    ∀ r ∈ rest, r ∈ s.rows ∧ (r.sendStatus = .begin ∨ r.sendStatus = .retry)
  last : s.log.Pairwise fun a b => a.sendNo = b.sendNo → ¬ (a.marked = true ∧ a.ok = true)

variable {z : Retry} {s s' : QueueState}

theorem marks_append (s : QueueState) (a : Attempt) (n : Nat) (rows : List SendRow) (sending : Option (List SendRow)) :
    ({ s with rows := rows, sending := sending, log := s.log ++ [a] } : QueueState).marks n =
      s.marks n ++ if a.sendNo = n ∧ a.marked = true then [a] else [] := by
  unfold QueueState.marks
  rw [List.filter_append]
  by_cases h : a.sendNo = n ∧ a.marked = true
  · simp [h]
  · simp only [h, if_false, List.append_cancel_left_eq, List.filter_eq_nil_iff]
    intro b hb hcond
    rw [List.mem_singleton.1 hb] at hcond
    exact h (by simpa using hcond)

/-- A message that waits has never been sent and marked. -/
theorem QueueInv.waiting (h : QueueInv z s) {r : SendRow} (hr : r ∈ s.rows)
    (hw : r.sendStatus = .begin ∨ r.sendStatus = .retry) {a : Attempt} (ha : a ∈ s.log) (hn : a.sendNo = r.sendNo) :
    ¬ (a.marked = true ∧ a.ok = true) := by
  intro hok
  have hmem : a ∈ s.marks r.sendNo := List.mem_filter.2 ⟨ha, by simp [hn, hok.1]⟩
  have hfail := ((h.knows r hr).waiting hw).1 a hmem
  rw [hok.2] at hfail
  cases hfail

theorem QueueInv.insert (h : QueueInv z s) {n : Nat} (hn : n ∉ s.used) (messageDate : Nat) :
    QueueInv z { s with rows := s.rows ++ [⟨n, messageDate, .begin, 0, 0, 0, 0⟩], used := n :: s.used } := by
  have hmem : ∀ r, r ∈ s.rows ++ [⟨n, messageDate, .begin, 0, 0, 0, 0⟩] →
      r ∈ s.rows ∨ r = ⟨n, messageDate, .begin, 0, 0, 0, 0⟩ := by
    intro r hr
    simpa using hr
  refine ⟨?_, ?_, ?_, ?_, ?_, ?_, h.last⟩
  · rw [List.map_append, List.nodup_append]
    refine ⟨h.nodup, by simp, ?_⟩
    intro k hk k' hk'
    obtain rfl : k' = n := by simpa using hk'
    obtain ⟨r, hr, rfl⟩ := List.mem_map.1 hk
    exact fun he => hn (he ▸ h.used r hr)
  · intro r hr
    obtain hr | rfl := hmem r hr
    · exact List.mem_cons_of_mem _ (h.used r hr)
    · exact List.mem_cons_self
  · exact fun a ha => List.mem_cons_of_mem _ (h.logged a ha)
  · intro r hr
    obtain hr | rfl := hmem r hr
    · exact h.knows r hr
    · refine ⟨List.filter_eq_nil_iff.2 ?_, rfl⟩
      intro a ha hcond
      have hsame : a.sendNo = n ∧ a.marked = true := by simpa using hcond
      exact hn (hsame.1 ▸ h.logged a ha)
  · intro k hk hnot
    rw [List.map_append, List.mem_append, not_or] at hnot
    obtain rfl | hk := List.mem_cons.1 hk
    · simp at hnot
    · exact h.gone k hk hnot.1
  · intro rest hrest
    obtain ⟨hnd, hin⟩ := h.sending rest hrest
    exact ⟨hnd, fun r hr => ⟨List.mem_append_left _ (hin r hr).1, (hin r hr).2⟩⟩

/-- Rows that go away are settled. -/
theorem QueueInv.delete (h : QueueInv z s) (hs : s.sending = none) (p : SendRow → Bool)
    (hp : ∀ r ∈ s.rows, p r = false → r.sendStatus = .ended ∨ r.sendStatus = .error) :
    QueueInv z { s with rows := s.rows.filter p } := by
  refine ⟨h.nodup.sublist (List.filter_sublist.map _), fun r hr => h.used r (List.mem_filter.1 hr).1, h.logged,
    fun r hr => h.knows r (List.mem_filter.1 hr).1, ?_, ?_, h.last⟩
  · intro n hn hnot
    by_cases hin : n ∈ s.rows.map (·.sendNo)
    · obtain ⟨r, hr, rfl⟩ := List.mem_map.1 hin
      have hout : p r = false := by
        by_contra hpr
        exact hnot (List.mem_map_of_mem (List.mem_filter.2 ⟨hr, by simpa using hpr⟩))
      have hk := h.knows r hr
      unfold Knows at hk
      obtain hst | hst := hp r hr hout
      · rw [hst] at hk
        exact .inl hk
      · rw [hst] at hk
        exact .inr hk
    · exact h.gone n hn hin
  · intro rest hrest
    change s.sending = some rest at hrest
    rw [hs] at hrest
    cases hrest

theorem QueueInv.purge (h : QueueInv z s) (hs : s.sending = none) (date : Nat) (endedFails errorFails : Bool) :
    QueueInv z { s with rows := messagePurge date endedFails errorFails s.rows } := by
  have hended : QueueInv z { s with rows := purgeEnded date s.rows } := by
    apply h.delete hs
    intro r _ hr
    simp only [Bool.not_eq_false', Bool.and_eq_true, decide_eq_true_eq] at hr
    exact .inl hr.1
  unfold messagePurge
  split
  · exact h
  · split
    · exact hended
    · apply hended.delete hs
      intro r _ hr
      simp only [Bool.not_eq_false', Bool.and_eq_true, decide_eq_true_eq] at hr
      exact .inr hr.1

theorem QueueInv.select (h : QueueInv z s) (now : Nat) :
    QueueInv z { s with sending := some ((s.rows.filter (·.due now)).insertionSort sendOrder) } := by
  refine ⟨h.nodup, h.used, h.logged, h.knows, h.gone, ?_, h.last⟩
  intro rest hrest
  obtain rfl := Option.some.inj hrest
  refine ⟨?_, ?_⟩
  · have hperm := (List.perm_insertionSort sendOrder (s.rows.filter (·.due now))).map (·.sendNo)
    exact hperm.nodup_iff.2 (h.nodup.sublist (List.filter_sublist.map _))
  · intro r hr
    have hr := (List.mem_insertionSort sendOrder).1 hr
    obtain ⟨hr, hdue⟩ := List.mem_filter.1 hr
    simp only [SendRow.due, Bool.decide_and, Bool.and_eq_true, decide_eq_true_eq] at hdue
    exact ⟨hr, hdue.1⟩

theorem mark_sendNo (z : Retry) (r : SendRow) (ok : Bool) (now retryDate : Nat) (row : SendRow) :
    (mark z r ok now retryDate row).sendNo = row.sendNo := by
  unfold mark
  split
  · rfl
  · split
    · rfl
    · split
      · rfl
      · rfl

/-- The attempts grow by one that comes after no marked success. -/
theorem QueueInv.last_append (h : QueueInv z s) {r : SendRow} (hr : r ∈ s.rows)
    (hw : r.sendStatus = .begin ∨ r.sendStatus = .retry) (ok marked : Bool) :
    (s.log ++ [(⟨r.sendNo, ok, marked⟩ : Attempt)]).Pairwise fun a b =>
      a.sendNo = b.sendNo → ¬ (a.marked = true ∧ a.ok = true) := by
  refine List.pairwise_append.2 ⟨h.last, List.pairwise_singleton _ _, ?_⟩
  intro a ha b hb he
  rw [List.mem_singleton.1 hb] at he
  exact h.waiting hr hw ha he

theorem QueueInv.unmarked (h : QueueInv z s) {r : SendRow} {rest : List SendRow} (hs : s.sending = some (r :: rest))
    (ok : Bool) : QueueInv z { s with sending := some rest, log := s.log ++ [⟨r.sendNo, ok, false⟩] } := by
  obtain ⟨hnd, hin⟩ := h.sending _ hs
  obtain ⟨hr, hw⟩ := hin r List.mem_cons_self
  have hmarks : ∀ n, ({ s with sending := some rest, log := s.log ++ [⟨r.sendNo, ok, false⟩] } : QueueState).marks n =
      s.marks n := by
    intro n
    refine (marks_append s ⟨r.sendNo, ok, false⟩ n s.rows (some rest)).trans ?_
    simp
  refine ⟨h.nodup, h.used, ?_, ?_, ?_, ?_, h.last_append hr hw ok false⟩
  · intro a ha
    obtain ha | rfl : a ∈ s.log ∨ a = ⟨r.sendNo, ok, false⟩ := by simpa using ha
    · exact h.logged a ha
    · exact h.used r hr
  · intro r' hr'
    rw [hmarks]
    exact h.knows r' hr'
  · intro n hn hnot
    rw [hmarks]
    exact h.gone n hn hnot
  · intro rest' hrest
    obtain rfl := Option.some.inj hrest
    exact ⟨(List.nodup_cons.1 hnd).2, fun r' hr' => hin r' (List.mem_cons_of_mem _ hr')⟩

theorem QueueInv.marked (h : QueueInv z s) {r : SendRow} {rest : List SendRow} (hs : s.sending = some (r :: rest))
    (ok : Bool) (now retryDate : Nat) :
    QueueInv z { s with
      rows := Table.update (fun row => row.sendNo == r.sendNo) (mark z r ok now retryDate) s.rows
      sending := some rest
      log := s.log ++ [⟨r.sendNo, ok, true⟩] } := by
  obtain ⟨hnd, hin⟩ := h.sending _ hs
  obtain ⟨hr, hw⟩ := hin r List.mem_cons_self
  have hkeys : (Table.update (fun row => row.sendNo == r.sendNo) (mark z r ok now retryDate) s.rows).map (·.sendNo) =
      s.rows.map (·.sendNo) := Table.map_update _ _ _ _ (mark_sendNo z r ok now retryDate)
  have hmarks : ∀ n, ({ s with
      rows := Table.update (fun row => row.sendNo == r.sendNo) (mark z r ok now retryDate) s.rows
      sending := some rest
      log := s.log ++ [⟨r.sendNo, ok, true⟩] } : QueueState).marks n =
      s.marks n ++ if r.sendNo = n then [⟨r.sendNo, ok, true⟩] else [] := by
    intro n
    refine (marks_append s ⟨r.sendNo, ok, true⟩ n _ (some rest)).trans ?_
    simp
  -- a row after the update is the row of the attempt, marked, or another one as it was
  have hrows : ∀ row ∈ Table.update (fun row => row.sendNo == r.sendNo) (mark z r ok now retryDate) s.rows,
      row = mark z r ok now retryDate r ∨ row ∈ s.rows ∧ row.sendNo ≠ r.sendNo := by
    intro row hrow
    obtain ⟨row₀, hrow₀, rfl⟩ := Table.mem_update.1 hrow
    by_cases hsame : row₀.sendNo = r.sendNo
    · left
      rw [Table.eq_of_key h.nodup hrow₀ hr hsame]
      simp
    · right
      simp [hsame, hrow₀]
  refine ⟨?_, ?_, ?_, ?_, ?_, ?_, h.last_append hr hw ok true⟩
  · rw [hkeys]
    exact h.nodup
  · intro row hrow
    obtain rfl | ⟨hrow, -⟩ := hrows row hrow
    · rw [mark_sendNo]
      exact h.used r hr
    · exact h.used row hrow
  · intro a ha
    obtain ha | rfl : a ∈ s.log ∨ a = ⟨r.sendNo, ok, true⟩ := by simpa using ha
    · exact h.logged a ha
    · exact h.used r hr
  · intro row hrow
    rw [hmarks]
    obtain rfl | ⟨hrow, hne⟩ := hrows row hrow
    · rw [mark_sendNo, if_pos rfl]
      exact (h.knows r hr).mark hw r.sendNo ok now retryDate
    · rw [if_neg hne.symm, List.append_nil]
      exact h.knows row hrow
  · intro n hn hnot
    rw [hkeys] at hnot
    have hne : r.sendNo ≠ n := fun he => hnot (he ▸ List.mem_map_of_mem hr)
    rw [hmarks, if_neg hne, List.append_nil]
    exact h.gone n hn hnot
  · intro rest' hrest
    obtain rfl := Option.some.inj hrest
    obtain ⟨hnot, hnd⟩ := List.nodup_cons.1 hnd
    refine ⟨hnd, ?_⟩
    intro r' hr'
    obtain ⟨hmem, hst⟩ := hin r' (List.mem_cons_of_mem _ hr')
    have hne : r'.sendNo ≠ r.sendNo := fun he => hnot (List.mem_map.2 ⟨r', hr', he⟩)
    exact ⟨Table.mem_update.2 ⟨r', hmem, by simp [hne]⟩, hst⟩

theorem QueueInv.idle (h : QueueInv z s) : QueueInv z { s with sending := none } :=
  ⟨h.nodup, h.used, h.logged, h.knows, h.gone, fun _ hrest => absurd hrest (Option.some_ne_none _).symm, h.last⟩

theorem QueueInv.step (h : QueueInv z s) {e : QueueEvent} (hstep : queueStep z s e = some s') : QueueInv z s' := by
  cases e with
  | insert n messageDate =>
    simp only [queueStep, Option.ite_none_left_eq_some, Option.some.injEq] at hstep
    obtain ⟨hn, rfl⟩ := hstep
    exact h.insert hn messageDate
  | purge date endedFails errorFails =>
    simp only [queueStep, Option.ite_none_right_eq_some, Option.some.injEq] at hstep
    obtain ⟨hs, rfl⟩ := hstep
    exact h.purge hs date endedFails errorFails
  | select now =>
    simp only [queueStep, Option.ite_none_right_eq_some, Option.some.injEq] at hstep
    obtain ⟨-, rfl⟩ := hstep
    exact h.select now
  | attempt ok now retryDate marked =>
    match hs : s.sending with
    | none => simp [queueStep, hs] at hstep
    | some [] => simp [queueStep, hs] at hstep
    | some (r :: rest) =>
      cases marked with
      | true =>
        simp only [queueStep, hs, if_true, Option.some.injEq] at hstep
        rw [← hstep]
        exact h.marked hs ok now retryDate
      | false =>
        simp only [queueStep, hs, Bool.false_eq_true, if_false, Option.some.injEq] at hstep
        rw [← hstep]
        exact h.unmarked hs ok
  | done =>
    simp only [queueStep, Option.ite_none_right_eq_some, Option.some.injEq] at hstep
    obtain ⟨-, rfl⟩ := hstep
    exact h.idle
  | die =>
    simp only [queueStep, Option.some.injEq] at hstep
    rw [← hstep]
    exact h.idle

theorem queueInv_reachable {s : QueueState} (h : (queueLts z).Reachable s) : QueueInv z s := by
  have hinv : (queueLts z).Inductive (QueueInv z) := by
    refine ⟨?_, fun s e s' hs hstep => hs.step hstep⟩
    intro s hs
    obtain rfl : s = ⟨[], [], none, []⟩ := hs
    exact ⟨List.nodup_nil, by simp, by simp, by simp, by simp, by simp, .nil⟩
  exact hinv.reachable s h

theorem tries_pos {m : Nat} (hm : z.tries = some m) : 0 < m := by
  unfold Retry.tries at hm
  split at hm
  · cases hm
  · split at hm
    · cases hm
      exact Nat.one_pos
    · cases hm
      exact Nat.succ_pos _

theorem Settled.length_le {as : List Attempt} (h : Settled z as) {m : Nat} (hm : z.tries = some m) : as.length ≤ m := by
  obtain ⟨front, a, rfl, -, -, hlt⟩ | ⟨-, hall⟩ := h
  · rw [List.length_append]
    exact hlt m hm
  · exact (Option.some.inj (hall.symm.trans hm)).le

/-- No more marked attempts than tries. -/
theorem QueueInv.length_le (h : QueueInv z s) (n : Nat) {m : Nat} (hm : z.tries = some m) : (s.marks n).length ≤ m := by
  by_cases hn : n ∈ s.used
  · by_cases hin : n ∈ s.rows.map (·.sendNo)
    · obtain ⟨r, hr, rfl⟩ := List.mem_map.1 hin
      have hk := h.knows r hr
      cases hst : r.sendStatus with
      | begin => exact ((hk.waiting (.inl hst)).2 m hm).1.le
      | retry => exact ((hk.waiting (.inr hst)).2 m hm).1.le
      | ended =>
        simp only [Knows, hst] at hk
        exact Settled.length_le (.inl hk) hm
      | error =>
        simp only [Knows, hst] at hk
        exact Settled.length_le (.inr hk) hm
    · exact (h.gone n hn hin).length_le hm
  · have hnil : s.marks n = [] := by
      refine List.filter_eq_nil_iff.2 ?_
      intro a ha hcond
      have hsame : a.sendNo = n ∧ a.marked = true := by simpa using hcond
      exact hn (hsame.1 ▸ h.logged a ha)
    rw [hnil]
    exact Nat.zero_le m

theorem QueueInv.settled (h : QueueInv z s) {n : Nat} (hn : n ∈ s.used)
    (hout : ∀ r ∈ s.rows, r.sendNo = n → r.sendStatus = .ended ∨ r.sendStatus = .error) : Settled z (s.marks n) := by
  by_cases hin : n ∈ s.rows.map (·.sendNo)
  · obtain ⟨r, hr, rfl⟩ := List.mem_map.1 hin
    have hk := h.knows r hr
    obtain hst | hst := hout r hr rfl
    · simp only [Knows, hst] at hk
      exact .inl hk
    · simp only [Knows, hst] at hk
      exact .inr hk
  · exact h.gone n hn hin

/-- Attempts that were not marked. -/
def QueueState.unmarked (s : QueueState) (n : Nat) : List Attempt := s.log.filter fun a => a.sendNo == n && !a.marked

theorem attempts_length (s : QueueState) (n : Nat) :
    (s.log.filter (·.sendNo == n)).length = (s.marks n).length + (s.unmarked n).length := by
  unfold QueueState.marks QueueState.unmarked
  induction s.log with
  | nil => rfl
  | cons a log ih =>
    by_cases hn : a.sendNo = n
    · cases hm : a.marked with
      | true =>
        simp only [List.filter_cons, hn, hm, beq_self_eq_true, Bool.and_true, Bool.not_true, Bool.and_false,
          if_true, Bool.false_eq_true, if_false, List.length_cons, ih]
        omega
      | false =>
        simp only [List.filter_cons, hn, hm, beq_self_eq_true, Bool.and_true, Bool.not_false, Bool.and_false,
          if_true, Bool.false_eq_true, if_false, List.length_cons, ih]
        omega
    · have hne : (a.sendNo == n) = false := by simpa using hn
      simp only [List.filter_cons, hne, Bool.false_and, Bool.false_eq_true, if_false, ih]

/-- For every message, in every run, with the parameters as they were read:
no attempt comes after a marked success; there are as many attempts as tries
at most, beside the unmarked ones; and a message that is sent, given up or
deleted has been sent with success, or all its tries have failed. -/
theorem notice_queue (parameter : String → Option Text) {s : QueueState}
    (h : (queueLts (getZbxsndParameters parameter)).Reachable s) :
    (s.log.Pairwise fun a b => a.sendNo = b.sendNo → ¬ (a.marked = true ∧ a.ok = true)) ∧
      (∀ n m, (getZbxsndParameters parameter).tries = some m →
        (s.log.filter (·.sendNo == n)).length ≤ m + (s.unmarked n).length) ∧
      ∀ n ∈ s.used, (∀ r ∈ s.rows, r.sendNo = n → r.sendStatus = .ended ∨ r.sendStatus = .error) →
        Settled (getZbxsndParameters parameter) (s.marks n) := by
  have hinv := queueInv_reachable h
  refine ⟨hinv.last, ?_, fun n hn hout => hinv.settled hn hout⟩
  intro n m hm
  rw [attempts_length]
  exact Nat.add_le_add_right (hinv.length_le n hm) _

/-- A message that fails once and is then sent, with two tries. -/
def sampleRun : List QueueEvent :=
  [.insert 1 20240401120000, .select 20240401120001, .attempt false 20240401120001 20240401120006 true, .done,
    .select 20240401120006, .attempt true 20240401120007 20240401120012 true, .done,
    .purge 20240402120000 false false]

def oneRetry : String → Option Text
  | "ZBXSND_RETRY" => some [49]
  | "ZBXSND_RETRY_COUNT" => some [49]
  | _ => none

def afterSample : QueueState := ⟨[], [1], none, [⟨1, false, true⟩, ⟨1, true, true⟩]⟩

theorem notice_queue_sample : Settled (getZbxsndParameters oneRetry) (afterSample.marks 1) := by
  have hrun : sampleRun.foldlM (queueStep (getZbxsndParameters oneRetry)) ⟨[], [], none, []⟩ = some afterSample := by
    decide +kernel
  have hreach : (queueLts (getZbxsndParameters oneRetry)).Reachable afterSample :=
    ⟨_, sampleRun, rfl, LTS.Run.of_foldlM (fun _ _ _ h => h) hrun⟩
  exact (notice_queue oneRetry hreach).2.2 1 (by decide) (by simp [afterSample])

end JobArranger.Notice
