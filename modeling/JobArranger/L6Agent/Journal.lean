import JobArranger.Core.Replay
import JobArranger.L6Agent.JobDb

/-!
# The journal of the agent database

Every statement the agent executes on its SQLite file is appended, once it
has succeeded, to a journal file, as a line with a time, the length of the
statement and its text. From time to time the executive copies the database
to a backup file and empties the journal; `ja_dbmain_restore` copies the
backup back and executes the journal.

Statement and record are two steps of a process, and so are copy and
emptying. SQLite's write lock orders the statements: a transaction begins
with `BEGIN IMMEDIATE`. It does not order the records, since COMMIT gives
the lock up before its record is written. What a statement does to the
tables is SQLite's (`apply`); only the statements that control transactions
are given a meaning here. The statements of `ja_jobdb_init`, which runs
before the processes are forked, and every later one write, so none runs
beside the transaction of another process.

* `load_records`: a journal of records is read back record by record.
* `load_long`: a record of 4096 bytes and more is not.
* `journal_restores`: the restored database is the committed one, in the
  runs whose records are in the order of the statements and whose backups
  meet no transaction and lose no record.
* `records_swapped`: two transactions whose records are in the wrong order.
-/
namespace JobArranger.Agent.Journal

open JobDb (digits_head natVal_takeWhile_digits intText_natCast)

/-! ## The database -/

/-- A SQLite database: its tables, and those of the open transaction. -/
structure Conn (D : Type) where
  committed : D
  working : Option D
  deriving DecidableEq, Repr

/-- mirrors src/jobarg_agent/jasqlite.c:34-36 -/
def sqlBegin : Text := ascii "BEGIN IMMEDIATE;"

def sqlCommit : Text := ascii "COMMIT;"

def sqlRollback : Text := ascii "ROLLBACK;"

/-- mirrors src/jobarg_agent/jadbmain.c:298 -/
def sqlVacuum : Text := ascii "VACUUM;"

section
variable {D : Type} (apply : Text → D → Option D)

/-- `sqlite3_exec`; `none` is an error. -/
def sqlite3Exec (c : Conn D) (sql : Text) : Option (Conn D) :=
  if sql = sqlBegin then
    match c.working with
    | none => some { c with working := some c.committed }
    | some _ => none
  else if sql = sqlCommit then c.working.map fun d => ⟨d, none⟩
  else if sql = sqlRollback then c.working.map fun _ => ⟨c.committed, none⟩
  else if sql = sqlVacuum then
    match c.working with
    | none => some c
    | some _ => none
  else
    match c.working with
    | none => (apply sql c.committed).map fun d => ⟨d, none⟩
    | some d => (apply sql d).map fun d => { c with working := some d }

/-! ## The file -/

/-- mirrors src/jobarg_agent/jajournal.c:92-96 -/
def record (time : Nat) (sql : Text) : Text :=
  intText time ++ (ascii " " ++ (intText sql.length ++ (ascii " " ++ (sql ++ ascii "\n"))))

/-- `%*s` -/
def scanWord (t : Text) : Option Text :=
  let t := t.dropWhile isSpace
  if t = [] then none else some (t.dropWhile fun b => !isSpace b)

/-- `%d` -/
def scanInt (t : Text) : Option (Int × Text) :=
  let t := t.dropWhile isSpace
  if t.head? = some 45 then (Sql.number t.tail).map fun r => (-(r.1 : Int), r.2)
  else if t.head? = some 43 then (Sql.number t.tail).map fun r => ((r.1 : Int), r.2)
  else (Sql.number t).map fun r => ((r.1 : Int), r.2)

/-- `fscanf(fp, "%*s %d ", &size)`: the last blank of the format stands for
any white space. -/
def scanHeader (t : Text) : Option (Int × Text) := do
  let t ← scanWord t
  let (size, t) ← scanInt t
  pure (size, t.dropWhile isSpace)

/-- The loop of `ja_journal_load`. `fread` gets `size` bytes, or what is left
of the file, into the 4096 zero bytes of `sql`; without one of them behind
the text the behaviour is undefined, which is `none`.
mirrors src/jobarg_agent/jajournal.c:171-190 -/
def loadLoop : Nat → Text → Conn D → Option (Conn D)
  | 0, _, c => some c
  | n + 1, t, c =>
    match scanHeader t with
    | none => some c
    | some (size, t) =>
      -- a negative `int` becomes a `size_t` beyond every file
      let len := if size < 0 then t.length else size.toNat
      if 4096 ≤ (t.take len).length then none
      else (sqlite3Exec apply c (cString (t.take len))).bind fun c => loadLoop n (t.drop len) c

/-- mirrors src/jobarg_agent/jajournal.c:151-195 -/
def jaJournalLoad (file : Text) (c : Conn D) : Option (Conn D) := loadLoop apply (file.length + 1) file c

/-- The database file after a restore that succeeds; closing it rolls an
open transaction back. mirrors src/jobarg_agent/jadbmain.c:86-132 -/
def jaDbmainRestore (journal : Text) (backup : D) : Option D :=
  (jaJournalLoad apply journal ⟨backup, none⟩).map Conn.committed

/-- A statement whose record can be read back. -/
structure Framed (sql : Text) : Prop where
  short : sql.length < 4096
  noNul : 0 ∉ sql
  head : ∃ b t, sql = b :: t ∧ isSpace b = false

end

/-! ## Reading a record -/

theorem isDigit_not_space {b : UInt8} (h : Sql.isDigit b = true) : isSpace b = false := by
  have hb : 48 ≤ b.toNat ∧ b.toNat ≤ 57 := by
    simpa [Sql.isDigit, UInt8.le_iff_toNat_le] using h
  have h13 : ¬ b ≤ 13 := by
    rw [UInt8.le_iff_toNat_le]
    show ¬ b.toNat ≤ 13
    omega
  have h32 : b ≠ 32 := by
    intro he
    subst he
    exact absurd hb.1 (by decide)
  simp [isSpace, h32, h13]

theorem scanWord_digits (n : Nat) {rest : Text} (hr : rest.head? = some 32) :
    scanWord (Sql.digits n ++ rest) = some rest := by
  obtain ⟨b, ds, hds, hspace, -, -⟩ := digits_head n
  have hall : ∀ b ∈ Sql.digits n, (!isSpace b) = true := by
    intro b hb
    rw [isDigit_not_space (Sql.isDigit_of_mem_digits hb)]
    rfl
  obtain ⟨r, rfl⟩ : ∃ r, rest = 32 :: r := by
    cases rest with
    | nil => cases hr
    | cons c r => exact ⟨r, by rw [Option.some.inj hr]⟩
  have hdrop : (Sql.digits n ++ 32 :: r).dropWhile isSpace = Sql.digits n ++ 32 :: r := by
    rw [hds, List.cons_append, List.dropWhile_cons_of_neg (by simp [hspace])]
  rw [scanWord, hdrop, if_neg (by simp), List.dropWhile_append_of_pos hall]
  rfl

theorem scanInt_digits (n : Nat) {rest : Text} (hr : rest.head? = some 32) :
    scanInt (32 :: (Sql.digits n ++ rest)) = some ((n : Int), rest) := by
  obtain ⟨b, ds, hds, hspace, hminus, hplus⟩ := digits_head n
  have hstops : Sql.Stops rest := by
    intro c hc
    rw [hr] at hc
    obtain rfl := Option.some.inj hc
    decide
  have hdrop : (32 :: (Sql.digits n ++ rest)).dropWhile isSpace = Sql.digits n ++ rest := by
    rw [List.dropWhile_cons_of_pos (by decide), hds, List.cons_append, List.dropWhile_cons_of_neg (by simp [hspace])]
  have hhead : (Sql.digits n ++ rest).head? = some b := by rw [hds]; rfl
  simp only [scanInt, hdrop, hhead, Option.some.injEq, hminus, hplus, if_false, Sql.number_digits n hstops, Option.map_some]

theorem scanHeader_record {time : Nat} {sql : Text} {b : UInt8} {t : Text} (hsql : sql = b :: t) (hb : isSpace b = false)
    (rest : Text) : scanHeader (record time sql ++ rest) = some ((sql.length : Int), sql ++ (ascii "\n" ++ rest)) := by
  have htext : record time sql ++ rest =
      Sql.digits time ++ (32 :: (Sql.digits sql.length ++ (32 :: (sql ++ (ascii "\n" ++ rest))))) := by
    rw [record, intText_natCast, intText_natCast]
    simp only [List.append_assoc]
    rfl
  have hdrop : (32 :: (sql ++ (ascii "\n" ++ rest))).dropWhile isSpace = sql ++ (ascii "\n" ++ rest) := by
    rw [List.dropWhile_cons_of_pos (by decide), hsql, List.cons_append, List.dropWhile_cons_of_neg (by simp [hb])]
  rw [htext, scanHeader, scanWord_digits time rfl]
  show (scanInt (32 :: (Sql.digits sql.length ++ (32 :: (sql ++ (ascii "\n" ++ rest)))))).bind _ = _
  rw [scanInt_digits sql.length rfl, Option.bind_some]
  show some ((sql.length : Int), (32 :: (sql ++ (ascii "\n" ++ rest))).dropWhile isSpace) = _
  rw [hdrop]

theorem scanHeader_newline (t : Text) : scanHeader (10 :: t) = scanHeader t := by
  have h : scanWord (10 :: t) = scanWord t := by
    rw [scanWord, List.dropWhile_cons_of_pos (by decide)]
    rfl
  rw [scanHeader, h]
  rfl

section
variable {D : Type} {apply : Text → D → Option D}

theorem loadLoop_newline (n : Nat) (t : Text) (c : Conn D) : loadLoop apply n (10 :: t) c = loadLoop apply n t c := by
  cases n with
  | zero => rfl
  | succ n => rw [loadLoop, loadLoop, scanHeader_newline]

theorem loadLoop_record {time : Nat} {sql : Text} (h : Framed sql) (n : Nat) (rest : Text) (c : Conn D) :
    loadLoop apply (n + 1) (record time sql ++ rest) c =
      (sqlite3Exec apply c sql).bind fun c => loadLoop apply n rest c := by
  obtain ⟨b, t, hsql, hb⟩ := h.head
  have hlen : (if ((sql.length : Int) < 0) then (sql ++ (ascii "\n" ++ rest)).length else (sql.length : Int).toNat) = sql.length := by
    rw [if_neg (by omega)]
    rfl
  have hstr : cString sql = sql := by
    rw [cString, List.takeWhile_eq_self_iff]
    intro b hb
    have hne : b ≠ 0 := fun he => h.noNul (he ▸ hb)
    simpa using hne
  rw [loadLoop, scanHeader_record hsql hb]
  dsimp only
  rw [hlen, List.take_left, List.drop_left, if_neg (Nat.not_le.2 h.short), hstr]
  congr 1
  funext c'
  exact loadLoop_newline n rest c'

/-- The records of a journal. -/
def records (ws : List (Nat × Text)) : Text := ws.flatMap fun w => record w.1 w.2

theorem loadLoop_records {ws : List (Nat × Text)} (hw : ∀ w ∈ ws, Framed w.2) {n : Nat} (hn : ws.length ≤ n) (c : Conn D) :
    loadLoop apply n (records ws) c = Log.replay (sqlite3Exec apply) c (ws.map Prod.snd) := by
  induction ws generalizing n c with
  | nil =>
    cases n with
    | zero => rfl
    | succ n => rfl
  | cons w ws ih =>
    obtain ⟨n, rfl⟩ : ∃ m, n = m + 1 := ⟨n - 1, by simp only [List.length_cons] at hn; omega⟩
    have hrec : records (w :: ws) = record w.1 w.2 ++ records ws := rfl
    rw [hrec, loadLoop_record (hw w List.mem_cons_self)]
    show _ = (sqlite3Exec apply c w.2).bind fun c => Log.replay (sqlite3Exec apply) c (ws.map Prod.snd)
    congr 1
    funext c'
    exact ih (fun x hx => hw x (List.mem_cons_of_mem w hx)) (Nat.le_of_succ_le_succ hn) c'

theorem length_records (ws : List (Nat × Text)) : ws.length ≤ (records ws).length := by
  induction ws with
  | nil => exact Nat.le_refl 0
  | cons w ws ih =>
    have hrec : records (w :: ws) = record w.1 w.2 ++ records ws := rfl
    have hpos : 0 < (record w.1 w.2).length := by
      simp only [record, List.length_append]
      have : (ascii "\n").length = 1 := rfl
      omega
    rw [hrec, List.length_append, List.length_cons]
    omega

/-- **A journal is read back record by record.** -/
theorem load_records {ws : List (Nat × Text)} (hw : ∀ w ∈ ws, Framed w.2) (c : Conn D) :
    jaJournalLoad apply (records ws) c = Log.replay (sqlite3Exec apply) c (ws.map Prod.snd) :=
  loadLoop_records hw (Nat.le_succ_of_le (length_records ws)) c

/-- A statement of 4096 bytes or more does not fit the buffer it is read into. -/
theorem load_long {time : Nat} {sql rest : Text} {b : UInt8} {t : Text} (hsql : sql = b :: t) (hb : isSpace b = false)
    (hlong : 4096 ≤ sql.length) (c : Conn D) : jaJournalLoad apply (record time sql ++ rest) c = none := by
  have hlen : (if ((sql.length : Int) < 0) then (sql ++ (ascii "\n" ++ rest)).length else (sql.length : Int).toNat) = sql.length := by
    rw [if_neg (by omega)]
    rfl
  rw [jaJournalLoad, loadLoop, scanHeader_record hsql hb]
  dsimp only
  rw [hlen, List.take_left, if_pos hlong]

end

/-! ## The processes -/

/-- `unsaved`: the statements whose records are still to be written, oldest
first, each with its process. `since`: the executive is between the copy and
the emptying, and so many statements have been executed since the copy. -/
structure JournalState (P D : Type) where
  conn : Conn D
  owner : Option P
  unsaved : List (P × Text)
  journal : Text
  backup : D
  since : Option Nat

inductive JournalLabel (P : Type) where
  /-- a statement that succeeds -/
  | exec (p : P) (sql : Text)
  | save (p : P) (time : Nat) (ok : Bool)
  /-- `sqlite3_backup_step`, whose result is not looked at -/
  | copy (ok : Bool)
  | vacate (ok : Bool)

section
variable {P D : Type} [DecidableEq P] (apply : Text → D → Option D) (executive : P)

/-- mirrors src/jobarg_agent/jasqlite.c:222-263,
src/jobarg_agent/jadbmain.c:188-252 -/
def JournalStep (s : JournalState P D) : JournalLabel P → JournalState P D → Prop
  | .exec p sql, s' => 0 ∉ sql ∧ (∀ x ∈ s.unsaved, x.1 ≠ p) ∧ (p = executive → s.since = none) ∧
      (s.owner = none ∨ s.owner = some p) ∧ ∃ conn, sqlite3Exec apply s.conn sql = some conn ∧
      s' = { s with
        conn
        owner := if conn.working.isSome then some p else none
        unsaved := s.unsaved ++ [(p, sql)]
        since := s.since.map (· + 1) }
  | .save p time ok, s' => ∃ sql us us', s.unsaved = us ++ (p, sql) :: us' ∧
      s' = { s with
        unsaved := us ++ us'
        journal := if ok then s.journal ++ record time sql else s.journal }
  | .copy ok, s' => s.since = none ∧ (∀ x ∈ s.unsaved, x.1 ≠ executive) ∧
      -- the executive's own transaction is copied with the rest
      s' = { s with
        backup := if ok then (if s.owner = some executive then s.conn.working.getD s.conn.committed else s.conn.committed)
          else s.backup
        since := some 0 }
  | .vacate ok, s' => s.since.isSome ∧ s' = { s with journal := if ok then [] else s.journal, since := none }

structure JournalInit (s : JournalState P D) : Prop where
  working : s.conn.working = none
  owner : s.owner = none
  unsaved : s.unsaved = []
  journal : s.journal = []
  backup : s.backup = s.conn.committed
  since : s.since = none

variable (P D) in
def journalSystem : LTS (JournalState P D) (JournalLabel P) where
  init := JournalInit
  step := JournalStep apply executive

omit [DecidableEq P] in
/-- While no statement and no backup is in progress, a restore gives the
committed tables. -/
def Recovers (s : JournalState P D) : Prop :=
  s.unsaved = [] → s.since = none → jaDbmainRestore apply s.journal s.backup = some s.conn.committed

/-- The records are written in the order the statements took effect; the
copy meets no transaction, and between it and the emptying no statement from
after the copy is recorded, and none from before it is left. -/
def InOrder (s : JournalState P D) : JournalLabel P → Prop
  | .exec _ sql => sql.length < 4096 ∧ ∃ b t, sql = b :: t ∧ isSpace b = false
  | .save p _ ok => ok = true ∧ (s.unsaved.head?).map Prod.fst = some p
  | .copy ok => ok = true ∧ s.owner = none
  | .vacate ok => ok = true ∧ s.since = some s.unsaved.length

omit [DecidableEq P] in
/-- The state as a snapshot and a log; `ws` are the records of the file. -/
def JournalState.log (s : JournalState P D) (ws : List (Nat × Text)) : Log (Conn D) Text where
  state := s.conn
  snapshot := ⟨s.backup, none⟩
  written := ws.map Prod.snd
  unwritten := s.unsaved.map Prod.snd
  since := s.since

structure JournalInv (s : JournalState P D) : Prop where
  lock : s.owner = none → s.conn.working = none
  distinct : (s.unsaved.map Prod.fst).Nodup
  framed : ∀ x ∈ s.unsaved, Framed x.2
  sound : ∃ ws, (∀ w ∈ ws, Framed w.2) ∧ s.journal = records ws ∧ (s.log ws).Sound (sqlite3Exec apply)

variable {apply executive} {s s' : JournalState P D}

omit [DecidableEq P] in
theorem JournalInv.recovers (h : JournalInv apply s) : Recovers apply s := by
  intro hu hs
  obtain ⟨ws, hw, hj, hsound⟩ := h.sound
  have hrep := hsound.recovers hs (by show s.unsaved.map Prod.snd = []; rw [hu]; rfl)
  rw [jaDbmainRestore, hj, load_records hw]
  show (Log.replay (sqlite3Exec apply) ⟨s.backup, none⟩ (ws.map Prod.snd)).map Conn.committed = _
  exact congrArg _ hrep

theorem JournalInv.exec (h : JournalInv apply s) {p : P} {sql : Text}
    (hs : JournalStep apply executive s (.exec p sql) s')
    (hc : sql.length < 4096 ∧ ∃ b t, sql = b :: t ∧ isSpace b = false) : JournalInv apply s' := by
  obtain ⟨hnul, hp, -, -, conn, hexec, rfl⟩ := hs
  obtain ⟨ws, hw, hj, hsound⟩ := h.sound
  refine ⟨fun ho => ?_, ?_, fun x hx => ?_, ws, hw, hj, ?_⟩
  · cases hwork : conn.working with
    | none => rfl
    | some d => simp [hwork] at ho
  · show ((s.unsaved ++ [(p, sql)]).map Prod.fst).Nodup
    rw [List.map_append, List.nodup_append]
    refine ⟨h.distinct, by simp, fun a ha b hb => ?_⟩
    obtain ⟨x, hx, rfl⟩ := List.mem_map.1 ha
    have hbp : b = p := by simpa using hb
    rw [hbp]
    exact hp x hx
  · rcases List.mem_append.1 hx with hx | hx
    · exact h.framed x hx
    · rw [List.mem_singleton.1 hx]
      exact ⟨hc.1, hnul, hc.2⟩
  · have heff := hsound.effect hexec
    show Log.Sound _ ⟨conn, _, _, (s.unsaved ++ [(p, sql)]).map Prod.snd, _⟩
    rw [List.map_append]
    exact heff

theorem JournalInv.save (h : JournalInv apply s) {p : P} {time : Nat} {ok : Bool}
    (hs : JournalStep apply executive s (.save p time ok) s')
    (hc : ok = true ∧ (s.unsaved.head?).map Prod.fst = some p) : JournalInv apply s' := by
  obtain ⟨sql, us, us', hu, rfl⟩ := hs
  obtain ⟨rfl, hhead⟩ := hc
  have hdistinct := h.distinct
  -- the oldest statement is the one of `p`, which has no other
  have hnil : us = [] := by
    cases us with
    | nil => rfl
    | cons x us =>
      rw [hu] at hhead hdistinct
      have hx : x.1 = p := by simpa using hhead
      simp [hx] at hdistinct
  subst hnil
  obtain ⟨ws, hw, hj, hsound⟩ := h.sound
  rw [List.nil_append] at hu ⊢
  refine ⟨h.lock, ?_, fun x hx => h.framed x ?_, ws ++ [(time, sql)], fun w hm => ?_, ?_, ?_⟩
  · rw [hu] at hdistinct
    exact (List.nodup_cons.1 hdistinct).2
  · rw [hu]
    exact List.mem_cons_of_mem _ hx
  · rcases List.mem_append.1 hm with hm | hm
    · exact hw w hm
    · rw [List.mem_singleton.1 hm]
      exact h.framed (p, sql) (by rw [hu]; exact List.mem_cons_self)
  · show s.journal ++ record time sql = records (ws ++ [(time, sql)])
    rw [hj, records, records, List.flatMap_append, List.flatMap_singleton]
  · have hoff : (s.log ws).unwritten = sql :: us'.map Prod.snd := by
      show s.unsaved.map Prod.snd = _
      rw [hu]
      rfl
    have hwrite := hsound.write hoff
    show Log.Sound _ ⟨_, _, (ws ++ [(time, sql)]).map Prod.snd, _, _⟩
    rw [List.map_append]
    exact hwrite

theorem JournalInv.copy (h : JournalInv apply s) {ok : Bool} (hs : JournalStep apply executive s (.copy ok) s')
    (hc : ok = true ∧ s.owner = none) : JournalInv apply s' := by
  obtain ⟨-, -, rfl⟩ := hs
  obtain ⟨rfl, ho⟩ := hc
  obtain ⟨ws, hw, hj, -⟩ := h.sound
  refine ⟨h.lock, h.distinct, h.framed, ws, hw, hj, ?_⟩
  have hconn : (⟨s.conn.committed, none⟩ : Conn D) = s.conn := by
    rw [← h.lock ho]
  have hcopy : (_ : Log (Conn D) Text).Sound (sqlite3Exec apply) := Log.sound_copy (s.log ws)
  have hno : s.owner ≠ some executive := by
    rw [ho]
    exact (Option.some_ne_none executive).symm
  rw [if_pos rfl, if_neg hno]
  show Log.Sound _ ⟨s.conn, ⟨s.conn.committed, none⟩, ws.map Prod.snd, s.unsaved.map Prod.snd, some 0⟩
  rw [hconn]
  exact hcopy

theorem JournalInv.vacate (h : JournalInv apply s) {ok : Bool} (hs : JournalStep apply executive s (.vacate ok) s')
    (hc : ok = true ∧ s.since = some s.unsaved.length) : JournalInv apply s' := by
  obtain ⟨-, rfl⟩ := hs
  obtain ⟨rfl, hlen⟩ := hc
  obtain ⟨ws, -, -, hsound⟩ := h.sound
  refine ⟨h.lock, h.distinct, h.framed, [], by simp, rfl, ?_⟩
  exact hsound.clear (by
    show s.since = some (s.unsaved.map Prod.snd).length
    rw [List.length_map]
    exact hlen)

theorem journalInv_inductive : ((journalSystem P D apply executive).restrict InOrder).Inductive (JournalInv apply) where
  init s hs := by
    refine ⟨fun _ => hs.working, by simp [hs.unsaved], by simp [hs.unsaved], [], by simp, hs.journal, ?_⟩
    have hconn : (⟨s.backup, none⟩ : Conn D) = s.conn := by
      rw [hs.backup, ← hs.working]
    show Log.Sound _ ⟨s.conn, ⟨s.backup, none⟩, [], s.unsaved.map Prod.snd, s.since⟩
    rw [hconn, hs.unsaved, hs.since]
    rfl
  step s l s' h hs := by
    obtain ⟨hs, hc⟩ := hs
    change JournalStep apply executive s l s' at hs
    cases l with
    | exec p sql => exact h.exec hs hc
    | save p time ok => exact h.save hs hc
    | copy ok => exact h.copy hs hc
    | vacate ok => exact h.vacate hs hc

variable (P D) in
/-- **A restore gives the committed tables**, in the runs whose records are
in order. -/
theorem journal_restores (apply : Text → D → Option D) (executive : P) (s : JournalState P D)
    (hr : ((journalSystem P D apply executive).restrict InOrder).Reachable s) : Recovers apply s :=
  (journalInv_inductive.reachable s hr).recovers

end

/-! ## Two transactions -/

/-- The tables of an agent, and its statements of the form
`replace into jobs values (…)`. -/
def jobsExec (sql : Text) (rows : List Sql.Row) : Option (List Sql.Row) := JobDb.jaDbExecute rows sql

/-- The listener is `false`, the executive `true`. -/
def emptyState : JournalState Bool (List Sql.Row) := ⟨⟨[], none⟩, none, [], [], [], none⟩

theorem emptyState_init : JournalInit emptyState := ⟨rfl, rfl, rfl, rfl, rfl, rfl⟩

/-- Job 7, as `ja_jobdb_insert` writes it. -/
def jobSql : Text := JobDb.jaJobdbReplace { JobDb.jaJobObjectInit with jobid := 7 }

/-- Its row. -/
def jobRows : List Sql.Row := (jobsExec jobSql []).getD []

theorem jobSql_exec : sqlite3Exec jobsExec ⟨[], some []⟩ jobSql = some ⟨[], some jobRows⟩ := by
  decide +kernel

/-- A job is inserted, and a restore brings it back. -/
theorem journal_restores_insert :
    ∃ s, ((journalSystem Bool (List Sql.Row) jobsExec true).restrict InOrder).Reachable s ∧
      s.conn.committed = jobRows ∧ jobRows.length = 1 ∧ jaDbmainRestore jobsExec s.journal s.backup = some jobRows := by
  have hrun : ∃ s, ((journalSystem Bool (List Sql.Row) jobsExec true).restrict InOrder).Reachable s ∧
      s.conn = ⟨jobRows, none⟩ ∧ s.unsaved = [] ∧ s.since = none :=
    ⟨_, ⟨emptyState, [.exec false sqlBegin, .save false 1 true, .exec false jobSql, .save false 2 true,
      .exec false sqlCommit, .save false 3 true], emptyState_init,
      .cons ⟨⟨by decide, by simp [emptyState], fun h => (by cases h), .inl rfl, _, rfl, rfl⟩, by decide, _, _, rfl, rfl⟩
        (.cons ⟨⟨_, [], _, rfl, rfl⟩, rfl, rfl⟩
          (.cons ⟨⟨by decide +kernel, by simp, fun h => (by cases h), .inr rfl, _, jobSql_exec, rfl⟩, by decide +kernel,
            _, _, rfl, rfl⟩
            (.cons ⟨⟨_, [], _, rfl, rfl⟩, rfl, rfl⟩
              (.cons ⟨⟨by decide, by simp, fun h => (by cases h), .inr rfl, _, rfl, rfl⟩, by decide, _, _, rfl, rfl⟩
                (.cons ⟨⟨_, [], _, rfl, rfl⟩, rfl, rfl⟩ (.nil _))))))⟩, rfl, rfl, rfl⟩
  obtain ⟨s, hr, hconn, hu, hs⟩ := hrun
  have hrec := journal_restores Bool (List Sql.Row) jobsExec true s hr hu hs
  rw [hconn] at hrec
  exact ⟨s, hr, by rw [hconn], by decide +kernel, hrec⟩

/-- The listener commits a transaction, and the executive begins one before
the COMMIT is recorded. -/
theorem records_swapped :
    ∃ s, (journalSystem Bool (List Sql.Row) jobsExec true).Reachable s ∧ s.unsaved = [] ∧ s.since = none ∧
      jaDbmainRestore jobsExec s.journal s.backup = none ∧ ¬ Recovers jobsExec s := by
  have hrun : ∃ s, (journalSystem Bool (List Sql.Row) jobsExec true).Reachable s ∧ s.unsaved = [] ∧ s.since = none ∧
      jaDbmainRestore jobsExec s.journal s.backup = none :=
    ⟨_, ⟨emptyState, [.exec false sqlBegin, .save false 1 true, .exec false sqlCommit, .exec true sqlBegin,
      .save true 2 true, .save false 3 true], emptyState_init,
      .cons ⟨by decide, by simp [emptyState], fun h => (by cases h), .inl rfl, _, rfl, rfl⟩
        (.cons ⟨_, [], _, rfl, rfl⟩
          (.cons ⟨by decide, by simp, fun h => (by cases h), .inr rfl, _, rfl, rfl⟩
            (.cons ⟨by decide, by simp, fun _ => rfl, .inl rfl, _, rfl, rfl⟩
              (.cons ⟨_, [_], _, rfl, rfl⟩ (.cons ⟨_, [], _, rfl, rfl⟩ (.nil _))))))⟩, rfl, rfl, by decide +kernel⟩
  obtain ⟨s, hr, hu, hs, hnone⟩ := hrun
  refine ⟨s, hr, hu, hs, hnone, fun hrec => ?_⟩
  rw [hrec hu hs] at hnone
  cases hnone

end JobArranger.Agent.Journal
