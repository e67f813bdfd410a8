import JobArranger.Core.Sql
import JobArranger.L6Agent.Telegram

/-!
# The agent's job rows

`ja_jobdb_replace` prints a job object as one SQL statement of twenty
literals, and `ja_jobdb_load` reads the columns back by their index. The
strings come from the network: each is printed through its escaped copy,
except `run_user` and `run_user_password`, whose copies are made and not
used. The 64-bit columns are printed unsigned, and SQLite keeps an integer
beyond 63 bits as a double, whose text `str2uint64` does not read.

* `statement_jaJobdbReplace`: the statement up to the last two strings.
* `escape_exact`: the escaped copy of any text, in any room.
* `jaJobdbLoad_row`: loading the row of a job.
* `lossless_iff`: exactly which jobs survive.
-/
namespace JobArranger.Agent.JobDb

open Sql (Value Kind Row Spells)

/-- A C string in a buffer of `n + 1` bytes. -/
structure CText (n : Nat) where
  bytes : Text
  fits : bytes.length ≤ n
  noNul : 0 ∉ bytes
  deriving DecidableEq

theorem CText.ext {n : Nat} {s t : CText n} (h : s.bytes = t.bytes) : s = t := by
  cases s
  cases t
  cases h
  rfl

def CText.empty (n : Nat) : CText n := ⟨[], Nat.zero_le n, by simp⟩

theorem zero_not_mem_cString (t : Text) : 0 ∉ cString t := by
  intro h
  have := List.mem_takeWhile_imp h
  simp at this

/-- `zbx_snprintf(dst, sizeof(dst), "%s", src)` -/
def snprintf (n : Nat) (src : Text) : CText n :=
  ⟨(cString src).take n, List.length_take_le n _, fun h => zero_not_mem_cString src (List.mem_of_mem_take h)⟩

/-- The text without carriage returns. -/
def removeCr (t : Text) : Text := t.filter (· != 13)

def CText.removeCr {n : Nat} (t : CText n) : CText n :=
  ⟨JobDb.removeCr t.bytes, (List.length_filter_le _ _).trans t.fits, fun h => t.noNul (List.mem_filter.1 h).1⟩

/-- `ja_job_object`, the fields with a column (`kind`, `hostname` and
`send_retry` have none). mirrors jainclude/jacommon.h:365-389 -/
@[ext] structure JobRecord where
  jobid : UInt64
  version : Int32
  serverid : CText 17
  method : Int32
  type : CText 1023
  argument : CText 4095
  script : CText 4095
  env : CText 4095
  result : Int32
  status : Int32
  pid : Int32
  startTime : UInt64
  endTime : UInt64
  message : CText 1023
  stdOut : CText 64000
  stdErr : CText 64000
  returnCode : Int32
  signal : Int32
  runUser : CText 1023
  runUserPassword : CText 1023
  deriving DecidableEq

/-- mirrors src/jalibs/jajobobject.c:45-79 -/
def jaJobObjectInit : JobRecord where
  jobid := 0
  version := 0
  serverid := .empty 17
  method := -1
  type := .empty 1023
  argument := .empty 4095
  script := .empty 4095
  env := .empty 4095
  result := 0
  status := -1
  pid := 0
  startTime := 0
  endTime := 0
  message := .empty 1023
  stdOut := .empty 64000
  stdErr := .empty 64000
  returnCode := -1
  signal := 0
  runUser := .empty 1023
  runUserPassword := .empty 1023

/-- The job without carriage returns in its strings. -/
def JobRecord.removeCr (job : JobRecord) : JobRecord :=
  { job with
    serverid := job.serverid.removeCr
    type := job.type.removeCr
    argument := job.argument.removeCr
    script := job.script.removeCr
    env := job.env.removeCr
    message := job.message.removeCr
    stdOut := job.stdOut.removeCr
    stdErr := job.stdErr.removeCr
    runUser := job.runUser.removeCr
    runUserPassword := job.runUserPassword.removeCr }

/-! ## Printing -/

/-- The bytes the escaped copy takes, its end included.
mirrors src/jalibs/jastr.c:598-612 -/
def jaDbEscapeStringLen : Text → Nat
  | [] => 1
  | b :: s =>
    if b = 13 then jaDbEscapeStringLen s
    else if b = 39 then jaDbEscapeStringLen s + 2
    else jaDbEscapeStringLen s + 1

/-- The copy, with `len` bytes left beside its end.
mirrors src/jalibs/jastr.c:627-646 -/
def jaDbEscapeString : Text → Nat → Text
  | [], _ => []
  | _ :: _, 0 => []
  | b :: s, len + 1 =>
    if b = 13 then jaDbEscapeString s (len + 1)
    else if b = 39 then
      if len + 1 < 2 then [] else 39 :: 39 :: jaDbEscapeString s (len - 1)
    else b :: jaDbEscapeString s len

/-- mirrors src/jalibs/jastr.c:661-671 -/
def jaDbDynEscapeString (src : Text) : Text := jaDbEscapeString src (jaDbEscapeStringLen src - 1)

/-- `'%s'` -/
def quoted (t : Text) : Text := 39 :: t ++ [39]

/-- The escaped copies of `run_user` and `run_user_password` are freed unused.
mirrors src/jobarg_agent/jajobdb.c:366-416 -/
def jaJobdbReplace (job : JobRecord) : Text :=
  let serverid_esc := jaDbDynEscapeString job.serverid.bytes
  let type_esc := jaDbDynEscapeString job.type.bytes
  let argument_esc := jaDbDynEscapeString job.argument.bytes
  let script_esc := jaDbDynEscapeString job.script.bytes
  let env_esc := jaDbDynEscapeString job.env.bytes
  let message_esc := jaDbDynEscapeString job.message.bytes
  let std_out_esc := jaDbDynEscapeString job.stdOut.bytes
  let std_err_esc := jaDbDynEscapeString job.stdErr.bytes
  ascii "replace into jobs values (" ++ (intText job.jobid.toNat ++ (ascii ", " ++
    (intText job.version.toInt ++ (ascii ", " ++ (quoted serverid_esc ++ (ascii " , " ++
    (intText job.method.toInt ++ (ascii ", " ++ (quoted type_esc ++ (ascii ", " ++
    (quoted argument_esc ++ (ascii ", " ++ (quoted script_esc ++ (ascii ", " ++ (quoted env_esc ++ (ascii ", " ++
    (intText job.result.toInt ++ (ascii ", " ++ (intText job.status.toInt ++ (ascii ", " ++
    (intText job.pid.toInt ++ (ascii ", " ++ (intText job.startTime.toNat ++ (ascii ", " ++
    (intText job.endTime.toNat ++ (ascii ", " ++ (quoted message_esc ++ (ascii ", " ++
    (quoted std_out_esc ++ (ascii ", " ++ (quoted std_err_esc ++ (ascii ", " ++
    (intText job.returnCode.toInt ++ (ascii ", " ++ (intText job.signal.toInt ++ (ascii ", " ++
    (quoted job.runUser.bytes ++ (ascii ", " ++ (quoted job.runUserPassword.bytes ++
      ascii ")")))))))))))))))))))))))))))))))))))))))

/-- The columns of `jobs`. mirrors src/jobarg_agent/jajobdb.c:38-60 -/
def columns : List Kind :=
  [.integer, .integer, .text, .integer, .text, .text, .text, .text, .integer, .integer, .integer, .integer, .integer,
    .text, .text, .text, .integer, .integer, .text, .text]

/-- The statement on the table; `none` is an error of SQLite, or a statement
of another form. -/
def jaDbExecute (rows : List Row) (sql : Text) : Option (List Row) :=
  (Sql.statement (ascii "replace into jobs values (") columns sql).map (Sql.replaceRow rows)

/-! ## Loading -/

/-- `strtol(s, NULL, 10)` with a 64-bit `long` -/
def strtol (s : Text) : Int :=
  let s := s.dropWhile isSpace
  let mag : Int := Sql.natVal ((if s.head? = some 45 ∨ s.head? = some 43 then s.tail else s).takeWhile Sql.isDigit)
  max (-2 ^ 63) (min (2 ^ 63 - 1) (if s.head? = some 45 then -mag else mag))

/-- `atoi`, and `atol` into a `pid_t` -/
def atoi (s : Text) : Int32 := Int32.ofInt (strtol s)

section
variable (real : Int → Text)

/-- The text of a column in a result; `real` prints a double. -/
def columnText : Value → Option Text
  | .null => none
  | .int i => some (intText i)
  | .real i => some (real i)
  | .text s => some s

def column (row : Row) (i : Nat) : Option Text := row[i]?.bind (columnText real)

def uint64Column (row : Row) (i : Nat) (old : UInt64) : UInt64 :=
  (((column real row i).bind str2uint64).map UInt64.ofNat).getD old

def intColumn (row : Row) (i : Nat) (old : Int32) : Int32 := ((column real row i).map atoi).getD old

def textColumn (row : Row) (i : Nat) {n : Nat} (old : CText n) : CText n :=
  ((column real row i).map (snprintf n)).getD old

/-- mirrors src/jobarg_agent/jajobdb.c:177-229 -/
def jaJobdbLoad (row : Row) : JobRecord :=
  let job := jaJobObjectInit
  { jobid := uint64Column real row 0 job.jobid
    version := intColumn real row 1 job.version
    serverid := textColumn real row 2 job.serverid
    method := intColumn real row 3 job.method
    type := textColumn real row 4 job.type
    argument := textColumn real row 5 job.argument
    script := textColumn real row 6 job.script
    env := textColumn real row 7 job.env
    result := intColumn real row 8 job.result
    status := intColumn real row 9 job.status
    pid := intColumn real row 10 job.pid
    startTime := uint64Column real row 11 job.startTime
    endTime := uint64Column real row 12 job.endTime
    message := textColumn real row 13 job.message
    stdOut := textColumn real row 14 job.stdOut
    stdErr := textColumn real row 15 job.stdErr
    returnCode := intColumn real row 16 job.returnCode
    signal := intColumn real row 17 job.signal
    runUser := textColumn real row 18 job.runUser
    runUserPassword := textColumn real row 19 job.runUserPassword }

/-- `select * from jobs where jobid = …`, and the load of the row found.
mirrors src/jobarg_agent/jajobdb.c:244-271 -/
def jaJobdbLoadJobid (rows : List Row) (jobid : UInt64) : Option JobRecord :=
  (rows.find? (·.head? == some (Value.ofInteger jobid.toNat))).map (jaJobdbLoad real)

/-- The statement of the job is one `replace`; it touches no row but the
one of its jobid; and that row loads as the job, carriage returns apart. -/
def Lossless (job : JobRecord) : Prop :=
  ∀ rows, ∃ after, jaDbExecute rows (jaJobdbReplace job) = some after ∧
    (∀ r : Row, r.head? ≠ some (Value.ofInteger job.jobid.toNat) → (r ∈ after ↔ r ∈ rows)) ∧
    (jaJobdbLoadJobid real after job.jobid).map JobRecord.removeCr = some job.removeCr

end

/-! ## What the statement says -/

theorem jaDbEscapeStringLen_pos (s : Text) : 0 < jaDbEscapeStringLen s := by
  induction s with
  | nil => exact Nat.one_pos
  | cons b s ih =>
    rw [jaDbEscapeStringLen]
    split
    · exact ih
    · split <;> omega

theorem jaDbEscapeString_eq (s : Text) {len : Nat} (h : jaDbEscapeStringLen s ≤ len + 1) :
    jaDbEscapeString s len = Sql.escape (removeCr s) := by
  induction s generalizing len with
  | nil => cases len <;> rfl
  | cons b s ih =>
    have hpos := jaDbEscapeStringLen_pos s
    rw [jaDbEscapeStringLen] at h
    by_cases hcr : b = 13
    · have hr : removeCr (b :: s) = removeCr s := by simp [removeCr, hcr]
      rw [if_pos hcr] at h
      cases len with
      | zero =>
        -- no byte is left: the rest is carriage returns only
        have hrest : jaDbEscapeString s 0 = Sql.escape (removeCr s) := ih h
        rw [hr, ← hrest]
        cases s <;> rfl
      | succ len => rw [jaDbEscapeString, if_pos hcr, ih h, hr]
    · have hr : removeCr (b :: s) = b :: removeCr s := by simp [removeCr, hcr]
      rw [if_neg hcr] at h
      by_cases hq : b = 39
      · rw [if_pos hq] at h
        obtain ⟨len, rfl⟩ : ∃ l, len = l + 1 + 1 := ⟨len - 2, by omega⟩
        subst hq
        rw [jaDbEscapeString, if_neg hcr, if_pos rfl, if_neg (by omega), ih (by omega), hr, Sql.escape_quote]
      · rw [if_neg hq] at h
        obtain ⟨len, rfl⟩ : ∃ l, len = l + 1 := ⟨len - 1, by omega⟩
        rw [jaDbEscapeString, if_neg hcr, if_neg hq, ih (by omega), hr, Sql.escape_cons hq]

/-- The copy is long enough for all of the text. -/
theorem jaDbDynEscapeString_eq (s : Text) : jaDbDynEscapeString s = Sql.escape (removeCr s) :=
  jaDbEscapeString_eq s (by have := jaDbEscapeStringLen_pos s; omega)

/-- The first buffer is as long as the copy and its end. -/
theorem jaDbEscapeStringLen_eq (s : Text) : jaDbEscapeStringLen s = (Sql.escape (removeCr s)).length + 1 := by
  induction s with
  | nil => rfl
  | cons b s ih =>
    rw [jaDbEscapeStringLen, ih]
    by_cases hcr : b = 13
    · simp [removeCr, hcr]
    · have hr : removeCr (b :: s) = b :: removeCr s := by simp [removeCr, hcr]
      rw [if_neg hcr, hr]
      by_cases hq : b = 39
      · subst hq
        rw [if_pos rfl, Sql.escape_quote]
        rfl
      · rw [if_neg hq, Sql.escape_cons hq]
        rfl

/-- However little room there is, the copy fits and is the whole copy of a
first part of the text: by induction on the text, two bytes for a quote. -/
theorem jaDbEscapeString_fits (s : Text) (len : Nat) :
    (jaDbEscapeString s len).length ≤ len ∧ ∃ p, p <+: removeCr s ∧ jaDbEscapeString s len = Sql.escape p := by
  induction s generalizing len with
  | nil => cases len <;> exact ⟨Nat.zero_le _, [], List.nil_prefix, rfl⟩
  | cons b s ih =>
    cases len with
    | zero => exact ⟨Nat.le_refl 0, [], List.nil_prefix, rfl⟩
    | succ len =>
      rw [jaDbEscapeString]
      by_cases hcr : b = 13
      · have hr : removeCr (b :: s) = removeCr s := by simp [removeCr, hcr]
        rw [if_pos hcr, hr]
        exact ih (len + 1)
      · have hr : removeCr (b :: s) = b :: removeCr s := by simp [removeCr, hcr]
        rw [if_neg hcr, hr]
        by_cases hq : b = 39
        · subst hq
          rw [if_pos rfl]
          by_cases hroom : len + 1 < 2
          · -- one byte is left: no half of a pair is written
            rw [if_pos hroom]
            exact ⟨Nat.zero_le _, [], List.nil_prefix, rfl⟩
          · obtain ⟨hlen, p, hp, he⟩ := ih (len - 1)
            rw [if_neg hroom, List.length_cons, List.length_cons]
            exact ⟨by omega, 39 :: p, (List.prefix_cons_inj 39).2 hp, by rw [he, Sql.escape_quote]⟩
        · obtain ⟨hlen, p, hp, he⟩ := ih len
          rw [if_neg hq, List.length_cons]
          exact ⟨by omega, b :: p, (List.prefix_cons_inj b).2 hp, by rw [he, Sql.escape_cons hq]⟩

/-- Each pair of quotes becomes one; a quote that is not of a pair has no
meaning. -/
def collapse : Text → Option Text
  | [] => some []
  | [b] => if b = 39 then none else some [b]
  | b :: c :: s =>
    if b = 39 then
      if c = 39 then (collapse s).map (39 :: ·) else none
    else (collapse (c :: s)).map (b :: ·)

theorem collapse_cons {b : UInt8} (h : b ≠ 39) (s : Text) : collapse (b :: s) = (collapse s).map (b :: ·) := by
  cases s with
  | nil => simp [collapse, h]
  | cons c s => rw [collapse, if_neg h]

theorem collapse_escape (s : Text) : collapse (Sql.escape s) = some s := by
  induction s with
  | nil => rfl
  | cons b s ih =>
    by_cases hq : b = 39
    · subst hq
      rw [Sql.escape_quote, collapse, if_pos rfl, if_pos rfl, ih]
      rfl
    · rw [Sql.escape_cons hq, collapse_cons hq, ih]
      rfl

/-- **Escaping is exact.** The copy is the text without its carriage returns,
each quote doubled, as long as was reserved for it; a copy into `len + 1`
bytes fits and ends behind a pair. -/
theorem escape_exact (s : Text) :
    jaDbEscapeStringLen s - 1 = (jaDbDynEscapeString s).length ∧
      jaDbDynEscapeString s = (removeCr s).flatMap (fun b => if b = 39 then [39, 39] else [b]) ∧
      collapse (jaDbDynEscapeString s) = some (removeCr s) ∧
      ∀ len, (jaDbEscapeString s len).length + 1 ≤ len + 1 ∧
        ∃ p, p <+: removeCr s ∧ jaDbEscapeString s len = Sql.escape p := by
  have hpairs : ∀ t : Text, Sql.escape t = t.flatMap fun b => if b = 39 then [39, 39] else [b] := by
    intro t
    induction t with
    | nil => rfl
    | cons b t ih =>
      by_cases hq : b = 39
      · rw [hq, Sql.escape_quote, ih]
        rfl
      · rw [Sql.escape_cons hq, ih, List.flatMap_cons, if_neg hq]
        rfl
  rw [jaDbDynEscapeString_eq]
  refine ⟨?_, hpairs _, collapse_escape _, ?_⟩
  · rw [jaDbEscapeStringLen_eq, Nat.add_sub_cancel]
  · intro len
    obtain ⟨hlen, hcut⟩ := jaDbEscapeString_fits s len
    exact ⟨Nat.add_le_add_right hlen 1, hcut⟩

theorem spells_quoted (s : Text) : Spells .text (quoted (jaDbDynEscapeString s)) (.text (removeCr s)) := by
  rw [jaDbDynEscapeString_eq]
  exact Sql.spells_text (removeCr s)

theorem intText_natCast (n : Nat) : intText n = Sql.digits n := by
  show ascii (toString (n : Int)) = _
  rw [show toString (n : Int) = n.repr from rfl, ascii, Nat.toList_repr]
  rfl

theorem intText_neg (n : Nat) : intText (-((n + 1 : Nat) : Int)) = 45 :: Sql.digits (n + 1) := by
  show ascii (toString (Int.negSucc n)) = _
  rw [show toString (Int.negSucc n) = "-" ++ (n + 1).repr from rfl, ascii, String.toList_append, List.map_append,
    Nat.toList_repr]
  rfl

theorem spells_intText (i : Int) : Spells .integer (intText i) (.ofInteger i) := by
  cases i with
  | ofNat n =>
    rw [show Int.ofNat n = (n : Int) from rfl, intText_natCast]
    exact Sql.spells_digits n
  | negSucc n =>
    rw [show Int.negSucc n = -((n + 1 : Nat) : Int) from rfl, intText_neg]
    exact Sql.spells_negative (n + 1)

theorem values_comma {k k' : Kind} {ks : List Kind} {t s : Text} {v : Value} (h : Spells k t v) :
    Sql.values (k :: k' :: ks) (t ++ (ascii ", " ++ s)) =
      (Sql.values (k' :: ks) s).map fun vs => (v :: vs.1, vs.2) := by
  rw [show ascii ", " ++ s = 44 :: 32 :: s from rfl,
    Sql.values_cons h (Sql.stops_cons (by decide) (by decide))
      (Sql.skip_token (by decide) (by decide) (by decide)), Sql.values_blank]

theorem values_blank_comma {k k' : Kind} {ks : List Kind} {t s : Text} {v : Value} (h : Spells k t v) :
    Sql.values (k :: k' :: ks) (t ++ (ascii " , " ++ s)) =
      (Sql.values (k' :: ks) s).map fun vs => (v :: vs.1, vs.2) := by
  have hskip : Sql.skip .code (32 :: 44 :: 32 :: s) = 44 :: 32 :: s := by
    rw [Sql.skip_blank (by decide), Sql.skip_token (by decide) (by decide) (by decide)]
  rw [show ascii " , " ++ s = 32 :: 44 :: 32 :: s from rfl,
    Sql.values_cons h (Sql.stops_cons (by decide) (by decide)) hskip, Sql.values_blank]

/-- The columns up to `signal`. -/
def front (job : JobRecord) : Row :=
  [.ofInteger job.jobid.toNat, .ofInteger job.version.toInt, .text (removeCr job.serverid.bytes),
    .ofInteger job.method.toInt, .text (removeCr job.type.bytes), .text (removeCr job.argument.bytes),
    .text (removeCr job.script.bytes), .text (removeCr job.env.bytes), .ofInteger job.result.toInt,
    .ofInteger job.status.toInt, .ofInteger job.pid.toInt, .ofInteger job.startTime.toNat,
    .ofInteger job.endTime.toNat, .text (removeCr job.message.bytes), .text (removeCr job.stdOut.bytes),
    .text (removeCr job.stdErr.bytes), .ofInteger job.returnCode.toInt, .ofInteger job.signal.toInt]

/-- The end of the statement, from `run_user` on. -/
def back (job : JobRecord) : Text :=
  quoted job.runUser.bytes ++ (ascii ", " ++ (quoted job.runUserPassword.bytes ++ ascii ")"))

theorem statement_jaJobdbReplace (job : JobRecord) :
    Sql.statement (ascii "replace into jobs values (") columns (jaJobdbReplace job) =
      (Sql.values [.text, .text] (back job)).bind fun r =>
        if Sql.atEnd r.2 then some (front job ++ r.1) else none := by
  unfold Sql.statement jaJobdbReplace columns
  dsimp only
  rw [if_pos (List.isPrefixOf_iff_prefix.2 (List.prefix_append _ _)), List.drop_left, values_comma (spells_intText _),
    values_comma (spells_intText _), values_blank_comma (spells_quoted _), values_comma (spells_intText _),
    values_comma (spells_quoted _), values_comma (spells_quoted _), values_comma (spells_quoted _),
    values_comma (spells_quoted _), values_comma (spells_intText _), values_comma (spells_intText _),
    values_comma (spells_intText _), values_comma (spells_intText _), values_comma (spells_intText _),
    values_comma (spells_quoted _), values_comma (spells_quoted _), values_comma (spells_quoted _),
    values_comma (spells_intText _), values_comma (spells_intText _)]
  have hback : quoted job.runUser.bytes ++ (ascii ", " ++ (quoted job.runUserPassword.bytes ++ ascii ")")) =
      back job := rfl
  rw [hback]
  cases Sql.values [.text, .text] (back job) <;> rfl

/-- Unquoted, the two strings stand in the row as they are. -/
theorem values_back {job : JobRecord} (hu : 39 ∉ job.runUser.bytes) (hp : 39 ∉ job.runUserPassword.bytes) :
    Sql.values [.text, .text] (back job) =
      some ([.text job.runUser.bytes, .text job.runUserPassword.bytes], []) := by
  have hspells : ∀ t : Text, 39 ∉ t → Spells .text (quoted t) (.text t) := by
    intro t ht
    have h := Sql.spells_text t
    rw [Sql.escape_of_not_mem ht] at h
    exact h
  have hclose : Sql.skip .code [41] = 41 :: [] := Sql.skip_token (by decide) (by decide) (by decide)
  have hlast : Sql.values [.text] (quoted job.runUserPassword.bytes ++ ascii ")") =
      some ([.text job.runUserPassword.bytes], []) :=
    Sql.values_last (hspells _ hp) (Sql.stops_cons (by decide) (by decide)) hclose
  rw [back, values_comma (hspells _ hu), hlast]
  rfl

/-! ## What is loaded -/

theorem natVal_takeWhile_digits (n : Nat) : Sql.natVal ((Sql.digits n).takeWhile Sql.isDigit) = n := by
  have hall : ∀ b ∈ Sql.digits n, Sql.isDigit b = true := fun b => Sql.isDigit_of_mem_digits
  rw [List.takeWhile_eq_self_iff.2 hall, Sql.natVal_digits]

/-- A digit is no blank and no sign. -/
theorem digit_plain {b : UInt8} (hd : Sql.isDigit b = true) : isSpace b = false ∧ b ≠ 45 ∧ b ≠ 43 := by
  obtain ⟨hb, -⟩ := Sql.isDigit_bounds hd
  have hne : ∀ c : UInt8, c.toNat < 48 → b ≠ c := by
    intro c hc he
    subst he
    omega
  have h13 : ¬ b ≤ 13 := by
    rw [UInt8.le_iff_toNat_le]
    show ¬ b.toNat ≤ 13
    omega
  refine ⟨?_, hne _ (by decide), hne _ (by decide)⟩
  simp [isSpace, hne, h13]

theorem digits_head (n : Nat) : ∃ b ds, Sql.digits n = b :: ds ∧ isSpace b = false ∧ b ≠ 45 ∧ b ≠ 43 := by
  obtain ⟨b, ds, hds⟩ := List.exists_cons_of_ne_nil (Sql.digits_ne_nil n)
  have hd : Sql.isDigit b = true := Sql.isDigit_of_mem_digits (n := n) (by simp [hds])
  exact ⟨b, ds, hds, digit_plain hd⟩

/-- Digits are their value, up to the largest `long`. -/
theorem strtol_digits {s : Text} (h : ∀ b ∈ s, Sql.isDigit b = true) :
    strtol s = min (2 ^ 63 - 1) (Sql.natVal s : Int) := by
  have htake : s.takeWhile Sql.isDigit = s := List.takeWhile_eq_self_iff.2 h
  cases s with
  | nil => rfl
  | cons b s =>
    obtain ⟨hspace, hminus, hplus⟩ := digit_plain (h b List.mem_cons_self)
    have hdrop : (b :: s).dropWhile isSpace = b :: s := List.dropWhile_cons_of_neg (by simp [hspace])
    simp only [strtol, hdrop, List.head?_cons, Option.some.injEq, hminus, hplus, or_self, if_false, htake]
    omega

/-- Digits whose value is an `int`. -/
theorem atoi_digits {s : Text} (h : ∀ b ∈ s, Sql.isDigit b = true) (hv : Sql.natVal s < 2 ^ 31) :
    (atoi s).toInt = Sql.natVal s := by
  have hmin : min (2 ^ 63 - 1) (Sql.natVal s : Int) = Sql.natVal s := by omega
  rw [atoi, strtol_digits h, hmin, Int32.toInt_ofInt_of_le (by omega) (by omega)]

theorem strtol_intText {i : Int} (hlo : -2 ^ 63 ≤ i) (hhi : i < 2 ^ 63) : strtol (intText i) = i := by
  cases i with
  | ofNat n =>
    obtain ⟨b, ds, hds, hspace, hminus, hplus⟩ := digits_head n
    have hdrop : (Sql.digits n).dropWhile isSpace = Sql.digits n := by
      rw [hds, List.dropWhile_cons_of_neg (by simp [hspace])]
    have hhead : (Sql.digits n).head? = some b := by rw [hds]; rfl
    rw [show Int.ofNat n = (n : Int) from rfl] at *
    simp only [strtol, intText_natCast, hdrop, hhead, Option.some.injEq, hminus, hplus, or_self, if_false,
      natVal_takeWhile_digits]
    omega
  | negSucc n =>
    rw [show Int.negSucc n = -((n + 1 : Nat) : Int) from rfl] at *
    have hdrop : (45 :: Sql.digits (n + 1)).dropWhile isSpace = 45 :: Sql.digits (n + 1) :=
      List.dropWhile_cons_of_neg (by decide)
    simp only [strtol, intText_neg, hdrop, List.head?_cons, true_or, if_true, List.tail_cons,
      natVal_takeWhile_digits]
    omega

theorem atoi_intText (x : Int32) : atoi (intText x.toInt) = x := by
  have hlo : -2 ^ 31 ≤ x.toInt := x.le_toInt
  have hhi : x.toInt < 2 ^ 31 := x.toInt_lt
  rw [atoi, strtol_intText (by omega) (by omega), Int32.ofInt_toInt]

theorem isUint64_step {ds : Text} (hd : ∀ b ∈ ds, Sql.isDigit b = true) (v : Nat)
    (h : ds.foldl (fun v b => 10 * v + (b.toNat - 48)) v < 2 ^ 64) :
    ds.foldl (fun v d => v.bind fun n =>
      if isDigit d then
        let m := 10 * n + (d.toNat - 48)
        if 2 ^ 64 ≤ m then none else some m
      else none) (some v) = some (ds.foldl (fun v b => 10 * v + (b.toNat - 48)) v) := by
  induction ds generalizing v with
  | nil => rfl
  | cons b ds ih =>
    have hb : isDigit b = true := hd b (by simp)
    have hmono : ∀ (l : Text) (m : Nat), m ≤ l.foldl (fun v b => 10 * v + (b.toNat - 48)) m := by
      intro l
      induction l with
      | nil => exact fun m => le_refl m
      | cons c l ihl =>
        intro m
        exact le_trans (by omega) (ihl (10 * m + (c.toNat - 48)))
    rw [List.foldl_cons] at h
    have hlt : ¬ 2 ^ 64 ≤ 10 * v + (b.toNat - 48) := by
      have := hmono ds (10 * v + (b.toNat - 48))
      omega
    rw [List.foldl_cons, List.foldl_cons, Option.bind_some, if_pos hb]
    simp only [hlt, if_false]
    exact ih (fun c hc => hd c (by simp [hc])) _ h

/-- No suffix: the text is the number. -/
theorem str2uint64_plain {s : Text} {b : UInt8} (hlast : s.getLast? = some b) (hk : b ≠ 75) (hm : b ≠ 77)
    (hg : b ≠ 71) (ht : b ≠ 84) : str2uint64 s = (isUint64 s).map (· % 2 ^ 64) := by
  unfold str2uint64
  rw [hlast]
  dsimp only
  split
  · rename_i he
    exact absurd (Option.some.inj he) hk
  · rename_i he
    exact absurd (Option.some.inj he) hm
  · rename_i he
    exact absurd (Option.some.inj he) hg
  · rename_i he
    exact absurd (Option.some.inj he) ht
  · simp

theorem str2uint64_intText (n : UInt64) : str2uint64 (intText n.toNat) = some n.toNat := by
  have hlt : n.toNat < 2 ^ 64 := n.toNat_lt
  have hall : ∀ b ∈ Sql.digits n.toNat, Sql.isDigit b = true := fun b => Sql.isDigit_of_mem_digits
  have hval : isUint64 (Sql.digits n.toNat) = some n.toNat := by
    have hfold : (Sql.digits n.toNat).foldl (fun v b => 10 * v + (b.toNat - 48)) 0 = n.toNat := Sql.natVal_digits _
    rw [isUint64, if_neg (Sql.digits_ne_nil _), isUint64_step hall 0 (by rw [hfold]; exact hlt), hfold]
  have hlast := List.getLast?_eq_some_getLast (Sql.digits_ne_nil n.toNat)
  have hdigit : ∀ c : UInt8, Sql.isDigit c = false → (Sql.digits n.toNat).getLast (Sql.digits_ne_nil _) ≠ c := by
    intro c hc he
    rw [← he, hall _ (List.getLast_mem _)] at hc
    cases hc
  rw [intText_natCast, str2uint64_plain hlast (hdigit _ (by decide)) (hdigit _ (by decide)) (hdigit _ (by decide))
    (hdigit _ (by decide)), hval, Option.map_some, Nat.mod_eq_of_lt hlt]

/-- A text with a decimal point is no integer. -/
theorem isUint64_point {s : Text} (h : 46 ∈ s) : isUint64 s = none := by
  have hnone : ∀ t : Text, t.foldl (fun v d => v.bind fun n =>
      if isDigit d then
        let m := 10 * n + (d.toNat - 48)
        if 2 ^ 64 ≤ m then none else some m
      else none) (none : Option Nat) = none := by
    intro t
    induction t with
    | nil => rfl
    | cons b t ih => exact ih
  obtain ⟨t, t', rfl⟩ := List.append_of_mem h
  rw [isUint64, if_neg (by simp), List.foldl_append, List.foldl_cons]
  have hpoint : isDigit 46 = false := by decide
  cases t.foldl _ (some 0) with
  | none => exact hnone t'
  | some n =>
    rw [Option.bind_some, hpoint, if_neg (by decide)]
    exact hnone t'

theorem str2uint64_point {s : Text} (h : 46 ∈ s) : str2uint64 s = none := by
  obtain ⟨init, b, rfl⟩ := List.eq_nil_or_concat' s |>.resolve_left (List.ne_nil_of_mem h)
  have hlast : (init ++ [b]).getLast? = some b := by simp
  by_cases hb : b = 46
  · subst hb
    rw [str2uint64_plain hlast (by decide) (by decide) (by decide) (by decide), isUint64_point h]
    rfl
  · have hinit : 46 ∈ init := by simpa [Ne.symm hb] using h
    have hnone : ∀ (c : Prop) [Decidable c], isUint64 (if c then init ++ [b] else init) = none := by
      intro c _
      split
      · exact isUint64_point h
      · exact isUint64_point hinit
    unfold str2uint64
    dsimp only
    rw [List.dropLast_concat, hnone]
    rfl

theorem snprintf_bytes {n : Nat} (t : CText n) : snprintf n t.bytes = t := by
  apply CText.ext
  have hall : t.bytes.takeWhile (· != 0) = t.bytes := by
    refine List.takeWhile_eq_self_iff.2 fun b hb => ?_
    have hne : b ≠ 0 := fun he => t.noNul (he ▸ hb)
    simpa using hne
  show (t.bytes.takeWhile (· != 0)).take n = t.bytes
  rw [hall, List.take_of_length_le t.fits]

theorem snprintf_removeCr {n : Nat} (t : CText n) : snprintf n (removeCr t.bytes) = t.removeCr :=
  snprintf_bytes t.removeCr

@[simp] theorem CText.removeCr_removeCr {n : Nat} (t : CText n) : t.removeCr.removeCr = t.removeCr :=
  CText.ext (by simp [CText.removeCr, JobDb.removeCr])

theorem ofInteger_int32 (x : Int32) : Value.ofInteger x.toInt = .int x.toInt := by
  have hlo : -2 ^ 31 ≤ x.toInt := x.le_toInt
  have hhi : x.toInt < 2 ^ 31 := x.toInt_lt
  exact if_pos ⟨by omega, by omega⟩

/-- What a 64-bit column gives back. -/
def kept (n : UInt64) : UInt64 := if n.toNat < 2 ^ 63 then n else 0

theorem kept_eq_iff (n : UInt64) : kept n = n ↔ n.toNat < 2 ^ 63 := by
  unfold kept
  split
  · rename_i h
    exact ⟨fun _ => h, fun _ => rfl⟩
  · rename_i h
    refine ⟨fun he => ?_, fun hlt => absurd hlt h⟩
    rw [← he] at h
    exact absurd (by decide) h

section
variable {real : Int → Text} (hreal : ∀ i, 46 ∈ real i)

include hreal in
theorem uint64Column_row {row : Row} {i : Nat} {n : UInt64} (h : row[i]? = some (.ofInteger n.toNat)) :
    uint64Column real row i 0 = kept n := by
  rw [uint64Column, column, h, Option.bind_some]
  unfold kept
  by_cases hlt : n.toNat < 2 ^ 63
  · have hv : Value.ofInteger n.toNat = .int n.toNat := if_pos ⟨by omega, by omega⟩
    rw [if_pos hlt, hv, columnText, Option.bind_some, str2uint64_intText, Option.map_some, Option.getD_some,
      UInt64.ofNat_toNat]
  · have hv : ∃ i, Value.ofInteger n.toNat = .real i := ⟨_, if_neg (by omega)⟩
    obtain ⟨i, hi⟩ := hv
    rw [if_neg hlt, hi, columnText, Option.bind_some, str2uint64_point (hreal i)]
    rfl

theorem intColumn_row {row : Row} {i : Nat} {x : Int32} (h : row[i]? = some (.ofInteger x.toInt)) (old : Int32) :
    intColumn real row i old = x := by
  rw [intColumn, column, h, Option.bind_some, ofInteger_int32, columnText, Option.map_some, Option.getD_some,
    atoi_intText]

theorem textColumn_eq {row : Row} {i n : Nat} {v : Value} (h : row[i]? = some v) (old : CText n) :
    textColumn real row i old = ((columnText real v).map (snprintf n)).getD old := by
  rw [textColumn, column, h, Option.bind_some]

theorem textColumn_row {row : Row} {i n : Nat} {t : CText n} (h : row[i]? = some (.text (removeCr t.bytes)))
    (old : CText n) : (textColumn real row i old).removeCr = t.removeCr := by
  rw [textColumn_eq h, columnText, Option.map_some, Option.getD_some, snprintf_removeCr, CText.removeCr_removeCr]

include hreal in
/-- The row of a job, whatever its last two columns hold. -/
theorem jaJobdbLoad_row (job : JobRecord) (u : Text) (w : Value) :
    (jaJobdbLoad real (front job ++ [.text u, w])).removeCr =
      { job.removeCr with
        jobid := kept job.jobid
        startTime := kept job.startTime
        endTime := kept job.endTime
        runUser := (snprintf 1023 u).removeCr
        runUserPassword := (((columnText real w).map (snprintf 1023)).getD (.empty 1023)).removeCr } := by
  have hjobid : (front job ++ [.text u, w])[0]? = some (.ofInteger job.jobid.toNat) := rfl
  have hstart : (front job ++ [.text u, w])[11]? = some (.ofInteger job.startTime.toNat) := rfl
  have hend : (front job ++ [.text u, w])[12]? = some (.ofInteger job.endTime.toNat) := rfl
  have huser : (front job ++ [.text u, w])[18]? = some (.text u) := rfl
  have hpassword : (front job ++ [.text u, w])[19]? = some w := rfl
  dsimp only [JobRecord.removeCr, jaJobdbLoad, jaJobObjectInit]
  rw [uint64Column_row hreal hjobid, uint64Column_row hreal hstart, uint64Column_row hreal hend,
    textColumn_eq huser, textColumn_eq hpassword]
  exact JobRecord.ext rfl (intColumn_row rfl 0) (textColumn_row rfl (.empty 17))
    (intColumn_row rfl (-1)) (textColumn_row rfl (.empty 1023)) (textColumn_row rfl (.empty 4095))
    (textColumn_row rfl (.empty 4095)) (textColumn_row rfl (.empty 4095)) (intColumn_row rfl 0)
    (intColumn_row rfl (-1)) (intColumn_row rfl 0) rfl rfl
    (textColumn_row rfl (.empty 1023)) (textColumn_row rfl (.empty 64000)) (textColumn_row rfl (.empty 64000))
    (intColumn_row rfl (-1)) (intColumn_row rfl 0) rfl rfl

/-! ## Exactly which jobs survive -/

/-- The strings printed unescaped have no quote, and the 64-bit columns fit
SQLite's integers. -/
structure Storable (job : JobRecord) : Prop where
  runUser : 39 ∉ job.runUser.bytes
  runUserPassword : 39 ∉ job.runUserPassword.bytes
  jobid : job.jobid.toNat < 2 ^ 63
  startTime : job.startTime.toNat < 2 ^ 63
  endTime : job.endTime.toNat < 2 ^ 63

theorem find_replaceRow (rows : List Row) {row : Row} {key : Value} (h : row.head? = some key) :
    (Sql.replaceRow rows row).find? (·.head? == some key) = some row := by
  have hnone : (rows.filter (·.head? != row.head?)).find? (·.head? == some key) = none := by
    refine List.find?_eq_none.2 fun r hr => ?_
    have hne := (List.mem_filter.1 hr).2
    rw [h] at hne
    simpa using hne
  rw [Sql.replaceRow, List.find?_append, hnone, Option.none_or, List.find?_cons_of_pos (by simp [h])]

theorem mem_replaceRow {rows : List Row} {row r : Row} (h : r.head? ≠ row.head?) :
    r ∈ Sql.replaceRow rows row ↔ r ∈ rows := by
  rw [Sql.replaceRow, List.mem_append, List.mem_filter, List.mem_singleton]
  constructor
  · intro hr
    rcases hr with hr | rfl
    · exact hr.1
    · exact absurd rfl h
  · exact fun hr => .inl ⟨hr, by simpa using h⟩

theorem texts_of_kinds {row : Row} (h : row.map Sql.Value.kind = [.text, .text]) :
    ∃ u w, row = [.text u, .text w] := by
  have htext : ∀ v : Value, v.kind = .text → ∃ t, v = .text t := by
    intro v hv
    cases v with
    | text t => exact ⟨t, rfl⟩
    | null => cases hv
    | int i => cases hv
    | real i => cases hv
  obtain ⟨v, row', rfl, hv, hrow'⟩ := List.map_eq_cons_iff.1 h
  obtain ⟨v', row'', rfl, hv', hrow''⟩ := List.map_eq_cons_iff.1 hrow'
  obtain ⟨u, rfl⟩ := htext v hv
  obtain ⟨w, rfl⟩ := htext v' hv'
  obtain rfl := List.map_eq_nil_iff.1 hrow''
  exact ⟨u, w, rfl⟩

/-- The two strings of a statement that SQLite accepts. Their quotes were in
the text of the two fields and its four delimiters. -/
theorem lossless_load {job : JobRecord} (h : Lossless real job) :
    ∃ u w, 2 * u.count 39 + 2 * w.count 39 ≤ job.runUser.bytes.count 39 + job.runUserPassword.bytes.count 39 ∧
      (jaJobdbLoad real (front job ++ [.text u, .text w])).removeCr = job.removeCr := by
  obtain ⟨after, hexec, -, hload⟩ := h []
  obtain ⟨row, hrow, rfl⟩ := Option.map_eq_some_iff.1 hexec
  rw [statement_jaJobdbReplace] at hrow
  obtain ⟨⟨row', rest⟩, hvals, hend⟩ := Option.bind_eq_some_iff.1 hrow
  obtain ⟨hkinds, hquotes⟩ := Sql.values_spec hvals
  have hcount : (back job).count 39 =
      job.runUser.bytes.count 39 + job.runUserPassword.bytes.count 39 + 4 := by
    have hcomma : (ascii ", ").count 39 = 0 := by decide
    have hclose : (ascii ")").count 39 = 0 := by decide
    simp only [back, quoted, List.count_append, List.count_cons_self, List.count_nil, hcomma, hclose]
    omega
  dsimp only at hend hkinds hquotes
  split at hend
  · obtain rfl := Option.some.inj hend
    rw [jaJobdbLoadJobid, find_replaceRow [] (show _ = some (Value.ofInteger job.jobid.toNat) from rfl)] at hload
    obtain ⟨u, w, rfl⟩ := texts_of_kinds hkinds
    refine ⟨u, w, ?_, by simpa using hload⟩
    simp only [List.map_cons, List.map_nil, List.sum_cons, List.sum_nil, Sql.Value.quotes] at hquotes
    omega
  · cases hend

/-- What a field keeps of a text has no more quotes than the text. -/
theorem count_snprintf_le {n : Nat} (u : Text) : (snprintf n u).removeCr.bytes.count 39 ≤ u.count 39 :=
  (List.filter_sublist.trans ((List.take_sublist n _).trans (List.takeWhile_sublist _))).count_le 39

theorem count_removeCr {n : Nat} (t : CText n) : t.removeCr.bytes.count 39 = t.bytes.count 39 :=
  List.count_filter (by decide)

include hreal in
theorem Lossless.storable {job : JobRecord} (h : Lossless real job) : Storable job := by
  obtain ⟨u, w, hquotes, hload⟩ := lossless_load h
  rw [jaJobdbLoad_row hreal] at hload
  have huser : (snprintf 1023 u).removeCr = job.runUser.removeCr := congrArg JobRecord.runUser hload
  have hpassword : (snprintf 1023 w).removeCr = job.runUserPassword.removeCr :=
    congrArg JobRecord.runUserPassword hload
  have hu : job.runUser.bytes.count 39 ≤ u.count 39 := by
    rw [← count_removeCr, ← huser]
    exact count_snprintf_le u
  have hw : job.runUserPassword.bytes.count 39 ≤ w.count 39 := by
    rw [← count_removeCr, ← hpassword]
    exact count_snprintf_le w
  exact
    { runUser := List.count_eq_zero.1 (by omega)
      runUserPassword := List.count_eq_zero.1 (by omega)
      jobid := (kept_eq_iff _).1 (congrArg JobRecord.jobid hload)
      startTime := (kept_eq_iff _).1 (congrArg JobRecord.startTime hload)
      endTime := (kept_eq_iff _).1 (congrArg JobRecord.endTime hload) }

include hreal in
theorem Storable.lossless {job : JobRecord} (h : Storable job) : Lossless real job := by
  intro rows
  have hstmt : Sql.statement (ascii "replace into jobs values (") columns (jaJobdbReplace job) =
      some (front job ++ [.text job.runUser.bytes, .text job.runUserPassword.bytes]) := by
    rw [statement_jaJobdbReplace, values_back h.runUser h.runUserPassword]
    rfl
  refine ⟨_, congrArg (Option.map (Sql.replaceRow rows)) hstmt, fun r hr => mem_replaceRow hr, ?_⟩
  rw [jaJobdbLoadJobid, find_replaceRow rows (show _ = some (Value.ofInteger job.jobid.toNat) from rfl),
    Option.map_some, Option.map_some, jaJobdbLoad_row hreal, (kept_eq_iff _).2 h.jobid,
    (kept_eq_iff _).2 h.startTime, (kept_eq_iff _).2 h.endTime, columnText, Option.map_some, Option.getD_some,
    snprintf_bytes, snprintf_bytes]
  rfl

end

/-- A job is stored and loaded back unchanged, carriage returns apart, exactly
when the two strings printed unescaped have no quote and the 64-bit columns
are below 2^63. -/
theorem lossless_iff {real : Int → Text} (hreal : ∀ i, 46 ∈ real i) (job : JobRecord) :
    Lossless real job ↔ 39 ∉ job.runUser.bytes ∧ 39 ∉ job.runUserPassword.bytes ∧ job.jobid.toNat < 2 ^ 63 ∧
      job.startTime.toNat < 2 ^ 63 ∧ job.endTime.toNat < 2 ^ 63 := by
  constructor
  · intro h
    obtain ⟨h1, h2, h3, h4, h5⟩ := h.storable hreal
    exact ⟨h1, h2, h3, h4, h5⟩
  · intro h
    exact Storable.lossless hreal ⟨h.1, h.2.1, h.2.2.1, h.2.2.2.1, h.2.2.2.2⟩

/-- A run of the agent for a user whose name has a quote. -/
def quotedUser : JobRecord :=
  { jaJobObjectInit with
    jobid := 1
    runUser := ⟨ascii "o'brien", by decide, by decide⟩ }

/-- `%!.15g`, as far as the law needs it. -/
def realText (i : Int) : Text := intText i ++ ascii ".0"

theorem point_mem_realText (i : Int) : 46 ∈ realText i := List.mem_append_right _ (by decide)

theorem lossless_iff_quotedUser : Lossless realText quotedUser ↔ 39 ∉ quotedUser.runUser.bytes ∧
    39 ∉ quotedUser.runUserPassword.bytes ∧ quotedUser.jobid.toNat < 2 ^ 63 ∧
      quotedUser.startTime.toNat < 2 ^ 63 ∧ quotedUser.endTime.toNat < 2 ^ 63 :=
  lossless_iff point_mem_realText quotedUser

/-- SQLite refuses the statement. -/
theorem quotedUser_refused : jaDbExecute [] (jaJobdbReplace quotedUser) = none ∧ ¬ Lossless realText quotedUser := by
  have hnone : Sql.statement (ascii "replace into jobs values (") columns (jaJobdbReplace quotedUser) = none := by
    decide +kernel
  have hexec : ∀ rows, jaDbExecute rows (jaJobdbReplace quotedUser) = none := by
    intro rows
    rw [jaDbExecute, hnone]
    rfl
  refine ⟨hexec [], fun h => ?_⟩
  obtain ⟨after, hafter, -⟩ := h []
  rw [hexec] at hafter
  cases hafter

end JobArranger.Agent.JobDb
