import JobArranger.L6Agent.JobDb

/-!
# Reading the processes (`jalibs/jakill.c`)

`ja_kill` and `ja_kill_ppid` go through `/proc` and take the parent of a
process from its `stat` file with `fscanf(fp, "%*s %*s %*s %d", &ppid)`. The
file is `pid (comm) state ppid …`, and the name of the program may hold
blanks: the number is then looked for in the name or in the state, and where
there is none, `ppid` keeps what was read before.

* `readPpid_plain`, `readPpid_blank`: what is read from one file.
* `ownParents_iff`: exactly when every process is recorded with its own
  parent.
-/
namespace JobArranger.Agent.ProcStat

open Sql (digits natVal)
open JobDb (atoi strtol)

/-! ## The files -/

/-- `/proc/<pid>/stat`, as the kernel writes it. -/
structure StatFile where
  pid : Nat
  comm : Text
  state : UInt8
  ppid : Nat
  rest : Text
  commFits : comm.length ≤ 15
  commNoNul : 0 ∉ comm
  stateLetter : 65 ≤ state
  ppidFits : ppid < 2 ^ 31
  restBlank : rest.head? = some 32

def StatFile.text (f : StatFile) : Text :=
  digits f.pid ++ (ascii " (" ++ (f.comm ++ (ascii ") " ++ (f.state :: 32 :: (digits f.ppid ++ f.rest)))))

/-- An entry of `/proc`, and the file behind its number if it can be opened. -/
structure ProcEntry where
  name : Text
  stat : Option StatFile

/-- `job_pid_t` -/
structure Entry where
  pid : Int32
  ppid : Int32
  deriving DecidableEq, Repr

/-! ## The scan -/

/-- A conversion: the end of the file, no match, or a value. -/
inductive Conversion where
  | eof
  | mismatch
  | value (v : Int32)
  deriving DecidableEq

/-- `%*s`: what stands behind the next word. -/
def skipWord (t : Text) : Option Text :=
  let t := t.dropWhile isSpace
  if t = [] then none else some (t.dropWhile fun b => !isSpace b)

/-- A number without its sign. -/
def unsigned : Text → Text
  | [] => []
  | c :: t => if c = 45 ∨ c = 43 then t else c :: t

/-- `%d` -/
def scanInt (t : Text) : Conversion :=
  let t := t.dropWhile isSpace
  if t = [] then .eof
  else if (unsigned t).takeWhile Sql.isDigit = [] then .mismatch
  else .value (atoi t)

/-- `%*s %*s %*s %d` -/
def fscanf (t : Text) : Conversion :=
  match ((skipWord t).bind skipWord).bind skipWord with
  | none => .eof
  | some t => scanInt t

/-- The variable `ppid` after `fscanf`. -/
def readPpid (ppid : Int32) (t : Text) : Int32 :=
  match fscanf t with
  | .eof => 0
  | .mismatch => ppid
  | .value v => v

/-- The table of `ja_kill`; `ppid` is what the variable holds.
mirrors src/jalibs/jakill.c:272-302 -/
def jaKillTable (jobPid : Int32) : Int32 → List ProcEntry → List Entry
  | _, [] => []
  | ppid, de :: procdir =>
    let pid := atoi de.name
    if pid = 0 then jaKillTable jobPid ppid procdir
    else match de.stat with
      | none => jaKillTable jobPid ppid procdir
      | some fp =>
        let ppid := readPpid ppid fp.text
        if ppid ≤ 1 ∨ pid = jobPid then jaKillTable jobPid ppid procdir
        else ⟨pid, ppid⟩ :: jaKillTable jobPid ppid procdir

/-- The process `ja_kill_ppid` kills, if it meets one.
mirrors src/jalibs/jakill.c:422-449 -/
def jaKillPpid (jobPid : Int32) : Int32 → List ProcEntry → Option Int32
  | _, [] => none
  | ppid, de :: procdir =>
    let pid := atoi de.name
    if pid = 0 then jaKillPpid jobPid ppid procdir
    else match de.stat with
      | none => jaKillPpid jobPid ppid procdir
      | some fp =>
        let ppid := readPpid ppid fp.text
        if ppid = jobPid then some pid else jaKillPpid jobPid ppid procdir

/-! ## What should be read -/

/-- Each process whose file is read, with the parent both loops use for it. -/
def recorded : Int32 → List ProcEntry → List Entry
  | _, [] => []
  | ppid, de :: procdir =>
    if atoi de.name = 0 then recorded ppid procdir
    else match de.stat with
      | none => recorded ppid procdir
      | some fp => ⟨atoi de.name, readPpid ppid fp.text⟩ :: recorded (readPpid ppid fp.text) procdir

/-- Each process whose file is read, with the parent in that file. -/
def ownParents : List ProcEntry → List Entry
  | [] => []
  | de :: procdir =>
    if atoi de.name = 0 then ownParents procdir
    else match de.stat with
      | none => ownParents procdir
      | some fp => ⟨atoi de.name, Int32.ofNat fp.ppid⟩ :: ownParents procdir

/-- The entries `ja_kill` keeps. -/
def kept (jobPid : Int32) (e : Entry) : Bool := !(e.ppid ≤ 1 || e.pid = jobPid)

/-- Every process goes by the parent in its own file, in the table of
`ja_kill` and where `ja_kill_ppid` looks for a child. -/
structure OwnParents (ppid : Int32) (procdir : List ProcEntry) : Prop where
  recorded : recorded ppid procdir = ownParents procdir
  table : ∀ jobPid, jaKillTable jobPid ppid procdir = (ownParents procdir).filter (kept jobPid)
  killed : ∀ jobPid, jaKillPpid jobPid ppid procdir =
    ((ownParents procdir).find? fun e => e.ppid == jobPid).map Entry.pid

theorem jaKillTable_eq (jobPid ppid : Int32) (procdir : List ProcEntry) :
    jaKillTable jobPid ppid procdir = (recorded ppid procdir).filter (kept jobPid) := by
  induction procdir generalizing ppid with
  | nil => rfl
  | cons de procdir ih =>
    simp only [jaKillTable, recorded]
    by_cases hpid : atoi de.name = 0
    · rw [if_pos hpid, if_pos hpid, ih]
    · rw [if_neg hpid, if_neg hpid]
      cases de.stat with
      | none => exact ih ppid
      | some fp =>
        by_cases hskip : readPpid ppid fp.text ≤ 1 ∨ atoi de.name = jobPid
        · simp only [if_pos hskip, ih]
          rw [List.filter_cons_of_neg (by simpa [kept, imp_iff_not_or] using hskip)]
        · simp only [if_neg hskip, ih]
          rw [List.filter_cons_of_pos (by simpa [kept, not_or] using hskip)]

theorem jaKillPpid_eq (jobPid ppid : Int32) (procdir : List ProcEntry) :
    jaKillPpid jobPid ppid procdir = ((recorded ppid procdir).find? fun e => e.ppid == jobPid).map Entry.pid := by
  induction procdir generalizing ppid with
  | nil => rfl
  | cons de procdir ih =>
    simp only [jaKillPpid, recorded]
    by_cases hpid : atoi de.name = 0
    · rw [if_pos hpid, if_pos hpid, ih]
    · rw [if_neg hpid, if_neg hpid]
      cases de.stat with
      | none => exact ih ppid
      | some fp =>
        by_cases hhit : readPpid ppid fp.text = jobPid
        · simp [hhit]
        · simp [hhit, ih]

/-! ## One file -/

/-- The number the fourth word is taken for when the name holds blanks: the
third part of the name, if it begins with one. -/
def misread (comm : Text) : Option Int32 :=
  let second := (comm.dropWhile fun b => !isSpace b).dropWhile isSpace
  match scanInt (second.dropWhile fun b => !isSpace b) with
  | .value v => some v
  | _ => none

theorem dropWhile_stop {p : UInt8 → Bool} {x : UInt8} (hx : p x = false) (s t : Text) :
    (s ++ x :: t).dropWhile p = s.dropWhile p ++ x :: t := by
  rw [List.dropWhile_append]
  split
  · rename_i he
    rw [List.isEmpty_iff.1 he, List.dropWhile_cons_of_neg (by simp [hx]), List.nil_append]
  · rfl

theorem takeWhile_stop {p : UInt8 → Bool} {x : UInt8} (hx : p x = false) (s t : Text) :
    (s ++ x :: t).takeWhile p = s.takeWhile p := by
  rw [List.takeWhile_append]
  split
  · rename_i he
    rw [List.takeWhile_cons_of_neg (by simp [hx]), List.append_nil]
    exact ((List.takeWhile_prefix p).eq_of_length he).symm
  · rfl

/-- A number ends before a closing parenthesis. -/
theorem strtol_paren (s t : Text) : strtol (s ++ 41 :: t) = strtol s := by
  have hspace : isSpace 41 = false := by decide
  have hdigit : Sql.isDigit 41 = false := by decide
  simp only [strtol, dropWhile_stop hspace]
  cases s.dropWhile isSpace with
  | nil => simp [hdigit]
  | cons c s =>
    by_cases hminus : c = 45
    · simp [hminus, takeWhile_stop hdigit]
    · by_cases hplus : c = 43 <;> simp [hminus, hplus, List.takeWhile_cons, takeWhile_stop hdigit]

theorem unsigned_paren (s t : Text) : unsigned (s ++ 41 :: t) = unsigned s ++ 41 :: t := by
  cases s with
  | nil =>
    rw [List.nil_append, unsigned, unsigned, if_neg (by decide)]
    rfl
  | cons c s =>
    rw [List.cons_append, unsigned, unsigned]
    split <;> rfl

theorem scanInt_paren (s t : Text) :
    scanInt (s ++ 41 :: t) = match scanInt s with
      | .value v => .value v
      | _ => .mismatch := by
  have hspace : isSpace 41 = false := by decide
  have hdigit : Sql.isDigit 41 = false := by decide
  simp only [scanInt, atoi, dropWhile_stop hspace, strtol_paren, unsigned_paren, takeWhile_stop hdigit]
  cases s.dropWhile isSpace with
  | nil => rfl
  | cons c s =>
    simp only [List.cons_append, reduceCtorEq, if_false]
    split <;> rfl

/-- A word before a blank. -/
theorem skipWord_word {w u : Text} {b : UInt8} (hne : w ≠ []) (hw : ∀ c ∈ w, isSpace c = false)
    (hb : isSpace b = true) : skipWord (w ++ b :: u) = some (b :: u) := by
  obtain ⟨c, w, rfl⟩ := List.exists_cons_of_ne_nil hne
  have hskip : ((c :: w) ++ b :: u).dropWhile isSpace = (c :: w) ++ b :: u :=
    List.dropWhile_cons_of_neg (by simp [hw c List.mem_cons_self])
  have hword : ((c :: w) ++ b :: u).dropWhile (fun d => !isSpace d) = b :: u := by
    rw [dropWhile_stop (by simp [hb]), List.dropWhile_eq_nil_iff.2 (by simpa using hw), List.nil_append]
  simp only [skipWord, hskip, hword]
  exact if_neg (by simp)

theorem skipWord_blank {b : UInt8} (hb : isSpace b = true) (t : Text) : skipWord (b :: t) = skipWord t := by
  simp only [skipWord, List.dropWhile_cons_of_pos hb]

namespace StatFile

variable (f : StatFile)

/-- What stands behind the name. -/
def tail : Text := 32 :: f.state :: 32 :: (digits f.ppid ++ f.rest)

theorem text_eq : f.text = digits f.pid ++ 32 :: (40 :: (f.comm ++ 41 :: f.tail)) := rfl

theorem state_plain :
    isSpace f.state = false ∧ Sql.isDigit f.state = false ∧ f.state ≠ 45 ∧ f.state ≠ 43 := by
  have h : 65 ≤ f.state.toNat := UInt8.le_iff_toNat_le.1 f.stateLetter
  have hne : ∀ c : UInt8, c.toNat < 65 → f.state ≠ c := by
    intro c hc he
    rw [he] at h
    omega
  have h13 : ¬ f.state ≤ 13 := by
    rw [UInt8.le_iff_toNat_le]
    show ¬ f.state.toNat ≤ 13
    omega
  have h57 : ¬ f.state ≤ 57 := by
    rw [UInt8.le_iff_toNat_le]
    show ¬ f.state.toNat ≤ 57
    omega
  refine ⟨?_, ?_, hne _ (by decide), hne _ (by decide)⟩
  · simp [isSpace, hne, h13]
  · simp [Sql.isDigit, h57]

/-- The state is no number. -/
theorem scanInt_tail : scanInt f.tail = .mismatch := by
  obtain ⟨hspace, hdigit, hminus, hplus⟩ := f.state_plain
  have hblank : isSpace 32 = true := by decide
  simp [scanInt, tail, hblank, hspace, unsigned, hminus, hplus, hdigit]

/-- The parent is one. -/
theorem scanInt_ppid : scanInt (32 :: (digits f.ppid ++ f.rest)) = .value (Int32.ofNat f.ppid) := by
  obtain ⟨b, ds, hds, hspace, hminus, hplus⟩ := JobDb.digits_head f.ppid
  obtain ⟨rest, hrest⟩ : ∃ rest, f.rest = 32 :: rest := by
    have := f.restBlank
    cases hr : f.rest with
    | nil => rw [hr] at this; exact absurd this (by simp)
    | cons c rest => rw [hr] at this; exact ⟨rest, by rw [Option.some.inj this]⟩
  have hall : ∀ c ∈ digits f.ppid, Sql.isDigit c = true := fun c => Sql.isDigit_of_mem_digits
  have htake : (digits f.ppid ++ f.rest).takeWhile Sql.isDigit = digits f.ppid := by
    rw [hrest, takeWhile_stop (by decide), List.takeWhile_eq_self_iff.2 hall]
  have hblank : isSpace 32 = true := by decide
  have hskip : (32 :: (digits f.ppid ++ f.rest)).dropWhile isSpace = digits f.ppid ++ f.rest := by
    rw [List.dropWhile_cons_of_pos hblank, hds, List.cons_append, List.dropWhile_cons_of_neg (by simp [hspace])]
  have hskip' : (digits f.ppid ++ f.rest).dropWhile isSpace = digits f.ppid ++ f.rest := by
    rw [hds, List.cons_append, List.dropWhile_cons_of_neg (by simp [hspace])]
  have hunsigned : unsigned (digits f.ppid ++ f.rest) = digits f.ppid ++ f.rest := by
    rw [hds, List.cons_append, unsigned, if_neg (by simp [hminus, hplus])]
  have hhead : (digits f.ppid ++ f.rest).head? = some b := by rw [hds]; rfl
  have hne : digits f.ppid ++ f.rest ≠ [] := by rw [hds]; simp
  have hvalue : strtol (digits f.ppid ++ f.rest) = f.ppid := by
    have := f.ppidFits
    simp only [strtol, hskip', hhead, Option.some.injEq, hminus, hplus, or_self, if_false, htake, Sql.natVal_digits]
    omega
  simp only [scanInt, hskip, if_neg hne, hunsigned, htake, if_neg (Sql.digits_ne_nil f.ppid), atoi, hvalue]
  rfl

/-- The number of the process is the first word. -/
theorem skipWord_text : skipWord f.text = some (32 :: (40 :: (f.comm ++ 41 :: f.tail))) := by
  rw [text_eq]
  refine skipWord_word (Sql.digits_ne_nil _) ?_ (by decide)
  exact fun c hc => (JobDb.digit_plain (Sql.isDigit_of_mem_digits hc)).1

/-- Without blanks in the name the parent is read. -/
theorem readPpid_plain (h : ∀ b ∈ f.comm, isSpace b = false) (ppid : Int32) :
    readPpid ppid f.text = Int32.ofNat f.ppid := by
  have hname : skipWord (32 :: (40 :: (f.comm ++ 41 :: f.tail))) = some f.tail := by
    have hword : 40 :: (f.comm ++ 41 :: f.tail) = (40 :: f.comm ++ [41]) ++ f.tail := by simp
    rw [skipWord_blank (by decide), hword]
    refine skipWord_word (by simp) ?_ (by decide)
    intro c hc
    have hc : c = 40 ∨ c ∈ f.comm ∨ c = 41 := by simpa using hc
    obtain rfl | hc | rfl := hc
    · decide
    · exact h c hc
    · decide
  have hstate : skipWord f.tail = some (32 :: (digits f.ppid ++ f.rest)) := by
    rw [tail, skipWord_blank (by decide)]
    exact skipWord_word (w := [f.state]) (by simp) (by simpa using f.state_plain.1) (by decide)
  simp only [readPpid, fscanf, skipWord_text, Option.bind_some, hname, hstate, scanInt_ppid]

/-- With blanks, the parent is not looked at. -/
theorem readPpid_blank (h : ∃ b ∈ f.comm, isSpace b = true) (ppid : Int32) :
    readPpid ppid f.text = (misread f.comm).getD ppid := by
  obtain ⟨b, r, hdrop, hb⟩ : ∃ b r, f.comm.dropWhile (fun c => !isSpace c) = b :: r ∧ isSpace b = true := by
    cases hd : f.comm.dropWhile (fun c => !isSpace c) with
    | nil =>
      obtain ⟨b, hin, hb⟩ := h
      have := List.dropWhile_eq_nil_iff.1 hd b hin
      exact absurd this (by simp [hb])
    | cons b r =>
      have := List.head_dropWhile_not (fun c => !isSpace c) (l := f.comm) (by rw [hd]; simp)
      exact ⟨b, r, rfl, by simpa [hd] using this⟩
  have hcomm : f.comm = f.comm.takeWhile (fun c => !isSpace c) ++ b :: r := by
    rw [← hdrop, List.takeWhile_append_dropWhile]
  have hname : skipWord (32 :: (40 :: (f.comm ++ 41 :: f.tail))) = some (b :: r ++ 41 :: f.tail) := by
    have hword : 40 :: (f.comm ++ 41 :: f.tail) =
        (40 :: f.comm.takeWhile (fun c => !isSpace c)) ++ b :: (r ++ 41 :: f.tail) := by
      nth_rewrite 1 [hcomm]
      simp
    rw [skipWord_blank (by decide), hword]
    refine skipWord_word (by simp) ?_ hb
    intro c hc
    obtain rfl | hc := List.mem_cons.1 hc
    · decide
    · simpa using List.mem_takeWhile_imp hc
  have hsecond : skipWord (b :: r ++ 41 :: f.tail) =
      some (((b :: r).dropWhile isSpace ++ 41 :: f.tail).dropWhile fun c => !isSpace c) := by
    simp only [skipWord, dropWhile_stop (show isSpace 41 = false by decide)]
    exact if_neg (by simp)
  simp only [readPpid, fscanf, skipWord_text, Option.bind_some, hname, hsecond, misread, hdrop]
  rw [List.dropWhile_append]
  by_cases hempty : (((b :: r).dropWhile isSpace).dropWhile fun c => !isSpace c).isEmpty = true
  · -- the name has two parts, and the number would be the state
    have hnone : (41 :: f.tail).dropWhile (fun c => !isSpace c) = f.tail := by
      have h41 : isSpace 41 = false := by decide
      have h32 : isSpace 32 = true := by decide
      simp [tail, h41, h32]
    rw [if_pos hempty, hnone, scanInt_tail, List.isEmpty_iff.1 hempty]
    rfl
  · rw [if_neg hempty, scanInt_paren]
    cases scanInt (((b :: r).dropWhile isSpace).dropWhile fun c => !isSpace c) <;> rfl

end StatFile

/-! ## All files -/

/-- The files that are read. -/
def opened : List ProcEntry → List StatFile
  | [] => []
  | de :: procdir => if atoi de.name = 0 then opened procdir else de.stat.toList ++ opened procdir

/-- The parent in the file before, or what `ppid` holds at the start. -/
def before (ppid : Int32) (fs : List StatFile) : Int32 := fs.foldl (fun _ f => Int32.ofNat f.ppid) ppid

/-- A name with blanks happens to do no harm: its third part, or where that is
no number the parent before, is the parent. -/
def Harmless (ppid : Int32) (fs : List StatFile) : Prop :=
  ∀ pre f post, fs = pre ++ f :: post → (∃ b ∈ f.comm, isSpace b = true) →
    (misread f.comm).getD (before ppid pre) = Int32.ofNat f.ppid

theorem harmless_cons {ppid : Int32} {f : StatFile} {fs : List StatFile} :
    Harmless ppid (f :: fs) ↔
      readPpid ppid f.text = Int32.ofNat f.ppid ∧ Harmless (Int32.ofNat f.ppid) fs := by
  have hfirst : readPpid ppid f.text = Int32.ofNat f.ppid ↔
      ((∃ b ∈ f.comm, isSpace b = true) → (misread f.comm).getD ppid = Int32.ofNat f.ppid) := by
    by_cases hb : ∃ b ∈ f.comm, isSpace b = true
    · simp only [f.readPpid_blank hb, hb, forall_const]
    · refine iff_of_true (f.readPpid_plain ?_ ppid) fun h => absurd h hb
      intro b hin
      cases hs : isSpace b with
      | false => rfl
      | true => exact absurd ⟨b, hin, hs⟩ hb
  rw [hfirst]
  constructor
  · intro h
    exact ⟨h [] f fs rfl, fun pre g post he => h (f :: pre) g post (by rw [he]; rfl)⟩
  · rintro ⟨hf, hrest⟩ pre g post he
    cases pre with
    | nil =>
      obtain ⟨rfl, -⟩ := List.cons.inj he
      exact hf
    | cons f' pre =>
      obtain ⟨rfl, hfs⟩ := List.cons.inj he
      exact hrest pre g post hfs

theorem recorded_iff (ppid : Int32) (procdir : List ProcEntry) :
    recorded ppid procdir = ownParents procdir ↔ Harmless ppid (opened procdir) := by
  induction procdir generalizing ppid with
  | nil => exact iff_of_true rfl fun pre f post he => absurd he (by simp [opened])
  | cons de procdir ih =>
    rw [recorded, ownParents, opened]
    by_cases hpid : atoi de.name = 0
    · rw [if_pos hpid, if_pos hpid, if_pos hpid]
      exact ih ppid
    · rw [if_neg hpid, if_neg hpid, if_neg hpid]
      cases de.stat with
      | none => exact ih ppid
      | some f =>
        simp only [Option.toList_some, List.singleton_append, harmless_cons, List.cons.injEq, Entry.mk.injEq, true_and]
        constructor
        · rintro ⟨hown, hrest⟩
          rw [hown] at hrest
          exact ⟨hown, (ih _).1 hrest⟩
        · rintro ⟨hown, hrest⟩
          rw [hown]
          exact ⟨rfl, (ih _).2 hrest⟩

/-- Every process goes by its own parent if and only if names with blanks
happen to do no harm. -/
theorem ownParents_iff (ppid : Int32) (procdir : List ProcEntry) :
    OwnParents ppid procdir ↔ Harmless ppid (opened procdir) := by
  rw [← recorded_iff]
  constructor
  · exact OwnParents.recorded
  · intro h
    exact ⟨h, fun jobPid => by rw [jaKillTable_eq, h], fun jobPid => by rw [jaKillPpid_eq, h]⟩

/-- The processes of a job with the number 9: its shell, and behind it in the
directory a server of process 1 with a blank in its name. -/
def twoProcesses : List ProcEntry :=
  [⟨ascii "7", some ⟨7, ascii "sh", 83, 9, ascii " 9", by decide, by decide, by decide, by decide, by decide⟩⟩,
    ⟨ascii "8", some ⟨8, ascii "tmux: server", 83, 1, ascii " 8", by decide, by decide, by decide, by decide, by decide⟩⟩]

/-- The server is put below the job. -/
theorem blank_name_killed :
    jaKillTable 9 0 twoProcesses = [⟨7, 9⟩, ⟨8, 9⟩] ∧ ownParents twoProcesses = [⟨7, 9⟩, ⟨8, 1⟩] ∧
      ¬ OwnParents 0 twoProcesses := by
  have hown : ownParents twoProcesses = [⟨7, 9⟩, ⟨8, 1⟩] := by decide +kernel
  have htable : jaKillTable 9 0 twoProcesses = [⟨7, 9⟩, ⟨8, 9⟩] := by decide +kernel
  refine ⟨htable, hown, ?_⟩
  intro h
  have := h.table 9
  rw [htable, hown] at this
  exact absurd this (by decide)

end JobArranger.Agent.ProcStat
