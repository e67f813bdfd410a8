import JobArranger.Core.Bytes
import JobArranger.Core.LTS
import JobArranger.L6Agent.JobDb
import JobArranger.L6Agent.Wakeup

/-!
# The result files of a job (`jalibs/jajobfile.c`, `jobarg_command.c`)

`ja_agent_run` makes five files for a job and starts `jobarg_command` with
their path. The command empties them one after another, writes the start
time, runs the script with its output redirected, and writes the end time
and the wait status. The agent and the command share nothing but the files:
`ja_jobfile_chkend` looks at three *sizes*, one after another and while the
command goes on, and asks once whether the process is there.

The command can be killed at any point, every `write` can be short or fail,
every `fopen` of the agent can fail, and the pid can be taken by another
process. The script is taken not to write to the descriptors of the result
files, which it inherits; its children may write output at any time.

* `FileInv`: what the three files hold at each point of the command.
* `jobfile_verdict`: what a verdict of the check means, in every run.
* `jobfile_complete`: after the last write no check misses the end.
-/
namespace JobArranger.Agent.JobFile

open JobDb

/-! ## The files -/

/-- mirrors src/jobarg_command/jobarg_command.c:57 -/
inductive Ext where
  | start
  | finish
  | ret
  | stdout
  | stderr
  deriving DecidableEq, Repr

/-- The order in which the command opens the files. -/
def ext : List Ext := [.start, .finish, .ret, .stdout, .stderr]

/-- The order in which the agent looks at their sizes. -/
def sized : List Ext := [.ret, .start, .finish]

abbrev Files := Ext → Text

/-- mirrors src/jainclude/jacommon.h:45 -/
def jaStdOutLen : Nat := 64001

/-- A byte behind a hole, which reads as zeros. mirrors src/jalibs/jafile.c:44-72 -/
def jaFileCreate (size : Nat) : Text := List.replicate (size + 1) 0

/-- mirrors src/jalibs/jajobfile.c:93-109 -/
def jaJobfileCreate : Files
  | .stdout => jaFileCreate jaStdOutLen
  | .stderr => jaFileCreate jaStdOutLen
  | _ => jaFileCreate 1

/-- `none` is a file that cannot be opened. mirrors src/jalibs/jafile.c:116-130 -/
def jaFileGetsize : Option Text → Int
  | none => -1
  | some t => t.length

/-- mirrors src/jalibs/jafile.c:145-183 -/
def jaFileLoad (file : Option Text) (size : Nat) : Option Text :=
  file.bind fun t =>
    if 0 < size then if size ≤ t.length then some (t.take size) else none
    else some (t.take (if jaStdOutLen ≤ t.length then jaStdOutLen - 1 else t.length))

/-- `WIFEXITED`, `WEXITSTATUS` and `WTERMSIG`: the code, and whether it is a signal. -/
def waitStatus (w : Nat) : Int32 × Int32 :=
  if w % 128 = 0 then (Int32.ofNat (w / 256 % 256), 0) else (Int32.ofNat (w % 128), 1)

/-- `fread` into a string buffer, whose bytes behind the string are zeros. -/
def readInto {n : Nat} (old : CText n) (t : Text) : CText n := snprintf n (t ++ old.bytes.drop t.length)

def loadRet (file : Option Text) : Option (Int32 × Int32) :=
  if jaFileGetsize file = 0 then some (0, 0) else (jaFileLoad file 4).map fun t => waitStatus (leVal t)

def loadTime (file : Option Text) : Option UInt64 := (jaFileLoad file 8).map fun t => UInt64.ofNat (leVal t)

/-- mirrors src/jalibs/jajobfile.c:254-335, the job as it is left -/
def jaJobfileLoad (files : Ext → Option Text) (job : JobRecord) : JobRecord × Ret :=
  match loadRet (files .ret) with
  | none => (job, .fail)
  | some (returnCode, signal) =>
    let job := { job with returnCode, signal }
    match loadTime (files .start) with
    | none => (job, .fail)
    | some startTime =>
      let job := { job with startTime }
      match if jaFileGetsize (files .finish) = 0 then some startTime else loadTime (files .finish) with
      | none => (job, .fail)
      | some endTime =>
        let job := { job with endTime }
        match jaFileLoad (files .stdout) 0 with
        | none => (job, .fail)
        | some out =>
          let job := { job with stdOut := readInto job.stdOut out }
          match jaFileLoad (files .stderr) 0 with
          | none => (job, .fail)
          | some err => ({ job with stdErr := readInto job.stdErr err }, .succeed)

/-! ## The command -/

/-- Where `main` of the command stands: the files still to open, then
before `waitpid` is back, before the end time, before the status, at the
end. -/
inductive Pc where
  | opening (rest : List Ext)
  | running
  | ending
  | last
  | done
  deriving DecidableEq, Repr

/-- `ret` is the variable of `main`; `started` and `ended` are the times it
has passed to `write`. -/
structure Command where
  pc : Pc
  alive : Bool
  ret : UInt32
  started : UInt64
  ended : UInt64
  deriving DecidableEq, Repr

def Command.init : Command := ⟨.opening ext, true, 127, 0, 0⟩

/-! ## The check -/

/-- The sizes found so far by `ja_jobfile_chkend`, at each of its steps. -/
inductive Check where
  | idle
  | first (sizes : List Int)
  | signalling (sizes : List Int)
  | second (before sizes : List Int)
  | verdict (v : Int) (sizes : List Int)
  deriving DecidableEq, Repr

structure State where
  files : Files
  command : Command
  check : Check

/-- What happens next. `n` is how many bytes a `write` gets into its file;
`waited none` is a failed `fork` or `waitpid`; `output` comes from the
command or a process of its script; `dies` is its exit or a kill. `check`
begins a check, also after a restart of the agent; in `look`, `opens` says
whether the `fopen` succeeds and `taken` whether another process or a
zombie has the pid. -/
inductive Ev where
  | openFile (ok : Bool)
  | writeStart (now : UInt64) (n : Nat)
  | waited (status : Option UInt32)
  | writeEnd (now : UInt64) (n : Nat)
  | writeRet (n : Nat)
  | output (err : Bool) (t : Text)
  | dies
  | check
  | look (opens taken : Bool)
  deriving DecidableEq, Repr

def Pc.opened : Pc → Ext → Bool
  | .opening rest, e => e ∉ rest
  | _, _ => true

/-- mirrors src/jobarg_command/jobarg_command.c:113-144, 408-418 -/
def Command.step (c : Command) (files : Files) : Ev → Option (Command × Files)
  | .openFile ok =>
    match c.pc, ok with
    | .opening (e :: rest), true => some ({ c with pc := .opening rest }, Function.update files e [])
    | .opening (_ :: _), false => some ({ c with alive := false }, files)
    | _, _ => none
  | .writeStart now n =>
    if c.pc = .opening [] then
      some ({ c with pc := .running, started := now },
        Function.update files .start (files .start ++ (leBytes 8 now.toNat).take n))
    else none
  | .waited status =>
    if c.pc = .running then some ({ c with pc := .ending, ret := status.getD c.ret }, files) else none
  | .writeEnd now n =>
    if c.pc = .ending then
      some ({ c with pc := .last, ended := now },
        Function.update files .finish (files .finish ++ (leBytes 8 now.toNat).take n))
    else none
  | .writeRet n =>
    if c.pc = .last then
      some ({ c with pc := .done },
        Function.update files .ret (files .ret ++ (leBytes 4 c.ret.toNat).take n))
    else none
  | _ => none

section
variable (pid : Int32) (reboot : Bool)

/-- The answer on the three sizes of the first round; without one the check
goes on with `kill`. mirrors src/jalibs/jajobfile.c:185-197 -/
def judgeFirst (sizes : List Int) : Check :=
  if sizes.any (· < 0) then .verdict (-1) sizes
  else if sizes.all (3 < ·) then .verdict 1 sizes
  else if pid = 0 then .verdict 0 sizes
  else .signalling sizes

/-- A reboot kills the command before it can write its end. -/
def enough (sizes : List Int) : Bool := if reboot then 3 < sizes.getD 1 0 else sizes.all (3 < ·)

/-- mirrors src/jalibs/jajobfile.c:225-238 -/
def judgeSecond (before sizes : List Int) : Check :=
  .verdict (if enough reboot sizes then 1 else -1) (before ++ sizes)

/-- One step of `ja_jobfile_chkend`: one size, one decision, or `kill`.
mirrors src/jalibs/jajobfile.c:164-239 -/
def jaJobfileChkend (files : Files) (alive opens taken : Bool) : Check → Option Check
  | .first sizes =>
    match sized[sizes.length]? with
    | some e => some (.first (sizes ++ [jaFileGetsize (if opens then some (files e) else none)]))
    | none => some (judgeFirst pid sizes)
  | .signalling sizes => some (if alive || taken then .verdict 0 sizes else .second sizes [])
  | .second before sizes =>
    match sized[sizes.length]? with
    | some e => some (.second before (sizes ++ [jaFileGetsize (if opens then some (files e) else none)]))
    | none => some (judgeSecond reboot before sizes)
  | _ => none

def step (s : State) : Ev → Option State
  | .output err t =>
    if s.command.pc.opened .stderr then
      let e := if err then Ext.stderr else .stdout
      some { s with files := Function.update s.files e (s.files e ++ t) }
    else none
  | .dies => some { s with command := { s.command with alive := false } }
  | .check => some { s with check := .first [] }
  | .look opens taken =>
    (jaJobfileChkend pid reboot s.files s.command.alive opens taken s.check).map fun check => { s with check }
  | ev =>
    if s.command.alive then
      (s.command.step s.files ev).map fun r => { s with command := r.1, files := r.2 }
    else none

def system : LTS State Ev :=
  .ofFn (fun s => s = ⟨jaJobfileCreate, .init, .idle⟩) (step pid reboot)

end

/-- What `ja_agent_end` does with the check and the load. mirrors src/jobarg_agent/jaagent.c:661-685 -/
def endCheck (v : Int) (loaded : Ret) : EndCheck :=
  if v = 0 then .notYet else if v = -1 then .failed else .ended loaded

/-! ## What the command leaves in the files -/

/-- The file has got its value. -/
def Pc.wrote : Pc → Ext → Bool
  | .opening _, _ => false
  | .running, e => e == .start
  | .ending, e => e == .start
  | .last, e => e != .ret
  | .done, _ => true

def Pc.waited : Pc → Bool
  | .opening _ => false
  | .running => false
  | _ => true

/-- What the command writes into its file. -/
def Command.value (c : Command) : Ext → Text
  | .start => leBytes 8 c.started.toNat
  | .finish => leBytes 8 c.ended.toNat
  | _ => leBytes 4 c.ret.toNat

/-- The three files at every point of the command. -/
structure FileInv (c : Command) (files : Files) : Prop where
  written : ∀ e ∈ sized, c.pc.wrote e = true → files e <+: c.value e
  fresh : ∀ e ∈ sized, c.pc.wrote e = false → c.pc.opened e = true → files e = []
  small : ∀ e ∈ sized, c.pc.wrote e = false → (files e).length ≤ 2
  unset : c.pc.waited = false → c.ret = 127

theorem fileInv_init : FileInv .init jaJobfileCreate := by
  refine ⟨?_, ?_, ?_, fun _ => rfl⟩
  · intro e _ hw
    simp [Command.init, Pc.wrote] at hw
  · intro e he _ ho
    simp only [sized, List.mem_cons, List.not_mem_nil, or_false] at he
    obtain rfl | rfl | rfl := he <;> simp [Command.init, Pc.opened, ext] at ho
  · intro e he _
    simp only [sized, List.mem_cons, List.not_mem_nil, or_false] at he
    obtain rfl | rfl | rfl := he <;> simp [jaJobfileCreate, jaFileCreate]

/-- A write of a value into its fresh file. -/
theorem FileInv.write {c c' : Command} {files : Files} (h : FileInv c files) {e : Ext} (he : e ∈ sized) {n : Nat}
    (hnot : c.pc.wrote e = false) (hopen : ∀ e ∈ sized, c.pc.opened e = true)
    (hpc : ∀ e' ∈ sized, c'.pc.wrote e' = (c.pc.wrote e' || e' == e))
    (hval : ∀ e' ∈ sized, c.pc.wrote e' = true → c'.value e' = c.value e')
    (hret : c'.pc.waited = false → c'.ret = 127) :
    FileInv c' (Function.update files e (files e ++ (c'.value e).take n)) := by
  have hfresh : files e = [] := h.fresh e he hnot (hopen e he)
  refine ⟨?_, ?_, ?_, hret⟩
  · intro e' he' hw
    by_cases hee : e' = e
    · subst hee
      simpa [hfresh] using List.take_prefix n (c'.value e')
    · have hw' : c.pc.wrote e' = true := by simpa [hpc e' he', hee] using hw
      rw [Function.update_of_ne hee, hval e' he' hw']
      exact h.written e' he' hw'
  · intro e' he' hw _
    obtain ⟨hw', hee⟩ : c.pc.wrote e' = false ∧ e' ≠ e := by simpa [hpc e' he'] using hw
    rw [Function.update_of_ne hee]
    exact h.fresh e' he' hw' (hopen e' he')
  · intro e' he' hw
    obtain ⟨hw', hee⟩ : c.pc.wrote e' = false ∧ e' ≠ e := by simpa [hpc e' he'] using hw
    rw [Function.update_of_ne hee]
    exact h.small e' he' hw'

theorem FileInv.congr {c : Command} {files files' : Files} (h : FileInv c files)
    (hf : ∀ e ∈ sized, files' e = files e) : FileInv c files' := by
  refine ⟨fun e he hw => ?_, fun e he hw ho => ?_, fun e he hw => ?_, h.unset⟩
  · rw [hf e he]
    exact h.written e he hw
  · rw [hf e he]
    exact h.fresh e he hw ho
  · rw [hf e he]
    exact h.small e he hw

theorem FileInv.command {c c' : Command} {files files' : Files} (h : FileInv c files) {ev : Ev}
    (hs : c.step files ev = some (c', files')) : FileInv c' files' := by
  cases ev with
  | openFile ok =>
    obtain ⟨pc, alive, ret, started, ended⟩ := c
    cases pc with
    | opening rest =>
      cases rest with
      | nil => cases ok <;> simp [Command.step] at hs
      | cons e rest =>
        cases ok with
        | false =>
          simp only [Command.step, Option.some.injEq, Prod.mk.injEq] at hs
          obtain ⟨rfl, rfl⟩ := hs
          exact ⟨h.written, h.fresh, h.small, h.unset⟩
        | true =>
          simp only [Command.step, Option.some.injEq, Prod.mk.injEq] at hs
          obtain ⟨rfl, rfl⟩ := hs
          refine ⟨fun e' _ hw => by simp [Pc.wrote] at hw, ?_, ?_, fun _ => h.unset rfl⟩
          · intro e' he' _ ho
            by_cases hee : e' = e
            · simp [hee]
            · rw [Function.update_of_ne hee]
              refine h.fresh e' he' rfl ?_
              simpa [Pc.opened, hee] using ho
          · intro e' he' _
            by_cases hee : e' = e
            · simp [hee]
            · rw [Function.update_of_ne hee]
              exact h.small e' he' rfl
    | running | ending | last | done => simp [Command.step] at hs
  | writeStart now n =>
    simp only [Command.step] at hs
    split at hs
    · rename_i hpc
      simp only [Option.some.injEq, Prod.mk.injEq] at hs
      obtain ⟨rfl, rfl⟩ := hs
      refine h.write (e := .start) (by simp [sized]) (by simp [hpc, Pc.wrote]) (by simp [hpc, Pc.opened]) ?_ ?_ ?_
      · simp [hpc, Pc.wrote]
      · simp [hpc, Pc.wrote]
      · exact fun _ => h.unset (by simp [hpc, Pc.waited])
    · cases hs
  | waited status =>
    simp only [Command.step] at hs
    split at hs
    · rename_i hpc
      simp only [Option.some.injEq, Prod.mk.injEq] at hs
      obtain ⟨rfl, rfl⟩ := hs
      refine ⟨?_, ?_, ?_, by simp [Pc.waited]⟩
      · intro e he hw
        have hst : e = .start := by simpa [Pc.wrote] using hw
        subst hst
        exact h.written .start he (by simp [hpc, Pc.wrote])
      · intro e he hw _
        exact h.fresh e he (by simpa [hpc, Pc.wrote] using hw) (by simp [hpc, Pc.opened])
      · intro e he hw
        exact h.small e he (by simpa [hpc, Pc.wrote] using hw)
    · cases hs
  | writeEnd now n =>
    simp only [Command.step] at hs
    split at hs
    · rename_i hpc
      simp only [Option.some.injEq, Prod.mk.injEq] at hs
      obtain ⟨rfl, rfl⟩ := hs
      refine h.write (e := .finish) (by simp [sized]) (by simp [hpc, Pc.wrote]) (by simp [hpc, Pc.opened]) ?_ ?_ ?_
      · simp [hpc, Pc.wrote, sized]
      · intro e' _ hw
        have hst : e' = .start := by simpa [hpc, Pc.wrote] using hw
        rw [hst]
        rfl
      · simp [Pc.waited]
    · cases hs
  | writeRet n =>
    simp only [Command.step] at hs
    split at hs
    · rename_i hpc
      simp only [Option.some.injEq, Prod.mk.injEq] at hs
      obtain ⟨rfl, rfl⟩ := hs
      refine h.write (e := .ret) (by simp [sized]) (by simp [hpc, Pc.wrote]) (by simp [hpc, Pc.opened]) ?_ ?_ ?_
      · simp [hpc, Pc.wrote, sized]
      · exact fun e' _ _ => by cases e' <;> rfl
      · simp [Pc.waited]
    · cases hs
  | output | dies | check | look => simp [Command.step] at hs

/-! ## One step -/

/-- The command writes no more. -/
def Final (s : State) : Prop := s.command.pc = .done ∨ s.command.alive = false

theorem Command.step_done {c : Command} {files : Files} {ev : Ev} (h : c.pc = .done) : c.step files ev = none := by
  cases ev <;> simp [Command.step, h]

section
variable {pid : Int32} {reboot : Bool} {s s' : State} {ev : Ev}

theorem step_cases (h : step pid reboot s ev = some s') :
    (∃ command files, s.command.alive = true ∧ s.command.step s.files ev = some (command, files) ∧
        s' = { s with command, files }) ∨
      (∃ e t, e ∉ sized ∧ s' = { s with files := Function.update s.files e t }) ∨
      s' = { s with command := { s.command with alive := false } } ∨
      s' = { s with check := .first [] } ∨
      ∃ opens taken check,
        jaJobfileChkend pid reboot s.files s.command.alive opens taken s.check = some check ∧
          s' = { s with check } := by
  cases ev with
  | output err t =>
    right; left
    simp only [step] at h
    split at h
    · simp only [Option.some.injEq] at h
      refine ⟨if err then .stderr else .stdout, _, ?_, h.symm⟩
      cases err <;> simp [sized]
    · cases h
  | dies =>
    right; right; left
    simpa [step] using h.symm
  | check =>
    right; right; right; left
    simpa [step] using h.symm
  | look opens taken =>
    right; right; right; right
    simp only [step, Option.map_eq_some_iff] at h
    obtain ⟨check, hc, rfl⟩ := h
    exact ⟨opens, taken, check, hc, rfl⟩
  | openFile | writeStart | waited | writeEnd | writeRet =>
    left
    simp only [step] at h
    split at h
    · rename_i ha
      simp only [Option.map_eq_some_iff] at h
      obtain ⟨⟨command, files⟩, hc, rfl⟩ := h
      exact ⟨command, files, ha, hc, rfl⟩
    · cases h

/-- What stays once the command writes no more. -/
structure Frozen (s s' : State) : Prop where
  pc : s'.command.pc = s.command.pc
  dead : s.command.alive = false → s'.command.alive = false
  files : ∀ e ∈ sized, s'.files e = s.files e

theorem step_frozen (h : step pid reboot s ev = some s') (hf : Final s) : Frozen s s' := by
  obtain ⟨command, files, ha, hc, -⟩ | ⟨e, t, he, rfl⟩ | rfl | rfl | ⟨_, _, check, -, rfl⟩ := step_cases h
  · obtain hd | hd := hf
    · simp [Command.step_done hd] at hc
    · simp [hd] at ha
  · refine ⟨rfl, id, fun e' he' => Function.update_of_ne ?_ _ _⟩
    intro hee
    exact he (hee ▸ he')
  · exact ⟨rfl, fun _ => rfl, fun _ _ => rfl⟩
  · exact ⟨rfl, id, fun _ _ => rfl⟩
  · exact ⟨rfl, id, fun _ _ => rfl⟩

theorem Frozen.final (h : Frozen s s') (hf : Final s) : Final s' :=
  hf.imp (fun hd => h.pc.trans hd) h.dead

theorem Frozen.trans {s'' : State} (h : Frozen s s') (h' : Frozen s' s'') : Frozen s s'' :=
  ⟨h'.pc.trans h.pc, fun hd => h'.dead (h.dead hd), fun e he => (h'.files e he).trans (h.files e he)⟩

theorem run_frozen {ls : List Ev} (hr : (system pid reboot).Run s ls s') (hf : Final s) : Frozen s s' := by
  induction hr with
  | nil _ => exact ⟨rfl, id, fun _ _ => rfl⟩
  | cons h _ ih =>
    have hfr := step_frozen h hf
    exact hfr.trans (ih (hfr.final hf))

theorem fileInv_step (h : step pid reboot s ev = some s') (hi : FileInv s.command s.files) :
    FileInv s'.command s'.files := by
  obtain ⟨command, files, -, hc, rfl⟩ | ⟨e, t, he, rfl⟩ | rfl | rfl | ⟨_, _, check, -, rfl⟩ := step_cases h
  · exact hi.command hc
  · refine hi.congr fun e' he' => Function.update_of_ne ?_ _ _
    intro hee
    exact he (hee ▸ he')
  · exact ⟨hi.written, hi.fresh, hi.small, hi.unset⟩
  · exact hi
  · exact hi

/-! ## A round of sizes -/

/-- `P` holds of every file looked at and the size found. -/
def Round (P : Ext → Int → Prop) (sizes : List Int) : Prop :=
  ∀ (i : Nat) (n : Int), sizes[i]? = some n → ∃ e, sized[i]? = some e ∧ P e n

theorem Round.append {P : Ext → Int → Prop} {sizes : List Int} {e : Ext} {n : Int} (h : Round P sizes)
    (he : sized[sizes.length]? = some e) (hp : P e n) : Round P (sizes ++ [n]) := by
  intro i m hm
  by_cases hi : i < sizes.length
  · rw [List.getElem?_append_left hi] at hm
    exact h i m hm
  · obtain ⟨hlt, -⟩ := List.getElem?_eq_some_iff.1 hm
    have hil : i = sizes.length := by
      simp only [List.length_append, List.length_cons, List.length_nil] at hlt
      omega
    subst hil
    simp only [List.getElem?_concat_length, Option.some.injEq] at hm
    exact ⟨e, he, hm ▸ hp⟩

theorem Round.imp {P Q : Ext → Int → Prop} {sizes : List Int} (h : Round P sizes)
    (hpq : ∀ e ∈ sized, ∀ n, P e n → Q e n) : Round Q sizes := by
  intro i n hn
  obtain ⟨e, he, hp⟩ := h i n hn
  exact ⟨e, he, hpq e (List.mem_of_getElem? he) n hp⟩

/-- A whole round has a size for every file. -/
theorem Round.full {P : Ext → Int → Prop} {sizes : List Int} (h : Round P sizes)
    (hend : sized[sizes.length]? = none) {i : Nat} {e : Ext} (he : sized[i]? = some e) :
    P e (sizes.getD i 0) ∧ sizes.getD i 0 ∈ sizes := by
  have hlen : sized.length ≤ sizes.length := List.getElem?_eq_none_iff.1 hend
  obtain ⟨hi, -⟩ := List.getElem?_eq_some_iff.1 he
  have hn : sizes[i]? = some sizes[i] := List.getElem?_eq_getElem (by omega)
  obtain ⟨e', he', hp⟩ := h i _ hn
  obtain rfl : e' = e := Option.some.inj (he'.symm.trans he)
  simp only [List.getD_eq_getElem?_getD, hn, Option.getD_some]
  exact ⟨hp, List.getElem_mem _⟩

theorem mem_sized {e : Ext} (he : e ∈ sized) : ∃ i : Nat, sized[i]? = some e := List.mem_iff_getElem?.1 he

theorem jaFileGetsize_cases (opens : Bool) (t : Text) :
    jaFileGetsize (if opens then some t else none) = -1 ∨
      jaFileGetsize (if opens then some t else none) = t.length := by
  cases opens
  · exact .inl rfl
  · exact .inr rfl

/-! ## The check -/

/-- The files say that the job has ended; for a reboot, that it began and the process is gone. -/
def Ended (reboot : Bool) (s : State) : Prop :=
  (s.command.pc = .done ∧ ∀ e ∈ sized, 3 < (s.files e).length) ∨
    (reboot = true ∧ s.command.alive = false ∧ 3 < (s.files .start).length)

/-- The process is gone, and a file never got its value. -/
def Gone (s : State) : Prop := s.command.alive = false ∧ ∃ e ∈ sized, (s.files e).length ≤ 3

/-- What a check knows. Before `kill` the command may still write: only a
big `ret` says anything, and then of all the sizes after it. -/
def CheckInv (reboot : Bool) (s : State) : Check → Prop
  | .idle => True
  | .first sizes =>
    (∀ n ∈ sizes, -1 ≤ n) ∧
      (3 < sizes.getD 0 0 → s.command.pc = .done ∧ Round (fun e n => n ≤ (s.files e).length) sizes)
  | .signalling _ => True
  | .second _ sizes => s.command.alive = false ∧ Round (fun e n => n = -1 ∨ n = (s.files e).length) sizes
  | .verdict v sizes => (v ≠ 0 → v ≠ -1 → Ended reboot s) ∧ (v = -1 → -1 ∉ sizes → Gone s)

theorem CheckInv.frozen {check : Check} (h : CheckInv reboot s check) (hfr : Final s → Frozen s s') :
    CheckInv reboot s' check := by
  cases check with
  | idle => trivial
  | first sizes =>
    refine ⟨h.1, fun hbig => ?_⟩
    obtain ⟨hpc, hr⟩ := h.2 hbig
    have hf := hfr (.inl hpc)
    exact ⟨hf.pc.trans hpc, hr.imp fun e he n hn => (hf.files e he).symm ▸ hn⟩
  | signalling _ => trivial
  | second _ sizes =>
    have hf := hfr (.inr h.1)
    exact ⟨hf.dead h.1, h.2.imp fun e he n hn => (hf.files e he).symm ▸ hn⟩
  | verdict v sizes =>
    refine ⟨fun h0 h1 => ?_, fun hv hm => ?_⟩
    · obtain ⟨hpc, hl⟩ | ⟨hb, hd, hl⟩ := h.1 h0 h1
      · have hf := hfr (.inl hpc)
        exact .inl ⟨hf.pc.trans hpc, fun e he => (hf.files e he).symm ▸ hl e he⟩
      · have hf := hfr (.inr hd)
        exact .inr ⟨hb, hf.dead hd, (hf.files .start (by simp [sized])).symm ▸ hl⟩
    · obtain ⟨hd, e, he, hl⟩ := h.2 hv hm
      have hf := hfr (.inr hd)
      exact ⟨hf.dead hd, e, he, (hf.files e he).symm ▸ hl⟩

/-- A big `ret` is the command's last write. -/
theorem FileInv.done {c : Command} {files : Files} (h : FileInv c files) (hl : 3 < (files .ret).length) :
    c.pc = .done := by
  by_cases hw : c.pc.wrote .ret = true
  · cases hpc : c.pc <;> simp [hpc, Pc.wrote] at hw ⊢
  · have := h.small .ret (by simp [sized]) (by simpa using hw)
    omega

theorem checkInv_first {sizes : List Int} (hi : FileInv s.command s.files) (h : CheckInv reboot s (.first sizes))
    {e : Ext} (he : sized[sizes.length]? = some e) (opens : Bool) :
    CheckInv reboot s (.first (sizes ++ [jaFileGetsize (if opens then some (s.files e) else none)])) := by
  have hsize := jaFileGetsize_cases opens (s.files e)
  generalize jaFileGetsize (if opens then some (s.files e) else none) = n at hsize
  have hle : n ≤ (s.files e).length := by omega
  refine ⟨?_, fun hbig => ?_⟩
  · intro m hm
    obtain hm | rfl := by simpa using hm
    · exact h.1 m hm
    · omega
  · cases sizes with
    | nil =>
      obtain rfl : Ext.ret = e := by simpa [sized] using he
      have hbig : 3 < n := by simpa using hbig
      have hr : Round (fun e n => n ≤ (s.files e).length) [] := fun i m hm => by simp at hm
      exact ⟨hi.done (by omega), hr.append he hle⟩
    | cons r rest =>
      obtain ⟨hpc, hr⟩ := h.2 (by simpa using hbig)
      exact ⟨hpc, hr.append he hle⟩

theorem checkInv_judgeFirst {sizes : List Int} (h : CheckInv reboot s (.first sizes))
    (hend : sized[sizes.length]? = none) : CheckInv reboot s (judgeFirst pid sizes) := by
  unfold judgeFirst
  split
  · rename_i hneg
    obtain ⟨n, hn, hlt⟩ := List.any_eq_true.1 hneg
    refine ⟨fun _ h1 => absurd rfl h1, fun _ hm => ?_⟩
    have hn1 := h.1 n hn
    have hlt : n < 0 := by simpa using hlt
    obtain rfl : n = -1 := by omega
    exact absurd hn hm
  · split
    · rename_i hall
      have hbig : ∀ n ∈ sizes, 3 < n := fun n hn => by simpa using List.all_eq_true.1 hall n hn
      refine ⟨fun _ _ => ?_, fun hv => absurd hv (by decide)⟩
      have hlen : sized.length ≤ sizes.length := List.getElem?_eq_none_iff.1 hend
      have hfirst : 3 < sizes.getD 0 0 := by
        cases sizes with
        | nil => simp [sized] at hlen
        | cons r rest => exact hbig r List.mem_cons_self
      obtain ⟨hpc, hr⟩ := h.2 hfirst
      refine .inl ⟨hpc, fun e he => ?_⟩
      obtain ⟨i, hi⟩ := mem_sized he
      obtain ⟨hle, hmem⟩ := hr.full hend hi
      have := hbig _ hmem
      omega
    · split
      · exact ⟨fun h0 => absurd rfl h0, fun hv => absurd hv (by decide)⟩
      · trivial

theorem checkInv_judgeSecond {before sizes : List Int} (hi : FileInv s.command s.files)
    (h : CheckInv reboot s (.second before sizes)) (hend : sized[sizes.length]? = none) :
    CheckInv reboot s (judgeSecond reboot before sizes) := by
  obtain ⟨hd, hr⟩ := h
  obtain ⟨hstart, hmem⟩ := hr.full hend (i := 1) (e := .start) rfl
  unfold judgeSecond
  cases henough : enough reboot sizes with
  | true =>
    refine ⟨fun _ _ => ?_, fun hv => absurd hv (by decide)⟩
    cases reboot with
    | true =>
      have hbig : 3 < sizes.getD 1 0 := by simpa [enough] using henough
      exact .inr ⟨rfl, hd, by omega⟩
    | false =>
      have hbig : ∀ n ∈ sizes, 3 < n := by simpa [enough] using henough
      have hfull : ∀ e ∈ sized, 3 < (s.files e).length := by
        intro e he
        obtain ⟨i, hi⟩ := mem_sized he
        obtain ⟨hn, hmem⟩ := hr.full hend hi
        have := hbig _ hmem
        omega
      exact .inl ⟨hi.done (hfull .ret (by simp [sized])), hfull⟩
  | false =>
    refine ⟨fun _ h1 => absurd rfl h1, fun _ hm => ⟨hd, ?_⟩⟩
    have hno : -1 ∉ sizes := fun hn => hm (List.mem_append_right _ hn)
    cases reboot with
    | true =>
      have hsmall : sizes.getD 1 0 ≤ 3 := by simpa [enough] using henough
      refine ⟨.start, by simp [sized], ?_⟩
      have hne : sizes.getD 1 0 ≠ -1 := fun hn => hno (hn ▸ hmem)
      omega
    | false =>
      obtain ⟨n, hn, hle⟩ : ∃ n ∈ sizes, n ≤ 3 := by simpa [enough] using henough
      obtain ⟨i, hi⟩ := List.mem_iff_getElem?.1 hn
      obtain ⟨e, he, hp⟩ := hr i n hi
      have hne : n ≠ -1 := fun h => hno (h ▸ hn)
      exact ⟨e, List.mem_of_getElem? he, by omega⟩

theorem checkInv_chkend {check check' : Check} (hi : FileInv s.command s.files) (h : CheckInv reboot s check)
    {opens taken : Bool} (hs : jaJobfileChkend pid reboot s.files s.command.alive opens taken check = some check') :
    CheckInv reboot s check' := by
  cases check with
  | idle | verdict => simp [jaJobfileChkend] at hs
  | first sizes =>
    simp only [jaJobfileChkend] at hs
    cases he : sized[sizes.length]? with
    | some e =>
      simp only [he, Option.some.injEq] at hs
      exact hs ▸ checkInv_first hi h he opens
    | none =>
      simp only [he, Option.some.injEq] at hs
      exact hs ▸ checkInv_judgeFirst h he
  | signalling sizes =>
    simp only [jaJobfileChkend, Option.some.injEq] at hs
    subst hs
    split
    · exact ⟨fun h0 => absurd rfl h0, fun hv => absurd hv (by decide)⟩
    · rename_i hgone
      simp only [Bool.or_eq_true, not_or, Bool.not_eq_true] at hgone
      exact ⟨hgone.1, fun i n hn => by simp at hn⟩
  | second before sizes =>
    simp only [jaJobfileChkend] at hs
    cases he : sized[sizes.length]? with
    | some e =>
      simp only [he, Option.some.injEq] at hs
      subst hs
      exact ⟨h.1, h.2.append he (jaFileGetsize_cases opens (s.files e))⟩
    | none =>
      simp only [he, Option.some.injEq] at hs
      exact hs ▸ checkInv_judgeSecond hi h he

/-- What holds in every reachable state. -/
structure Inv (reboot : Bool) (s : State) : Prop where
  files : FileInv s.command s.files
  check : CheckInv reboot s s.check

theorem inv_step (h : step pid reboot s ev = some s') (hi : Inv reboot s) : Inv reboot s' := by
  refine ⟨fileInv_step h hi.files, ?_⟩
  have hfr := step_frozen h
  obtain ⟨command, files, -, hc, rfl⟩ | ⟨e, t, he, rfl⟩ | rfl | rfl | ⟨_, _, check, hc, rfl⟩ := step_cases h
  · exact hi.check.frozen hfr
  · exact hi.check.frozen hfr
  · exact hi.check.frozen hfr
  · exact ⟨by simp, by simp⟩
  · exact (checkInv_chkend hi.files hi.check hc).frozen hfr

end

/-! ## What was written -/

/-- The values of the command are those of the run so far. -/
structure Noted (ls : List Ev) (c : Command) : Prop where
  start : c.pc.wrote .start = true → ∃ n, .writeStart c.started n ∈ ls
  finish : c.pc.wrote .finish = true → ∃ n, .writeEnd c.ended n ∈ ls
  status : c.pc.waited = true → ∃ w : Option UInt32, .waited w ∈ ls ∧ c.ret = w.getD 127

theorem Noted.mono {ls ls' : List Ev} {c : Command} (h : Noted ls c) (hl : ls ⊆ ls') : Noted ls' c := by
  refine ⟨fun hw => ?_, fun hw => ?_, fun hw => ?_⟩
  · obtain ⟨n, hn⟩ := h.start hw
    exact ⟨n, hl hn⟩
  · obtain ⟨n, hn⟩ := h.finish hw
    exact ⟨n, hl hn⟩
  · obtain ⟨w, hm, hr⟩ := h.status hw
    exact ⟨w, hl hm, hr⟩

theorem Command.step_openFile {c c' : Command} {files files' : Files} {ok : Bool}
    (hs : c.step files (.openFile ok) = some (c', files')) : ∃ rest, c'.pc = .opening rest := by
  obtain ⟨pc, alive, ret, started, ended⟩ := c
  cases pc with
  | opening rest =>
    cases rest with
    | nil => cases ok <;> simp [Command.step] at hs
    | cons e rest =>
      cases ok with
      | false =>
        simp only [Command.step, Option.some.injEq, Prod.mk.injEq] at hs
        exact ⟨e :: rest, hs.1 ▸ rfl⟩
      | true =>
        simp only [Command.step, Option.some.injEq, Prod.mk.injEq] at hs
        exact ⟨rest, hs.1 ▸ rfl⟩
  | running | ending | last | done => simp [Command.step] at hs

theorem Noted.command {ls : List Ev} {c c' : Command} {files files' : Files} (h : Noted ls c)
    (hi : FileInv c files) {ev : Ev} (hs : c.step files ev = some (c', files')) : Noted (ls ++ [ev]) c' := by
  have hold := h.mono (List.subset_append_left ls [ev])
  cases ev with
  | openFile ok =>
    obtain ⟨rest, hpc⟩ := Command.step_openFile hs
    refine ⟨?_, ?_, ?_⟩ <;> simp [hpc, Pc.wrote, Pc.waited]
  | writeStart now n =>
    simp only [Command.step] at hs
    split at hs
    · simp only [Option.some.injEq, Prod.mk.injEq] at hs
      obtain ⟨rfl, -⟩ := hs
      refine ⟨fun _ => ⟨n, by simp⟩, ?_, ?_⟩ <;> simp [Pc.wrote, Pc.waited]
    · cases hs
  | waited status =>
    simp only [Command.step] at hs
    split at hs
    · rename_i hpc
      simp only [Option.some.injEq, Prod.mk.injEq] at hs
      obtain ⟨rfl, -⟩ := hs
      refine ⟨fun _ => hold.start (by simp [hpc, Pc.wrote]), by simp [Pc.wrote], fun _ => ⟨status, by simp, ?_⟩⟩
      rw [hi.unset (by simp [hpc, Pc.waited])]
    · cases hs
  | writeEnd now n =>
    simp only [Command.step] at hs
    split at hs
    · rename_i hpc
      simp only [Option.some.injEq, Prod.mk.injEq] at hs
      obtain ⟨rfl, -⟩ := hs
      exact ⟨fun _ => hold.start (by simp [hpc, Pc.wrote]), fun _ => ⟨n, by simp⟩,
        fun _ => hold.status (by simp [hpc, Pc.waited])⟩
    · cases hs
  | writeRet n =>
    simp only [Command.step] at hs
    split at hs
    · rename_i hpc
      simp only [Option.some.injEq, Prod.mk.injEq] at hs
      obtain ⟨rfl, -⟩ := hs
      exact ⟨fun _ => hold.start (by simp [hpc, Pc.wrote]), fun _ => hold.finish (by simp [hpc, Pc.wrote]),
        fun _ => hold.status (by simp [hpc, Pc.waited])⟩
    · cases hs
  | output | dies | check | look => simp [Command.step] at hs

section
variable {pid : Int32} {reboot : Bool} {s₀ s : State} {ls : List Ev}

/-- The run up to a state: the invariant, and where its values come from. -/
theorem run_noted (hinit : (system pid reboot).init s₀) (hr : (system pid reboot).Run s₀ ls s) :
    Inv reboot s ∧ Noted ls s.command := by
  have hst : ∀ (ls : List Ev) s l s', (Inv reboot s ∧ Noted ls s.command) → (system pid reboot).step s l s' →
      Inv reboot s' ∧ Noted (ls ++ [l]) s'.command := by
    intro ls s l s' hs h
    refine ⟨inv_step h hs.1, ?_⟩
    have hold := hs.2.mono (List.subset_append_left ls [l])
    obtain ⟨command, files, ha, hc, rfl⟩ | ⟨e, t, he, rfl⟩ | rfl | rfl | ⟨_, _, check, hc, rfl⟩ := step_cases h
    · exact hs.2.command hs.1.files hc
    · exact hold
    · exact ⟨hold.start, hold.finish, hold.status⟩
    · exact hold
    · exact hold
  have h₀ : Inv reboot s₀ ∧ Noted [] s₀.command := by
    obtain rfl := hinit
    refine ⟨⟨fileInv_init, trivial⟩, ?_, ?_, ?_⟩ <;> simp [Command.init, Pc.wrote, Pc.waited]
  simpa using hr.history hst h₀

/-! ## What the agent reports -/

/-- The job as the run has it. -/
structure Reported (ls : List Ev) (job : JobRecord) : Prop where
  start : ∃ n, .writeStart job.startTime n ∈ ls
  finish : ∃ n, .writeEnd job.endTime n ∈ ls
  status : ∃ w : Option UInt32, .waited w ∈ ls ∧ (job.returnCode, job.signal) = waitStatus (w.getD 127).toNat

/-- A reboot job is over with its start; what it could not write reads as an
end at once, with code 0. -/
structure Rebooted (ls : List Ev) (job : JobRecord) : Prop where
  start : ∃ n, .writeStart job.startTime n ∈ ls
  finish : job.endTime = job.startTime ∨ ∃ n, .writeEnd job.endTime n ∈ ls
  status : (job.returnCode, job.signal) = (0, 0) ∨
    ∃ w : Option UInt32, .waited w ∈ ls ∧ (job.returnCode, job.signal) = waitStatus (w.getD 127).toNat

/-- A file as long as its value holds its value. -/
theorem FileInv.exact {c : Command} {files : Files} (h : FileInv c files) {e : Ext} (he : e ∈ sized)
    (hl : (c.value e).length ≤ (files e).length) : c.pc.wrote e = true ∧ files e = c.value e := by
  have hlong : 2 < (c.value e).length := by cases e <;> simp [Command.value]
  cases hw : c.pc.wrote e with
  | true =>
    have hp := h.written e he hw
    exact ⟨rfl, hp.eq_of_length (Nat.le_antisymm hp.length_le hl)⟩
  | false =>
    have := h.small e he hw
    omega

theorem jaFileLoad_some {t u : Text} {n : Nat} (hn : 0 < n) (h : jaFileLoad (some t) n = some u) :
    n ≤ t.length ∧ u = t.take n := by
  simp only [jaFileLoad, Option.bind_some, if_pos hn] at h
  split at h
  · rename_i hle
    exact ⟨hle, (Option.some.inj h).symm⟩
  · cases h

theorem loadTime_some {t : Text} {x : UInt64} (h : loadTime (some t) = some x) :
    8 ≤ t.length ∧ x = UInt64.ofNat (leVal (t.take 8)) := by
  obtain ⟨u, hu, rfl⟩ := Option.map_eq_some_iff.1 h
  obtain ⟨hle, rfl⟩ := jaFileLoad_some (by decide) hu
  exact ⟨hle, rfl⟩

theorem FileInv.loadStart {c : Command} {files : Files} (h : FileInv c files) {x : UInt64}
    (hx : loadTime (some (files .start)) = some x) : c.pc.wrote .start = true ∧ x = c.started := by
  obtain ⟨hle, rfl⟩ := loadTime_some hx
  obtain ⟨hw, he⟩ := h.exact (e := .start) (by simp [sized]) (by simpa [Command.value] using hle)
  refine ⟨hw, ?_⟩
  rw [he, List.take_of_length_le (by simp [Command.value])]
  simp [Command.value]

theorem FileInv.loadEnd {c : Command} {files : Files} (h : FileInv c files) {x : UInt64}
    (hx : loadTime (some (files .finish)) = some x) : c.pc.wrote .finish = true ∧ x = c.ended := by
  obtain ⟨hle, rfl⟩ := loadTime_some hx
  obtain ⟨hw, he⟩ := h.exact (e := .finish) (by simp [sized]) (by simpa [Command.value] using hle)
  refine ⟨hw, ?_⟩
  rw [he, List.take_of_length_le (by simp [Command.value])]
  simp [Command.value]

theorem FileInv.loadRet {c : Command} {files : Files} (h : FileInv c files) {x : Int32 × Int32}
    (hx : loadRet (some (files .ret)) = some x) :
    (files .ret = [] ∧ x = (0, 0)) ∨ (c.pc = .done ∧ x = waitStatus c.ret.toNat) := by
  unfold JobFile.loadRet at hx
  split at hx
  · rename_i hz
    refine .inl ⟨List.eq_nil_of_length_eq_zero (by simpa [jaFileGetsize] using hz), (Option.some.inj hx).symm⟩
  · obtain ⟨u, hu, rfl⟩ := Option.map_eq_some_iff.1 hx
    obtain ⟨hle, rfl⟩ := jaFileLoad_some (by decide) hu
    obtain ⟨-, he⟩ := h.exact (e := .ret) (by simp [sized]) (by simpa [Command.value] using hle)
    refine .inr ⟨h.done (by omega), ?_⟩
    rw [he, List.take_of_length_le (by simp [Command.value])]
    simp [Command.value]

/-- A load that succeeds has read every file. -/
theorem jaJobfileLoad_succeed {files : Ext → Option Text} {job : JobRecord}
    (h : (jaJobfileLoad files job).2 = .succeed) :
    loadRet (files .ret) = some ((jaJobfileLoad files job).1.returnCode, (jaJobfileLoad files job).1.signal) ∧
      loadTime (files .start) = some (jaJobfileLoad files job).1.startTime ∧
      (if jaFileGetsize (files .finish) = 0 then some (jaJobfileLoad files job).1.startTime
        else loadTime (files .finish)) = some (jaJobfileLoad files job).1.endTime := by
  unfold jaJobfileLoad at h ⊢
  cases hr : loadRet (files .ret) with
  | none => simp [hr] at h
  | some code =>
    simp only [hr] at h ⊢
    cases hst : loadTime (files .start) with
    | none => simp [hst] at h
    | some x =>
      simp only [hst] at h ⊢
      cases hend : (if jaFileGetsize (files .finish) = 0 then some x else loadTime (files .finish)) with
      | none => simp [hend] at h
      | some y =>
        simp only [hend] at h ⊢
        cases hout : jaFileLoad (files .stdout) 0 with
        | none => simp [hout] at h
        | some out =>
          simp only [hout] at h ⊢
          cases herr : jaFileLoad (files .stderr) 0 with
          | none => simp [herr] at h
          | some err => simp [hend]

/-- What the agent loads from the files of a state. -/
def loaded (s : State) (job : JobRecord) : JobRecord × Ret := jaJobfileLoad (fun e => some (s.files e)) job

theorem Inv.rebooted (hi : Inv reboot s) (hn : Noted ls s.command) {job : JobRecord}
    (hl : (loaded s job).2 = .succeed) : Rebooted ls (loaded s job).1 := by
  obtain ⟨hret, hstart, hend⟩ := jaJobfileLoad_succeed hl
  obtain ⟨hw, hx⟩ := hi.files.loadStart hstart
  refine ⟨?_, ?_, ?_⟩
  · obtain ⟨n, hm⟩ := hn.start hw
    exact ⟨n, hx ▸ hm⟩
  · split at hend
    · exact .inl (Option.some.inj hend).symm
    · obtain ⟨hw, hx⟩ := hi.files.loadEnd hend
      obtain ⟨n, hm⟩ := hn.finish hw
      exact .inr ⟨n, hx ▸ hm⟩
  · obtain ⟨-, hx⟩ | ⟨hd, hx⟩ := hi.files.loadRet hret
    · exact .inl hx
    · obtain ⟨w, hm, hw⟩ := hn.status (by simp [hd, Pc.waited])
      exact .inr ⟨w, hm, hw ▸ hx⟩

theorem Inv.reported (hi : Inv reboot s) (hn : Noted ls s.command) (hfull : ∀ e ∈ sized, 3 < (s.files e).length)
    {job : JobRecord} (hl : (loaded s job).2 = .succeed) : Reported ls (loaded s job).1 := by
  obtain ⟨hret, -, hend⟩ := jaJobfileLoad_succeed hl
  refine ⟨(hi.rebooted hn hl).start, ?_, ?_⟩
  · have hlong := hfull .finish (by simp [sized])
    have hz : jaFileGetsize (some (s.files .finish)) ≠ 0 := by
      simp only [jaFileGetsize]
      omega
    rw [if_neg hz] at hend
    obtain ⟨hw, hx⟩ := hi.files.loadEnd hend
    obtain ⟨n, hm⟩ := hn.finish hw
    exact ⟨n, hx ▸ hm⟩
  · obtain ⟨hz, -⟩ | ⟨hd, hx⟩ := hi.files.loadRet hret
    · have hlong := hfull .ret (by simp [sized])
      simp [hz] at hlong
    · obtain ⟨w, hm, hw⟩ := hn.status (by simp [hd, Pc.waited])
      exact ⟨w, hm, hw ▸ hx⟩

/-- Whatever the command and its check have done so far, in any order: an
end that `ja_agent_end` stores as one has exactly the times and the status
that were written, or it is the end of a reboot that killed the command; a
failed check, unless a file could not be opened, says that the process is
gone and that a file never got its value; and after either of them the three
files do not change any more, so that it does not matter when they are
loaded. -/
theorem jobfile_verdict (hinit : (system pid reboot).init s₀) (hr : (system pid reboot).Run s₀ ls s) {v : Int}
    {sizes : List Int} (hv : s.check = .verdict v sizes) (job : JobRecord) :
    (endCheck v (loaded s job).2 = .ended .succeed →
        Reported ls (loaded s job).1 ∨
          reboot = true ∧ s.command.alive = false ∧ Rebooted ls (loaded s job).1) ∧
      (endCheck v (loaded s job).2 = .failed → -1 ∉ sizes → Gone s) ∧
      (endCheck v (loaded s job).2 ≠ .notYet → -1 ∉ sizes →
        ∀ ls' s', (system pid reboot).Run s ls' s' → ∀ e ∈ sized, s'.files e = s.files e) := by
  obtain ⟨hi, hn⟩ := run_noted hinit hr
  have hc : CheckInv reboot s (.verdict v sizes) := hv ▸ hi.check
  unfold endCheck
  by_cases h0 : v = 0
  · simp [h0]
  · by_cases h1 : v = -1
    · rw [if_neg h0, if_pos h1]
      refine ⟨by simp, fun _ => hc.2 h1, fun _ hm ls' s' hrun => ?_⟩
      exact (run_frozen hrun (.inr (hc.2 h1 hm).1)).files
    · rw [if_neg h0, if_neg h1]
      have hended := hc.1 h0 h1
      refine ⟨fun hl => ?_, by simp, fun _ _ ls' s' hrun => ?_⟩
      · have hl : (loaded s job).2 = .succeed := by simpa using hl
        obtain ⟨-, hfull⟩ | ⟨hb, hd, -⟩ := hended
        · exact .inl (hi.reported hn hfull hl)
        · exact .inr ⟨hb, hd, hi.rebooted hn hl⟩
      · exact (run_frozen hrun (hended.imp (fun h => h.1) (fun h => h.2.1))).files

/-! ## No end is missed -/

/-- The command is through, and every write was whole. -/
def Complete (s : State) : Prop :=
  s.command.pc = .done ∧ ∀ e ∈ sized, (s.command.value e).length ≤ (s.files e).length

/-- A check that began after the end. -/
def Late : Check → Prop
  | .first sizes => ∀ n ∈ sizes, n = -1 ∨ 3 < n
  | .verdict v sizes => v = 1 ∨ -1 ∈ sizes
  | _ => False

theorem Complete.long (h : Complete s) {e : Ext} (he : e ∈ sized) : 3 < (s.files e).length := by
  have hval : 3 < (s.command.value e).length := by cases e <;> simp [Command.value]
  exact Nat.lt_of_lt_of_le hval (h.2 e he)

theorem value_length (c c' : Command) (e : Ext) : (c.value e).length = (c'.value e).length := by
  cases e <;> simp [Command.value]

theorem Complete.step {s' : State} {ev : Ev} (hs : step pid reboot s ev = some s') (h : Complete s) : Complete s' := by
  have hfr := step_frozen hs (.inl h.1)
  refine ⟨hfr.pc.trans h.1, fun e he => ?_⟩
  rw [hfr.files e he, value_length s'.command s.command]
  exact h.2 e he

theorem Late.chkend {check check' : Check} (h : Late check) (hc : Complete s) {opens taken : Bool}
    (hs : jaJobfileChkend pid reboot s.files s.command.alive opens taken check = some check') : Late check' := by
  cases check with
  | idle | signalling | second => exact h.elim
  | verdict => simp [jaJobfileChkend] at hs
  | first sizes =>
    simp only [jaJobfileChkend] at hs
    cases he : sized[sizes.length]? with
    | some e =>
      simp only [he, Option.some.injEq] at hs
      subst hs
      intro n hn
      obtain hn | rfl := by simpa using hn
      · exact h n hn
      · have hlong := hc.long (List.mem_of_getElem? he)
        exact (jaFileGetsize_cases opens (s.files e)).imp id fun hsize => by omega
    | none =>
      simp only [he, Option.some.injEq] at hs
      subst hs
      unfold judgeFirst
      split
      · rename_i hneg
        obtain ⟨n, hn, hlt⟩ := List.any_eq_true.1 hneg
        have hlt : n < 0 := by simpa using hlt
        obtain rfl | hbig := h n hn
        · exact .inr hn
        · omega
      · rename_i hno
        have hall : sizes.all (3 < ·) = true := by
          refine List.all_eq_true.2 fun n hn => ?_
          obtain rfl | hbig := h n hn
          · exact absurd (List.any_eq_true.2 ⟨-1, hn, by decide⟩) hno
          · simpa using hbig
        rw [if_pos hall]
        exact .inl rfl

theorem jaFileLoad_all (t : Text) : ∃ u, jaFileLoad (some t) 0 = some u := ⟨_, rfl⟩

theorem Complete.loaded (h : Complete s) (job : JobRecord) : (loaded s job).2 = .succeed := by
  have hret : ∃ x, loadRet (some (s.files .ret)) = some x := by
    have hle := h.2 .ret (by simp [sized])
    simp only [Command.value, leBytes_length] at hle
    have hz : ¬ jaFileGetsize (some (s.files .ret)) = 0 := by
      simp only [jaFileGetsize]
      omega
    exact ⟨waitStatus (leVal ((s.files .ret).take 4)), by simp [loadRet, hz, jaFileLoad, hle]⟩
  have htime : ∀ e, (s.command.value e).length = 8 → e ∈ sized → ∃ x, loadTime (some (s.files e)) = some x := by
    intro e h8 he
    have hle : 8 ≤ (s.files e).length := h8 ▸ h.2 e he
    exact ⟨UInt64.ofNat (leVal ((s.files e).take 8)), by simp [loadTime, jaFileLoad, hle]⟩
  obtain ⟨code, hret⟩ := hret
  obtain ⟨x, hstart⟩ := htime .start (by simp [Command.value]) (by simp [sized])
  obtain ⟨y, hend⟩ := htime .finish (by simp [Command.value]) (by simp [sized])
  have hz : ¬ jaFileGetsize (some (s.files .finish)) = 0 := by
    have := h.long (e := .finish) (by simp [sized])
    simp only [jaFileGetsize]
    omega
  obtain ⟨out, hout⟩ := jaFileLoad_all (s.files .stdout)
  obtain ⟨err, herr⟩ := jaFileLoad_all (s.files .stderr)
  simp [JobFile.loaded, jaJobfileLoad, hret, hstart, hz, hend, hout, herr]

/-- Once the command is through, with every write whole, a check that begins
ends in 1 or could not open a file; and what is loaded then, by this check
or one before it, is what was written. -/
theorem jobfile_complete (hinit : (system pid reboot).init s₀) (hr : (system pid reboot).Run s₀ ls s)
    (hc : Complete s) {ls' : List Ev} {s' : State} (hr' : (system pid reboot).Run s (.check :: ls') s') :
    (∀ v sizes, s'.check = .verdict v sizes → v = 1 ∨ -1 ∈ sizes) ∧
      ∀ job, (loaded s' job).2 = .succeed ∧ Reported (ls ++ .check :: ls') (loaded s' job).1 := by
  have hst : ∀ s ev s', (Complete s ∧ Late s.check) → (system pid reboot).step s ev s' → Complete s' ∧ Late s'.check := by
    intro s ev s' h hs
    refine ⟨h.1.step hs, ?_⟩
    obtain ⟨command, files, -, -, rfl⟩ | ⟨e, t, -, rfl⟩ | rfl | rfl | ⟨_, _, check, hk, rfl⟩ := step_cases hs
    · exact h.2
    · exact h.2
    · exact h.2
    · exact fun n hn => by simp at hn
    · exact h.2.chkend h.1 hk
  have hlate : Complete s' ∧ Late s'.check := by
    cases hr' with
    | cons h hrest =>
      refine hrest.preserves hst ⟨hc.step h, ?_⟩
      obtain rfl := Option.some.inj h
      exact fun n hn => by simp at hn
  obtain ⟨hi, hn⟩ := run_noted hinit (hr.append hr')
  refine ⟨fun v sizes hv => ?_, fun job => ?_⟩
  · have h := hlate.2
    rw [hv] at h
    exact h
  · have hl := hlate.1.loaded job
    exact ⟨hl, hi.reported hn (fun e he => hlate.1.long he) hl⟩

end

/-! ## A run -/

/-- The agent looks while the command empties its files, finds the process
there, and looks again after the end. -/
def sampleRun : List Ev :=
  [.openFile true, .check, .look true false, .openFile true, .look true false, .openFile true, .openFile true,
    .openFile true, .look true false, .look true false, .writeStart 1700000000 8, .look true false,
    .output false [111, 107], .waited (some 256), .writeEnd 1700000005 8, .writeRet 4]

/-- The process exits while the agent looks again. -/
def sampleLate : List Ev := [.look true false, .look true false, .dies, .look true false, .look true false]

def sampleInit : State := ⟨jaJobfileCreate, .init, .idle⟩

theorem sampleRun_isSome : (sampleRun.foldlM (step 7 false) sampleInit).isSome = true := rfl

def sampleEnd : State := Option.get _ sampleRun_isSome

theorem sampleRun_run : (system 7 false).Run sampleInit sampleRun sampleEnd :=
  .of_foldlM (f := step 7 false) (fun _ _ _ h => h) (Option.some_get _).symm

theorem sampleLate_isSome : ((.check :: sampleLate).foldlM (step 7 false) sampleEnd).isSome = true := rfl

def sampleLast : State := Option.get _ sampleLate_isSome

theorem sampleLate_run : (system 7 false).Run sampleEnd (.check :: sampleLate) sampleLast :=
  .of_foldlM (f := step 7 false) (fun _ _ _ h => h) (Option.some_get _).symm

theorem jobfile_verdict_sample : Reported (sampleRun ++ .check :: sampleLate) (loaded sampleLast JobDb.jaJobObjectInit).1 := by
  have hv : sampleLast.check = .verdict 1 [4, 8, 8] := rfl
  obtain h | ⟨h, -⟩ := (jobfile_verdict rfl (sampleRun_run.append sampleLate_run) hv JobDb.jaJobObjectInit).1 rfl
  · exact h
  · cases h

theorem sampleEnd_complete : Complete sampleEnd := ⟨rfl, by decide⟩

theorem jobfile_complete_sample : (loaded sampleLast JobDb.jaJobObjectInit).2 = .succeed :=
  ((jobfile_complete rfl sampleRun_run sampleEnd_complete sampleLate_run).2 JobDb.jaJobObjectInit).1

end JobArranger.Agent.JobFile
