import JobArranger.Core.Forest
import JobArranger.L6Agent.ProcStat

/-!
# Killing a job (`jalibs/jakill.c`)

`ja_kill` collects pairs of a process and its parent (`ProcStat`) and kills
what is below the job: it goes down from the job to the first child in the
table, and to the first child of that, until there is none, kills where it
stands, blanks the entry and starts again.

* `kills_below`: the search ends, and kills exactly what is below the job,
  each process after its children.
* `jaKill_harmless`: with names that do no harm, the whole function kills what
  the files in `/proc` put below the job.
-/
namespace JobArranger.Agent.KillTree

open ProcStat

/-! ## The search -/

/-- What `kill` returns; `failed` is any error but `ESRCH`. -/
inductive Killed where
  | killed
  | esrch
  | failed
  deriving DecidableEq

structure Search where
  jpt : List Entry
  spid : Int32
  pos : Nat

inductive Outcome where
  | running
  | succeed (killed : List Int32)
  | fail (killed : List Int32)
  deriving DecidableEq

section
variable (kill : List Int32 → Int32 → Killed) (jobPid : Int32)

/-- The loop; `killed` are the processes signalled so far, on which the answer
of `kill` may depend. On Windows no answer ends the loop.
mirrors src/jalibs/jakill.c:353-388 -/
def killLoop : Nat → Search → List Int32 → Outcome
  | 0, _, _ => .running
  | fuel + 1, s, killed =>
    match s.jpt.findIdx? fun e => e.ppid == s.spid with
    | some i => killLoop fuel { s with spid := (s.jpt.getD i ⟨0, 0⟩).pid, pos := i } killed
    | none =>
      if s.pos = s.jpt.length then .succeed killed
      else
        let pid := (s.jpt.getD s.pos ⟨0, 0⟩).pid
        if kill killed pid = .failed then .fail (killed ++ [pid])
        else killLoop fuel ⟨s.jpt.set s.pos ⟨0, 0⟩, jobPid, s.jpt.length⟩ (killed ++ [pid])

end

/-- `q` has the parent `p` in the table. -/
def Child (t : List Entry) (p q : Int32) : Prop := ∃ e ∈ t, e.ppid = p ∧ e.pid = q

/-- A table of processes below and beside the job. -/
structure Processes (t : List Entry) (jobPid : Int32) : Prop where
  distinct : (t.map Entry.pid).Nodup
  nonzero : ∀ e ∈ t, e.pid ≠ 0
  root : ∀ e ∈ t, e.pid ≠ jobPid
  job : jobPid ≠ 0

/-- The table with the entries of the killed blanked. -/
def clear (t : List Entry) (killed : List Int32) : List Entry :=
  t.map fun e => if e.pid ∈ killed then ⟨0, 0⟩ else e

/-- `path` is the way from the job to where the search stands. -/
structure Inv (t : List Entry) (jobPid : Int32) (s : Search) (killed path : List Int32) : Prop where
  table : s.jpt = clear t killed
  taken : Forest.Taken (Child t) jobPid killed
  way : Forest.Path (Child t) jobPid path
  live : ∀ p ∈ path, p ∉ killed
  spid : s.spid = path.headD jobPid
  start : path = [] → s.pos = t.length
  stands : ∀ p rest, path = p :: rest → ∃ h : s.pos < t.length, t[s.pos].pid = p

section
variable {t : List Entry} {jobPid : Int32} {kill : List Int32 → Int32 → Killed}

theorem Processes.childRoot (h : Processes t jobPid) (p : Int32) : ¬ Child t p jobPid := by
  rintro ⟨e, he, -, hp⟩
  exact h.root e he hp

theorem Processes.inj (h : Processes t jobPid) {e e' : Entry} (he : e ∈ t) (he' : e' ∈ t) (hp : e.pid = e'.pid) :
    e = e' := List.inj_on_of_nodup_map h.distinct he he' hp

theorem Processes.parent (h : Processes t jobPid) (p p' q : Int32) (hc : Child t p q) (hc' : Child t p' q) : p = p' := by
  obtain ⟨e, he, hp, hq⟩ := hc
  obtain ⟨e', he', hp', hq'⟩ := hc'
  obtain rfl := h.inj he he' (hq.trans hq'.symm)
  exact hp.symm.trans hp'

/-- Where the search stands is not 0, the parent of blank entries. -/
theorem Inv.spid_ne_zero (hT : Processes t jobPid) {s : Search} {killed path : List Int32}
    (h : Inv t jobPid s killed path) : s.spid ≠ 0 := by
  rw [h.spid]
  cases hp : path with
  | nil => exact hT.job
  | cons p rest =>
    obtain ⟨hpos, he⟩ := h.stands p rest hp
    rw [List.headD_cons, ← he]
    exact hT.nonzero _ (List.getElem_mem hpos)

/-- A child is found: it is alive, and the way goes on to it. -/
theorem Inv.down (hT : Processes t jobPid) {s : Search} {killed path : List Int32} (h : Inv t jobPid s killed path)
    {i : Nat} (hi : s.jpt.findIdx? (fun e => e.ppid == s.spid) = some i) :
    ∃ q, Inv t jobPid { s with spid := (s.jpt.getD i ⟨0, 0⟩).pid, pos := i } killed (q :: path) := by
  obtain ⟨hlt, hhit, -⟩ := List.findIdx?_eq_some_iff_getElem.1 hi
  have hit : i < t.length := by simpa [h.table, clear] using hlt
  have hentry : s.jpt[i] = if t[i].pid ∈ killed then ⟨0, 0⟩ else t[i] := by simp [h.table, clear]
  have hget : s.jpt.getD i ⟨0, 0⟩ = s.jpt[i] := by simp [List.getD_eq_getElem?_getD, hlt]
  have hppid : s.jpt[i].ppid = s.spid := by simpa using hhit
  have halive : t[i].pid ∉ killed := by
    intro hin
    rw [hentry, if_pos hin] at hppid
    exact h.spid_ne_zero hT hppid.symm
  rw [hentry, if_neg halive] at hppid
  refine ⟨t[i].pid, ⟨h.table, h.taken, ?_, ?_, ?_, ?_, ?_⟩⟩
  · exact .cons ⟨t[i], List.getElem_mem hit, hppid.trans h.spid, rfl⟩ h.way
  · intro p hp
    obtain rfl | hin := List.mem_cons.1 hp
    · exact halive
    · exact h.live p hin
  · rw [hget, hentry, if_neg halive]
    rfl
  · exact fun hp => absurd hp (by simp)
  · intro p rest hp
    exact ⟨hit, (List.cons.inj hp).1⟩

/-- No child is found: all children are killed. -/
theorem Inv.children {s : Search} {killed path : List Int32} (h : Inv t jobPid s killed path)
    (hi : s.jpt.findIdx? (fun e => e.ppid == s.spid) = none) (q : Int32) (hc : Child t s.spid q) : q ∈ killed := by
  obtain ⟨e, he, hep, rfl⟩ := hc
  by_contra hlive
  have hin : e ∈ s.jpt := by
    rw [h.table]
    exact List.mem_map.2 ⟨e, he, if_neg hlive⟩
  have hmiss := List.findIdx?_eq_none_iff.1 hi e hin
  rw [hep] at hmiss
  exact absurd hmiss (by simp)

/-- What is blanked is where the search stands, which is killed. -/
theorem Inv.signal (hT : Processes t jobPid) {s : Search} {killed path : List Int32} {p : Int32} {rest : List Int32}
    (h : Inv t jobPid s killed path) (hp : path = p :: rest)
    (hi : s.jpt.findIdx? (fun e => e.ppid == s.spid) = none) :
    (s.jpt.getD s.pos ⟨0, 0⟩).pid = p ∧
      Inv t jobPid ⟨s.jpt.set s.pos ⟨0, 0⟩, jobPid, s.jpt.length⟩ (killed ++ [p]) [] := by
  obtain ⟨hpos, hpid⟩ := h.stands p rest hp
  have hnew : p ∉ killed := h.live p (by rw [hp]; exact List.mem_cons_self)
  have hspid : s.spid = p := by rw [h.spid, hp, List.headD_cons]
  have hget : s.jpt.getD s.pos ⟨0, 0⟩ = t[s.pos] := by
    rw [h.table, clear, List.getD_eq_getElem?_getD, List.getElem?_map, List.getElem?_eq_getElem hpos,
      Option.map_some, Option.getD_some, hpid, if_neg hnew]
  have hblank : s.jpt.set s.pos ⟨0, 0⟩ = clear t (killed ++ [p]) := by
    apply List.ext_getElem
    · simp [h.table, clear]
    · intro i h1 h2
      have hit : i < t.length := by simpa [clear] using h2
      simp only [h.table, clear, List.getElem_set, List.getElem_map, List.mem_append, List.mem_singleton]
      by_cases hsame : s.pos = i
      · subst hsame
        rw [if_pos rfl, if_pos (.inr hpid)]
      · have hother : t[i].pid ≠ p := by
          intro he
          have hentries := hT.inj (List.getElem_mem hpos) (List.getElem_mem hit) (hpid.trans he.symm)
          exact hsame ((List.getElem_inj (hT.distinct.of_map _)).1 hentries)
        simp only [if_neg hsame, hother, or_false]
  have hlen : s.jpt.length = t.length := by rw [h.table, clear, List.length_map]
  refine ⟨by rw [hget, hpid], hblank, ?_, .nil, ?_, rfl, fun _ => hlen, ?_⟩
  · exact .snoc (h.way.desc (by rw [hp]; exact List.mem_cons_self)) hnew (fun q hc => h.children hi q (hspid ▸ hc)) h.taken
  · exact fun q hq => absurd hq List.not_mem_nil
  · exact fun q rest hq => absurd hq (by simp)

/-- At most as many are killed, or stand on the way, as there are processes. -/
theorem length_le_of_below {l : List Int32} (hl : l.Nodup) (hb : ∀ p ∈ l, Relation.TransGen (Child t) jobPid p) :
    l.length ≤ t.length := by
  have hsub : l ⊆ t.map Entry.pid := by
    intro p hp
    obtain ⟨_, -, e, he, -, rfl⟩ := Relation.TransGen.tail'_iff.1 (hb p hp)
    exact List.mem_map_of_mem he
  have := (List.subperm_of_subset hl hsub).length_le
  rwa [List.length_map] at this

theorem Inv.path_le (hT : Processes t jobPid) {s : Search} {killed path : List Int32}
    (h : Inv t jobPid s killed path) : path.length ≤ t.length := by
  exact length_le_of_below (h.way.nodup hT.childRoot hT.parent) fun p hp => h.way.desc hp

/-- **The search.** It ends within a round for each process, and for each step
of the way to it; by induction on the rounds left. -/
theorem killLoop_spec (hT : Processes t jobPid) (hkill : ∀ killed pid, kill killed pid ≠ .failed) {fuel : Nat}
    {s : Search} {killed path : List Int32} (h : Inv t jobPid s killed path)
    (hfuel : (t.length - killed.length) * (t.length + 1) + (t.length - path.length) < fuel) :
    ∃ out, killLoop kill jobPid fuel s killed = .succeed out ∧ Forest.LeavesFirst (Child t) jobPid out := by
  induction fuel generalizing s killed path with
  | zero => omega
  | succ fuel ih =>
    have hlen : s.jpt.length = t.length := by rw [h.table, clear, List.length_map]
    rw [killLoop]
    cases hi : s.jpt.findIdx? fun e => e.ppid == s.spid with
    | some i =>
      obtain ⟨q, hdown⟩ := h.down hT hi
      have hle := hdown.path_le hT
      rw [List.length_cons] at hle
      exact ih hdown (by rw [List.length_cons]; omega)
    | none =>
      cases hp : path with
      | nil =>
        have hstop : s.pos = s.jpt.length := (h.start hp).trans hlen.symm
        have hroot : s.spid = jobPid := by rw [h.spid, hp, List.headD_nil]
        exact ⟨killed, if_pos hstop, h.taken.leavesFirst fun q hc => h.children hi q (hroot.symm ▸ hc)⟩
      | cons p rest =>
        obtain ⟨hpos, -⟩ := h.stands p rest hp
        obtain ⟨hpid, hnext⟩ := h.signal hT hp hi
        have hle := length_le_of_below hnext.taken.nodup fun r hr => hnext.taken.desc hr
        rw [List.length_append, List.length_singleton] at hle
        simp only [if_neg (show ¬ s.pos = s.jpt.length by omega), hpid, if_neg (hkill killed p)]
        refine ih hnext ?_
        have hround : (t.length - killed.length) * (t.length + 1) =
            (t.length - (killed.length + 1)) * (t.length + 1) + (t.length + 1) := by
          rw [← Nat.succ_mul]
          congr 1
          omega
        rw [List.length_append, List.length_singleton, List.length_nil]
        omega

theorem killLoop_more {fuel : Nat} {s : Search} {killed out : List Int32}
    (h : killLoop kill jobPid fuel s killed = .succeed out) (k : Nat) :
    killLoop kill jobPid (fuel + k) s killed = .succeed out := by
  induction fuel generalizing s killed with
  | zero => exact absurd h (by simp [killLoop])
  | succ fuel ih =>
    rw [Nat.add_right_comm]
    rw [killLoop] at h ⊢
    split at h
    · exact ih h
    · by_cases hstop : s.pos = s.jpt.length
      · rw [if_pos hstop] at h ⊢
        exact h
      · simp only [if_neg hstop] at h ⊢
        split at h
        · exact absurd h (by simp)
        · rename_i hgo
          rw [if_neg hgo]
          exact ih h

theorem killLoop_start (hT : Processes t jobPid) (hkill : ∀ killed pid, kill killed pid ≠ .failed) {fuel : Nat}
    (hfuel : t.length * (t.length + 1) + t.length < fuel) :
    ∃ out, killLoop kill jobPid fuel ⟨t, jobPid, t.length⟩ [] = .succeed out ∧
      Forest.LeavesFirst (Child t) jobPid out := by
  have hstart : Inv t jobPid ⟨t, jobPid, t.length⟩ [] [] := by
    refine ⟨?_, .nil, .nil, ?_, rfl, fun _ => rfl, ?_⟩
    · simp [clear]
    · exact fun p hp => absurd hp List.not_mem_nil
    · exact fun p rest hp => absurd hp (by simp)
  exact killLoop_spec hT hkill hstart hfuel

/-- The search ends, and has killed what is below the job, and nothing else,
leaves first. -/
theorem kills_below (kill : List Int32 → Int32 → Killed) (t : List Entry) (jobPid : Int32) (hT : Processes t jobPid)
    (hkill : ∀ killed pid, kill killed pid ≠ .failed) :
    ∃ out, (∀ fuel, t.length * (t.length + 1) + t.length < fuel →
        killLoop kill jobPid fuel ⟨t, jobPid, t.length⟩ [] = .succeed out) ∧
      Forest.LeavesFirst (Child t) jobPid out := by
  obtain ⟨out, hrun, hout⟩ := killLoop_start hT hkill (Nat.lt_succ_self _)
  refine ⟨out, ?_, hout⟩
  intro fuel hfuel
  obtain ⟨k, rfl⟩ := Nat.exists_eq_add_of_le hfuel
  exact killLoop_more hrun k

/-- A shell with two children, the second with one of its own, beside a
process that is its own grandparent. -/
theorem kills_below_shell :
    Processes [⟨3, 2⟩, ⟨2, 9⟩, ⟨4, 9⟩, ⟨5, 6⟩, ⟨6, 5⟩] 9 ∧
      ∃ out, (∀ fuel, 5 * (5 + 1) + 5 < fuel → killLoop (fun _ _ => .killed) 9 fuel
          ⟨[⟨3, 2⟩, ⟨2, 9⟩, ⟨4, 9⟩, ⟨5, 6⟩, ⟨6, 5⟩], 9, 5⟩ [] = .succeed out) ∧
        Forest.LeavesFirst (Child [⟨3, 2⟩, ⟨2, 9⟩, ⟨4, 9⟩, ⟨5, 6⟩, ⟨6, 5⟩]) 9 out := by
  have hT : Processes [⟨3, 2⟩, ⟨2, 9⟩, ⟨4, 9⟩, ⟨5, 6⟩, ⟨6, 5⟩] 9 :=
    ⟨by decide, by simp, by simp, by decide⟩
  exact ⟨hT, kills_below (fun _ _ => .killed) _ 9 hT fun _ _ => by simp⟩

end

/-! ## The whole function -/

/-- `sscanf(buf, "%d %d", &pid, &ppid)`, and 0 for the parent at the end of
the text; a number that is missing leaves its variable alone. -/
def sscanf (pid ppid : Int32) (buf : Text) : Int32 × Int32 :=
  match scanInt buf with
  | .eof => (pid, 0)
  | .mismatch => (pid, ppid)
  | .value p =>
    match scanInt ((unsigned (buf.dropWhile isSpace)).dropWhile Sql.isDigit) with
    | .value q => (p, q)
    | _ => (p, ppid)

/-- The table from the output of `ps`. -/
def psTable (jobPid : Int32) : Int32 → Int32 → List Text → List Entry
  | _, _, [] => []
  | pid, ppid, buf :: fp =>
    let (pid, ppid) := sscanf pid ppid buf
    if ppid ≤ 1 ∨ pid = jobPid then psTable jobPid pid ppid fp else ⟨pid, ppid⟩ :: psTable jobPid pid ppid fp

/-- `alive` is what `kill(job_pid, 0)` says, `pid` and `ppid` what the
variables hold, `ps` the lines behind the header, or `none` if `popen` fails.
mirrors src/jalibs/jakill.c:242-390 -/
def jaKill (kill : List Int32 → Int32 → Killed) (jobPid : Int32) (alive : Bool) (pid ppid : Int32)
    (procdir : List ProcEntry) (ps : Option (List Text)) (fuel : Nat) : Outcome :=
  if jobPid = 0 then .succeed []
  else if alive = false then .succeed []
  else
    let jpt := jaKillTable jobPid ppid procdir
    if jpt ≠ [] then killLoop kill jobPid fuel ⟨jpt, jobPid, jpt.length⟩ []
    else match ps with
      | none => .fail []
      | some fp =>
        let jpt := psTable jobPid pid ppid fp
        if jpt = [] then .succeed [] else killLoop kill jobPid fuel ⟨jpt, jobPid, jpt.length⟩ []

theorem ownParents_pid {procdir : List ProcEntry} {e : Entry} (he : e ∈ ownParents procdir) : e.pid ≠ 0 := by
  induction procdir with
  | nil => exact absurd he List.not_mem_nil
  | cons de procdir ih =>
    rw [ownParents] at he
    split at he
    · exact ih he
    · rename_i hpid
      split at he
      · exact ih he
      · obtain rfl | hin := List.mem_cons.1 he
        · exact hpid
        · exact ih hin

/-- A living job whose processes have names that do no harm: everything below
it by the files in `/proc` is killed, leaves first, and nothing else. -/
theorem jaKill_harmless {kill : List Int32 → Int32 → Killed} {jobPid ppid : Int32} {procdir : List ProcEntry}
    {t : List Entry} (hjob : jobPid ≠ 0) (hread : Harmless ppid (opened procdir))
    (hdistinct : ((ownParents procdir).map Entry.pid).Nodup) (ht : (ownParents procdir).filter (kept jobPid) = t)
    (hsome : t ≠ []) (hkill : ∀ killed pid, kill killed pid ≠ .failed) (pid : Int32) (ps : Option (List Text))
    {fuel : Nat} (hfuel : t.length * (t.length + 1) + t.length < fuel) :
    ∃ out, jaKill kill jobPid true pid ppid procdir ps fuel = .succeed out ∧
      Forest.LeavesFirst (Child t) jobPid out := by
  have htable : jaKillTable jobPid ppid procdir = t := by
    rw [jaKillTable_eq, (recorded_iff ppid procdir).2 hread, ht]
  have hT : Processes t jobPid := by
    subst ht
    refine ⟨hdistinct.sublist (List.filter_sublist.map _), ?_, ?_, hjob⟩
    · exact fun e he => ownParents_pid (List.mem_filter.1 he).1
    · intro e he hpid
      have := (List.mem_filter.1 he).2
      simp [kept, hpid] at this
  simp only [jaKill, if_neg hjob, htable, ne_eq, hsome, not_false_eq_true, if_true, Bool.true_eq_false, if_false]
  exact killLoop_start hT hkill hfuel

end JobArranger.Agent.KillTree
