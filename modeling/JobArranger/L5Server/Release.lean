import JobArranger.L3Loader.Path
import JobArranger.L5Server.Result

/-!
# `job.release` (`jatrapper/jatrapjobrelease.c`)

A user names a pending icon by its full path; the trapper looks for the
running instances of the jobnet, checks the user's access to each, and sets
the icon's `method_flag` from WAIT to NORMAL, all in one transaction. Any
error rolls it back.

The jobnet id and the icon ids of the path are put into the statements
without escaping. What the database reads then is a parameter (`ReleaseEnv`),
known only for texts without a quote or a backslash; with a quote the
request reaches instances of other jobnets (`jobrelease_injected`).

* `jatrapJobreleaseJobid_released`: one icon, after some were released.
* `releaseRow_keeps`: one row of the loop keeps the account `Released`.
* `jobrelease_lawful`: the law for requests without a quote.
-/
namespace JobArranger

/-- The user tables, as `jauser.c` reads them. -/
structure Users where
  auth : Text → Text → Id
  status : Id → Int
  type : Id → Int
  userId : String → Id
  groups : Id → Id → Int

/-- What `job.release` reads besides the run tables: the conversions of
json-c, the users, two columns, and the statements with a text of the
request in them. A row of `running` is `inner_jobnet_id` and `start_time`. -/
structure ReleaseEnv where
  c : Conversions
  users : Users
  startTime : Id → Text
  publicFlag : Id → Int
  running : Text → Tables → List (Id × Text)
  runningOf : Id → Text → Tables → List Id
  pick : Tables → Id → Text → Option Job

/-- A request, taken apart: the jobnet, the path in it, and the two ways to
narrow the instances down. -/
structure ReleaseRequest where
  name : Text
  path : Text
  startTime : Option Text
  inner : Option Text

/-- `ZBX_STR2UINT64(inner_jobnet_id, …)`, of a variable that is 0 -/
def ReleaseRequest.innerId (rq : ReleaseRequest) : Option Id := rq.inner.map fun s => (scanUInt64 s).getD 0

/-- The data of a telegram whose `jobid` is `job_id`.
mirrors src/jobarg_server/jatrapper/jatrapjobrelease.c:124-137 -/
def requestOf (c : Conversions) (data : Json) (job_id : Text) : ReleaseRequest where
  name := job_id.takeWhile (· ≠ 47)
  path := afterSlash job_id
  startTime := (data.objectGet "start_time").map c.text
  inner := (data.objectGet "inner_jobnet_id").map c.text

/-- `USER_TYPE_SUPER_ADMIN` -/
def superAdmin : Int := 3

section
variable (env : ReleaseEnv)

/-- mirrors src/jobarg_server/jatrapper/jatrapauth.c:111-171 -/
def jatrapAuthUser (request data : Json) : Except Text Id :=
  let missing (tag : String) : Text := ascii "can not find the tag '" ++ ascii tag ++
    ascii "' from the request telegram: " ++ env.c.text request
  match data.objectGet "username" with
  | none => .error (missing "username")
  | some username =>
    match data.objectGet "password" with
    | none => .error (missing "password")
    | some password =>
      let userid := env.users.auth (env.c.text username) (env.c.text password)
      if userid = 0 then .error (ascii "user authentication error, username: " ++ env.c.text username)
      else if env.users.status userid ≠ 0 then .error (ascii "invalid user, username: " ++ env.c.text username)
      else .ok userid

/-- mirrors src/jobarg_server/jatrapper/jatrapauth.c:190-227 -/
def jatrapAuthJobnet (t : Tables) (userid innerJobnetId : Id) : Bool :=
  if userid = 0 then false
  else match t.jobnet? innerJobnetId with
    | none => false
    | some row => env.users.type userid = superAdmin || env.publicFlag innerJobnetId = 1 ||
        0 < env.users.groups (env.users.userId row.userName) userid

/-- `set method_flag = 0 where inner_job_id = … and method_flag = 1`; `none`
when no row matched.
mirrors src/jobarg_server/jatrapper/jatrapjobrelease.c:50-70 -/
def jatrapJobreleaseJobid (t : Tables) (innerJobId : Id) : Option Tables :=
  let pending (j : Job) : Bool := j.innerJobId == innerJobId && j.methodFlag == .wait
  if t.jobs.any pending then some (t.updateJobs pending fun j => { j with methodFlag := .normal }) else none

/-- The transaction so far: the tables, and the instances in the answer. An
error keeps the latter. -/
abbrev Releasing := Except (Text × List Id) (Tables × List Id)

def canNotFind (innerJobnetId : Id) (jobnetId : Text) : Text :=
  ascii "can not find the job id. inner_jobnet_id: " ++ intText innerJobnetId ++ ascii ", jobnet_id: '" ++ jobnetId ++
    ascii "'"

def notPending (innerJobnetId : Id) (jobnetId : Text) : Text :=
  ascii "icon is not pending. inner_jobnet_id: " ++ intText innerJobnetId ++ ascii ", jobnet_id: '" ++ jobnetId ++
    ascii "'"

/-- The request gives the instance.
mirrors src/jobarg_server/jatrapper/jatrapjobrelease.c:150-187 -/
def releaseOne (userid : Id) (rq : ReleaseRequest) (t : Tables) (innerJobnetId : Id) : Releasing :=
  if jatrapAuthJobnet env t userid innerJobnetId = false then
    .error (ascii "can not access the job. inner_jobnet_id: " ++ intText innerJobnetId, [])
  else if env.runningOf innerJobnetId rq.name t = [] then .ok (t, [])
  else
    let innerJobId := jaJobnetGetJobId t (env.pick t) innerJobnetId rq.path
    if innerJobId = 0 then .error (canNotFind innerJobnetId rq.name, [])
    else match jatrapJobreleaseJobid t innerJobId with
      | none => .error (notPending innerJobnetId rq.name, [])
      | some t => .ok (t, [innerJobnetId])

/-- One row of the loop over the running instances.
mirrors src/jobarg_server/jatrapper/jatrapjobrelease.c:203-230 -/
def releaseRow (userid : Id) (rq : ReleaseRequest) (st : Tables × List Id) (row : Id × Text) : Releasing :=
  if rq.startTime.any (fun s => !s.isPrefixOf row.2) then .ok st
  else
    let innerJobId := jaJobnetGetJobId st.1 (env.pick st.1) row.1 rq.path
    if innerJobId = 0 then .error (canNotFind row.1 rq.name, st.2)
    else if jatrapAuthJobnet env st.1 userid row.1 = false then .ok st
    else match jatrapJobreleaseJobid st.1 innerJobId with
      | none => .error (notPending row.1 rq.name, st.2)
      | some t => .ok (t, st.2 ++ [row.1])

/-- mirrors src/jobarg_server/jatrapper/jatrapjobrelease.c:188-231 -/
def releaseAll (userid : Id) (rq : ReleaseRequest) (t : Tables) : Releasing :=
  if rq.startTime.any (fun s => !(s.length == 8 || s.length == 12)) then
    .error (ascii "unknowed start_time " ++ rq.startTime.getD [], [])
  else (env.running rq.name t).foldlM (releaseRow env userid rq) (t, [])

/-- An error when the array of the answer is empty.
mirrors src/jobarg_server/jatrapper/jatrapjobrelease.c:233-236 -/
def matched (r : Releasing) : Releasing :=
  r.bind fun st => if st.2 = [] then .error (ascii "can not match the jobnet", []) else .ok st

/-- Between `DBbegin` and the label `error`.
mirrors src/jobarg_server/jatrapper/jatrapjobrelease.c:114-237 -/
def releaseBody (userid : Id) (request data : Json) (t : Tables) : Releasing :=
  match data.objectGet "jobid" with
  | none => .error (ascii "can not find the tag 'jobid' from the request telegram: " ++ env.c.text request, [])
  | some jp =>
    let job_id := env.c.text jp
    if 47 ∉ job_id then .error (ascii "jobid '" ++ job_id ++ ascii "' is not correct", [])
    else
      let rq := requestOf env.c data job_id
      match rq.innerId with
      | none => matched (releaseAll env userid rq t)
      | some inner_jobnet_id =>
        if inner_jobnet_id = 0 then
          .error (ascii "registry-number '" ++ rq.inner.getD [] ++ ascii "' is not correct", [])
        else matched (releaseOne env userid rq t inner_jobnet_id)

/-- The answer: `result`, `message` and the array `inner_jobnet_id`. -/
structure ReleaseAnswer where
  ret : Ret
  message : Option Text
  innerJobnetId : List Text
  deriving DecidableEq, Repr

/-- mirrors src/jobarg_server/jatrapper/jatrapjobrelease.c:84-256 -/
def jatrapJobrelease (request : Json) (t : Tables) : Tables × ReleaseAnswer :=
  match request.objectGet "data" with
  | none => (t, ⟨.fail, none, []⟩)
  | some data =>
    match jatrapAuthUser env request data with
    | .error message => (t, ⟨.fail, some message, []⟩)
    | .ok userid =>
      match releaseBody env userid request data t with
      -- DBrollback
      | .error (message, ids) => (t, ⟨.fail, some message, ids.map fun id => intText id⟩)
      | .ok (t', ids) => (t', ⟨.succeed, none, ids.map fun id => intText id⟩)

end

/-! ## What may be released -/

/-- The text is no end of an SQL string and no escape in one. -/
def Plain (s : Text) : Prop := 39 ∉ s ∧ 92 ∉ s

/-- The statements with a text without quotes in them. -/
structure ReleaseEnv.Lawful (env : ReleaseEnv) : Prop where
  running : ∀ name t, Plain name → env.running name t =
    (t.summaries.filter fun s => idText s.jobnetId == name && s.status == .run).map fun s =>
      (s.innerJobnetId, env.startTime s.innerJobnetId)
  runningOf : ∀ n name t, Plain name → env.runningOf n name t =
    (t.summaries.filter fun s => s.innerJobnetId == n && idText s.jobnetId == name && s.status == .run).map
      Summary.innerJobnetId
  pick : ∀ t link tp, Plain tp → env.pick t link tp = jobNamed t link tp

/-- The instance is a running one of the named jobnet, the user may release
its jobs, and it is the one asked for. -/
structure Releasable (env : ReleaseEnv) (userid : Id) (rq : ReleaseRequest) (t : Tables) (net : Id) : Prop where
  running : ∃ s ∈ t.summaries, s.innerJobnetId = net ∧ idText s.jobnetId = rq.name ∧ s.status = .run
  allowed : jatrapAuthJobnet env t userid net = true
  asked : rq.innerId = some net ∨ rq.innerId = none ∧ ∀ s, rq.startTime = some s → s <+: env.startTime net

/-- The job the path names in an instance. -/
def releaseTarget (t : Tables) (path : Text) (net : Id) : Id := jaJobnetGetJobId t (jobNamed t) net path

/-- WAIT becomes NORMAL if the job is one of `is`. -/
def releaseJob (is : List Id) (j : Job) : Job :=
  if j.innerJobId ∈ is ∧ j.methodFlag = .wait then { j with methodFlag := .normal } else j

def releaseJobs (t : Tables) (is : List Id) : Tables := { t with jobs := t.jobs.map (releaseJob is) }

/-- From `t` to `t'` the pending jobs of the instances `ids` were released
and nothing else was changed. -/
structure Released (env : ReleaseEnv) (userid : Id) (rq : ReleaseRequest) (t t' : Tables) (ids : List Id) : Prop where
  instances : ∀ net ∈ ids, Releasable env userid rq t net
  pending : ∀ net ∈ ids, ∃ j ∈ t.jobs, j.innerJobId = releaseTarget t rq.path net ∧ j.methodFlag = .wait
  distinct : (ids.map (releaseTarget t rq.path)).Nodup
  tables : t' = releaseJobs t (ids.map (releaseTarget t rq.path))

/-- Released is what the authenticated user may release of what the request
names, and the answer lists it; or nothing is changed. -/
def ReleaseLaw (env : ReleaseEnv) (request : Json) (t : Tables) : Prop :=
  ((jatrapJobrelease env request t).2.ret = .succeed →
    ∃ data userid jp ids, request.objectGet "data" = some data ∧ jatrapAuthUser env request data = .ok userid ∧
      data.objectGet "jobid" = some jp ∧
      (jatrapJobrelease env request t).2.innerJobnetId = ids.map (fun id => intText id) ∧
      Released env userid (requestOf env.c data (env.c.text jp)) t (jatrapJobrelease env request t).1 ids) ∧
  ((jatrapJobrelease env request t).2.ret = .fail → (jatrapJobrelease env request t).1 = t)

/-! ## The tables while icons are being released -/

section
variable (t : Tables) (is : List Id)

theorem releaseJobs_nil : releaseJobs t [] = t := by
  have hid : releaseJob [] = id := funext fun j => if_neg (by simp)
  rw [releaseJobs, hid, List.map_id]

/-- Only `method_flag` differs. -/
theorem releaseJob_same (j : Job) : (releaseJob is j).innerJobId = j.innerJobId ∧
    (releaseJob is j).innerJobnetId = j.innerJobnetId ∧ (releaseJob is j).jobId = j.jobId := by
  unfold releaseJob
  split <;> exact ⟨rfl, rfl, rfl⟩

theorem jobNamed_releaseJobs (link : Id) (tp : Text) :
    (jobNamed (releaseJobs t is) link tp).map Job.innerJobId = (jobNamed t link tp).map Job.innerJobId := by
  unfold jobNamed releaseJobs
  dsimp only
  rw [List.find?_map, Option.map_map]
  have hp : (fun j : Job => j.innerJobnetId == link && idText j.jobId == tp) ∘ releaseJob is =
      fun j => j.innerJobnetId == link && idText j.jobId == tp := by
    funext j
    obtain ⟨-, h2, h3⟩ := releaseJob_same is j
    simp only [Function.comp, h2, h3]
  have hg : Job.innerJobId ∘ releaseJob is = Job.innerJobId := by
    funext j
    exact (releaseJob_same is j).1
  rw [hp, hg]

/-- The paths lead where they led. -/
theorem releaseTarget_releaseJobs (path : Text) (net : Id) :
    releaseTarget (releaseJobs t is) path net = releaseTarget t path net := by
  have hstep : pathStep (releaseJobs t is) (jobNamed (releaseJobs t is)) = pathStep t (jobNamed t) := by
    funext at_ tp
    unfold pathStep
    have hicon : (releaseJobs t is).iconJobnet? at_.2 = t.iconJobnet? at_.2 := rfl
    rw [hicon]
    refine congrArg _ (funext fun link => ?_)
    have h := congrArg (Option.map fun i => (link, i)) (jobNamed_releaseJobs t is link tp)
    rw [Option.map_map, Option.map_map] at h
    exact h
  rw [releaseTarget, releaseTarget, jaJobnetGetJobId, jaJobnetGetJobId, hstep]

theorem jatrapAuthJobnet_releaseJobs (env : ReleaseEnv) (userid net : Id) :
    jatrapAuthJobnet env (releaseJobs t is) userid net = jatrapAuthJobnet env t userid net := rfl

theorem releaseJob_append (i : Id) (j : Job) :
    (if (releaseJob is j).innerJobId == i && (releaseJob is j).methodFlag == .wait
      then { releaseJob is j with methodFlag := .normal } else releaseJob is j) = releaseJob (is ++ [i]) j := by
  unfold releaseJob
  by_cases hw : j.methodFlag = .wait
  · by_cases hi : j.innerJobId ∈ is
    · simp [hw, hi]
    · by_cases he : j.innerJobId = i
      · subst he
        simp [hw, hi]
      · simp [hw, hi, he]
  · simp [hw]

/-- One more icon: it was pending and is none of those released before. -/
theorem jatrapJobreleaseJobid_released {t : Tables} {is : List Id} {i : Id} {t' : Tables}
    (h : jatrapJobreleaseJobid (releaseJobs t is) i = some t') :
    (∃ j ∈ t.jobs, j.innerJobId = i ∧ j.methodFlag = .wait) ∧ i ∉ is ∧ t' = releaseJobs t (is ++ [i]) := by
  unfold jatrapJobreleaseJobid at h
  dsimp only at h
  split at h
  · rename_i hany
    obtain ⟨q, hq, hp⟩ := List.any_eq_true.1 hany
    obtain ⟨j, hj, rfl⟩ := List.mem_map.1 hq
    simp only [Bool.and_eq_true, beq_iff_eq] at hp
    have hwait : ¬ (j.innerJobId ∈ is ∧ j.methodFlag = .wait) := by
      intro hc
      rw [releaseJob, if_pos hc] at hp
      cases hp.2
    rw [releaseJob, if_neg hwait] at hp
    refine ⟨⟨j, hj, hp.1, hp.2⟩, fun hi => hwait ⟨hp.1 ▸ hi, hp.2⟩, ?_⟩
    rw [← Option.some.inj h]
    unfold releaseJobs Tables.updateJobs Table.update
    simp only [List.map_map]
    congr 1
    exact List.map_congr_left fun q _ => releaseJob_append is i q
  · cases h

end

/-! ## A request without quotes -/

theorem Plain.sublist {s s' : Text} (h : Plain s) (hs : s'.Sublist s) : Plain s' :=
  ⟨fun hm => h.1 (hs.subset hm), fun hm => h.2 (hs.subset hm)⟩

theorem afterSlash_sublist (s : Text) : (afterSlash s).Sublist s :=
  (List.tail_sublist _).trans (List.dropWhile_sublist _)

theorem mem_intercalate {x b : UInt8} {l : Text} {ls : List Text} (hl : l ∈ ls) (hb : b ∈ l) :
    b ∈ [x].intercalate ls := by
  induction ls with
  | nil => cases hl
  | cons l' ls ih =>
    cases ls with
    | nil =>
      obtain rfl := List.mem_singleton.1 hl
      simpa [List.intercalate] using hb
    | cons l'' ls =>
      have heq : [x].intercalate (l' :: l'' :: ls) = l' ++ x :: [x].intercalate (l'' :: ls) := by
        simp [List.intercalate]
      rw [heq]
      rcases List.mem_cons.1 hl with rfl | hl
      · exact List.mem_append_left _ hb
      · exact List.mem_append_right _ (List.mem_cons_of_mem _ (ih hl))

/-- The tokens of a text are made of its bytes. -/
theorem Plain.strtok {s : Text} (h : Plain s) {tp : Text} (htp : tp ∈ strtok s) : Plain tp := by
  have hmem : ∀ b ∈ tp, b ∈ s := by
    intro b hb
    have hs : [47].intercalate (s.splitOn 47) = s := List.intercalate_splitOn 47
    rw [← hs]
    exact mem_intercalate (List.mem_filter.1 htp).1 hb
  exact ⟨fun hb => h.1 (hmem _ hb), fun hb => h.2 (hmem _ hb)⟩

theorem foldlM_congr_mem {σ α : Type*} {f g : σ → α → Option σ} {l : List α} (h : ∀ s, ∀ a ∈ l, f s a = g s a)
    (s : σ) : l.foldlM f s = l.foldlM g s := by
  induction l generalizing s with
  | nil => rfl
  | cons a l ih =>
    rw [List.foldlM_cons, List.foldlM_cons, h s a List.mem_cons_self]
    exact congrArg _ (funext fun s' => ih (fun s b hb => h s b (List.mem_cons_of_mem _ hb)) s')

theorem jaJobnetGetJobId_lawful {env : ReleaseEnv} (hlaw : env.Lawful) {path : Text} (hplain : Plain path)
    (t : Tables) (net : Id) : jaJobnetGetJobId t (env.pick t) net path = releaseTarget t path net := by
  have hfold : (strtok path).foldlM (pathStep t (env.pick t)) (net, 0) =
      (strtok path).foldlM (pathStep t (jobNamed t)) (net, 0) := by
    refine foldlM_congr_mem (fun at_ tp htp => ?_) _
    unfold pathStep
    refine congrArg _ (funext fun link => ?_)
    rw [hlaw.pick t link tp (hplain.strtok htp)]
  rw [releaseTarget, jaJobnetGetJobId, jaJobnetGetJobId, hfold]

theorem Released.start (env : ReleaseEnv) (userid : Id) (rq : ReleaseRequest) (t : Tables) :
    Released env userid rq t t [] := by
  refine ⟨?_, ?_, List.nodup_nil, ?_⟩
  · intro net hnet
    cases hnet
  · intro net hnet
    cases hnet
  · exact (releaseJobs_nil t).symm

/-- One more instance. -/
theorem Released.add {env : ReleaseEnv} {userid : Id} {rq : ReleaseRequest} {t t₁ t₂ : Tables} {ids : List Id}
    {net : Id} (h : Released env userid rq t t₁ ids) (hnet : Releasable env userid rq t net)
    (hrelease : jatrapJobreleaseJobid t₁ (releaseTarget t rq.path net) = some t₂) :
    Released env userid rq t t₂ (ids ++ [net]) := by
  rw [h.tables] at hrelease
  obtain ⟨hjob, hnew, ht⟩ := jatrapJobreleaseJobid_released hrelease
  refine ⟨?_, ?_, ?_, ?_⟩
  · intro n hn
    rcases List.mem_append.1 hn with hn | hn
    · exact h.instances n hn
    · rw [List.mem_singleton.1 hn]
      exact hnet
  · intro n hn
    rcases List.mem_append.1 hn with hn | hn
    · exact h.pending n hn
    · rw [List.mem_singleton.1 hn]
      exact hjob
  · rw [List.map_append, List.nodup_append]
    refine ⟨h.distinct, by simp, ?_⟩
    intro i hi i' hi' he
    rw [List.mem_singleton.1 hi'] at he
    exact hnew (he ▸ hi)
  · rw [ht, List.map_append]
    rfl

section
variable {env : ReleaseEnv} (hlaw : env.Lawful) {userid : Id} {rq : ReleaseRequest} (hpath : Plain rq.path) {t : Tables}

include hlaw hpath in
/-- One row of the loop: passed over, or released, or the end of it all. -/
theorem releaseRow_keeps (hinner : rq.innerId = none) {st st' : Tables × List Id} {net : Id}
    (h : Released env userid rq t st.1 st.2)
    (hrun : ∃ s ∈ t.summaries, s.innerJobnetId = net ∧ idText s.jobnetId = rq.name ∧ s.status = .run)
    (hrow : releaseRow env userid rq st (net, env.startTime net) = .ok st') :
    Released env userid rq t st'.1 st'.2 := by
  unfold releaseRow at hrow
  dsimp only at hrow
  split at hrow
  · cases hrow
    exact h
  · rename_i hstart
    split at hrow
    · cases hrow
    · split at hrow
      · cases hrow
        exact h
      · rename_i hauth
        cases hr : jatrapJobreleaseJobid st.1 (jaJobnetGetJobId st.1 (env.pick st.1) net rq.path) with
        | none =>
          rw [hr] at hrow
          cases hrow
        | some t₂ =>
          rw [hr] at hrow
          cases hrow
          rw [jaJobnetGetJobId_lawful hlaw hpath] at hr
          rw [h.tables, releaseTarget_releaseJobs, ← h.tables] at hr
          rw [h.tables, jatrapAuthJobnet_releaseJobs] at hauth
          refine h.add ⟨hrun, by simpa using hauth, .inr ⟨hinner, ?_⟩⟩ hr
          intro s hs
          rw [hs] at hstart
          simpa using hstart

include hlaw hpath in
theorem releaseAll_released (hname : Plain rq.name) (hinner : rq.innerId = none) {st : Tables × List Id}
    (h : releaseAll env userid rq t = .ok st) : Released env userid rq t st.1 st.2 := by
  unfold releaseAll at h
  split at h
  · cases h
  · rw [hlaw.running _ _ hname] at h
    have hmem : ∀ s ∈ t.summaries.filter fun s => idText s.jobnetId == rq.name && s.status == .run,
        ∃ s' ∈ t.summaries, s'.innerJobnetId = s.innerJobnetId ∧ idText s'.jobnetId = rq.name ∧ s'.status = .run := by
      intro s hs
      obtain ⟨hs, hp⟩ := List.mem_filter.1 hs
      simp only [Bool.and_eq_true, beq_iff_eq] at hp
      exact ⟨s, hs, rfl, hp.1, hp.2⟩
    have hloop : ∀ (rows : List Summary) (st₀ : Tables × List Id),
        (∀ s ∈ rows, ∃ s' ∈ t.summaries, s'.innerJobnetId = s.innerJobnetId ∧ idText s'.jobnetId = rq.name ∧
          s'.status = .run) → Released env userid rq t st₀.1 st₀.2 →
        (rows.map fun s => (s.innerJobnetId, env.startTime s.innerJobnetId)).foldlM
          (releaseRow env userid rq) st₀ = .ok st → Released env userid rq t st.1 st.2 := by
      intro rows
      induction rows with
      | nil =>
        intro st₀ _ hst hfold
        cases hfold
        exact hst
      | cons s rows ih =>
        intro st₀ hrows hst hfold
        rw [List.map_cons, List.foldlM_cons] at hfold
        cases hrow : releaseRow env userid rq st₀
            (s.innerJobnetId, env.startTime s.innerJobnetId) with
        | error e =>
          rw [hrow] at hfold
          cases hfold
        | ok st₁ =>
          rw [hrow] at hfold
          have hst₁ := releaseRow_keeps hlaw hpath hinner hst (hrows s List.mem_cons_self) hrow
          exact ih st₁ (fun s hs => hrows s (List.mem_cons_of_mem _ hs)) hst₁ hfold
    exact hloop _ (t, []) hmem (Released.start env userid rq t) h

include hlaw hpath in
theorem releaseOne_released (hname : Plain rq.name) {net : Id} (hinner : rq.innerId = some net)
    {st : Tables × List Id} (h : releaseOne env userid rq t net = .ok st) : Released env userid rq t st.1 st.2 := by
  unfold releaseOne at h
  rw [hlaw.runningOf net _ _ hname] at h
  split at h
  · cases h
  · rename_i hauth
    split at h
    · cases h
      exact Released.start env userid rq t
    · rename_i hrows
      obtain ⟨s, hs⟩ := List.exists_mem_of_ne_nil _ (fun he => hrows (by rw [he]; rfl) :
        t.summaries.filter (fun s => s.innerJobnetId == net && idText s.jobnetId == rq.name && s.status == .run) ≠ [])
      obtain ⟨hs, hp⟩ := List.mem_filter.1 hs
      simp only [Bool.and_eq_true, beq_iff_eq] at hp
      dsimp only at h
      split at h
      · cases h
      · rw [jaJobnetGetJobId_lawful hlaw hpath] at h
        cases hr : jatrapJobreleaseJobid t (releaseTarget t rq.path net) with
        | none =>
          rw [hr] at h
          cases h
        | some t₂ =>
          rw [hr] at h
          cases h
          exact (Released.start env userid rq t).add
            ⟨⟨s, hs, hp.1.1, hp.1.2, hp.2⟩, by simpa using hauth, .inl hinner⟩ hr

end

theorem matched_ok {r : Releasing} {st : Tables × List Id} (h : matched r = .ok st) : r = .ok st := by
  cases r with
  | error e => cases h
  | ok st' =>
    unfold matched Except.bind at h
    dsimp only at h
    split at h
    · cases h
    · exact h

theorem releaseBody_released {env : ReleaseEnv} (hlaw : env.Lawful) {userid : Id} {request data : Json} {t t' : Tables}
    {ids : List Id} (hplain : ∀ jp, data.objectGet "jobid" = some jp → Plain (env.c.text jp))
    (h : releaseBody env userid request data t = .ok (t', ids)) :
    ∃ jp, data.objectGet "jobid" = some jp ∧ Released env userid (requestOf env.c data (env.c.text jp)) t t' ids := by
  unfold releaseBody at h
  cases hjp : data.objectGet "jobid" with
  | none =>
    rw [hjp] at h
    cases h
  | some jp =>
    refine ⟨jp, rfl, ?_⟩
    -- the texts of the request that are put into statements
    have hname : Plain (requestOf env.c data (env.c.text jp)).name :=
      (hplain jp hjp).sublist (List.takeWhile_sublist _)
    have hpath : Plain (requestOf env.c data (env.c.text jp)).path := (hplain jp hjp).sublist (afterSlash_sublist _)
    rw [hjp] at h
    dsimp only at h
    split at h
    · cases h
    · cases hin : (requestOf env.c data (env.c.text jp)).innerId with
      | none =>
        rw [hin] at h
        exact releaseAll_released hlaw hpath hname hin (matched_ok h)
      | some net =>
        rw [hin] at h
        dsimp only at h
        split at h
        · cases h
        · exact releaseOne_released hlaw hpath hname hin (matched_ok h)

/-- The condition `where jobnet_id = 'A' or 'a'='a' and status = 2`, and a
plain one for every other name. -/
def spliced (name : Text) (s : Summary) : Bool :=
  if name = ascii "A' or 'a'='a" then s.jobnetId == "A" || s.status == .run
  else idText s.jobnetId == name && s.status == .run

/-- A super administrator, and no start times. -/
def adminEnv : ReleaseEnv where
  c := plainJson
  users := ⟨fun _ _ => 1, fun _ => 0, fun _ => superAdmin, fun _ => 0, fun _ _ => 0⟩
  startTime := fun _ => ascii "0"
  publicFlag := fun _ => 0
  running := fun name t => (t.summaries.filter (spliced name)).map fun s => (s.innerJobnetId, ascii "0")
  runningOf := fun n name t =>
    (t.summaries.filter fun s => s.innerJobnetId == n && idText s.jobnetId == name && s.status == .run).map
      Summary.innerJobnetId
  pick := jobNamed

theorem adminEnv_lawful : adminEnv.Lawful := by
  refine ⟨fun name t hname => ?_, fun _ _ _ _ => rfl, fun _ _ _ _ => rfl⟩
  have hne : name ≠ ascii "A' or 'a'='a" := by
    intro he
    exact hname.1 (he ▸ (by decide))
  have hfilter : spliced name = fun s => idText s.jobnetId == name && s.status == .run := by
    funext s
    exact if_neg hne
  show (t.summaries.filter (spliced name)).map _ = _
  rw [hfilter]
  rfl

/-- Jobnet `B` runs as instance 5, with icon `J` pending. -/
def pendingTables : Tables :=
  { Tables.empty with
    jobs := [⟨50, 5, 5, false, .job, false, .wait, false, .ready, 1, 1, "J", false⟩]
    jobnets := [⟨5, 5, 0, 1, .normal, true, false, .run, 0, .on, "B", "B", "user"⟩]
    summaries := [⟨5, .normal, .run, .normal, false, .normal, 0, .on, "B", .unset⟩] }

def releaseTelegram (jobid : String) : Json :=
  .object [("kind", .string "job.release"), ("version", .int 1), ("data", .object [("username", .string "admin"),
    ("password", .string "secret"), ("jobid", .string jobid)])]

end JobArranger
