import JobArranger.L3Loader.Unfold

/-!
# Full job paths (`jalibs/jajobid.c`, `jalibs/jajobnet.c`)

`ja_get_jobid` names a run job by walking up: the job, the jobnet icon its
jobnet hangs on, the icon of that one, until a jobnet is the main jobnet of
its instance. The ids are written into a buffer of 4096 bytes from its end.
`ja_jobnet_get_job_id` takes such a path apart with `strtok` and walks down
from the main jobnet. Both are proved along `IconPath`, the chain of icons
above a job, which the loaded instance has for each of its jobs.

* `Unfolded.iconPath`: every job of a loaded instance hangs on such a chain.
* `IconPath.up`, `IconPath.down`: the two walks.
* `job_path_inverts`: the path of a job leads back to it, and to it only.
-/
namespace JobArranger

/-- The bytes of an id. -/
def idText (s : String) : Text := s.toByteArray.data.toList

theorem idText_inj {s t : String} (h : idText s = idText t) : s = t :=
  String.toByteArray_inj.1 (ByteArray.ext (Array.toList_inj.1 h))

/-! ## Up -/

/-- The loop of `ja_get_jobid`; `path` is what the buffer holds from `idx`
on, so `idx` is 4095 less its length. `none` when it is still running.
mirrors src/jalibs/jajobid.c:124-168 -/
def jobidLoop (t : Tables) : Nat → Id → Text → Id → Option (Text × Id)
  | 0, _, _, _ => none
  | fuel + 1, w_inner_job_id, path, inner_jobnet_main_id =>
    match t.job? w_inner_job_id with
    | none => some (path, inner_jobnet_main_id)
    | some row =>
      let job_id := idText row.jobId
      if 4095 < path.length + (job_id.length + 1) then some (path, row.innerJobnetMainId)
      else if row.innerJobnetId = row.innerJobnetMainId then
        some (47 :: (job_id ++ path), row.innerJobnetMainId)
      else match t.iconJobnets.find? (·.linkInnerJobnetId == row.innerJobnetId) with
        | none => some (47 :: (job_id ++ path), row.innerJobnetMainId)
        | some row2 => jobidLoop t fuel row2.innerJobId (47 :: (job_id ++ path)) row.innerJobnetMainId

/-- The main jobnet id goes through a buffer of 33 bytes.
mirrors src/jalibs/jajobid.c:93-188 -/
def jaGetJobid (t : Tables) (fuel : Nat) (innerJobId : Id) : Option Text :=
  if innerJobId = 0 then some []
  else (jobidLoop t fuel innerJobId [] 0).map fun (path, inner_jobnet_main_id) =>
    if inner_jobnet_main_id = 0 then path
    else
      let main_jobnet_id := ((t.jobnet? inner_jobnet_main_id).map fun n => (idText n.jobnetId).take 32).getD []
      if path.length + main_jobnet_id.length ≤ 4095 then main_jobnet_id ++ path else path

/-! ## Down -/

/-- The tokens of `strtok(s, "/")`. -/
def strtok (s : Text) : List Text := (s.splitOn 47).filter (· ≠ [])

/-- One token: into the jobnet of the icon reached so far, then to the job of
that name. `pick` is the statement with the token put in. -/
def pathStep (t : Tables) (pick : Id → Text → Option Job) (at_ : Id × Id) (tp : Text) : Option (Id × Id) :=
  (if 0 < at_.2 then (t.iconJobnet? at_.2).map IconJobnet.linkInnerJobnetId else some at_.1).bind fun link =>
    (pick link tp).map fun j => (link, j.innerJobId)

/-- mirrors src/jalibs/jajobnet.c:84-134 -/
def jaJobnetGetJobId (t : Tables) (pick : Id → Text → Option Job) (innerJobnetId : Id) (getJobId : Text) : Id :=
  if innerJobnetId = 0 then 0
  else (((strtok getJobId).foldlM (pathStep t pick) (innerJobnetId, 0)).map Prod.snd).getD 0

/-- `where inner_jobnet_id = … and job_id = '…'` for an id without quotes. -/
def jobNamed (t : Tables) (link : Id) (tp : Text) : Option Job :=
  t.jobs.find? fun j => j.innerJobnetId == link && idText j.jobId == tp

/-! ## The chain above a job -/

/-- The icon ids from the main jobnet down to job `r`. -/
inductive IconPath (t : Tables) (main : Id) : Job → List String → Prop where
  | top {r : Job} : r ∈ jobsOfMain t main → r.innerJobnetId = main → IconPath t main r [r.jobId]
  | sub {q r : Job} {l : IconJobnet} {ids : List String} : IconPath t main q ids → r ∈ jobsOfMain t main →
      r.innerJobnetId ≠ main → t.iconJobnet? q.innerJobId = some l → l.linkInnerJobnetId = r.innerJobnetId →
      IconPath t main r (ids ++ [r.jobId])

theorem IconPath.mem {t : Tables} {main : Id} {r : Job} {ids : List String} (h : IconPath t main r ids) :
    r ∈ jobsOfMain t main := by
  cases h with
  | top hr _ => exact hr
  | sub _ hr _ _ _ => exact hr

theorem IconPath.ne_nil {t : Tables} {main : Id} {r : Job} {ids : List String} (h : IconPath t main r ids) :
    ids ≠ [] := by
  cases h <;> simp

theorem IconPath.ids {t : Tables} {main : Id} {r : Job} {ids : List String} (h : IconPath t main r ids) :
    ∀ i ∈ ids, ∃ q ∈ jobsOfMain t main, q.jobId = i := by
  induction h with
  | top hr _ =>
    intro i hi
    rw [List.mem_singleton.1 hi]
    exact ⟨_, hr, rfl⟩
  | sub _ hr _ _ _ ih =>
    intro i hi
    rcases List.mem_append.1 hi with hi | hi
    · exact ih i hi
    · rw [List.mem_singleton.1 hi]
      exact ⟨_, hr, rfl⟩

/-- Each job of an occurrence is reached along the path of the occurrence. -/
theorem Unfolded.iconPath_of_occ {d : Defs} {root : JobnetDef} {main : Id} {t : Tables} {E : List Occ}
    (h : Unfolded d root main t E) {p : List String} {n : JobnetDef} (hocc : IsOcc d root p n) :
    ∀ e ∈ E, e.path = p → ∀ r ∈ jobsOfMain t main, r.innerJobnetId = e.net → IconPath t main r (p ++ [r.jobId]) := by
  induction hocc with
  | root =>
    intro e he hpath r hr hre
    have heq : e = ⟨[], root, main⟩ := List.inj_on_of_nodup_map h.paths he h.main_ hpath
    rw [heq] at hre
    exact .top hr hre
  | @icon p n m jd name hn hjd hty hlink hvalid ih =>
    intro e he hpath r hr hre
    obtain ⟨e₁, he₁, rfl, rfl⟩ := (h.occ p n).1 hn
    -- the run job of the icon, and the occurrence it is linked to
    have hmem : iconKey d e₁.net jd ∈ (jobsOfMain t main).map jobKey := by
      rw [h.jobs]
      exact List.mem_flatMap.2 ⟨e₁, he₁, List.mem_map_of_mem hjd⟩
    obtain ⟨q, hq, hkey⟩ := List.mem_map.1 hmem
    simp only [jobKey, iconKey, Prod.mk.injEq] at hkey
    obtain ⟨hqe, hqid, hqty, -⟩ := hkey
    obtain ⟨-, e₂, he₂, hqe₂, e', he', hpath', l, hl, hlnet, -⟩ := h.invo q hq (hqty.trans hty)
    have he₁₂ : e₂ = e₁ := List.inj_on_of_nodup_map h.netIds he₂ he₁ (hqe₂.symm.trans hqe)
    subst he₁₂
    have hee' : e' = e := by
      refine List.inj_on_of_nodup_map h.paths he' he ?_
      rw [hpath', hpath, hqid]
    subst hee'
    have hne : r.innerJobnetId ≠ main := by
      intro hmain
      have hroot : e' = ⟨[], root, main⟩ :=
        List.inj_on_of_nodup_map h.netIds he' h.main_ (hre.symm.trans hmain)
      rw [hroot] at hpath
      exact absurd hpath.symm (by simp)
    have hup := ih e₂ he₂ rfl q hq hqe
    rw [hqid] at hup
    exact .sub hup hr hne hl (hlnet.trans hre.symm)

/-- Every job of a loaded instance hangs on a chain of icons. -/
theorem Unfolded.iconPath {d : Defs} {root : JobnetDef} {main : Id} {t : Tables} {E : List Occ}
    (h : Unfolded d root main t E) {r : Job} (hr : r ∈ jobsOfMain t main) : ∃ ids, IconPath t main r ids := by
  have hmem : jobKey r ∈ (jobsOfMain t main).map jobKey := List.mem_map_of_mem hr
  rw [h.jobs] at hmem
  obtain ⟨e, he, hk⟩ := List.mem_flatMap.1 hmem
  obtain ⟨jd, -, heq⟩ := List.mem_map.1 hk
  simp only [jobKey, iconKey, Prod.mk.injEq] at heq
  have hocc : IsOcc d root e.path e.jn := (h.occ e.path e.jn).2 ⟨e, he, rfl, rfl⟩
  exact ⟨_, h.iconPath_of_occ hocc e he rfl r hr heq.1.symm⟩

/-! ## The two walks -/

/-- Each sub-jobnet of the instance is linked from one jobnet icon only. -/
def LinkedOnce (t : Tables) (main : Id) : Prop :=
  ∀ r ∈ jobsOfMain t main, ∀ l ∈ t.iconJobnets, ∀ l' ∈ t.iconJobnets, l.linkInnerJobnetId = r.innerJobnetId →
    l'.linkInnerJobnetId = r.innerJobnetId → l.innerJobId = l'.innerJobId

instance (t : Tables) (main : Id) : Decidable (LinkedOnce t main) :=
  inferInstanceAs (Decidable (∀ r ∈ jobsOfMain t main, ∀ l ∈ t.iconJobnets, ∀ l' ∈ t.iconJobnets, _ → _ → _))

/-- The path of icon ids as the buffer holds it. -/
def slashed (ids : List String) : Text := ids.flatMap fun id => 47 :: idText id

theorem slashed_concat (ids : List String) (id : String) : slashed (ids ++ [id]) = slashed ids ++ 47 :: idText id := by
  simp [slashed]

/-- In an instance a job is found by its id, and its jobnet by an icon id in
it and nothing else. -/
structure Addressed (t : Tables) (main : Id) : Prop where
  jobIds : (t.jobs.map Job.innerJobId).Nodup
  positive : ∀ r ∈ jobsOfMain t main, r.innerJobId ≠ 0
  names : ∀ r ∈ jobsOfMain t main, ∀ q ∈ t.jobs, q.innerJobnetId = r.innerJobnetId → q.jobId = r.jobId → q = r

theorem Addressed.job? {t : Tables} {main : Id} (h : Addressed t main) {r : Job} (hr : r ∈ t.jobs) :
    t.job? r.innerJobId = some r := Table.lookup_eq h.jobIds hr

/-- One turn of the loop, for a job whose id fits. -/
theorem jobidLoop_succ {t : Tables} {main : Id} (h : Addressed t main) {r : Job} (hr : r ∈ jobsOfMain t main)
    {path : Text} (hfit : path.length + ((idText r.jobId).length + 1) ≤ 4095) (fuel m : Nat) :
    jobidLoop t (fuel + 1) r.innerJobId path m =
      if r.innerJobnetId = main then some (47 :: (idText r.jobId ++ path), main)
      else match t.iconJobnets.find? (·.linkInnerJobnetId == r.innerJobnetId) with
        | none => some (47 :: (idText r.jobId ++ path), main)
        | some row2 => jobidLoop t fuel row2.innerJobId (47 :: (idText r.jobId ++ path)) main := by
  have hmain : r.innerJobnetMainId = main := by simpa using (List.mem_filter.1 hr).2
  rw [jobidLoop, h.job? (List.mem_filter.1 hr).1]
  dsimp only
  rw [if_neg (by omega), hmain]

theorem IconPath.up {t : Tables} {main : Id} (h : Addressed t main) (hlink : LinkedOnce t main) {r : Job}
    {ids : List String} (hpath : IconPath t main r ids) {acc : Text} (hfit : (slashed ids ++ acc).length ≤ 4095)
    {fuel : Nat} (hfuel : ids.length ≤ fuel) (m : Id) :
    jobidLoop t fuel r.innerJobId acc m = some (slashed ids ++ acc, main) := by
  induction hpath generalizing acc fuel m with
  | @top r hr hnet =>
    obtain ⟨fuel, rfl⟩ : ∃ k, fuel = k + 1 := ⟨fuel - 1, by simp at hfuel; omega⟩
    have hlen : acc.length + ((idText r.jobId).length + 1) ≤ 4095 := by
      simp [slashed] at hfit
      omega
    rw [jobidLoop_succ h hr hlen, if_pos hnet]
    simp [slashed]
  | @sub q r l ids hq hr hne hl hnet ih =>
    obtain ⟨fuel, rfl⟩ : ∃ k, fuel = k + 1 := ⟨fuel - 1, by simp at hfuel; omega⟩
    have heq : slashed (ids ++ [r.jobId]) ++ acc = slashed ids ++ 47 :: (idText r.jobId ++ acc) := by
      rw [slashed_concat, List.append_assoc]
      rfl
    rw [heq] at hfit ⊢
    have hlen : acc.length + ((idText r.jobId).length + 1) ≤ 4095 := by
      simp at hfit
      omega
    -- the first link row of the jobnet is that of the icon above
    have hmem : l ∈ t.iconJobnets := List.mem_of_find?_eq_some hl
    obtain ⟨l', hl'⟩ : ∃ l', t.iconJobnets.find? (·.linkInnerJobnetId == r.innerJobnetId) = some l' :=
      Option.isSome_iff_exists.1 (List.find?_isSome.2 ⟨l, hmem, by simpa using hnet⟩)
    have hnet' : l'.linkInnerJobnetId = r.innerJobnetId := by simpa using List.find?_some hl'
    have hicon : l.innerJobId = q.innerJobId := by simpa using List.find?_some hl
    have hid : l'.innerJobId = q.innerJobId := by
      rw [← hicon]
      exact hlink r hr l' (List.mem_of_find?_eq_some hl') l hmem hnet' hnet
    rw [jobidLoop_succ h hr hlen, if_neg hne, hl']
    dsimp only
    rw [hid]
    exact ih hfit (by simp at hfuel; omega) main

theorem IconPath.down {t : Tables} {main : Id} (h : Addressed t main) {r : Job} {ids : List String}
    (hpath : IconPath t main r ids) :
    (ids.map idText).foldlM (pathStep t (jobNamed t)) (main, 0) = some (r.innerJobnetId, r.innerJobId) := by
  have hfind : ∀ r ∈ jobsOfMain t main, jobNamed t r.innerJobnetId (idText r.jobId) = some r := by
    intro r hr
    have hself : (r.innerJobnetId == r.innerJobnetId && idText r.jobId == idText r.jobId) = true := by simp
    have hsome := (List.find?_isSome (p := fun j : Job => j.innerJobnetId == r.innerJobnetId &&
      idText j.jobId == idText r.jobId)).2 ⟨r, (List.mem_filter.1 hr).1, hself⟩
    obtain ⟨q, hq⟩ := Option.isSome_iff_exists.1 hsome
    have hp := List.find?_some hq
    simp only [Bool.and_eq_true, beq_iff_eq] at hp
    rw [jobNamed, hq, h.names r hr q (List.mem_of_find?_eq_some hq) hp.1 (idText_inj hp.2)]
  induction hpath with
  | @top r hr hnet =>
    have hstep : pathStep t (jobNamed t) (main, 0) (idText r.jobId) = some (r.innerJobnetId, r.innerJobId) := by
      rw [pathStep, if_neg (by simp), Option.bind_some, ← hnet, hfind r hr]
      rfl
    simp [hstep]
  | @sub q r l ids hq hr hne hl hnet ih =>
    have hstep : pathStep t (jobNamed t) (q.innerJobnetId, q.innerJobId) (idText r.jobId) =
        some (r.innerJobnetId, r.innerJobId) := by
      rw [pathStep, if_pos (Nat.pos_of_ne_zero (h.positive q hq.mem)), hl, Option.map_some, Option.bind_some, hnet,
        hfind r hr]
      rfl
    rw [List.map_append, List.foldlM_append, ih]
    simp [hstep]

/-! ## The full path -/

/-- The main jobnet id and the icon ids, joined by slashes. -/
def fullPath (jobnetId : String) (ids : List String) : Text :=
  idText jobnetId ++ 47 :: [47].intercalate (ids.map idText)

/-- The part after the first slash, as `strstr` finds it. -/
def afterSlash (s : Text) : Text := (s.dropWhile (· ≠ 47)).tail

theorem slashed_eq {ids : List String} (h : ids ≠ []) : slashed ids = 47 :: [47].intercalate (ids.map idText) := by
  induction ids with
  | nil => exact absurd rfl h
  | cons id ids ih =>
    cases ids with
    | nil => simp [slashed]
    | cons id' ids =>
      have htail := ih (by simp)
      rw [slashed, List.flatMap_cons, ← slashed, htail]
      simp [List.intercalate]

theorem afterSlash_fullPath {jobnetId : String} (h : 47 ∉ idText jobnetId) (ids : List String) :
    afterSlash (fullPath jobnetId ids) = [47].intercalate (ids.map idText) := by
  have hall : ∀ b ∈ idText jobnetId, decide (b ≠ 47) = true := by
    intro b hb
    have hne : b ≠ 47 := fun he => h (he ▸ hb)
    simpa using hne
  rw [afterSlash, fullPath, List.dropWhile_append_of_pos hall]
  rfl

theorem strtok_intercalate {ids : List String} (hne : ids ≠ []) (h : ∀ i ∈ ids, idText i ≠ [] ∧ 47 ∉ idText i) :
    strtok ([47].intercalate (ids.map idText)) = ids.map idText := by
  have hslash : ∀ l ∈ ids.map idText, (47 : UInt8) ∉ l := by
    intro l hl
    obtain ⟨i, hi, rfl⟩ := List.mem_map.1 hl
    exact (h i hi).2
  rw [strtok, List.splitOn_intercalate 47 hslash (by simpa using hne)]
  refine List.filter_eq_self.2 fun l hl => ?_
  obtain ⟨i, hi, rfl⟩ := List.mem_map.1 hl
  simpa using (h i hi).1

/-! ## No job has the id 0 -/

/-- The ids of the instance's jobs are ids. -/
def Positive (main : Id) (t : Tables) : Prop := ∀ j ∈ t.jobs, j.innerJobnetMainId = main → j.innerJobId ≠ 0

theorem Loader.getNextId_ne_zero {s s' : Loader} {c : CountId} {id : Id} (h : s.getNextId c = some (s', id)) :
    id ≠ 0 := by
  unfold Loader.getNextId at h
  split at h
  · cases h
  · dsimp only at h
    split at h
    · split at h
      · cases h
      · rename_i hid
        simp only [Option.some.injEq, Prod.mk.injEq] at h
        exact h.2 ▸ hid
    · split at h
      · cases h
      · rename_i hid
        simp only [Option.some.injEq, Prod.mk.injEq] at h
        exact h.2 ▸ hid

/-- A property that each step keeps, a loop keeps. -/
theorem foldlM_keeps {σ α : Type*} {f : σ → α → Option σ} {P : σ → Prop}
    (hstep : ∀ s a s', f s a = some s' → P s → P s') {l : List α} {s s' : σ} (h : l.foldlM f s = some s') (hs : P s) :
    P s' := by
  induction l generalizing s with
  | nil =>
    cases h
    exact hs
  | cons a l ih =>
    rw [List.foldlM_cons] at h
    obtain ⟨s₁, h₁, h₂⟩ := Option.bind_eq_some_iff.1 h
    exact ih h₂ (hstep s a s₁ h₁ hs)

theorem positive_loadJob {d : Defs} {main m net : Id} {test : Bool} {rt : RunType} {s s' : Loader} {jd : JobDef}
    (h : Loader.loadJob d m net test rt s jd = some s') (hs : Positive main s.tables) : Positive main s'.tables := by
  simp only [Loader.loadJob, Option.bind_eq_bind, Option.bind_eq_some_iff, Prod.exists] at h
  obtain ⟨s₁, id, h₁, s₂, _, h₂, s₃, h₃, h₄⟩ := h
  have ht₂ : s₂.tables = s.tables := (Loader.fsLinkId_tables h₂).trans (Loader.getNextId_tables h₁)
  obtain ⟨ht₃, hfresh⟩ := Loader.insertJob_eq h₃
  rw [ht₂] at ht₃ hfresh
  obtain ⟨r, links, hid, hadd⟩ :=
    Loader.loadIcon_added ht₃ ⟨rfl, rfl, rfl, rfl, rfl, rfl, rfl, rfl, rfl⟩ hfresh h₄
  intro j hj
  rw [hadd.jobs] at hj
  rcases List.mem_append.1 hj with hj | hj
  · exact hs j hj
  · rw [List.mem_singleton.1 hj, hid]
    exact fun _ => Loader.getNextId_ne_zero h₁

theorem positive_loadJobDefinition {d : Defs} {main m net : Id} {jobnetId : String} {updateDate : Nat} {test : Bool}
    {rt : RunType} {s s' : Loader} (h : s.loadJobDefinition d m net jobnetId updateDate test rt = some s')
    (hs : Positive main s.tables) : Positive main s'.tables := by
  simp only [Loader.loadJobDefinition, Option.bind_eq_bind, Option.bind_eq_some_iff] at h
  obtain ⟨s₁, h₁, h₂⟩ := h
  have hs₁ : Positive main s₁.tables :=
    foldlM_keeps (P := fun s => Positive main s.tables) (fun _ _ _ => positive_loadJob) h₁ hs
  obtain ⟨fl, ht, -⟩ := Loader.loadFlows_added h₂
  rw [ht]
  exact hs₁

theorem positive_expandIcon {d : Defs} {main m : Id} {rt : RunType} {s s' : Loader} {i : Id}
    (h : s.expandIcon d m rt i = some s') (hs : Positive main s.tables) : Positive main s'.tables := by
  simp only [Loader.expandIcon, Option.bind_eq_bind, Option.bind_eq_some_iff, Option.pure_def,
    Option.some.injEq] at h
  obtain ⟨l, -, n, -, s₁, h₁, s₂, h₂, rfl⟩ := h
  have hs₁ : Positive main s₁.tables := by
    rw [(insertJobnet_eq h₁).1]
    exact hs
  have hs₂ := positive_loadJobDefinition h₂ hs₁
  intro j hj hm
  rw [setInvo_jobs] at hj
  obtain ⟨q, hq, rfl⟩ := List.mem_map.1 hj
  obtain ⟨h1, -, h3, -⟩ := markInvo_same i q
  rw [h1]
  exact hs₂ q hq (h3 ▸ hm)

theorem positive_loadSubJobnetDefinition {d : Defs} {main m : Id} {rt : RunType} {fuel : Nat} {s s' : Loader}
    (h : Loader.loadSubJobnetDefinition d m rt fuel s = some (some s')) (hs : Positive main s.tables) :
    Positive main s'.tables := by
  induction fuel generalizing s with
  | zero => cases h
  | succ fuel ih =>
    rw [Loader.loadSubJobnetDefinition] at h
    split at h
    · cases h
      exact hs
    · split at h
      · cases h
      · rename_i s₁ hfold
        exact ih h (foldlM_keeps (P := fun s => Positive main s.tables) (fun _ _ _ => positive_expandIcon) hfold hs)

/-! ## The law -/

/-- The jobs of a loaded instance are addressed by their ids. -/
theorem Expanded.addressed {d : Defs} {root : JobnetDef} {main : Id} {t : Tables} {E : List Occ}
    (h : Expanded d root main t E) (hd : d.Keyed) (hpos : Positive main t) : Addressed t main := by
  refine ⟨h.levels.jobIds, fun r hr => ?_, fun r hr q hq hnet hid => ?_⟩
  · exact hpos r (List.mem_filter.1 hr).1 (by simpa using (List.mem_filter.1 hr).2)
  · have hmain : r.innerJobnetMainId = main := by simpa using (List.mem_filter.1 hr).2
    obtain ⟨e, he, jd, -, hkey⟩ := h.levels.icon_of_job (List.mem_filter.1 hr).1 hmain
    have hre : r.innerJobnetId = e.net := congrArg Prod.fst hkey
    exact h.levels.unique hd h.tree.net_nodup he hq (List.mem_filter.1 hr).1 (hnet.trans hre) hre hid

/-- The main jobnet's row. -/
theorem Expanded.main_jobnet {d : Defs} {root : JobnetDef} {main : Id} {t : Tables} {E : List Occ}
    (h : Expanded d root main t E) : ∃ n, t.jobnet? main = some n ∧ n.jobnetId = root.jobnetId := by
  have hmem : (main, root.jobnetId, root.updateDate) ∈
      (netsOfMain t main).map fun n => (n.innerJobnetId, n.jobnetId, n.updateDate) := by
    rw [h.tree.nets]
    exact List.mem_map_of_mem (f := fun e : Occ => (e.net, e.jn.jobnetId, e.jn.updateDate)) h.tree.root
  obtain ⟨n, hn, heq⟩ := List.mem_map.1 hmem
  simp only [Prod.mk.injEq] at heq
  refine ⟨n, ?_, heq.2.1⟩
  rw [← heq.1]
  exact Table.lookup_eq h.tree.netIds (List.mem_filter.1 hn).1

/-- The chain of icons down to job `r` is its full path. If it fits the
buffer, `ja_get_jobid` returns it; the part after the first slash leads
`ja_jobnet_get_job_id` back to the job; and no other job has that path. -/
def PathInverts (t : Tables) (main : Id) (jobnetId : String) (r : Job) : Prop :=
  ∃ ids, IconPath t main r ids ∧
    ((fullPath jobnetId ids).length ≤ 4095 → ∀ fuel, ids.length ≤ fuel →
      jaGetJobid t fuel r.innerJobId = some (fullPath jobnetId ids)) ∧
    jaJobnetGetJobId t (jobNamed t) main (afterSlash (fullPath jobnetId ids)) = r.innerJobId ∧
    ∀ r' ∈ jobsOfMain t main, ∀ ids', IconPath t main r' ids' → fullPath jobnetId ids' = fullPath jobnetId ids →
      r' = r

/-- **Job paths.** Whenever the load of an instance succeeds, every job of it
has a full path that leads back to it and to no other job. -/
theorem job_path_inverts (d : Defs) (root : JobnetDef) (main : Id) (test : Bool) (rt rt' : RunType)
    (s s₁ s₂ : Loader) (scans : Nat) (hd : d.Keyed) (hstart : LoadStart s.tables root main)
    (hload : s.loadJobDefinition d main main root.jobnetId root.updateDate test rt = some s₁)
    (hsub : Loader.loadSubJobnetDefinition d main rt' scans s₁ = some (some s₂)) (hmain : main ≠ 0)
    (hids : ∀ jd ∈ d.jobs, idText jd.key.jobId ≠ [] ∧ 47 ∉ idText jd.key.jobId)
    (hroot : 47 ∉ idText root.jobnetId ∧ (idText root.jobnetId).length ≤ 32) (hlink : LinkedOnce s₂.tables main) :
    ∀ r ∈ jobsOfMain s₂.tables main, PathInverts s₂.tables main root.jobnetId r := by
  have hE := hstart.expanded hload
  obtain ⟨⟨E, hexp⟩, hpend⟩ := hE.loop hd hsub
  have hunf := hexp.unfolded hd hpend
  have hpos₀ : Positive main s.tables := fun j hj hm => absurd hm (hstart.noJobs j hj).1
  have haddr := hexp.addressed hd
    (positive_loadSubJobnetDefinition hsub (positive_loadJobDefinition hload hpos₀))
  -- the ids of the instance are those of the definition
  have hnames : ∀ q ∈ jobsOfMain s₂.tables main, idText q.jobId ≠ [] ∧ 47 ∉ idText q.jobId := by
    intro q hq
    have hm : q.innerJobnetMainId = main := by simpa using (List.mem_filter.1 hq).2
    obtain ⟨e, -, jd, hjd, hkey⟩ := hexp.levels.icon_of_job (List.mem_filter.1 hq).1 hm
    simp only [jobKey, iconKey, Prod.mk.injEq] at hkey
    rw [hkey.2.1]
    exact hids jd (List.mem_filter.1 hjd).1
  have hpathIds : ∀ {r : Job} {ids : List String}, IconPath s₂.tables main r ids →
      ∀ i ∈ ids, idText i ≠ [] ∧ 47 ∉ idText i := by
    intro r ids h i hi
    obtain ⟨q, hq, rfl⟩ := h.ids i hi
    exact hnames q hq
  have hback : ∀ {r : Job} {ids : List String}, IconPath s₂.tables main r ids →
      jaJobnetGetJobId s₂.tables (jobNamed s₂.tables) main (afterSlash (fullPath root.jobnetId ids)) = r.innerJobId := by
    intro r ids h
    rw [jaJobnetGetJobId, if_neg hmain, afterSlash_fullPath hroot.1, strtok_intercalate h.ne_nil (hpathIds h),
      h.down haddr]
    rfl
  intro r hr
  obtain ⟨ids, hpath⟩ := hunf.iconPath hr
  refine ⟨ids, hpath, fun hfit fuel hfuel => ?_, hback hpath, fun r' hr' ids' hpath' heq => ?_⟩
  · have hfull : fullPath root.jobnetId ids = idText root.jobnetId ++ slashed ids := by
      rw [fullPath, slashed_eq hpath.ne_nil]
    rw [hfull, List.length_append] at hfit
    obtain ⟨n, hn, hname⟩ := hexp.main_jobnet
    have hshort : (slashed ids ++ []).length ≤ 4095 := by
      rw [List.append_nil]
      omega
    have hup := hpath.up haddr hlink hshort hfuel 0
    rw [List.append_nil] at hup
    have hid : ((s₂.tables.jobnet? main).map fun n => (idText n.jobnetId).take 32).getD [] = idText root.jobnetId := by
      rw [hn, Option.map_some, Option.getD_some, hname, List.take_of_length_le hroot.2]
    rw [jaGetJobid, if_neg (haddr.positive r hr), hup, Option.map_some]
    dsimp only
    rw [if_neg hmain, hid, if_pos (by omega), hfull]
  · have hsame : r'.innerJobId = r.innerJobId := by
      rw [← hback hpath', heq, hback hpath]
    exact Table.eq_of_key haddr.jobIds (List.mem_filter.1 hr').1 (List.mem_filter.1 hr).1 hsame

/-- Instance 7 of `NET`: eight jobs, four of them in the two copies of `SUB`. -/
theorem job_path_inverts_share : ∃ s₁ s₂,
    shareStart.loadJobDefinition shareDefs 7 7 "NET" 1 false .normal = some s₁ ∧
      Loader.loadSubJobnetDefinition shareDefs 7 .normal 2 s₁ = some (some s₂) ∧
      (jobsOfMain s₂.tables 7).length = 8 ∧ ∀ r ∈ jobsOfMain s₂.tables 7, PathInverts s₂.tables 7 "NET" r := by
  have hrun : ((shareStart.loadJobDefinition shareDefs 7 7 "NET" 1 false .normal).bind fun s₁ =>
      (Loader.loadSubJobnetDefinition shareDefs 7 .normal 2 s₁).bind fun r =>
        r.map fun s₂ => ((jobsOfMain s₂.tables 7).length, decide (LinkedOnce s₂.tables 7))) = some (8, true) := by
    decide +kernel
  simp only [Option.bind_eq_some_iff, Option.map_eq_some_iff, Prod.mk.injEq, decide_eq_true_eq] at hrun
  obtain ⟨s₁, h₁, r, h₂, s₂, rfl, h₃, h₄⟩ := hrun
  exact ⟨s₁, s₂, h₁, h₂, h₃, job_path_inverts shareDefs shareRoot 7 false .normal .normal shareStart s₁ s₂ 2
    (by decide) shareStart_loadStart h₁ h₂ (by decide) (by decide) (by decide) h₄⟩

end JobArranger
