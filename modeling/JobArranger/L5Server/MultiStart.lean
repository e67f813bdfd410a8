import JobArranger.Core.LTS
import JobArranger.L5Server.Boot

/-!
# Multiple start-up

The runs of the boot process with everything else that touches the
summaries of one `jobnet_id` whose instances all have the policy SKIP or
DELAY: the loader inserts BEGIN rows, users change `start_pending_flag`,
`process_jajobnet_summary` turns READY into RUN, and instances complete.
`jobnet_boot` works through the rows of its select one transaction at a
time, so every other step can fall between two rows of a pass.

The delay start-up check puts a late row into RUN without asking
`get_running_jobnet` (`two_running`). The law holds in the runs that never
take this branch while another instance is READY or RUN (`LateAlone`), and
the order of DELAY starts in those where nothing becomes startable behind a
pass's back (`QuietPass`).

* `BootInv`: what every run keeps: the rows of a pass are in BEGIN and in
  order until it gets to them.
* `multiple_start_up`: the law under these conditions.
-/
namespace JobArranger

open Tables

/-- The boot process: the tables, and the pass it is in (its `now_date` and
the rows not fetched yet). -/
structure BootState where
  tables : Tables
  pass : Option (Nat × List Summary)
  deriving DecidableEq, Repr

inductive BootLabel where
  | select (now : Nat)
  | fetch
  | insert (s : Summary) (n : Jobnet) (start : Job)
  | pending (n : Id) (flag : StartPending)
  | run (n : Id)
  | complete (n : Id) (status : Status)
  deriving DecidableEq, Repr

/-- The status of the summary with this id. -/
def summaryStatus (t : Tables) (n : Id) : Option Status := (t.summary? n).map Summary.status

/-- A loader insert: fresh ids, the summary in BEGIN, with its jobnet row and
START icon. -/
def insertSummary (t : Tables) (s : Summary) (n : Jobnet) (start : Job) : Tables :=
  { t with summaries := t.summaries ++ [s], jobnets := t.jobnets ++ [n], jobs := t.jobs ++ [start] }

def bootStep (jobnetId : String) (s : BootState) : BootLabel → Option BootState
  | .select now =>
    match s.pass with
    | none => some { s with pass := some (now, bootRows s.tables now) }
    | some _ => none
  | .fetch =>
    match s.pass with
    | some (now, row :: rows) => some { tables := bootRow s.tables now row, pass := some (now, rows) }
    | some (_, []) => some { s with pass := none }
    | none => none
  | .insert sm n start =>
    if (s.tables.summary? sm.innerJobnetId).isNone ∧ sm.status = .begin ∧
        n.innerJobnetId = sm.innerJobnetId ∧ start.innerJobnetId = sm.innerJobnetId ∧
        start.jobType = .startIcon ∧ (sm.jobnetId = jobnetId → sm.multipleStartUp ≠ .on) then
      some { s with tables := insertSummary s.tables sm n start }
    else none
  | .pending n flag =>
    some { s with tables := s.tables.updateSummaries (·.innerJobnetId == n) fun r =>
      { r with startPendingFlag := flag } }
  | .run n =>
    if summaryStatus s.tables n = some .ready then
      some { s with tables := (jaSetStatusJobnetSummary s.tables n .run).1 }
    else none
  | .complete n status =>
    if (summaryStatus s.tables n = some .ready ∨ summaryStatus s.tables n = some .run) ∧
        (status = .ended ∨ status = .endErr) then
      some { s with tables := (jaSetStatusJobnetSummary s.tables n status).1 }
    else none

/-- Runs start without instances. -/
def bootSystem (jobnetId : String) : LTS BootState BootLabel :=
  LTS.ofFn (fun s => s = ⟨Tables.empty, none⟩) (bootStep jobnetId)

/-- The delay start-up check puts no instance into RUN while another one of
the jobnet is READY or RUN. -/
def LateAlone (jobnetId : String) (s : BootState) (l : BootLabel) : Prop :=
  ∀ now row rows, l = .fetch → s.pass = some (now, row :: rows) → row.jobnetId = jobnetId →
    delayStartup now row → getRunningJobnet s.tables jobnetId = 0

/-- While a pass runs, no instance of the jobnet completes, no due one is
inserted and none is released. -/
def QuietPass (jobnetId : String) (s : BootState) (l : BootLabel) : Prop :=
  ∀ now rows, s.pass = some (now, rows) →
    (∀ n status, l = .complete n status → ∀ r, s.tables.summary? n = some r → r.jobnetId ≠ jobnetId) ∧
    (∀ sm n start, l = .insert sm n start → sm.jobnetId = jobnetId → ¬ sm.due now) ∧
    (∀ n flag, l = .pending n flag → flag ≠ .on →
      ∀ r, s.tables.summary? n = some r → r.jobnetId ≠ jobnetId)

/-! ## Updates of one summary -/

/-- The columns no step changes. -/
def Summary.shape (s : Summary) : Id × String × MultipleStartUp × Nat :=
  (s.innerJobnetId, s.jobnetId, s.multipleStartUp, s.scheduledTime)

/-- What every run keeps. -/
structure BootInv (jobnetId : String) (s : BootState) : Prop where
  keys : (s.tables.summaries.map Summary.innerJobnetId).Nodup
  bootable : ∀ a ∈ s.tables.summaries, Bootable s.tables a.innerJobnetId
  policy : ∀ a ∈ s.tables.summaries, a.jobnetId = jobnetId → a.multipleStartUp ≠ .on
  sorted : ∀ now rows, s.pass = some (now, rows) → rows.Pairwise bootOrder
  distinct : ∀ now rows, s.pass = some (now, rows) → (rows.map Summary.innerJobnetId).Nodup
  waiting : ∀ now rows, s.pass = some (now, rows) → ∀ r ∈ rows,
    ∃ a ∈ s.tables.summaries, a.status = .begin ∧ a.shape = r.shape

theorem bootOrder_total (a b : Summary) : bootOrder a b ∨ bootOrder b a := by
  rcases Nat.lt_trichotomy a.scheduledTime b.scheduledTime with h | h | h
  · exact .inl (.inl h)
  · rcases Nat.le_total a.innerJobnetId b.innerJobnetId with h' | h'
    · exact .inl (.inr ⟨h, h'⟩)
    · exact .inr (.inr ⟨h.symm, h'⟩)
  · exact .inr (.inl h)

theorem bootOrder_trans {a b c : Summary} (h : bootOrder a b) (h' : bootOrder b c) : bootOrder a c := by
  rcases h with h | ⟨h, hi⟩
  · rcases h' with h' | ⟨h', -⟩
    · exact .inl (Nat.lt_trans h h')
    · exact .inl (h' ▸ h)
  · rcases h' with h' | ⟨h', hi'⟩
    · exact .inl (h ▸ h')
    · exact .inr ⟨h.trans h', Nat.le_trans hi hi'⟩

theorem mem_bootRows {t : Tables} {now : Nat} {r : Summary} :
    r ∈ bootRows t now ↔ r ∈ t.summaries ∧ r.status = .begin ∧ r.startPendingFlag ≠ .on ∧ r.due now := by
  simp [bootRows, List.mem_insertionSort]

theorem bootRows_sorted (t : Tables) (now : Nat) : (bootRows t now).Pairwise bootOrder := by
  have : Std.Total bootOrder := ⟨bootOrder_total⟩
  have : IsTrans Summary bootOrder := ⟨fun _ _ _ => bootOrder_trans⟩
  exact List.pairwise_insertionSort bootOrder _

theorem bootRows_distinct {t : Tables} (h : (t.summaries.map Summary.innerJobnetId).Nodup) (now : Nat) :
    ((bootRows t now).map Summary.innerJobnetId).Nodup := by
  have hp := (List.perm_insertionSort bootOrder
    (t.summaries.filter fun s => s.status = .begin ∧ s.startPendingFlag ≠ .on ∧ s.due now)).map
    Summary.innerJobnetId
  refine hp.nodup_iff.2 ?_
  exact h.sublist ((List.filter_sublist).map _)

/-- The rows after an update of one summary. -/
theorem mem_updateSummary {rows : List Summary} {n : Id} {f : Summary → Summary} {a' : Summary}
    (h : a' ∈ Table.update (·.innerJobnetId == n) f rows) :
    (a' ∈ rows ∧ a'.innerJobnetId ≠ n) ∨ ∃ a ∈ rows, a.innerJobnetId = n ∧ a' = f a := by
  obtain ⟨a, ha, rfl⟩ := Table.mem_update.1 h
  split
  · rename_i hid
    exact .inr ⟨a, ha, by simpa using hid, rfl⟩
  · rename_i hid
    exact .inl ⟨ha, by simpa using hid⟩

/-- Two rows with one id are one row. -/
theorem BootInv.eq_of_id {jobnetId : String} {s : BootState} (h : BootInv jobnetId s) {a b : Summary}
    (ha : a ∈ s.tables.summaries) (hb : b ∈ s.tables.summaries)
    (hab : a.innerJobnetId = b.innerJobnetId) : a = b :=
  List.inj_on_of_nodup_map h.keys ha hb hab

theorem BootInv.summary? {jobnetId : String} {s : BootState} (h : BootInv jobnetId s) {a : Summary}
    (ha : a ∈ s.tables.summaries) : s.tables.summary? a.innerJobnetId = some a :=
  Table.lookup_eq h.keys ha

/-- A step that rewrites the rows of one summary, keeping their shape; a row
still to be fetched stays in BEGIN. -/
theorem BootInv.update {jobnetId : String} {s s' : BootState} (h : BootInv jobnetId s) (n : Id)
    (f : Summary → Summary) (hf : ∀ a, (f a).shape = a.shape)
    (hsum : s'.tables.summaries = Table.update (·.innerJobnetId == n) f s.tables.summaries)
    (hboot : ∀ k, Bootable s.tables k → Bootable s'.tables k)
    (hpass : ∀ now rows', s'.pass = some (now, rows') →
      ∃ rows, s.pass = some (now, rows) ∧ rows'.Sublist rows ∧
        (∀ a ∈ s.tables.summaries, a.innerJobnetId = n → a.status = .begin →
          n ∈ rows'.map Summary.innerJobnetId → (f a).status = .begin)) : BootInv jobnetId s' := by
  have hshape : ∀ a, (if a.innerJobnetId == n then f a else a).shape = a.shape := by
    intro a
    split
    · exact hf a
    · rfl
  have hmem : ∀ a' ∈ s'.tables.summaries, ∃ a ∈ s.tables.summaries, a.shape = a'.shape := by
    intro a' ha'
    rw [hsum] at ha'
    obtain ⟨a, ha, rfl⟩ := Table.mem_update.1 ha'
    exact ⟨a, ha, (hshape a).symm⟩
  constructor
  · rw [hsum, Table.map_update Summary.innerJobnetId _ _ _ fun a => congrArg Prod.fst (hf a)]
    exact h.keys
  · intro a' ha'
    obtain ⟨a, ha, hs⟩ := hmem a' ha'
    have hid : a.innerJobnetId = a'.innerJobnetId := congrArg Prod.fst hs
    rw [← hid]
    exact hboot _ (h.bootable a ha)
  · intro a' ha' hj
    obtain ⟨a, ha, hs⟩ := hmem a' ha'
    simp only [Summary.shape, Prod.mk.injEq] at hs
    rw [← hs.2.2.1]
    exact h.policy a ha (hs.2.1.trans hj)
  · intro now rows' hp
    obtain ⟨rows, hrows, hsub, -⟩ := hpass now rows' hp
    exact (h.sorted now rows hrows).sublist hsub
  · intro now rows' hp
    obtain ⟨rows, hrows, hsub, -⟩ := hpass now rows' hp
    exact (h.distinct now rows hrows).sublist (hsub.map _)
  · intro now rows' hp r hr
    obtain ⟨rows, hrows, hsub, hkeep⟩ := hpass now rows' hp
    obtain ⟨a, ha, hb, hs⟩ := h.waiting now rows hrows r (hsub.subset hr)
    refine ⟨_, by rw [hsum]; exact Table.mem_update.2 ⟨a, ha, rfl⟩, ?_, (hshape a).trans hs⟩
    split
    · rename_i hn
      have hn : a.innerJobnetId = n := by simpa using hn
      have hid : a.innerJobnetId = r.innerJobnetId := congrArg Prod.fst hs
      exact hkeep a ha hn hb (List.mem_map.2 ⟨r, hr, by rw [← hid, hn]⟩)
    · exact hb

theorem BootAct.apply_shape (a : BootAct) (s : Summary) : (a.apply s).shape = s.shape := by
  cases a <;> rfl

theorem jaSetStatusJobnetSummary_summaries (t : Tables) (n : Id) (status : Status) :
    (jaSetStatusJobnetSummary t n status).1.summaries =
      Table.update (·.innerJobnetId == n) (fun r => { r with status }) t.summaries := by
  unfold jaSetStatusJobnetSummary
  split <;> rfl

theorem jaSetStatusJobnetSummary_bootable {t : Tables} {k : Id} (h : Bootable t k) (n : Id) (status : Status) :
    Bootable (jaSetStatusJobnetSummary t n status).1 k := by
  unfold jaSetStatusJobnetSummary
  split <;> exact ⟨h.jobnet, h.start⟩

/-- The row a fetch decides about: it is in BEGIN and has the shape of the
fetched row. -/
theorem BootInv.head {jobnetId : String} {s : BootState} (h : BootInv jobnetId s) {now : Nat} {row : Summary}
    {rows : List Summary} (hp : s.pass = some (now, row :: rows)) :
    ∃ a ∈ s.tables.summaries, a.status = .begin ∧ a.shape = row.shape ∧
      Bootable s.tables row.innerJobnetId ∧ (s.tables.summary? row.innerJobnetId) = some a := by
  obtain ⟨a, ha, hb, hs⟩ := h.waiting now _ hp row List.mem_cons_self
  have hid : a.innerJobnetId = row.innerJobnetId := congrArg Prod.fst hs
  exact ⟨a, ha, hb, hs, hid ▸ h.bootable a ha, hid ▸ h.summary? ha⟩

theorem BootInv.fetch {jobnetId : String} {s : BootState} (h : BootInv jobnetId s) {now : Nat} {row : Summary}
    {rows : List Summary} (hp : s.pass = some (now, row :: rows)) :
    (bootRow s.tables now row).summaries =
      Table.update (·.innerJobnetId == row.innerJobnetId) (bootAct s.tables now row).apply
        s.tables.summaries := by
  obtain ⟨a, -, -, -, hb, hl⟩ := h.head hp
  exact bootRow_summaries hb (by rw [hl]; rfl)

/-- Every step rewrites one summary or inserts one. -/
theorem bootInv_step {jobnetId : String} {s s' : BootState} {l : BootLabel} (h : BootInv jobnetId s)
    (hst : bootStep jobnetId s l = some s') : BootInv jobnetId s' := by
  cases l with
  | select now =>
    simp only [bootStep] at hst
    split at hst
    · obtain rfl := Option.some.inj hst
      refine ⟨h.keys, h.bootable, h.policy, ?_, ?_, ?_⟩
      · rintro now' rows ⟨⟩
        exact bootRows_sorted _ _
      · rintro now' rows ⟨⟩
        exact bootRows_distinct h.keys _
      · rintro now' rows ⟨⟩ r hr
        obtain ⟨h1, h2, -⟩ := mem_bootRows.1 hr
        exact ⟨r, h1, h2, rfl⟩
    · cases hst
  | fetch =>
    simp only [bootStep] at hst
    split at hst
    · rename_i now row rows hp
      obtain rfl := Option.some.inj hst
      refine h.update row.innerJobnetId (bootAct s.tables now row).apply (BootAct.apply_shape _) (h.fetch hp)
        (fun k hk => bootRow_bootable hk) ?_
      rintro now' rows' ⟨⟩
      refine ⟨_, hp, List.sublist_cons_self _ _, fun a _ _ _ hmem => ?_⟩
      have hd := h.distinct now _ hp
      rw [List.map_cons, List.nodup_cons] at hd
      exact absurd hmem hd.1
    · obtain rfl := Option.some.inj hst
      exact ⟨h.keys, h.bootable, h.policy, fun _ _ hc => (nomatch hc), fun _ _ hc => (nomatch hc),
        fun _ _ hc => (nomatch hc)⟩
    · cases hst
  | insert sm n start =>
    simp only [bootStep] at hst
    split at hst
    · rename_i hg
      obtain ⟨hfresh, hbegin, hn, hjn, hjt, hpol⟩ := hg
      obtain rfl := Option.some.inj hst
      have hold : ∀ k, Bootable s.tables k → Bootable (insertSummary s.tables sm n start) k := by
        rintro k ⟨⟨r, hr, hrk⟩, j, hj, hjk⟩
        exact ⟨⟨r, List.mem_append_left _ hr, hrk⟩, j, List.mem_append_left _ hj, hjk⟩
      refine ⟨?_, ?_, ?_, h.sorted, h.distinct, ?_⟩
      · simp only [insertSummary, List.map_append, List.map_cons, List.map_nil]
        refine List.nodup_append.2 ⟨h.keys, by simp, ?_⟩
        intro i hi j hj
        simp only [List.mem_singleton] at hj
        rintro rfl
        obtain ⟨a, ha, hai⟩ := List.mem_map.1 hi
        have hsome : (Table.lookup Summary.innerJobnetId _ _).isSome := Table.lookup_isSome ha (hai.trans hj)
        rw [Tables.summary?, Option.isNone_iff_eq_none] at hfresh
        rw [hfresh] at hsome
        cases hsome
      · intro a ha
        rcases List.mem_append.1 ha with ha | ha
        · exact hold _ (h.bootable a ha)
        · rw [List.mem_singleton.1 ha]
          exact ⟨⟨n, by simp [insertSummary], hn⟩, start, by simp [insertSummary], hjn, hjt⟩
      · intro a ha hj
        rcases List.mem_append.1 ha with ha | ha
        · exact h.policy a ha hj
        · rw [List.mem_singleton.1 ha] at hj ⊢
          exact hpol hj
      · intro now rows hp r hr
        obtain ⟨a, ha, hb⟩ := h.waiting now rows hp r hr
        exact ⟨a, List.mem_append_left _ ha, hb⟩
    · cases hst
  | pending n flag =>
    obtain rfl := Option.some.inj hst
    refine h.update n (fun r => { r with startPendingFlag := flag }) (fun _ => rfl) rfl
      (fun k hk => ⟨hk.jobnet, hk.start⟩) ?_
    intro now rows' hp
    exact ⟨rows', hp, List.Sublist.refl _, fun a _ _ hb _ => hb⟩
  | run n =>
    simp only [bootStep] at hst
    split at hst
    · rename_i hg
      obtain rfl := Option.some.inj hst
      refine h.update n (fun r => { r with status := .run }) (fun _ => rfl)
        (jaSetStatusJobnetSummary_summaries _ _ _) (fun k hk => jaSetStatusJobnetSummary_bootable hk _ _) ?_
      intro now rows' hp
      refine ⟨rows', hp, List.Sublist.refl _, fun a ha hn hb _ => ?_⟩
      rw [summaryStatus, ← hn, h.summary? ha] at hg
      simp [hb] at hg
    · cases hst
  | complete n status =>
    simp only [bootStep] at hst
    split at hst
    · rename_i hg
      obtain rfl := Option.some.inj hst
      refine h.update n (fun r => { r with status }) (fun _ => rfl)
        (jaSetStatusJobnetSummary_summaries _ _ _) (fun k hk => jaSetStatusJobnetSummary_bootable hk _ _) ?_
      intro now rows' hp
      refine ⟨rows', hp, List.Sublist.refl _, fun a ha hn hb _ => ?_⟩
      have hl := hg.1
      rw [summaryStatus, ← hn, h.summary? ha] at hl
      simp [hb] at hl
    · cases hst

theorem bootInv_init {jobnetId : String} : BootInv jobnetId ⟨Tables.empty, none⟩ := by
  constructor <;> simp [Tables.empty]

/-! ## At most one instance -/

theorem getRunningJobnet_pos {t : Tables} {jobnetId : String} :
    0 < getRunningJobnet t jobnetId ↔ ∃ a ∈ t.summaries, a.jobnetId = jobnetId ∧ a.running := by
  simp [getRunningJobnet, List.countP_pos_iff]

/-- Any two READY or RUN instances of the jobnet are one. -/
def OneRunning (jobnetId : String) (t : Tables) : Prop :=
  ∀ a ∈ t.summaries, ∀ b ∈ t.summaries, a.jobnetId = jobnetId → b.jobnetId = jobnetId →
    a.running → b.running → a.innerJobnetId = b.innerJobnetId

theorem OneRunning.count {jobnetId : String} {t : Tables} (h : OneRunning jobnetId t)
    (hk : (t.summaries.map Summary.innerJobnetId).Nodup) : getRunningJobnet t jobnetId ≤ 1 := by
  rw [getRunningJobnet, List.countP_eq_length_filter]
  cases hl : t.summaries.filter fun s => s.jobnetId = jobnetId ∧ s.running with
  | nil => simp
  | cons a l =>
    have hmem : ∀ b ∈ a :: l, b ∈ t.summaries ∧ b.jobnetId = jobnetId ∧ b.running := by
      intro b hb
      rw [← hl] at hb
      simpa using hb
    have ha := hmem a List.mem_cons_self
    have hnd : ((a :: l).map Summary.innerJobnetId).Nodup := by
      rw [← hl]
      exact hk.sublist (List.filter_sublist.map _)
    cases l with
    | nil => simp
    | cons b l =>
      have hb := hmem b (by simp)
      have hab := h a ha.1 b hb.1 ha.2.1 hb.2.1 ha.2.2 hb.2.2
      simp [hab] at hnd

/-- A step after which every running instance was running before. -/
theorem OneRunning.back {jobnetId : String} {t t' : Tables} (h : OneRunning jobnetId t)
    (hb : ∀ a' ∈ t'.summaries, a'.jobnetId = jobnetId → a'.running →
      ∃ a ∈ t.summaries, a.jobnetId = jobnetId ∧ a.running ∧ a.innerJobnetId = a'.innerJobnetId) :
    OneRunning jobnetId t' := by
  intro a' ha' b' hb' hja hjb hra hrb
  obtain ⟨a, ha, hja, hra, haa⟩ := hb a' ha' hja hra
  obtain ⟨b, hb, hjb, hrb, hbb⟩ := hb b' hb' hjb hrb
  rw [← haa, ← hbb]
  exact h a ha b hb hja hjb hra hrb

/-- A decision on a fetched row of this jobnet that starts it: no instance
was running. -/
theorem BootInv.started {jobnetId : String} {s : BootState} (h : BootInv jobnetId s)
    (hc : LateAlone jobnetId s .fetch) {now : Nat} {row : Summary} {rows : List Summary}
    (hp : s.pass = some (now, row :: rows)) (hj : row.jobnetId = jobnetId)
    (hact : bootAct s.tables now row = .late ∨ bootAct s.tables now row = .start) :
    getRunningJobnet s.tables jobnetId = 0 := by
  obtain ⟨a, ha, -, hs, -⟩ := h.head hp
  simp only [Summary.shape, Prod.mk.injEq] at hs
  have hpol : row.multipleStartUp ≠ .on := hs.2.2.1 ▸ h.policy a ha (hs.2.1.trans hj)
  by_cases hlate : delayStartup now row
  · exact hc now row rows rfl hp hj hlate
  · simp only [bootAct, if_neg hlate, hj] at hact
    by_contra hne
    have hpos : 0 < getRunningJobnet s.tables jobnetId := Nat.pos_of_ne_zero hne
    cases hm : row.multipleStartUp with
    | on => exact hpol hm
    | skip => simp [hm, hpos] at hact
    | delay => simp [hm, hpos] at hact

/-- A row after a fetch: unchanged, or the decision applied to the fetched
summary. -/
theorem BootInv.mem_fetch {jobnetId : String} {s : BootState} (h : BootInv jobnetId s) {now : Nat}
    {row : Summary} {rows : List Summary} (hp : s.pass = some (now, row :: rows)) {a' : Summary}
    (ha' : a' ∈ (bootRow s.tables now row).summaries) :
    (a' ∈ s.tables.summaries ∧ a'.innerJobnetId ≠ row.innerJobnetId) ∨
      ∃ a ∈ s.tables.summaries, a.status = .begin ∧ a.shape = row.shape ∧
        a' = (bootAct s.tables now row).apply a := by
  rw [h.fetch hp] at ha'
  obtain ⟨b, hb, hbb, hbs, -⟩ := h.head hp
  rcases mem_updateSummary ha' with hold | ⟨a, ha, hid, rfl⟩
  · exact .inl hold
  · have hbid : b.innerJobnetId = row.innerJobnetId := congrArg Prod.fst hbs
    obtain rfl := h.eq_of_id ha hb (hid.trans hbid.symm)
    exact .inr ⟨a, ha, hbb, hbs, rfl⟩

theorem oneRunning_step {jobnetId : String} {s s' : BootState} {l : BootLabel} (h : BootInv jobnetId s)
    (h1 : OneRunning jobnetId s.tables) (hc : LateAlone jobnetId s l)
    (hst : bootStep jobnetId s l = some s') : OneRunning jobnetId s'.tables := by
  cases l with
  | select now =>
    simp only [bootStep] at hst
    split at hst
    · obtain rfl := Option.some.inj hst
      exact h1
    · cases hst
  | fetch =>
    simp only [bootStep] at hst
    split at hst
    · rename_i now row rows hp
      obtain rfl := Option.some.inj hst
      by_cases hstart : row.jobnetId = jobnetId ∧
          (bootAct s.tables now row = .late ∨ bootAct s.tables now row = .start)
      · -- nothing ran before, so only the fetched row can run now
        have h0 := h.started hc hp hstart.1 hstart.2
        have hnone : ∀ a ∈ s.tables.summaries, a.jobnetId = jobnetId → ¬ a.running := by
          intro a ha hj hr
          have := getRunningJobnet_pos.2 ⟨a, ha, hj, hr⟩
          omega
        have hrow : ∀ a' ∈ (bootRow s.tables now row).summaries, a'.jobnetId = jobnetId → a'.running →
            a'.innerJobnetId = row.innerJobnetId := by
          intro a' ha' hj hr
          rcases h.mem_fetch hp ha' with ⟨hold, -⟩ | ⟨a, -, -, hs, rfl⟩
          · exact absurd hr (hnone a' hold hj)
          · exact congrArg Prod.fst ((BootAct.apply_shape _ a).trans hs)
        intro a ha b hb hja hjb hra hrb
        rw [hrow a ha hja hra, hrow b hb hjb hrb]
      · refine h1.back fun a' ha' hj hr => ?_
        rcases h.mem_fetch hp ha' with ⟨hold, -⟩ | ⟨a, ha, hb, hs, rfl⟩
        · exact ⟨a', hold, hj, hr, rfl⟩
        · have hrj : row.jobnetId = jobnetId := by
            have hsh := (BootAct.apply_shape (bootAct s.tables now row) a).trans hs
            simp only [Summary.shape, Prod.mk.injEq] at hsh
            exact hsh.2.1.symm.trans hj
          cases hact : bootAct s.tables now row with
          | late => exact absurd ⟨hrj, .inl hact⟩ hstart
          | start => exact absurd ⟨hrj, .inr hact⟩ hstart
          | skip => simp [hact, BootAct.apply, Summary.running] at hr
          | delay => simp [hact, BootAct.apply, Summary.running, hb] at hr
    · obtain rfl := Option.some.inj hst
      exact h1
    · cases hst
  | insert sm n start =>
    simp only [bootStep] at hst
    split at hst
    · rename_i hg
      obtain rfl := Option.some.inj hst
      refine h1.back fun a ha hj hr => ?_
      rcases List.mem_append.1 ha with ha | ha
      · exact ⟨a, ha, hj, hr, rfl⟩
      · rw [List.mem_singleton.1 ha] at hr
        simp [Summary.running, hg.2.1] at hr
    · cases hst
  | pending n flag =>
    obtain rfl := Option.some.inj hst
    refine h1.back fun a' ha' hj hr => ?_
    rcases mem_updateSummary ha' with ⟨ha, -⟩ | ⟨a, ha, -, rfl⟩
    · exact ⟨a', ha, hj, hr, rfl⟩
    · exact ⟨a, ha, hj, hr, rfl⟩
  | run n =>
    simp only [bootStep] at hst
    split at hst
    · rename_i hg
      obtain rfl := Option.some.inj hst
      refine h1.back fun a' ha' hj hr => ?_
      rw [jaSetStatusJobnetSummary_summaries] at ha'
      rcases mem_updateSummary ha' with ⟨ha, -⟩ | ⟨a, ha, hn, rfl⟩
      · exact ⟨a', ha, hj, hr, rfl⟩
      · rw [summaryStatus, ← hn, h.summary? ha] at hg
        have hready : a.status = .ready := by simpa using hg
        exact ⟨a, ha, hj, by simp [Summary.running, hready], rfl⟩
    · cases hst
  | complete n status =>
    simp only [bootStep] at hst
    split at hst
    · rename_i hg
      obtain rfl := Option.some.inj hst
      refine h1.back fun a' ha' hj hr => ?_
      rw [jaSetStatusJobnetSummary_summaries] at ha'
      rcases mem_updateSummary ha' with ⟨ha, -⟩ | ⟨a, ha, hn, rfl⟩
      · exact ⟨a', ha, hj, hr, rfl⟩
      · rcases hg.2 with rfl | rfl <;> simp [Summary.running] at hr
    · cases hst

/-! ## A skipped instance -/

/-- A finished instance stays as it is: no step looks at it again. -/
theorem ended_step {jobnetId : String} {s s' : BootState} {l : BootLabel} (h : BootInv jobnetId s) {n : Id}
    (hn : summaryStatus s.tables n = some .ended) (hst : bootStep jobnetId s l = some s') :
    summaryStatus s'.tables n = some .ended := by
  have hlookup : ∀ (t' : Tables) (k : Id) (f : Summary → Summary), (∀ r, (f r).innerJobnetId = r.innerJobnetId) →
      t'.summaries = Table.update (·.innerJobnetId == k) f s.tables.summaries →
      (k = n → ∀ r, r.status = .ended → (f r).status = .ended) → summaryStatus t' n = some .ended := by
    intro t' k f hf hsum hk
    obtain ⟨r, hr, hrs⟩ := Option.map_eq_some_iff.1 hn
    have hrn := (Table.lookup_mem hr).2
    have hl : t'.summary? n = some (if r.innerJobnetId == k then f r else r) := by
      rw [Tables.summary?, hsum, Table.lookup_update Summary.innerJobnetId n _ f _ hf]
      exact congrArg (Option.map _) hr
    rw [summaryStatus, hl, Option.map_some]
    congr 1
    split
    · rename_i hid
      exact hk (by rw [← hrn]; exact (by simpa using hid : r.innerJobnetId = k).symm) r hrs
    · exact hrs
  cases l with
  | select now =>
    simp only [bootStep] at hst
    split at hst
    · obtain rfl := Option.some.inj hst
      exact hn
    · cases hst
  | fetch =>
    simp only [bootStep] at hst
    split at hst
    · rename_i now row rows hp
      obtain rfl := Option.some.inj hst
      refine hlookup _ _ _ (fun r => congrArg Prod.fst (BootAct.apply_shape _ r)) (h.fetch hp) ?_
      -- a fetched row is in BEGIN
      rintro rfl
      obtain ⟨a, -, hb, -, -, hl⟩ := h.head hp
      rw [summaryStatus, hl] at hn
      simp [hb] at hn
    · obtain rfl := Option.some.inj hst
      exact hn
    · cases hst
  | insert sm m start =>
    simp only [bootStep] at hst
    split at hst
    · obtain rfl := Option.some.inj hst
      obtain ⟨r, hr, hrs⟩ := Option.map_eq_some_iff.1 hn
      have hl : (insertSummary s.tables sm m start).summary? n = some r := by
        simp only [Tables.summary?, Table.lookup, insertSummary, List.find?_append] at hr ⊢
        rw [hr]
        rfl
      rw [summaryStatus, hl, Option.map_some, hrs]
    · cases hst
  | pending m flag =>
    obtain rfl := Option.some.inj hst
    exact hlookup _ m (fun r => { r with startPendingFlag := flag }) (fun _ => rfl) rfl fun _ r hr => hr
  | run m =>
    simp only [bootStep] at hst
    split at hst
    · rename_i hg
      obtain rfl := Option.some.inj hst
      refine hlookup _ m (fun r => { r with status := .run }) (fun _ => rfl)
        (jaSetStatusJobnetSummary_summaries _ _ _) ?_
      rintro rfl
      rw [hn] at hg
      cases hg
    · cases hst
  | complete m status =>
    simp only [bootStep] at hst
    split at hst
    · rename_i hg
      obtain rfl := Option.some.inj hst
      refine hlookup _ m (fun r => { r with status }) (fun _ => rfl)
        (jaSetStatusJobnetSummary_summaries _ _ _) ?_
      rintro rfl
      rw [hn] at hg
      simp at hg
    · cases hst

theorem ended_run {jobnetId : String} {s s' : BootState} {ls : List BootLabel}
    (hr : (bootSystem jobnetId).Run s ls s') (h : BootInv jobnetId s) {n : Id}
    (hn : summaryStatus s.tables n = some .ended) : summaryStatus s'.tables n = some .ended := by
  have hpres : ∀ s l s', BootInv jobnetId s ∧ summaryStatus s.tables n = some .ended →
      (bootSystem jobnetId).step s l s' → BootInv jobnetId s' ∧ summaryStatus s'.tables n = some .ended :=
    fun s l s' hs hst => ⟨bootInv_step hs.1 hst, ended_step hs.1 hs.2 hst⟩
  exact (hr.preserves hpres ⟨h, hn⟩).2

/-! ## The order of delayed starts -/

/-- A DELAY instance of the jobnet that is due and waits to be started. -/
structure Waiting (jobnetId : String) (now : Nat) (y : Summary) : Prop where
  jobnet : y.jobnetId = jobnetId
  policy : y.multipleStartUp = .delay
  begun : y.status = .begin
  released : y.startPendingFlag ≠ .on
  due : y.due now

/-- In a pass every waiting instance is still to be fetched, or one is
running. -/
def WaitingFetched (jobnetId : String) (s : BootState) : Prop :=
  ∀ now rows, s.pass = some (now, rows) → ∀ y ∈ s.tables.summaries, Waiting jobnetId now y →
    (∃ r ∈ rows, r.shape = y.shape) ∨ 0 < getRunningJobnet s.tables jobnetId

/-- Running instances the update of another summary leaves alone. -/
theorem running_update {jobnetId : String} {t t' : Tables} {n : Id} {f : Summary → Summary}
    (hsum : t'.summaries = Table.update (·.innerJobnetId == n) f t.summaries)
    (hf : ∀ a ∈ t.summaries, a.innerJobnetId = n → a.jobnetId = jobnetId → a.running →
      (f a).jobnetId = jobnetId ∧ (f a).running)
    (h : 0 < getRunningJobnet t jobnetId) : 0 < getRunningJobnet t' jobnetId := by
  obtain ⟨a, ha, hj, hr⟩ := getRunningJobnet_pos.1 h
  refine getRunningJobnet_pos.2 ⟨_, by rw [hsum]; exact Table.mem_update.2 ⟨a, ha, rfl⟩, ?_⟩
  split
  · rename_i hid
    exact hf a ha (by simpa using hid) hj hr
  · exact ⟨hj, hr⟩

theorem waitingFetched_step {jobnetId : String} {s s' : BootState} {l : BootLabel} (h : BootInv jobnetId s)
    (hw : WaitingFetched jobnetId s) (hq : QuietPass jobnetId s l)
    (hst : bootStep jobnetId s l = some s') : WaitingFetched jobnetId s' := by
  cases l with
  | select now =>
    simp only [bootStep] at hst
    split at hst
    · obtain rfl := Option.some.inj hst
      rintro now' rows ⟨⟩ y hy hwait
      exact .inl ⟨y, mem_bootRows.2 ⟨hy, hwait.begun, hwait.released, hwait.due⟩, rfl⟩
    · cases hst
  | fetch =>
    simp only [bootStep] at hst
    split at hst
    · rename_i now row rows hp
      obtain rfl := Option.some.inj hst
      obtain ⟨b, hb, hbb, hbs, -⟩ := h.head hp
      have hbid : b.innerJobnetId = row.innerJobnetId := congrArg Prod.fst hbs
      -- the fetched row is in BEGIN, so what runs keeps running
      have hkeep : 0 < getRunningJobnet s.tables jobnetId →
          0 < getRunningJobnet (bootRow s.tables now row) jobnetId := by
        refine running_update (h.fetch hp) fun a ha hid _ hr => ?_
        obtain rfl := h.eq_of_id ha hb (hid.trans hbid.symm)
        simp [Summary.running, hbb] at hr
      rintro now' rows' ⟨⟩ y' hy' hwait
      rcases h.mem_fetch hp hy' with ⟨hold, hne⟩ | ⟨a, ha, hab, has, rfl⟩
      · rcases hw now _ hp y' hold hwait with ⟨r, hr, hs⟩ | hrun
        · rcases List.mem_cons.1 hr with rfl | hr
          · exact absurd (congrArg Prod.fst hs).symm hne
          · exact .inl ⟨r, hr, hs⟩
        · exact .inr (hkeep hrun)
      · -- still in BEGIN after the fetch: it was delayed
        right
        apply hkeep
        have hsh : a.jobnetId = row.jobnetId := congrArg (·.2.1) has
        have hjob : row.jobnetId = jobnetId := by
          have := congrArg (·.2.1) (BootAct.apply_shape (bootAct s.tables now row) a)
          exact hsh.symm.trans (this.symm.trans hwait.jobnet)
        have hbegun := hwait.begun
        cases hact : bootAct s.tables now row with
        | late => simp [hact, BootAct.apply] at hbegun
        | skip => simp [hact, BootAct.apply] at hbegun
        | start => simp [hact, BootAct.apply] at hbegun
        | delay =>
          unfold bootAct at hact
          split at hact
          · cases hact
          · split at hact
            · split at hact <;> cases hact
            · split at hact
              · rename_i hpos
                rwa [hjob] at hpos
              · cases hact
            · cases hact
    · obtain rfl := Option.some.inj hst
      intro now rows hp
      cases hp
    · cases hst
  | insert sm n start =>
    simp only [bootStep] at hst
    split at hst
    · obtain rfl := Option.some.inj hst
      intro now rows hp y hy hwait
      rcases List.mem_append.1 hy with hy | hy
      · rcases hw now rows hp y hy hwait with hr | hrun
        · exact .inl hr
        · obtain ⟨a, ha, hj, hr⟩ := getRunningJobnet_pos.1 hrun
          exact .inr (getRunningJobnet_pos.2 ⟨a, List.mem_append_left _ ha, hj, hr⟩)
      · rw [List.mem_singleton.1 hy] at hwait
        exact absurd hwait.due ((hq now rows hp).2.1 sm n start rfl hwait.jobnet)
    · cases hst
  | pending n flag =>
    obtain rfl := Option.some.inj hst
    intro now rows hp y' hy' hwait
    have hkeep : 0 < getRunningJobnet s.tables jobnetId →
        0 < getRunningJobnet (s.tables.updateSummaries (·.innerJobnetId == n) fun r =>
          { r with startPendingFlag := flag }) jobnetId :=
      running_update rfl fun a _ _ hj hr => ⟨hj, hr⟩
    rcases mem_updateSummary hy' with ⟨hold, -⟩ | ⟨a, ha, hid, rfl⟩
    · rcases hw now rows hp y' hold hwait with hr | hrun
      · exact .inl hr
      · exact .inr (hkeep hrun)
    · exact absurd hwait.jobnet
        ((hq now rows hp).2.2 n flag rfl hwait.released a (hid ▸ h.summary? ha))
  | run n =>
    simp only [bootStep] at hst
    split at hst
    · obtain rfl := Option.some.inj hst
      intro now rows hp y' hy' hwait
      have hkeep : 0 < getRunningJobnet s.tables jobnetId →
          0 < getRunningJobnet (jaSetStatusJobnetSummary s.tables n .run).1 jobnetId :=
        running_update (jaSetStatusJobnetSummary_summaries _ _ _) fun a _ _ hj _ =>
          ⟨hj, by simp [Summary.running]⟩
      rw [jaSetStatusJobnetSummary_summaries] at hy'
      rcases mem_updateSummary hy' with ⟨hold, -⟩ | ⟨a, ha, hid, rfl⟩
      · rcases hw now rows hp y' hold hwait with hr | hrun
        · exact .inl hr
        · exact .inr (hkeep hrun)
      · cases hwait.begun
    · cases hst
  | complete n status =>
    simp only [bootStep] at hst
    split at hst
    · rename_i hg
      obtain rfl := Option.some.inj hst
      intro now rows hp y' hy' hwait
      have hkeep : 0 < getRunningJobnet s.tables jobnetId →
          0 < getRunningJobnet (jaSetStatusJobnetSummary s.tables n status).1 jobnetId :=
        running_update (jaSetStatusJobnetSummary_summaries _ _ _) fun a ha hid hj _ =>
          absurd hj ((hq now rows hp).1 n status rfl a (hid ▸ h.summary? ha))
      rw [jaSetStatusJobnetSummary_summaries] at hy'
      rcases mem_updateSummary hy' with ⟨hold, -⟩ | ⟨a, ha, hid, rfl⟩
      · rcases hw now rows hp y' hold hwait with hr | hrun
        · exact .inl hr
        · exact .inr (hkeep hrun)
      · have hbegun : status = .begin := hwait.begun
        rcases hg.2 with hs | hs <;> rw [hs] at hbegun <;> cases hbegun
    · cases hst

/-- The order only looks at the shape. -/
theorem bootOrder_shape {x r y : Summary} (h : bootOrder x r) (hs : r.shape = y.shape) : bootOrder x y := by
  simp only [Summary.shape, Prod.mk.injEq] at hs
  rcases h with h | ⟨h, hi⟩
  · exact .inl (hs.2.2.2 ▸ h)
  · exact .inr ⟨h.trans hs.2.2.2, hs.1 ▸ hi⟩

/-! ## The law -/

/-- The decision for a fetched row of this jobnet, seen in the tables after
the step. -/
theorem BootInv.status_fetch {jobnetId : String} {s : BootState} (h : BootInv jobnetId s) {now : Nat}
    {row : Summary} {rows : List Summary} (hp : s.pass = some (now, row :: rows)) :
    ∃ a, a.status = .begin ∧
      summaryStatus (bootRow s.tables now row) row.innerJobnetId =
        some ((bootAct s.tables now row).apply a).status := by
  obtain ⟨a, ha, hb, hs, -, hl⟩ := h.head hp
  have hid : a.innerJobnetId = row.innerJobnetId := congrArg Prod.fst hs
  refine ⟨a, hb, ?_⟩
  have hlook := Table.lookup_update Summary.innerJobnetId row.innerJobnetId
    (·.innerJobnetId == row.innerJobnetId) (bootAct s.tables now row).apply s.tables.summaries
    fun r => congrArg Prod.fst (BootAct.apply_shape _ r)
  rw [← h.fetch hp, show Table.lookup Summary.innerJobnetId row.innerJobnetId s.tables.summaries = some a
    from hl, Option.map_some] at hlook
  rw [summaryStatus, Tables.summary?, hlook]
  simp [hid]

/-- The runs that never take the late branch next to a running instance. -/
abbrev lateAloneSystem (jobnetId : String) : LTS BootState BootLabel :=
  (bootSystem jobnetId).restrict (LateAlone jobnetId)

/-- Those that also let nothing become startable behind a pass's back. -/
abbrev quietSystem (jobnetId : String) : LTS BootState BootLabel :=
  (bootSystem jobnetId).restrict fun s l => LateAlone jobnetId s l ∧ QuietPass jobnetId s l

theorem lateAlone_inductive (jobnetId : String) :
    (lateAloneSystem jobnetId).Inductive fun s => BootInv jobnetId s ∧ OneRunning jobnetId s.tables where
  init := by
    rintro s rfl
    exact ⟨bootInv_init, fun a ha => by cases ha⟩
  step := by
    rintro s l s' ⟨h, h1⟩ ⟨hst, hc⟩
    exact ⟨bootInv_step h hst, oneRunning_step h h1 hc hst⟩

theorem quiet_inductive (jobnetId : String) :
    (quietSystem jobnetId).Inductive fun s => BootInv jobnetId s ∧ WaitingFetched jobnetId s where
  init := by
    rintro s rfl
    exact ⟨bootInv_init, fun _ _ hp => by cases hp⟩
  step := by
    rintro s l s' ⟨h, hw⟩ ⟨hst, -, hq⟩
    exact ⟨bootInv_step h hst, waitingFetched_step h hw hq hst⟩

/-- **Multiple start-up exclusion.** In the runs in which the delay start-up
check never meets a running instance, at most one instance is READY or RUN,
and a SKIP instance fetched while one is running ends in END for good. In
those in which nothing becomes startable during a pass either, a DELAY
instance is only taken out of BEGIN when it is first in (`scheduled_time`,
`inner_jobnet_id`) among the waiting ones. -/
theorem multiple_start_up (jobnetId : String) :
    (∀ s, (lateAloneSystem jobnetId).Reachable s → getRunningJobnet s.tables jobnetId ≤ 1) ∧
    (∀ s s' now x rows, (lateAloneSystem jobnetId).Reachable s → s.pass = some (now, x :: rows) →
      x.jobnetId = jobnetId → x.multipleStartUp = .skip → 0 < getRunningJobnet s.tables jobnetId →
      (lateAloneSystem jobnetId).step s .fetch s' →
      ∀ ls s'', (bootSystem jobnetId).Run s' ls s'' →
        summaryStatus s''.tables x.innerJobnetId = some .ended) ∧
    (∀ s s' now x rows, (quietSystem jobnetId).Reachable s → s.pass = some (now, x :: rows) →
      x.jobnetId = jobnetId → x.multipleStartUp = .delay → (quietSystem jobnetId).step s .fetch s' →
      summaryStatus s'.tables x.innerJobnetId = some .ready ∨
        summaryStatus s'.tables x.innerJobnetId = some .run →
      ∀ y ∈ s.tables.summaries, Waiting jobnetId now y → bootOrder x y) := by
  refine ⟨?_, ?_, ?_⟩
  · intro s hr
    obtain ⟨h, h1⟩ := (lateAlone_inductive jobnetId).reachable s hr
    exact h1.count h.keys
  · rintro s s' now x rows hr hp hj hskip hpos ⟨hst, hc⟩ ls s'' hrun
    obtain ⟨h, -⟩ := (lateAlone_inductive jobnetId).reachable s hr
    refine ended_run hrun (bootInv_step h hst) ?_
    -- not late, since an instance is running
    have hlate : ¬ delayStartup now x := fun hl => by
      have := hc now x rows rfl hp hj hl
      omega
    have hact : bootAct s.tables now x = .skip := by
      simp [bootAct, hlate, hskip, hj, hpos]
    obtain ⟨a, -, hstat⟩ := h.status_fetch hp
    have hs' : s' = ⟨bootRow s.tables now x, some (now, rows)⟩ := by
      simp only [bootSystem, LTS.ofFn, bootStep, hp] at hst
      exact (Option.some.inj hst).symm
    rw [hs', hstat, hact]
    rfl
  · rintro s s' now x rows hr hp hj hdelay ⟨hst, hc, -⟩ hstarted y hy hwait
    obtain ⟨h, hw⟩ := (quiet_inductive jobnetId).reachable s hr
    obtain ⟨a, hab, hstat⟩ := h.status_fetch hp
    have hs' : s' = ⟨bootRow s.tables now x, some (now, rows)⟩ := by
      simp only [bootSystem, LTS.ofFn, bootStep, hp] at hst
      exact (Option.some.inj hst).symm
    rw [hs', hstat] at hstarted
    have hact : bootAct s.tables now x = .late ∨ bootAct s.tables now x = .start := by
      cases hact : bootAct s.tables now x with
      | late => exact .inl rfl
      | start => exact .inr rfl
      | skip => simp [hact, BootAct.apply] at hstarted
      | delay => simp [hact, BootAct.apply, hab] at hstarted
    have h0 := h.started hc hp hj hact
    rcases hw now _ hp y hy hwait with ⟨r, hrows, hs⟩ | hpos
    · refine bootOrder_shape ?_ hs
      rcases List.mem_cons.1 hrows with rfl | hrest
      · exact .inr ⟨rfl, Nat.le_refl _⟩
      · exact (List.pairwise_cons.1 (h.sorted now _ hp)).1 r hrest
    · omega

/-! ## The late branch -/

/-- An instance of jobnet "NET" with the policy DELAY. -/
def netSummary (n : Id) (scheduledTime : Nat) : Summary :=
  ⟨n, .normal, .begin, .normal, false, .normal, scheduledTime, .delay, "NET", .unset⟩

def netJobnet (n : Id) (scheduledTime : Nat) : Jobnet :=
  ⟨n, n, 0, 20230101000000, .normal, true, false, .begin, scheduledTime, .delay, "NET", "net", "user"⟩

def netStart (n : Id) : Job :=
  ⟨n + 100, n, n, true, .startIcon, false, .normal, false, .begin, 0, 0, "START", false⟩

/-- The labels up to the start of instance 1, scheduled for 10:00. -/
def startOne : List BootLabel :=
  [.insert (netSummary 1 202301311000) (netJobnet 1 202301311000) (netStart 1),
    .select 202301311000, .fetch]

/-- Instance 2 is scheduled for 10:30; the pass of 10:31 meets it while
instance 1 runs. -/
def startTwo : List BootLabel :=
  startOne ++ [.fetch, .insert (netSummary 2 202301311030) (netJobnet 2 202301311030) (netStart 2),
    .select 202301311031, .fetch]

/-- The state after these labels. -/
def bootRun (jobnetId : String) : List BootLabel → BootState → Option BootState
  | [], s => some s
  | l :: ls, s => (bootStep jobnetId s l).bind (bootRun jobnetId ls)

theorem bootRun_run {jobnetId : String} {ls : List BootLabel} {s s' : BootState}
    (h : bootRun jobnetId ls s = some s') : (bootSystem jobnetId).Run s ls s' := by
  induction ls generalizing s with
  | nil =>
    obtain rfl := Option.some.inj h
    exact .nil _
  | cons l ls ih =>
    obtain ⟨s₁, h1, h2⟩ := Option.bind_eq_some_iff.1 h
    exact .cons h1 (ih h2)

/-- Two instances in READY or RUN: the late one is put into RUN beside the
first. -/
theorem two_running :
    ∃ s, (bootSystem "NET").Reachable s ∧ getRunningJobnet s.tables "NET" = 2 ∧
      summaryStatus s.tables 1 = some .ready ∧ summaryStatus s.tables 2 = some .run := by
  have hsome : (bootRun "NET" startTwo ⟨Tables.empty, none⟩).isSome := by decide +kernel
  obtain ⟨s, hs⟩ := Option.isSome_iff_exists.1 hsome
  refine ⟨s, ⟨_, _, rfl, bootRun_run hs⟩, ?_⟩
  have hval : (bootRun "NET" startTwo ⟨Tables.empty, none⟩).all fun s =>
      getRunningJobnet s.tables "NET" = 2 ∧ summaryStatus s.tables 1 = some .ready ∧
        summaryStatus s.tables 2 = some .run := by
    decide +kernel
  rw [hs] at hval
  simpa using hval

theorem lateAlone_of_idle {jobnetId : String} {s : BootState} {l : BootLabel}
    (h : getRunningJobnet s.tables jobnetId = 0) : LateAlone jobnetId s l :=
  fun _ _ _ _ _ _ _ => h

/-- The tables with instance 1 loaded. -/
def oneLoaded : Tables :=
  insertSummary Tables.empty (netSummary 1 202301311000) (netJobnet 1 202301311000) (netStart 1)

/-- The first instance alone is started within the law. -/
theorem multiple_start_up_startOne :
    ∃ s, (lateAloneSystem "NET").Reachable s ∧ summaryStatus s.tables 1 = some .ready ∧
      getRunningJobnet s.tables "NET" ≤ 1 := by
  have hstep : ∀ {s s' l}, bootStep "NET" s l = some s' → getRunningJobnet s.tables "NET" = 0 →
      (lateAloneSystem "NET").step s l s' := fun h h0 => ⟨h, lateAlone_of_idle h0⟩
  have hrun : (lateAloneSystem "NET").Run ⟨Tables.empty, none⟩ startOne
      ⟨bootRow oneLoaded 202301311000 (netSummary 1 202301311000), some (202301311000, [])⟩ :=
    .cons (r := ⟨oneLoaded, none⟩) (hstep (by decide +kernel) (by decide))
      (.cons (r := ⟨oneLoaded, some (202301311000, [netSummary 1 202301311000])⟩)
        (hstep (by decide +kernel) (by decide)) (.cons (hstep (by decide +kernel) (by decide)) (.nil _)))
  have hreach : (lateAloneSystem "NET").Reachable _ := ⟨_, _, rfl, hrun⟩
  exact ⟨_, hreach, by decide +kernel, (multiple_start_up "NET").1 _ hreach⟩

end JobArranger
