import JobArranger.L5Server.Start

/-!
# Which value of a variable a job sees

Variables are written by inserting rows; the row with the greatest `seq_no`
counts. `ja_clean_value_before` and `ja_clean_value_after` delete the others
before the variables of a job are used. A flow copies the after-variables of
its predecessor to the before-variables of the job it starts, and
`jarun_normal` writes `JOB_ID`, `JOB_NAME`, `CURRENT_TIME` and `JOB_ID_FULL`
of the job itself before it cleans.

* `run_inv`: rows are numbered in the order they were written, over any
  sequence of operations.
* `mem_cleanRows`: what a clean leaves, for rows numbered that way.
* `latest_run`: the value that counts is that of the last flow that carried
  the name.
* `last_write_wins`: both together, for the job that `jarun_normal` starts.
* `own_job_id_seen`: the four names of the job itself are not carried.
-/
namespace JobArranger.Variables

open Tables

/-! ## Operations -/

/-- A name that fits `value_name` of the clean functions. -/
structure ValueName where
  name : String
  nonempty : name ≠ ""
  fits : name.utf8ByteSize ≤ 128

/-- The operations on the variables of jobs. -/
inductive Op where
  | setValueBefore (i n : Id) (name : ValueName) (value : Text)
  | setValueAfter (i n : Id) (name : ValueName) (value : Text)
  | valueAfterBefore (i next : Id)
  | valueBeforeAfter (i : Id)
  | cleanValueBefore (i : Id)
  | cleanValueAfter (i : Id)

def Op.run : Op → Tables → Tables
  | .setValueBefore i n name value, t => (jaSetValueBefore t i n name.name value).1
  | .setValueAfter i n name value, t => (jaSetValueAfter t i n name.name value).1
  | .valueAfterBefore i next, t => (jaValueAfterBefore t i next).1
  | .valueBeforeAfter i, t => (jaValueBeforeAfter t i).1
  | .cleanValueBefore i, t => (jaCleanValueBefore t i).1
  | .cleanValueAfter i, t => (jaCleanValueAfter t i).1

def runOps (t : Tables) (ops : List Op) : Tables := ops.foldl (fun t op => op.run t) t

/-- What `jarun_value_before` reads besides the job row; `stack` is
`inner_jobnet_id` when there is none. -/
structure JobTexts where
  jobName : Id → Text
  currentTime : Text
  jobIdFull : Id → Text
  stack : Id

/-- mirrors src/jobarg_server/jarun/jarunvalue.c:50-98 -/
def jarunValueBefore (x : JobTexts) (i : Id) (t : Tables) : Tables × Ret :=
  let n := ((t.job? i).map (·.innerJobnetId)).getD x.stack
  andThen (match t.job? i with
    | none => (t, .succeed)
    | some j =>
      andThen (jaSetValueBefore t i n "JOB_ID" (ascii j.jobId)) fun t =>
      andThen (jaSetValueBefore t i n "JOB_NAME" (x.jobName i)) fun t =>
      jaSetValueBefore t i n "CURRENT_TIME" x.currentTime) fun t =>
  andThen (jaSetValueBefore t i n "JOB_ID_FULL" (x.jobIdFull i)) fun t =>
  jaRemoveValueBefore t i "JOBARG_MESSAGE"

/-- The variables `jarun_value_before` writes anew. -/
def ownNames : List String := ["JOB_ID", "JOB_NAME", "CURRENT_TIME", "JOB_ID_FULL"]

/-! ## Rows in the order they were written -/

structure Numbered (rows : List ValueRow) (next : Nat) : Prop where
  order : rows.Pairwise fun a b => a.seqNo < b.seqNo
  below : ∀ r ∈ rows, r.seqNo < next
  named : ∀ r ∈ rows, r.valueName ≠ ""

structure VarInv (t : Tables) : Prop where
  before : Numbered t.before t.nextSeq
  after : Numbered t.after t.nextSeq

theorem Numbered.mono {rows : List ValueRow} {n n' : Nat} (h : Numbered rows n) (hn : n ≤ n') : Numbered rows n' :=
  ⟨h.order, fun r hr => Nat.lt_of_lt_of_le (h.below r hr) hn, h.named⟩

theorem Numbered.sublist {rows rows' : List ValueRow} {n : Nat} (h : Numbered rows n) (hs : rows'.Sublist rows) :
    Numbered rows' n :=
  ⟨h.order.sublist hs, fun r hr => h.below r (hs.subset hr), fun r hr => h.named r (hs.subset hr)⟩

theorem Numbered.insert {rows new : List ValueRow} {n : Nat} (h : Numbered rows n)
    (hnew : ∀ r ∈ new, r.valueName ≠ "") : Numbered (insertRows rows new n) (n + new.length) := by
  have hmem : ∀ r ∈ new.zipIdx.map (fun p => { p.1 with seqNo := n + p.2 }), n ≤ r.seqNo ∧ r.seqNo < n + new.length ∧
      r.valueName ≠ "" := by
    intro r hr
    obtain ⟨⟨v, k⟩, hp, rfl⟩ := List.mem_map.1 hr
    have hv := List.mem_zipIdx hp
    refine ⟨Nat.le_add_right _ _, by simp only; omega, ?_⟩
    exact hnew v (by rw [hv.2.2]; exact List.getElem_mem _)
  have hincr : (new.zipIdx.map fun p => { p.1 with seqNo := n + p.2 }).Pairwise fun a b => a.seqNo < b.seqNo := by
    rw [List.pairwise_iff_getElem]
    intro a b ha hb hab
    simpa using hab
  refine ⟨List.pairwise_append.2 ⟨h.order, hincr, fun a ha b hb => ?_⟩, fun r hr => ?_, fun r hr => ?_⟩
  · exact Nat.lt_of_lt_of_le (h.below a ha) (hmem b hb).1
  · rcases List.mem_append.1 hr with hr | hr
    · have := h.below r hr; omega
    · exact (hmem r hr).2.1
  · rcases List.mem_append.1 hr with hr | hr
    · exact h.named r hr
    · exact (hmem r hr).2.2

theorem Numbered.clean {rows : List ValueRow} {n : Nat} (h : Numbered rows n) (i : Id) :
    Numbered (cleanRows rows i) n := h.sublist List.filter_sublist

/-- Rows are written in order, whatever is done to which job. -/
theorem Op.run_inv (op : Op) {t : Tables} (h : VarInv t) : VarInv (op.run t) := by
  cases op with
  | setValueBefore i n name value =>
    change VarInv (jaSetValueBefore t i n name.name value).1
    unfold jaSetValueBefore
    split
    · exact h
    · exact ⟨h.before.insert (by simpa using name.nonempty), h.after.mono (Nat.le_succ _)⟩
  | setValueAfter i n name value =>
    change VarInv (jaSetValueAfter t i n name.name value).1
    unfold jaSetValueAfter
    split
    · exact h
    · exact ⟨h.before.mono (Nat.le_succ _), h.after.insert (by simpa using name.nonempty)⟩
  | valueAfterBefore i next =>
    have hnew : ∀ r ∈ (t.after.filter fun r => r.owner == i).map fun r => { r with owner := next }, r.valueName ≠ "" := by
      intro r hr
      obtain ⟨v, hv, rfl⟩ := List.mem_map.1 hr
      exact h.after.named v (List.mem_filter.1 hv).1
    have hb := h.before.insert hnew
    exact ⟨hb, h.after.mono (Nat.le_add_right _ _)⟩
  | valueBeforeAfter i =>
    have hnew : ∀ r ∈ t.before.filter fun r => r.owner == i, r.valueName ≠ "" := fun r hr =>
      h.before.named r (List.mem_filter.1 hr).1
    have ha := h.after.insert hnew
    exact ⟨h.before.mono (Nat.le_add_right _ _), ha⟩
  | cleanValueBefore i => exact ⟨h.before.clean i, h.after⟩
  | cleanValueAfter i => exact ⟨h.before, h.after.clean i⟩

theorem run_inv {t : Tables} (h : VarInv t) (ops : List Op) : VarInv (runOps t ops) := by
  induction ops generalizing t with
  | nil => exact h
  | cons op ops ih => exact ih (op.run_inv h)

/-! ## What a clean leaves -/

/-- A row deleted by the loop has a row of its name before it. -/
theorem of_mem_cleanLoop {s : Nat} : ∀ {name : String} {l : List ValueRow}, s ∈ cleanLoop name l →
    ∃ pre r post, l = pre ++ r :: post ∧ r.seqNo = s ∧ (r.valueName = name ∨ ∃ r' ∈ pre, r'.valueName = r.valueName)
  | _, [], h => absurd h List.not_mem_nil
  | name, x :: l, h => by
    rw [cleanLoop] at h
    split at h
    · obtain ⟨pre, r, post, rfl, hs, hr | ⟨r', hr', hn⟩⟩ := of_mem_cleanLoop h
      · exact ⟨x :: pre, r, post, rfl, hs, .inr ⟨x, List.mem_cons_self, hr.symm⟩⟩
      · exact ⟨x :: pre, r, post, rfl, hs, .inr ⟨r', List.mem_cons_of_mem _ hr', hn⟩⟩
    · rename_i hx
      rcases List.mem_cons.1 h with rfl | h
      · exact ⟨[], x, l, rfl, rfl, .inl (not_not.1 hx)⟩
      · obtain ⟨pre, r, post, rfl, hs, hr | ⟨r', hr', hn⟩⟩ := of_mem_cleanLoop h
        · exact ⟨x :: pre, r, post, rfl, hs, .inl hr⟩
        · exact ⟨x :: pre, r, post, rfl, hs, .inr ⟨r', List.mem_cons_of_mem _ hr', hn⟩⟩

theorem seqNo_inj {rows : List ValueRow} {n : Nat} (h : Numbered rows n) {a b : ValueRow} (ha : a ∈ rows) (hb : b ∈ rows)
    (he : a.seqNo = b.seqNo) : a = b := by
  have hnd : (rows.map ValueRow.seqNo).Nodup := by
    rw [List.Nodup, List.pairwise_map]
    exact h.order.imp fun hlt => Nat.ne_of_lt hlt
  exact List.inj_on_of_nodup_map hnd ha hb he

/-- Of the rows of the owner those stay whose number is the greatest of their
name; all others stay. -/
theorem mem_cleanRows {rows : List ValueRow} {n : Nat} (h : Numbered rows n) {i : Id} {r : ValueRow} :
    r ∈ cleanRows rows i ↔ r ∈ rows ∧
      (r.owner = i → ∀ r' ∈ rows, r'.owner = i → r'.valueName = r.valueName → r'.seqNo ≤ r.seqNo) := by
  have hsorted : ((rows.filter fun r => r.owner == i).insertionSort cleanOrder).Pairwise cleanOrder := by
    have : Std.Total cleanOrder := ⟨cleanOrder_total⟩
    have : IsTrans ValueRow cleanOrder := ⟨fun _ _ _ => cleanOrder_trans⟩
    exact List.pairwise_insertionSort cleanOrder _
  have hnd : ((rows.filter fun r => r.owner == i).insertionSort cleanOrder).Nodup := by
    rw [(List.perm_insertionSort cleanOrder _).nodup_iff]
    exact (h.order.imp fun hlt he => absurd (congrArg ValueRow.seqNo he) (Nat.ne_of_lt hlt)).filter _
  have hmem : ∀ r, r ∈ (rows.filter fun r => r.owner == i).insertionSort cleanOrder ↔ r ∈ rows ∧ r.owner = i := by
    simp
  constructor
  · intro hr
    refine ⟨(List.mem_filter.1 hr).1, fun ho r' hr' ho' hn => ?_⟩
    -- a row of a greater number comes first, and then this one is deleted
    by_contra hlt
    have hne : r' ≠ r := by rintro rfl; exact hlt (Nat.le_refl _)
    have hdead : r.seqNo ∉ cleanLoop "" ((rows.filter fun r => r.owner == i).insertionSort cleanOrder) := by
      simpa [cleanRows, (List.mem_filter.1 hr).1] using hr
    rcases two_mem_split hne ((hmem r').2 ⟨hr', ho'⟩) ((hmem r).2 ⟨(List.mem_filter.1 hr).1, ho⟩) with
      ⟨pre, mid, post, e⟩ | ⟨pre, mid, post, e⟩
    · rw [e] at hsorted hdead
      exact hdead (mem_cleanLoop hn hsorted)
    · rw [e, List.append_assoc] at hsorted
      have hord : cleanOrder r r' :=
        (List.pairwise_cons.1 (List.pairwise_append.1 hsorted).2.1).1 r' (by simp)
      rcases hord with hord | ⟨-, hge⟩
      · exact absurd (hn ▸ hord) (String.lt_irrefl _)
      · exact hlt hge
  · rintro ⟨hr, hg⟩
    refine List.mem_filter.2 ⟨hr, decide_eq_true fun hdead => ?_⟩
    obtain ⟨pre, x, post, hl, hs, hx⟩ := of_mem_cleanLoop hdead
    have hxin : x ∈ rows ∧ x.owner = i := (hmem x).1 (by rw [hl]; simp)
    obtain rfl : x = r := seqNo_inj h hxin.1 hr hs
    rcases hx with hx | ⟨r', hr', hn⟩
    · exact h.named x hr hx
    · have hrin : r' ∈ rows ∧ r'.owner = i := (hmem r').1 (by rw [hl]; simp [hr'])
      rw [hl] at hsorted
      have hord : cleanOrder r' x := (List.pairwise_append.1 hsorted).2.2 r' hr' x List.mem_cons_self
      have hge : x.seqNo ≤ r'.seqNo := by
        rcases hord with hlt | ⟨-, hge⟩
        · exact absurd (hn ▸ hlt) (String.lt_irrefl _)
        · exact hge
      have hle := hg hxin.2 r' hrin.1 hrin.2 hn
      obtain rfl : r' = x := seqNo_inj h hrin.1 hxin.1 (Nat.le_antisymm hle hge)
      rw [hl] at hnd
      exact (List.nodup_append.1 hnd).2.2 r' hr' r' List.mem_cons_self rfl

/-- What a clean of one job makes of a variable table. -/
structure LeavesLatest (rows rows' : List ValueRow) (owner : Id) : Prop where
  /-- the rows that stay have the greatest number of their name -/
  latest : ∀ r, r ∈ rows' ∧ r.owner = owner ↔ r ∈ rows ∧ r.owner = owner ∧
    ∀ r' ∈ rows, r'.owner = owner → r'.valueName = r.valueName → r'.seqNo ≤ r.seqNo
  /-- there is exactly one for each name -/
  one : ∀ r ∈ rows, r.owner = owner → ∃ r', rowsOf rows' owner r.valueName = [r']
  others : rows'.filter (fun r => r.owner != owner) = rows.filter fun r => r.owner != owner

/-- The row that counts for a variable. -/
def latest (rows : List ValueRow) (owner : Id) (name : String) : Option ValueRow := (rowsOf rows owner name).getLast?

theorem rowsOf_order {rows : List ValueRow} {n : Nat} (h : Numbered rows n) (i : Id) (name : String) :
    (rowsOf rows i name).Pairwise fun a b => a.seqNo < b.seqNo := h.order.filter _

theorem mem_rowsOf {rows : List ValueRow} {i : Id} {name : String} {r : ValueRow} :
    r ∈ rowsOf rows i name ↔ r ∈ rows ∧ r.owner = i ∧ r.valueName = name := by
  simp [rowsOf]

/-- A clean leaves the row that counts, and only that. -/
theorem rowsOf_cleanRows {rows : List ValueRow} {n : Nat} (h : Numbered rows n) (i : Id) (name : String) :
    rowsOf (cleanRows rows i) i name = (latest rows i name).toList := by
  have hord := rowsOf_order h i name
  have hsub : (rowsOf (cleanRows rows i) i name).Sublist (rowsOf rows i name) := List.filter_sublist.filter _
  have hone := cleanRows_rowsOf (by
    rw [List.Nodup, List.pairwise_map]
    exact h.order.imp fun hlt => Nat.ne_of_lt hlt) i name
  rw [latest]
  rcases List.eq_nil_or_concat (rowsOf rows i name) with hnil | ⟨init, last, hl⟩
  · rw [hnil] at hsub ⊢
    simpa using List.sublist_nil.1 hsub
  · rw [List.concat_eq_append] at hl
    rw [hl, List.getLast?_append_of_ne_nil _ (by simp), List.getLast?_singleton, Option.toList_some]
    have hlast := mem_rowsOf.1 (hl ▸ List.mem_append_right init List.mem_cons_self : last ∈ rowsOf rows i name)
    have hkeep : last ∈ rowsOf (cleanRows rows i) i name := by
      refine mem_rowsOf.2 ⟨(mem_cleanRows h).2 ⟨hlast.1, fun _ r' hr' ho' hn' => ?_⟩, hlast.2⟩
      have hin : r' ∈ init ++ [last] := hl ▸ mem_rowsOf.2 ⟨hr', ho', hn'.trans hlast.2.2⟩
      rw [hl] at hord
      rcases List.mem_append.1 hin with hin | hin
      · exact Nat.le_of_lt ((List.pairwise_append.1 hord).2.2 r' hin last List.mem_cons_self)
      · rw [List.mem_singleton.1 hin]
    match hr : rowsOf (cleanRows rows i) i name with
    | [] => rw [hr] at hkeep; exact absurd hkeep List.not_mem_nil
    | [a] =>
      rw [hr] at hkeep
      rw [List.mem_singleton.1 hkeep]
    | a :: b :: l => rw [hr] at hone; simp at hone

theorem cleanRows_leavesLatest {rows : List ValueRow} {n : Nat} (h : Numbered rows n) (i : Id) :
    LeavesLatest rows (cleanRows rows i) i := by
  refine ⟨fun r => ?_, fun r hr ho => ?_, ?_⟩
  · rw [mem_cleanRows h]
    constructor
    · exact fun hr => ⟨hr.1.1, hr.2, hr.1.2 hr.2⟩
    · exact fun hr => ⟨⟨hr.1, fun _ => hr.2.2⟩, hr.2.1⟩
  · have hne : rowsOf rows i r.valueName ≠ [] := List.ne_nil_of_mem (mem_rowsOf.2 ⟨hr, ho, rfl⟩)
    rw [rowsOf_cleanRows h, latest, List.getLast?_eq_some_getLast hne]
    exact ⟨_, rfl⟩
  · rw [cleanRows, List.filter_filter]
    refine List.filter_congr fun r hr => ?_
    by_cases ho : r.owner = i
    · simp [ho]
    · have hstay := (mem_cleanRows h (i := i)).2 ⟨hr, fun he => absurd he ho⟩
      have hdead := (List.mem_filter.1 hstay).2
      simp only [hdead, Bool.and_true]

/-! ## The last flow that carried a name -/

/-- The value that a flow from job `k` carries under the name. -/
def carried (t : Tables) (k : Id) (name : String) : Option Text := (latest t.after k name).map (·.value)

/-- What an operation makes of the value last written under the name by the
flows into job `i`. -/
def Op.carry (i : Id) (name : String) (t : Tables) (acc : Option Text) : Op → Option Text
  | .valueAfterBefore k next => if next = i then (carried t k name).or acc else acc
  | _ => acc

/-- The value that the last of the flows into job `i` wrote that carried the
name; `acc` is that of the flows before. -/
def lastCarried (i : Id) (name : String) : Option Text → Tables → List Op → Option Text
  | acc, _, [] => acc
  | acc, t, op :: ops => lastCarried i name (op.carry i name t acc) (op.run t) ops

/-- Rows that are appended count before those that are there. -/
theorem latest_append (rows new : List ValueRow) (i : Id) (name : String) :
    latest (rows ++ new) i name = (latest new i name).or (latest rows i name) := by
  rw [latest, rowsOf, List.filter_append, List.getLast?_append]
  rfl

/-- The number does not change the value. -/
theorem latest_number (new : List ValueRow) (n : Nat) (i : Id) (name : String) :
    (latest (new.zipIdx.map fun p => { p.1 with seqNo := n + p.2 }) i name).map (·.value) =
      (latest new i name).map (·.value) := by
  have hrows : (rowsOf (new.zipIdx.map fun p => { p.1 with seqNo := n + p.2 }) i name).map (·.value) =
      (rowsOf new i name).map (·.value) := by
    have hz : ∀ k, ((new.zipIdx k).filter fun p => p.1.owner == i && p.1.valueName == name).map (·.1.value) =
        (new.filter fun r => r.owner == i && r.valueName == name).map (·.value) := by
      intro k
      induction new generalizing k with
      | nil => rfl
      | cons r new ih =>
        rw [List.zipIdx_cons, List.filter_cons, List.filter_cons]
        split <;> simp [ih]
    rw [rowsOf, rowsOf, List.filter_map, List.map_map, ← hz 0]
    rfl
  rw [latest, latest, ← List.getLast?_map, ← List.getLast?_map, hrows]

theorem latest_insert (rows new : List ValueRow) (n : Nat) (i : Id) (name : String) :
    (latest (insertRows rows new n) i name).map (·.value) =
      ((latest new i name).map (·.value)).or ((latest rows i name).map (·.value)) := by
  rw [insertRows, latest_append, Option.map_or, latest_number]

/-- A clean does not change which row counts. -/
theorem latest_cleanRows {rows : List ValueRow} {n : Nat} (h : Numbered rows n) (i k : Id) (name : String) :
    latest (cleanRows rows k) i name = latest rows i name := by
  by_cases hk : k = i
  · subst hk
    rw [latest, rowsOf_cleanRows h]
    cases latest rows k name <;> rfl
  · have hothers := (cleanRows_leavesLatest h k).others
    have hrows : ∀ l : List ValueRow, rowsOf l i name = rowsOf (l.filter fun r => r.owner != k) i name := by
      intro l
      rw [rowsOf, rowsOf, List.filter_filter]
      refine List.filter_congr fun r _ => ?_
      by_cases ho : r.owner = i
      · simp [ho, Ne.symm hk]
      · simp [ho]
    rw [latest, latest, hrows, hothers, ← hrows]

theorem latest_singleton_ne {r : ValueRow} {i : Id} {name : String} (h : r.owner ≠ i ∨ r.valueName ≠ name) :
    latest [r] i name = none := by
  have hf : ¬ (r.owner = i ∧ r.valueName = name) := fun hc => h.elim (· hc.1) (· hc.2)
  simp [latest, rowsOf, hf]

/-- One operation, seen at one variable of the job. -/
theorem latest_step {op : Op} {t : Tables} (h : VarInv t) {i : Id} {name : String}
    (hset : ∀ n x v, op = .setValueBefore i n x v → x.name ≠ name) :
    (latest (op.run t).before i name).map (·.value) = op.carry i name t ((latest t.before i name).map (·.value)) := by
  cases op with
  | setValueBefore k n x v =>
    change (latest (jaSetValueBefore t k n x.name v).1.before i name).map (·.value) = _
    unfold jaSetValueBefore
    split
    · rfl
    · have hne : latest [(⟨0, k, n, x.name, v⟩ : ValueRow)] i name = none := by
        refine latest_singleton_ne ?_
        by_cases hk : k = i
        · exact .inr (hset n x v (by rw [hk]))
        · exact .inl hk
      rw [latest_insert, hne]
      rfl
  | setValueAfter k n x v =>
    change (latest (jaSetValueAfter t k n x.name v).1.before i name).map (·.value) = _
    unfold jaSetValueAfter
    split <;> rfl
  | valueAfterBefore k next =>
    change (latest (insertRows t.before ((t.after.filter fun r => r.owner == k).map fun r => { r with owner := next })
      t.nextSeq) i name).map (·.value) = _
    rw [latest_insert, Op.carry]
    by_cases hn : next = i
    · subst hn
      have hrows : rowsOf ((t.after.filter fun r => r.owner == k).map fun r => { r with owner := next }) next name =
          (rowsOf t.after k name).map fun r => { r with owner := next } := by
        rw [rowsOf, rowsOf, List.filter_map, List.filter_filter]
        congr 1
        refine List.filter_congr fun r _ => ?_
        simp [Bool.and_comm]
      rw [if_pos rfl, carried, latest, hrows, List.getLast?_map, Option.map_map]
      rfl
    · have hnone : latest ((t.after.filter fun r => r.owner == k).map fun r => { r with owner := next }) i name = none := by
        rw [latest, rowsOf, List.filter_eq_nil_iff.2]
        · rfl
        · intro r hr
          obtain ⟨v, -, rfl⟩ := List.mem_map.1 hr
          simp [hn]
      rw [if_neg hn, hnone]
      rfl
  | valueBeforeAfter k => rfl
  | cleanValueBefore k => exact congrArg (Option.map _) (latest_cleanRows h.before i k name)
  | cleanValueAfter k => rfl

theorem latest_run {i : Id} {name : String} : ∀ {ops : List Op} {t : Tables}, VarInv t →
    (∀ n x v, .setValueBefore i n x v ∈ ops → x.name ≠ name) →
    (latest (runOps t ops).before i name).map (·.value) =
      lastCarried i name ((latest t.before i name).map (·.value)) t ops
  | [], _, _, _ => rfl
  | op :: ops, t, h, hset => by
    have hstep := @latest_step op t h i name fun n x v he => hset n x v (by rw [he]; simp)
    rw [runOps, List.foldl_cons, lastCarried, ← hstep]
    exact latest_run (op.run_inv h) fun n x v hx => hset n x v (List.mem_cons_of_mem _ hx)

/-! ## The job that is started -/

/-- The tables are those of `t` as far as the variable `name` of job `i` goes. -/
structure SeenAs (t : Tables) (i : Id) (name : String) (v : Option Text) : Prop where
  inv : VarInv t
  value : (latest t.before i name).map (·.value) = v

theorem SeenAs.setValueBefore {t : Tables} {i : Id} {name : String} {v : Option Text} (h : SeenAs t i name v) (n : Id)
    {own : String} (ho : own ∈ ownNames) (hn : name ∉ ownNames) (value : Text) :
    SeenAs (jaSetValueBefore t i n own value).1 i name v := by
  have hlen : own ≠ "" ∧ own.utf8ByteSize ≤ 128 := by
    simp only [ownNames, List.mem_cons, List.not_mem_nil, or_false] at ho
    rcases ho with rfl | rfl | rfl | rfl <;> decide
  have hne : own ≠ name := fun he => hn (he ▸ ho)
  have hop : (jaSetValueBefore t i n own value).1 = (Op.setValueBefore i n ⟨own, hlen.1, hlen.2⟩ value).run t := rfl
  rw [hop]
  refine ⟨Op.run_inv _ h.inv, ?_⟩
  have hstep := @latest_step (.setValueBefore i n ⟨own, hlen.1, hlen.2⟩ value) t h.inv i name
    fun m x w he => by
      injection he with _ _ hx _
      rw [← hx]
      exact hne
  exact hstep.trans h.value

/-- `jarun_value_before` writes the names of its own only. -/
theorem SeenAs.jarunValueBefore {t : Tables} {i : Id} {name : String} {v : Option Text} (h : SeenAs t i name v)
    (hn : name ∉ ownNames) (hm : name ≠ "JOBARG_MESSAGE") (x : JobTexts) : SeenAs (jarunValueBefore x i t).1 i name v := by
  have hset : ∀ t, SeenAs t i name v → ∀ own ∈ ownNames, ∀ n value, SeenAs (jaSetValueBefore t i n own value).1 i name v :=
    fun t ht own ho n value => ht.setValueBefore n ho hn value
  unfold Variables.jarunValueBefore
  refine andThen_keeps (P := (SeenAs · i name v)) ?_ fun t ht =>
    andThen_keeps (P := (SeenAs · i name v)) (hset t ht "JOB_ID_FULL" (by simp [ownNames]) _ _) fun t ht => ?_
  · split
    · exact h
    · refine andThen_keeps (P := (SeenAs · i name v)) (hset t h "JOB_ID" (by simp [ownNames]) _ _) fun t ht => ?_
      refine andThen_keeps (P := (SeenAs · i name v)) (hset t ht "JOB_NAME" (by simp [ownNames]) _ _) fun t ht => ?_
      exact hset t ht "CURRENT_TIME" (by simp [ownNames]) _ _
  · refine ⟨⟨ht.inv.before.sublist List.filter_sublist, ht.inv.after⟩, ?_⟩
    have hrows : rowsOf (jaRemoveValueBefore t i "JOBARG_MESSAGE").1.before i name = rowsOf t.before i name := by
      rw [rowsOf, rowsOf, jaRemoveValueBefore, List.filter_filter]
      refine List.filter_congr fun r _ => ?_
      by_cases hr : r.valueName = name
      · simp [hr, hm]
      · simp [hr]
    rw [latest, hrows]
    exact ht.value

/-- The message of the job before is not seen. -/
theorem jarunValueBefore_message (x : JobTexts) (i : Id) (t : Tables) (h : (jarunValueBefore x i t).2 = .succeed) :
    latest (jarunValueBefore x i t).1.before i "JOBARG_MESSAGE" = none := by
  unfold jarunValueBefore at h ⊢
  rcases andThen_cases _ _ with hf | ⟨-, he⟩
  · exact absurd (hf.symm.trans h) (by simp)
  rw [he] at h ⊢
  rcases andThen_cases _ _ with hf | ⟨-, he⟩
  · exact absurd (hf.symm.trans h) (by simp)
  rw [he, latest, rowsOf, jaRemoveValueBefore, List.filter_filter, List.filter_eq_nil_iff.2]
  · rfl
  · intro r _
    cases r.owner == i <;> simp

theorem jarunValueBefore_inv {t : Tables} (h : VarInv t) (x : JobTexts) (i : Id) : VarInv (jarunValueBefore x i t).1 :=
  -- any variable the function does not write will do
  (@SeenAs.jarunValueBefore t i "OTHER" _ ⟨h, rfl⟩ (by decide) (by decide) x).inv

/-- `jarun_normal` up to the switch: the job sees, once, the value that counts
of every variable that is not one of its own. -/
theorem prologue_before {x : JobTexts} {t : Tables} {i : Id} (h : VarInv t)
    (hs : (jarunPrologue (jarunValueBefore x i) t i).2 = .succeed) {name : String} (hn : name ∉ ownNames) :
    (rowsOf (jarunPrologue (jarunValueBefore x i) t i).1.before i name).map (·.value) =
      if name = "JOBARG_MESSAGE" then [] else ((latest t.before i name).map (·.value)).toList := by
  unfold jarunPrologue at hs ⊢
  rcases andThen_cases (jarunValueBefore x i t) _ with hf | ⟨hv, he⟩
  · exact absurd (hf.symm.trans hs) (by simp)
  have hrows : ∀ l : Option ValueRow, l.toList.map (·.value) = (l.map (·.value)).toList := by
    intro l
    cases l <;> rfl
  rw [he]
  change (rowsOf (cleanRows (jarunValueBefore x i t).1.before i) i name).map (·.value) = _
  rw [rowsOf_cleanRows (jarunValueBefore_inv h x i).before, hrows]
  split
  · rename_i hm
    rw [hm, jarunValueBefore_message x i t hv]
    rfl
  · rename_i hm
    rw [(SeenAs.jarunValueBefore ⟨h, rfl⟩ hn hm x).value]

/-- **The last write wins**: after any operations a clean of a job leaves
exactly the row of the greatest number for each of its names and touches no
other job, and the job started after them sees under a name, other than the
four of its own, what the last flow wrote that carried it. -/
theorem last_write_wins (x : JobTexts) {t : Tables} (h : VarInv t) (ops : List Op) (i : Id) :
    LeavesLatest (runOps t ops).before (jaCleanValueBefore (runOps t ops) i).1.before i ∧
    LeavesLatest (runOps t ops).after (jaCleanValueAfter (runOps t ops) i).1.after i ∧
    ((∀ r ∈ t.before, r.owner ≠ i) → (∀ n v w, .setValueBefore i n v w ∈ ops → v.name ∈ ownNames) →
      (jarunPrologue (jarunValueBefore x i) (runOps t ops) i).2 = .succeed → ∀ name ∉ ownNames,
      (rowsOf (jarunPrologue (jarunValueBefore x i) (runOps t ops) i).1.before i name).map (·.value) =
        if name = "JOBARG_MESSAGE" then [] else (lastCarried i name none t ops).toList) := by
  have hinv := run_inv h ops
  refine ⟨cleanRows_leavesLatest hinv.before i, cleanRows_leavesLatest hinv.after i, fun hnew hset hs name hn => ?_⟩
  have hnone : latest t.before i name = none := by
    rw [latest, rowsOf, List.filter_eq_nil_iff.2]
    · rfl
    · intro r hr
      simp [hnew r hr]
  have hrun := @latest_run i name ops t h fun n v w hx he => hn (he ▸ hset n v w hx)
  rw [prologue_before hinv hs hn, hrun, hnone]
  rfl

/-! ## A join behind two jobs -/

/-- Jobs 1 and 2 have ended, job 3 joins them; each has written its own `JOB_ID`
and a variable `X`. -/
def joinTables : Tables :=
  { Tables.empty with
    jobs := [⟨3, 1, 1, false, .m, false, .normal, false, .ready, 2, 2, "JOIN", false⟩]
    after := [⟨1, 1, 1, "JOB_ID", ascii "FIRST"⟩, ⟨2, 1, 1, "X", ascii "a"⟩,
      ⟨3, 2, 1, "JOB_ID", ascii "SECOND"⟩, ⟨4, 2, 1, "X", ascii "b"⟩]
    nextSeq := 5 }

/-- The flows into the join. -/
def joinFlows : List Op := [.valueAfterBefore 1 3, .valueAfterBefore 2 3]

def joinTexts : JobTexts := ⟨fun _ => ascii "JOIN", ascii "20240401120000", fun _ => ascii "NET/JOIN", 1⟩

theorem joinTables_inv : VarInv joinTables :=
  ⟨⟨by simp [joinTables, Tables.empty], by simp [joinTables, Tables.empty], by simp [joinTables, Tables.empty]⟩,
    ⟨by simp [joinTables], by simp [joinTables], by simp [joinTables]⟩⟩

/-- The join sees the `X` of the second flow. -/
theorem last_write_wins_two :
    (rowsOf (jarunPrologue (jarunValueBefore joinTexts 3) (runOps joinTables joinFlows) 3).1.before 3 "X").map (·.value) =
      [ascii "b"] :=
  (last_write_wins joinTexts joinTables_inv joinFlows 3).2.2 (by simp [joinTables, Tables.empty]) (by simp [joinFlows])
    rfl "X" (by simp [ownNames])

/-- The flows carried a `JOB_ID`, and the join sees its own. -/
theorem own_job_id_seen :
    VarInv joinTables ∧ (∀ r ∈ joinTables.before, r.owner ≠ 3) ∧
    (jarunPrologue (jarunValueBefore joinTexts 3) (runOps joinTables joinFlows) 3).2 = .succeed ∧
    lastCarried 3 "JOB_ID" none joinTables joinFlows = some (ascii "SECOND") ∧
    (rowsOf (jarunPrologue (jarunValueBefore joinTexts 3) (runOps joinTables joinFlows) 3).1.before 3 "JOB_ID").map
      (·.value) = [ascii "JOIN"] := by
  refine ⟨joinTables_inv, by simp [joinTables, Tables.empty], rfl, rfl, ?_⟩
  decide +kernel

end JobArranger.Variables
