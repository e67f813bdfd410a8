import JobArranger.L1Data.Tables
import Mathlib.Data.List.Sort
import Mathlib.Data.String.Basic

/-!
# Job variables (`jalibs/javalue.c`)

Before- and after-variables of jobs and jobnets are insert-only: a write
adds a row with the next `seq_no`, and `ja_clean_value_*` later deletes all
but the newest row of each name. The `select … order by value_name, seq_no
desc` of the clean functions is an insertion sort; `value_name[130]` holds
every name, which has at most 128 bytes.

Every function here leaves the status tables alone (`StatusEq`);
`cleanRows_unique` is what the job log needs: after a clean each named
variable of the job has at most one row.
-/
namespace JobArranger

/-- The tables the status logic reads agree. -/
structure StatusEq (t t' : Tables) : Prop where
  jobs : t'.jobs = t.jobs
  flows : t'.flows = t.flows
  jobnets : t'.jobnets = t.jobnets
  summaries : t'.summaries = t.summaries
  iconJobnets : t'.iconJobnets = t.iconJobnets
  agentless : t'.agentless = t.agentless

theorem StatusEq.rfl' (t : Tables) : StatusEq t t := ⟨rfl, rfl, rfl, rfl, rfl, rfl⟩

theorem StatusEq.trans {t t' t'' : Tables} (h : StatusEq t t') (h' : StatusEq t' t'') :
    StatusEq t t'' :=
  ⟨h'.jobs.trans h.jobs, h'.flows.trans h.flows, h'.jobnets.trans h.jobnets,
    h'.summaries.trans h.summaries, h'.iconJobnets.trans h.iconJobnets,
    h'.agentless.trans h.agentless⟩

/-! ## Cleaning -/

/-- `order by value_name, seq_no desc`. -/
def cleanOrder (a b : ValueRow) : Prop :=
  a.valueName < b.valueName ∨ (a.valueName = b.valueName ∧ b.seqNo ≤ a.seqNo)

instance : DecidableRel cleanOrder := fun a b => by unfold cleanOrder; exact inferInstance

/-- The fetch loop: `name` is `value_name`, the result the `seq_no`s deleted. -/
def cleanLoop : String → List ValueRow → List Nat
  | _, [] => []
  | name, r :: rs =>
    if r.valueName ≠ name then cleanLoop r.valueName rs else r.seqNo :: cleanLoop name rs

/-- One `ja_clean_value_*` call on its table.
mirrors src/jalibs/javalue.c:49-84,99-133,593-628,643-678 -/
def cleanRows (rows : List ValueRow) (owner : Id) : List ValueRow :=
  let dead := cleanLoop "" ((rows.filter fun r => r.owner == owner).insertionSort cleanOrder)
  rows.filter fun r => r.seqNo ∉ dead

/-- mirrors src/jalibs/javalue.c:49-84 -/
def jaCleanValueBefore (t : Tables) (innerJobId : Id) : Tables × Ret :=
  ({ t with before := cleanRows t.before innerJobId }, .succeed)

/-- mirrors src/jalibs/javalue.c:99-133 -/
def jaCleanValueAfter (t : Tables) (innerJobId : Id) : Tables × Ret :=
  ({ t with after := cleanRows t.after innerJobId }, .succeed)

/-- mirrors src/jalibs/javalue.c:593-628 -/
def jaCleanValueJobnetBefore (t : Tables) (innerJobnetId : Id) : Tables × Ret :=
  ({ t with jobnetBefore := cleanRows t.jobnetBefore innerJobnetId }, .succeed)

/-- mirrors src/jalibs/javalue.c:643-678 -/
def jaCleanValueJobnetAfter (t : Tables) (innerJobnetId : Id) : Tables × Ret :=
  ({ t with jobnetAfter := cleanRows t.jobnetAfter innerJobnetId }, .succeed)

/-! ## Writing -/

/-- Loop state of the byte filter in `ja_set_value_after`. -/
structure FilterState where
  dst : Text
  n1 : UInt8
  n2 : UInt8
  k : Nat
  deriving DecidableEq, Repr

/-- One byte through the filter: ASCII is copied, a three-byte character is
copied once its third byte is seen, anything else is dropped.
mirrors src/jalibs/javalue.c:231-258 -/
def filterByte (s : FilterState) (b : UInt8) : FilterState :=
  if b &&& 0x80 = 0 then { s with dst := s.dst ++ [b], k := 0 }
  else if b &&& 0xf0 = 0xe0 then { s with n1 := b, k := 1 }
  else if b &&& 0xc0 = 0x80 ∧ 0 < s.k ∧ s.k < 7 then
    if s.n1 ≠ 0 ∧ s.n2 = 0 then { s with n2 := b, k := s.k + 1 }
    else
      { dst := s.dst ++ (if s.n1 ≠ 0 then [s.n1] else []) ++ (if s.n2 ≠ 0 then [s.n2] else []) ++ [b]
        n1 := 0, n2 := 0, k := s.k + 1 }
  else { s with k := 0 }

def filterValue (v : Text) : Text := (v.foldl filterByte ⟨[], 0, 0, 0⟩).dst

/-- `insert into` a variable table: the new rows, numbered from `seq`. -/
def insertRows (rows new : List ValueRow) (seq : Nat) : List ValueRow :=
  rows ++ new.zipIdx.map fun p => { p.1 with seqNo := seq + p.2 }

/-- mirrors src/jalibs/javalue.c:148-187 -/
def jaSetValueBefore (t : Tables) (innerJobId innerJobnetId : Id) (name : String) (value : Text) :
    Tables × Ret :=
  if innerJobId = 0 ∨ innerJobnetId = 0 then (t, .fail)
  else
    ({ t with before := insertRows t.before [⟨0, innerJobId, innerJobnetId, name, value⟩] t.nextSeq
              nextSeq := t.nextSeq + 1 }, .succeed)

/-- mirrors src/jalibs/javalue.c:202-277 -/
def jaSetValueAfter (t : Tables) (innerJobId innerJobnetId : Id) (name : String) (value : Text) :
    Tables × Ret :=
  if innerJobId = 0 ∨ innerJobnetId = 0 then (t, .fail)
  else
    ({ t with after := insertRows t.after
                [⟨0, innerJobId, innerJobnetId, name, filterValue value⟩] t.nextSeq
              nextSeq := t.nextSeq + 1 }, .succeed)

/-- mirrors src/jalibs/javalue.c:693-730 -/
def jaSetValueJobnetBefore (t : Tables) (innerJobnetId : Id) (name : String) (value : Text) :
    Tables × Ret :=
  if innerJobnetId = 0 then (t, .fail)
  else
    ({ t with jobnetBefore := insertRows t.jobnetBefore
                [⟨0, innerJobnetId, innerJobnetId, name, value⟩] t.nextSeq
              nextSeq := t.nextSeq + 1 }, .succeed)

/-- mirrors src/jalibs/javalue.c:519-540 -/
def jaValueBeforeAfter (t : Tables) (innerJobId : Id) : Tables × Ret :=
  let src := t.before.filter fun r => r.owner == innerJobId
  ({ t with after := insertRows t.after src t.nextSeq, nextSeq := t.nextSeq + src.length }, .succeed)

/-- mirrors src/jalibs/javalue.c:555-578 -/
def jaValueAfterBefore (t : Tables) (innerJobId nextInnerJobId : Id) : Tables × Ret :=
  let src := (t.after.filter fun r => r.owner == innerJobId).map fun r =>
    { r with owner := nextInnerJobId }
  ({ t with before := insertRows t.before src t.nextSeq, nextSeq := t.nextSeq + src.length },
    .succeed)

/-- mirrors src/jalibs/javalue.c:797-821 -/
def jaValueBeforeJobnetIn (t : Tables) (innerJobId innerJobnetId : Id) : Tables × Ret :=
  let src := (t.before.filter fun r => r.owner == innerJobId).map fun r =>
    { r with owner := innerJobnetId, innerJobnetId := innerJobnetId }
  ({ t with jobnetBefore := insertRows t.jobnetBefore src t.nextSeq
            nextSeq := t.nextSeq + src.length }, .succeed)

/-- mirrors src/jalibs/javalue.c:836-862 -/
def jaValueBeforeJobnetOut (t : Tables) (innerJobnetId innerJobId : Id) : Tables × Ret :=
  let src := (t.jobnetBefore.filter fun r => r.owner == innerJobnetId).map fun r =>
    { r with owner := innerJobId, innerJobnetId := innerJobnetId }
  ({ t with before := insertRows t.before src t.nextSeq, nextSeq := t.nextSeq + src.length },
    .succeed)

/-- mirrors src/jalibs/javalue.c:387-424 (`none` is `FAIL`) -/
def jaGetValueAfter (t : Tables) (innerJobId : Id) (name : String) : Option Text :=
  (t.after.find? fun r => r.owner == innerJobId && r.valueName == name).map (·.value)

/-- mirrors src/jalibs/javalue.c:439-464 -/
def jaRemoveValueBefore (t : Tables) (innerJobId : Id) (name : String) : Tables × Ret :=
  ({ t with before := t.before.filter fun r => !(r.owner == innerJobId && r.valueName == name) },
    .succeed)

/-- Bytes of an ASCII text. -/
def ascii (s : String) : Text := s.toList.map fun c => UInt8.ofNat c.toNat

/-! ## The status tables are untouched -/

@[simp] theorem jaCleanValueAfter_status (t : Tables) (i : Id) :
    StatusEq t (jaCleanValueAfter t i).1 := ⟨rfl, rfl, rfl, rfl, rfl, rfl⟩

theorem jaSetValueAfter_status (t : Tables) (i n : Id) (s : String) (v : Text) :
    StatusEq t (jaSetValueAfter t i n s v).1 := by
  unfold jaSetValueAfter; split <;> exact ⟨rfl, rfl, rfl, rfl, rfl, rfl⟩

theorem jaSetValueJobnetBefore_status (t : Tables) (n : Id) (s : String) (v : Text) :
    StatusEq t (jaSetValueJobnetBefore t n s v).1 := by
  unfold jaSetValueJobnetBefore; split <;> exact ⟨rfl, rfl, rfl, rfl, rfl, rfl⟩

/-! ## What a clean leaves -/

theorem cleanOrder_total (a b : ValueRow) : cleanOrder a b ∨ cleanOrder b a := by
  unfold cleanOrder
  rcases lt_trichotomy a.valueName b.valueName with h | h | h
  · exact .inl (.inl h)
  · rcases Nat.le_total a.seqNo b.seqNo with h' | h'
    · exact .inr (.inr ⟨h.symm, h'⟩)
    · exact .inl (.inr ⟨h, h'⟩)
  · exact .inr (.inl h)

theorem cleanOrder_trans {a b c : ValueRow} (h : cleanOrder a b) (h' : cleanOrder b c) :
    cleanOrder a c := by
  unfold cleanOrder at *
  rcases h with h | ⟨e, hs⟩
  · rcases h' with h' | ⟨e', -⟩
    · exact .inl (String.lt_trans h h')
    · exact .inl (e' ▸ h)
  · rcases h' with h' | ⟨e', hs'⟩
    · exact .inl (e ▸ h')
    · exact .inr ⟨e.trans e', hs'.trans hs⟩

/-- Once `name` is current, every following row of that name is deleted, as
long as no other name intervenes. -/
theorem mem_cleanLoop_run {name : String} {r : ValueRow} :
    ∀ {pre post : List ValueRow}, (∀ x ∈ pre, x.valueName = name) → r.valueName = name →
      r.seqNo ∈ cleanLoop name (pre ++ r :: post)
  | [], post, _, hr => by simp [cleanLoop, hr]
  | x :: pre, post, hp, hr => by
    have hx : x.valueName = name := hp x List.mem_cons_self
    have : r.seqNo ∈ cleanLoop name (pre ++ r :: post) :=
      mem_cleanLoop_run (fun y hy => hp y (List.mem_cons_of_mem _ hy)) hr
    simp [cleanLoop, hx, this]

/-- In name order, a row that has an earlier row of the same name is
deleted. -/
theorem mem_cleanLoop {r r' : ValueRow} (hn : r'.valueName = r.valueName) :
    ∀ {name : String} {pre mid post : List ValueRow},
      (pre ++ r' :: mid ++ r :: post).Pairwise cleanOrder →
      r.seqNo ∈ cleanLoop name (pre ++ r' :: mid ++ r :: post)
  | name, [], mid, post, hs => by
    have hmid : ∀ x ∈ mid, x.valueName = r.valueName := by
      intro x hx
      simp only [List.nil_append, List.cons_append, List.pairwise_cons, List.pairwise_append,
        List.mem_append, List.mem_cons] at hs
      have h1 := hs.1 x (.inl hx)
      have h2 := hs.2.2.2 x hx r (.inl rfl)
      -- `r'` and `r` bracket `x`, and they have the same name
      rcases h1 with h1 | h1
      · rcases h2 with h2 | h2
        · exact absurd (hn ▸ String.lt_trans h1 h2) (String.lt_irrefl _)
        · exact h2.1
      · exact h1.1.symm.trans hn
    simp only [List.nil_append, List.cons_append, cleanLoop]
    split
    · rw [hn]; exact mem_cleanLoop_run hmid rfl
    · rename_i h
      have hname : name = r.valueName := by rw [← hn]; exact (not_ne_iff.mp h).symm
      rw [hname]
      exact List.mem_cons_of_mem _ (mem_cleanLoop_run hmid rfl)
  | name, x :: pre, mid, post, hs => by
    have hs' : (pre ++ r' :: mid ++ r :: post).Pairwise cleanOrder := by
      simp only [List.cons_append, List.pairwise_cons] at hs; exact hs.2
    simp only [List.cons_append, cleanLoop]
    split
    · exact mem_cleanLoop hn hs'
    · exact List.mem_cons_of_mem _ (mem_cleanLoop hn hs')

/-- Two members of a list come one after the other. -/
theorem two_mem_split {α : Type*} {x y : α} (hne : x ≠ y) :
    ∀ {l : List α}, x ∈ l → y ∈ l →
      (∃ pre mid post, l = pre ++ x :: mid ++ y :: post) ∨
        ∃ pre mid post, l = pre ++ y :: mid ++ x :: post
  | a :: l, hx, hy => by
    rcases List.mem_cons.mp hx with rfl | hx'
    · obtain ⟨mid, post, rfl⟩ := List.append_of_mem ((List.mem_cons.mp hy).resolve_left hne.symm)
      exact .inl ⟨[], mid, post, rfl⟩
    · rcases List.mem_cons.mp hy with rfl | hy'
      · obtain ⟨mid, post, rfl⟩ := List.append_of_mem hx'
        exact .inr ⟨[], mid, post, rfl⟩
      · rcases two_mem_split hne hx' hy' with ⟨pre, mid, post, rfl⟩ | ⟨pre, mid, post, rfl⟩
        · exact .inl ⟨a :: pre, mid, post, rfl⟩
        · exact .inr ⟨a :: pre, mid, post, rfl⟩

/-- After a clean, two rows of one owner and name are the same row. -/
theorem cleanRows_unique {rows : List ValueRow} {owner : Id} {a b : ValueRow}
    (ha : a ∈ cleanRows rows owner) (hb : b ∈ cleanRows rows owner)
    (hoa : a.owner = owner) (hob : b.owner = owner) (hn : a.valueName = b.valueName) : a = b := by
  by_contra hne
  simp only [cleanRows, List.mem_filter, decide_eq_true_eq] at ha hb
  let sorted := (rows.filter fun r => r.owner == owner).insertionSort cleanOrder
  have hin : ∀ r ∈ rows, r.owner = owner → r ∈ sorted := fun r hr ho => by
    simp [sorted, hr, ho]
  have hsorted : sorted.Pairwise cleanOrder := by
    have : Std.Total cleanOrder := ⟨cleanOrder_total⟩
    have : IsTrans ValueRow cleanOrder := ⟨fun _ _ _ => cleanOrder_trans⟩
    exact List.pairwise_insertionSort cleanOrder _
  rcases two_mem_split hne (hin a ha.1 hoa) (hin b hb.1 hob) with ⟨pre, mid, post, e⟩ | ⟨pre, mid, post, e⟩
  · refine hb.2 ?_
    change b.seqNo ∈ cleanLoop "" sorted
    rw [e] at hsorted ⊢
    exact mem_cleanLoop hn hsorted
  · refine ha.2 ?_
    change a.seqNo ∈ cleanLoop "" sorted
    rw [e] at hsorted ⊢
    exact mem_cleanLoop hn.symm hsorted

/-- The rows of one variable of one owner. -/
def rowsOf (rows : List ValueRow) (owner : Id) (name : String) : List ValueRow :=
  rows.filter fun r => r.owner == owner && r.valueName == name

theorem cleanRows_rowsOf {rows : List ValueRow} (hs : (rows.map ValueRow.seqNo).Nodup) (owner : Id)
    (name : String) : (rowsOf (cleanRows rows owner) owner name).length ≤ 1 := by
  have hnd : (rowsOf (cleanRows rows owner) owner name).Nodup :=
    ((List.Nodup.of_map _ hs).filter _).filter _
  match h : rowsOf (cleanRows rows owner) owner name with
  | [] => simp
  | [_] => simp
  | a :: b :: l =>
    rw [h] at hnd
    have hmem : ∀ x ∈ a :: b :: l, x ∈ cleanRows rows owner ∧ x.owner = owner ∧ x.valueName = name := by
      intro x hx
      rw [← h] at hx
      simpa [rowsOf, List.mem_filter] using hx
    obtain ⟨ha, hoa, hna⟩ := hmem a List.mem_cons_self
    obtain ⟨hb, hob, hnb⟩ := hmem b (List.mem_cons_of_mem _ List.mem_cons_self)
    have := cleanRows_unique ha hb hoa hob (hna.trans hnb.symm)
    simp [this] at hnd

end JobArranger
