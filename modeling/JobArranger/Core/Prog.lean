import Mathlib.Data.List.Basic

/-!
# Statement programs

A program that works on a database by statements, each of which may fail.
`stmt f k` sends one statement: when it succeeds it has the effect `f`, and
`k` gets the state it ran on (a query reads it, an update ignores it); when
it fails it has no effect and `k` gets `none`.

A transaction remembers a failure: from the first failed statement on every
statement is ignored, and its commit is a rollback. So only two things
matter of a pattern of failures: whether a statement of the program fails
at all, and what the program makes of it.

* `clean`: the run in which nothing fails; `cost`: its number of statements.
* `run_clean`: a pattern that spares these statements changes nothing.
* `run_hit`: any other pattern leaves the transaction failed.
* `Keeps.transact`: what the run without failures keeps, every transaction
  keeps.
* `Guarded`: programs that answer `bad` whenever a statement of them fails.
-/
namespace JobArranger

inductive Prog (σ α : Type) where
  | ret (a : α)
  | stmt (f : σ → σ) (k : Option σ → Prog σ α)

namespace Prog

variable {σ τ α β : Type}

def bind : Prog σ α → (α → Prog σ β) → Prog σ β
  | ret a, g => g a
  | stmt f k, g => stmt f fun o => (k o).bind g

instance : Monad (Prog σ) where
  pure := ret
  bind := bind

/-- A query: the state it sees. -/
def select : Prog σ (Option σ) := stmt id ret

/-- An update: whether it succeeded. -/
def exec (f : σ → σ) : Prog σ Bool := stmt f fun o => ret o.isSome

/-- Queries whose answers are not used. -/
def queries : Nat → Prog σ Unit
  | 0 => ret ()
  | n + 1 => stmt id fun _ => queries n

/-- The same program on a larger database. -/
def onFst : Prog σ α → Prog (σ × τ) α
  | ret a => ret a
  | stmt f k => stmt (fun s => (f s.1, s.2)) fun o => (k (o.map Prod.fst)).onFst

/-! ## The run without failures -/

def clean : Prog σ α → σ → σ × α
  | ret a, t => (t, a)
  | stmt f k, t => (k (some t)).clean (f t)

/-- The statements of the run without failures. -/
def cost : Prog σ α → σ → Nat
  | ret _, _ => 0
  | stmt f k, t => (k (some t)).cost (f t) + 1

@[simp] theorem clean_pure (a : α) (t : σ) : (pure a : Prog σ α).clean t = (t, a) := rfl

@[simp] theorem clean_bind (p : Prog σ α) (g : α → Prog σ β) (t : σ) :
    (p >>= g).clean t = (g (p.clean t).2).clean (p.clean t).1 := by
  induction p generalizing t with
  | ret a => rfl
  | stmt f k ih => exact ih (some t) (f t)

@[simp] theorem clean_select (t : σ) : (select : Prog σ (Option σ)).clean t = (t, some t) := rfl

@[simp] theorem clean_exec (f : σ → σ) (t : σ) : (exec f).clean t = (f t, true) := rfl

@[simp] theorem clean_queries (n : Nat) (t : σ) : (queries n).clean t = (t, ()) := by
  induction n with
  | zero => rfl
  | succ n ih => exact ih

@[simp] theorem clean_onFst (p : Prog σ α) (s : σ × τ) :
    p.onFst.clean s = (((p.clean s.1).1, s.2), (p.clean s.1).2) := by
  induction p generalizing s with
  | ret a => rfl
  | stmt f k ih => exact ih (some s.1) (f s.1, s.2)

theorem cost_bind (p : Prog σ α) (g : α → Prog σ β) (t : σ) :
    (p >>= g).cost t = p.cost t + (g (p.clean t).2).cost (p.clean t).1 := by
  induction p generalizing t with
  | ret a => exact (Nat.zero_add _).symm
  | stmt f k ih =>
    have hk := ih (some t) (f t)
    change ((k (some t)) >>= g).cost (f t) + 1 = (k (some t)).cost (f t) + 1 + _
    rw [hk]
    exact Nat.add_right_comm _ _ _

@[simp] theorem cost_pure (a : α) (t : σ) : (pure a : Prog σ α).cost t = 0 := rfl

@[simp] theorem cost_select (t : σ) : (select : Prog σ (Option σ)).cost t = 1 := rfl

@[simp] theorem cost_onFst (p : Prog σ α) (s : σ × τ) : p.onFst.cost s = p.cost s.1 := by
  induction p generalizing s with
  | ret a => rfl
  | stmt f k ih => exact congrArg (· + 1) (ih (some s.1) (f s.1, s.2))

/-- A program that sends nothing has its result. -/
theorem eq_pure_of_cost {p : Prog σ α} {t : σ} (h : p.cost t = 0) : p = pure (p.clean t).2 := by
  cases p with
  | ret a => rfl
  | stmt f k => cases h

/-! ## Runs inside a transaction -/

/-- An open transaction: its own copy of the database, whether a statement
of it has failed, and how many it has sent. -/
structure Txn (σ : Type) where
  tables : σ
  failed : Bool
  sent : Nat

variable (fault : Nat → Bool)

/-- `fault n`: the database does not carry out statement `n`. -/
def run : Prog σ α → Txn σ → Txn σ × α
  | ret a, s => (s, a)
  | stmt f k, s =>
    if s.failed ∨ fault s.sent then (k none).run ⟨s.tables, true, s.sent + 1⟩
    else (k (some s.tables)).run ⟨f s.tables, false, s.sent + 1⟩

/-- What a commit leaves behind: the transaction's tables, or those before
it. -/
def Txn.commit (s : Txn σ) (before : σ) : σ := if s.failed then before else s.tables

theorem run_stmt (f : σ → σ) (k : Option σ → Prog σ α) (s : Txn σ) :
    (stmt f k).run fault s = if s.failed ∨ fault s.sent then (k none).run fault ⟨s.tables, true, s.sent + 1⟩
      else (k (some s.tables)).run fault ⟨f s.tables, false, s.sent + 1⟩ := rfl

theorem run_bind (p : Prog σ α) (g : α → Prog σ β) (s : Txn σ) :
    (p >>= g).run fault s = (g (p.run fault s).2).run fault (p.run fault s).1 := by
  induction p generalizing s with
  | ret a => rfl
  | stmt f k ih =>
    change (stmt f fun o => (k o).bind g).run fault s = _
    rw [run_stmt, run_stmt]
    split
    · exact ih none _
    · exact ih (some s.tables) _

variable {fault}

/-- A failed transaction stays failed. -/
theorem run_failed (p : Prog σ α) {s : Txn σ} (h : s.failed = true) : (p.run fault s).1.failed = true := by
  induction p generalizing s with
  | ret a => exact h
  | stmt f k ih =>
    rw [run_stmt, if_pos (.inl h)]
    exact ih none rfl

/-- None of the statements of the run without failures fails. -/
def Spared (fault : Nat → Bool) (n len : Nat) : Prop := ∀ m, n ≤ m → m < n + len → fault m = false

theorem Spared.head {n len : Nat} (h : Spared fault n (len + 1)) : fault n = false :=
  h n (Nat.le_refl n) (by omega)

theorem Spared.tail {n len : Nat} (h : Spared fault n (len + 1)) : Spared fault (n + 1) len :=
  fun m h1 h2 => h m (by omega) (by omega)

@[simp] theorem spared_zero (n : Nat) : Spared fault n 0 := fun _ h1 h2 => absurd h2 (Nat.not_lt.2 h1)

theorem spared_add {n a b : Nat} : Spared fault n (a + b) ↔ Spared fault n a ∧ Spared fault (n + a) b := by
  constructor
  · intro h
    exact ⟨fun m h1 h2 => h m h1 (by omega), fun m h1 h2 => h m (by omega) (by omega)⟩
  · intro h m h1 h2
    by_cases hm : m < n + a
    · exact h.1 m h1 hm
    · exact h.2 m (by omega) (by omega)

theorem spared_one {n : Nat} : Spared fault n 1 ↔ fault n = false := by
  constructor
  · intro h
    exact h.head
  · intro h m h1 h2
    rw [show m = n by omega]
    exact h

theorem run_clean (p : Prog σ α) {t : σ} {n : Nat} (h : Spared fault n (p.cost t)) :
    p.run fault ⟨t, false, n⟩ = (⟨(p.clean t).1, false, n + p.cost t⟩, (p.clean t).2) := by
  induction p generalizing t n with
  | ret a => rfl
  | stmt f k ih =>
    have hn : ¬ ((false = true) ∨ fault n = true) := by
      simp [h.head]
    rw [run_stmt, if_neg hn, ih (some t) h.tail]
    have hsent : n + 1 + (k (some t)).cost (f t) = n + (stmt f k).cost t := by
      change _ = n + ((k (some t)).cost (f t) + 1)
      omega
    rw [hsent]
    rfl

/-- A statement that fails dooms the transaction. -/
theorem run_hit (p : Prog σ α) {t : σ} {n : Nat} (h : ¬ Spared fault n (p.cost t)) :
    (p.run fault ⟨t, false, n⟩).1.failed = true := by
  induction p generalizing t n with
  | ret a => exact absurd (fun m h1 h2 => absurd h1 (Nat.not_le.2 h2)) h
  | stmt f k ih =>
    rw [run_stmt]
    by_cases hf : fault n = true
    · rw [if_pos (.inr hf)]
      exact run_failed _ rfl
    · have hn : ¬ ((false = true) ∨ fault n = true) := by
        simp [hf]
      rw [if_neg hn]
      apply ih (some t)
      intro hs
      apply h
      intro m h1 h2
      rcases Nat.eq_or_lt_of_le h1 with rfl | h1
      · simpa using hf
      · change m < n + ((k (some t)).cost (f t) + 1) at h2
        apply hs m h1
        change m < n + 1 + (k (some t)).cost (f t)
        omega

/-- A whole transaction on `t`, committed or rolled back by its result. -/
def transact (p : Prog σ α) (fault : Nat → Bool) (t : σ) (commits : α → Bool) : σ × α :=
  let x := p.run fault ⟨t, false, 0⟩
  (if commits x.2 then x.1.commit t else t, x.2)

theorem transact_clean (p : Prog σ α) {t : σ} (h : Spared fault 0 (p.cost t)) (commits : α → Bool) :
    p.transact fault t commits = (if commits (p.clean t).2 then (p.clean t).1 else t, (p.clean t).2) := by
  unfold transact
  rw [run_clean p h]
  rfl

theorem transact_hit (p : Prog σ α) {t : σ} (h : ¬ Spared fault 0 (p.cost t)) (commits : α → Bool) :
    (p.transact fault t commits).1 = t := by
  have hf := run_hit p h
  unfold transact
  dsimp only
  rw [Txn.commit, if_pos hf, ite_self]

/-! ## What every transaction keeps -/

/-- Kept by the run without failures, and so by every transaction. -/
def Keeps (P : σ → Prop) (p : Prog σ α) : Prop := ∀ t, P t → P (p.clean t).1

section Keeps

variable {P : σ → Prop}

theorem Keeps.pure (a : α) : (Pure.pure a : Prog σ α).Keeps P := fun _ h => h

theorem Keeps.select : (Prog.select : Prog σ (Option σ)).Keeps P := fun _ h => h

theorem Keeps.queries (n : Nat) : (Prog.queries n : Prog σ Unit).Keeps P := by
  intro t h
  rwa [clean_queries]

theorem Keeps.exec {f : σ → σ} (hf : ∀ t, P t → P (f t)) : (Prog.exec f).Keeps P := hf

theorem Keeps.bind {p : Prog σ α} {g : α → Prog σ β} (hp : p.Keeps P) (hg : ∀ a, (g a).Keeps P) :
    (p >>= g).Keeps P := by
  intro t h
  rw [clean_bind]
  exact hg _ _ (hp t h)

theorem Keeps.transact {p : Prog σ α} (hp : p.Keeps P) (fault : Nat → Bool) {t : σ} (h : P t) (commits : α → Bool) :
    P (p.transact fault t commits).1 := by
  by_cases hs : Spared fault 0 (p.cost t)
  · rw [transact_clean p hs]
    dsimp only
    split
    · exact hp t h
    · exact h
  · rwa [transact_hit p hs]

end Keeps

/-! ## What a program makes of a failure -/

/-- The result when no statement is carried out. -/
def deny : Prog σ α → α
  | ret a => a
  | stmt _ k => (k none).deny

theorem run_deny (p : Prog σ α) {s : Txn σ} (h : s.failed = true) : (p.run fault s).2 = p.deny := by
  induction p generalizing s with
  | ret a => rfl
  | stmt f k ih =>
    rw [run_stmt, if_pos (.inl h)]
    exact ih none rfl

@[simp] theorem deny_bind (p : Prog σ α) (g : α → Prog σ β) : (p >>= g).deny = (g p.deny).deny := by
  induction p with
  | ret a => rfl
  | stmt f k ih => exact ih none

@[simp] theorem deny_onFst (p : Prog σ α) : (p.onFst : Prog (σ × τ) α).deny = p.deny := by
  induction p with
  | ret a => rfl
  | stmt f k ih => exact ih none

/-- Every failure makes the program answer `bad`. -/
def Guarded (bad : α → Prop) : Prog σ α → Prop
  | ret _ => True
  | stmt _ k => bad (k none).deny ∧ ∀ t, (k (some t)).Guarded bad

theorem Guarded.pure {bad : α → Prop} (a : α) : (Pure.pure a : Prog σ α).Guarded bad := trivial

theorem Guarded.bind {bad : α → Prop} {bad' : β → Prop} {p : Prog σ α} {g : α → Prog σ β} (hp : p.Guarded bad)
    (hbad : ∀ a, bad a → bad' (g a).deny) (hg : ∀ a, (g a).Guarded bad') : (p >>= g).Guarded bad' := by
  induction p with
  | ret a => exact hg a
  | stmt f k ih =>
    refine ⟨?_, fun t => ih (some t) (hp.2 t)⟩
    have hd : ((k none).bind g).deny = (g (k none).deny).deny := deny_bind (k none) g
    rw [hd]
    exact hbad _ hp.1

theorem Guarded.onFst {bad : α → Prop} {p : Prog σ α} (hp : p.Guarded bad) :
    (p.onFst : Prog (σ × τ) α).Guarded bad := by
  induction p with
  | ret a => exact hp
  | stmt f k ih =>
    refine ⟨?_, fun s => ih (some s.1) (hp.2 s.1)⟩
    have hd : ((k none).onFst : Prog (σ × τ) α).deny = (k none).deny := deny_onFst (k none)
    change bad ((k none).onFst : Prog (σ × τ) α).deny
    rw [hd]
    exact hp.1

theorem Guarded.run {bad : α → Prop} {p : Prog σ α} (hp : p.Guarded bad) {s : Txn σ} (hs : s.failed = false)
    (h : (p.run fault s).1.failed = true) : bad (p.run fault s).2 := by
  induction p generalizing s with
  | ret a =>
    rw [Prog.run, hs] at h
    cases h
  | stmt f k ih =>
    rw [run_stmt] at h ⊢
    split
    · rw [run_deny _ rfl]
      exact hp.1
    · rename_i hn
      rw [if_neg hn] at h
      exact ih (some s.tables) (hp.2 _) rfl h

theorem Guarded.mono {bad bad' : α → Prop} (h : ∀ a, bad a → bad' a) {p : Prog σ α} (hp : p.Guarded bad) :
    p.Guarded bad' := by
  induction p with
  | ret a => trivial
  | stmt f k ih => exact ⟨h _ hp.1, fun t => ih (some t) (hp.2 t)⟩

/-- A program with results that may all be had from a failure. -/
theorem guarded_of_forall {bad : α → Prop} (h : ∀ a, bad a) (p : Prog σ α) : p.Guarded bad := by
  induction p with
  | ret a => trivial
  | stmt f k ih => exact ⟨h _, fun t => ih (some t)⟩

/-- A guarded transaction that a failure has hit leaves its tables alone and
answers `bad`. -/
theorem Guarded.transact {bad : α → Prop} {p : Prog σ α} (hp : p.Guarded bad) {t : σ}
    (h : ¬ Spared fault 0 (p.cost t)) (commits : α → Bool) :
    (p.transact fault t commits).1 = t ∧ bad (p.transact fault t commits).2 :=
  ⟨transact_hit p h commits, hp.run rfl (run_hit p h)⟩

end Prog
end JobArranger
