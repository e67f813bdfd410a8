import Mathlib.Logic.Function.Basic

/-!
# Row locks

Processes that lock the rows they write until they commit. `lock k` is the
process that holds row `k`; what a process has not committed yet is seen by
nobody, so the only state is the committed value of each row. A commit of
`who` leaves the rows locked by others alone (`Respects`); a process that
holds no lock commits as `none`.

* `Respects.held`: a row keeps its value until its holder commits.
* `release`: the holder gives a row back; the rows of others stay locked.
-/
namespace JobArranger.Locks

universe u v w
variable {κ : Type u} {P : Type v} {α : Type w}

def Respects (lock : κ → Option P) (who : Option P) (v v' : κ → α) : Prop :=
  ∀ k q, lock k = some q → who ≠ some q → v' k = v k

theorem Respects.held {lock : κ → Option P} {who : Option P} {v v' : κ → α} (h : Respects lock who v v')
    {k : κ} {q : P} (hq : lock k = some q) (hne : who ≠ some q) : v' k = v k :=
  h k q hq hne

theorem Respects.refl (lock : κ → Option P) (who : Option P) (v : κ → α) : Respects lock who v v :=
  fun _ _ _ _ => rfl

variable [DecidableEq κ]

def acquire (lock : κ → Option P) (k : κ) (p : P) : κ → Option P := Function.update lock k (some p)

def release (lock : κ → Option P) (k : κ) : κ → Option P := Function.update lock k none

@[simp] theorem acquire_self (lock : κ → Option P) (k : κ) (p : P) : acquire lock k p k = some p := by
  simp [acquire]

theorem acquire_held {lock : κ → Option P} {k k' : κ} {p q : P} (hfree : lock k = none)
    (h : lock k' = some q) : acquire lock k p k' = some q := by
  have hne : k' ≠ k := by
    intro he
    rw [he, hfree] at h
    cases h
  rw [acquire, Function.update_of_ne hne, h]

theorem release_held {lock : κ → Option P} {k k' : κ} {p q : P} (hk : lock k = some p)
    (h : lock k' = some q) (hne : q ≠ p) : release lock k k' = some q := by
  have hkk : k' ≠ k := by
    intro he
    rw [he, hk] at h
    exact hne (Option.some.inj h).symm
  rw [release, Function.update_of_ne hkk, h]

theorem release_acquire {lock : κ → Option P} {k : κ} (hfree : lock k = none) (p : P) :
    release (acquire lock k p) k = lock := by
  rw [release, acquire, Function.update_idem, ← hfree, Function.update_eq_self]

end JobArranger.Locks
