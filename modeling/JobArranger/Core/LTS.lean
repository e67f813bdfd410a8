import Mathlib.Data.List.Basic

/-!
# Labelled transition systems

Runs, reachable states, inductive invariants, and the restriction of a
system to the steps that meet a condition. Nothing here is about the job
server; every machine of the development is an instance.

* `Inductive.reachable`: an inductive invariant holds in every reachable
  state.
* `Run.preserves`: a property that every step keeps holds at the end of a
  run that starts in it (no initial states involved).
* `Run.history`: the same for a property of the labels so far and the state.
* `restrict`: the runs whose every step meets a condition on the state
  before it and its label.
* `Run.of_foldlM`: a computed run is a run.
-/
namespace JobArranger

universe u v

structure LTS (S : Type u) (L : Type v) where
  init : S → Prop
  step : S → L → S → Prop

namespace LTS

variable {S : Type u} {L : Type v}

inductive Run (m : LTS S L) : S → List L → S → Prop where
  | nil (s : S) : Run m s [] s
  | cons {s r s' : S} {l : L} {ls : List L} : m.step s l r → Run m r ls s' → Run m s (l :: ls) s'

/-- The system of a partial step function. -/
def ofFn (init : S → Prop) (f : S → L → Option S) : LTS S L where
  init := init
  step s l s' := f s l = some s'

def Reachable (m : LTS S L) (s : S) : Prop := ∃ s₀ ls, m.init s₀ ∧ Run m s₀ ls s

/-- The runs whose every step meets `C` (on the state before it and its label). -/
def restrict (m : LTS S L) (C : S → L → Prop) : LTS S L where
  init := m.init
  step s l s' := m.step s l s' ∧ C s l

structure Inductive (m : LTS S L) (J : S → Prop) : Prop where
  init : ∀ s, m.init s → J s
  step : ∀ s l s', J s → m.step s l s' → J s'

theorem Run.preserves {m : LTS S L} {J : S → Prop} (hst : ∀ s l s', J s → m.step s l s' → J s')
    {s s' : S} {ls : List L} (hr : Run m s ls s') (hs : J s) : J s' := by
  induction hr with
  | nil _ => exact hs
  | cons h _ ih => exact ih (hst _ _ _ hs h)

/-- A property of the labels so far and the state, kept by every step, holds at the end. -/
theorem Run.history {m : LTS S L} {H : List L → S → Prop}
    (hst : ∀ ls s l s', H ls s → m.step s l s' → H (ls ++ [l]) s') {s s' : S} {ls before : List L}
    (hr : Run m s ls s') (hs : H before s) : H (before ++ ls) s' := by
  induction hr generalizing before with
  | nil _ => simpa using hs
  | cons h _ ih => simpa using ih (hst _ _ _ _ hs h)

theorem Inductive.reachable {m : LTS S L} {J : S → Prop} (h : m.Inductive J) (s : S)
    (hr : m.Reachable s) : J s := by
  obtain ⟨s₀, ls, hi, hrun⟩ := hr
  exact hrun.preserves h.step (h.init s₀ hi)

theorem Run.append {m : LTS S L} {s s₁ s₂ : S} {ls ls' : List L} (h : Run m s ls s₁)
    (h' : Run m s₁ ls' s₂) : Run m s (ls ++ ls') s₂ := by
  induction h with
  | nil _ => exact h'
  | cons hst _ ih => exact .cons hst (ih h')

/-- A run whose labels all meet `C`. -/
theorem Run.restrict {m : LTS S L} {C : L → Prop} {s s' : S} {ls : List L} (h : Run m s ls s')
    (hc : ∀ l ∈ ls, C l) : Run (m.restrict fun _ => C) s ls s' := by
  induction h with
  | nil s => exact .nil s
  | cons hst _ ih =>
    exact .cons ⟨hst, hc _ List.mem_cons_self⟩ (ih fun l hl => hc l (List.mem_cons_of_mem _ hl))

/-- A run computed step by step. -/
theorem Run.of_foldlM {m : LTS S L} {f : S → L → Option S}
    (hf : ∀ s l s', f s l = some s' → m.step s l s') {ls : List L} {s s' : S}
    (h : ls.foldlM f s = some s') : Run m s ls s' := by
  induction ls generalizing s with
  | nil =>
    obtain rfl := Option.some.inj h
    exact .nil _
  | cons l ls ih =>
    obtain ⟨s₁, h1, h2⟩ := Option.bind_eq_some_iff.1 h
    exact .cons (hf s l s₁ h1) (ih h2)

/-- A run computed step by step, with the condition checked before each. -/
theorem Run.of_foldlM_restrict {m : LTS S L} {f : S → L → Option S} {C : S → L → Prop}
    [∀ s l, Decidable (C s l)] (hf : ∀ s l s', f s l = some s' → m.step s l s') {ls : List L} {s s' : S}
    (h : ls.foldlM (fun s l => if C s l then f s l else none) s = some s') :
    Run (m.restrict C) s ls s' := by
  refine Run.of_foldlM (fun s l s₁ h1 => ?_) h
  split at h1
  · rename_i hc
    exact ⟨hf s l s₁ h1, hc⟩
  · cases h1

/-- Some run leads from `s` to `s'`. -/
def Reaches (m : LTS S L) (s s' : S) : Prop := ∃ ls, Run m s ls s'

theorem Reaches.refl (m : LTS S L) (s : S) : m.Reaches s s := ⟨[], .nil s⟩

theorem Reaches.trans {m : LTS S L} {s s₁ s₂ : S} (h : m.Reaches s s₁) (h' : m.Reaches s₁ s₂) :
    m.Reaches s s₂ := by
  obtain ⟨ls, hr⟩ := h
  obtain ⟨ls', hr'⟩ := h'
  exact ⟨ls ++ ls', hr.append hr'⟩

theorem Reaches.single {m : LTS S L} {s s' : S} {l : L} (h : m.step s l s') : m.Reaches s s' :=
  ⟨[l], .cons h (.nil _)⟩

theorem Reachable.reaches {m : LTS S L} {s s' : S} (h : m.Reachable s) (hr : m.Reaches s s') :
    m.Reachable s' := by
  obtain ⟨s₀, ls, hi, hrun⟩ := h
  obtain ⟨ls', hrun'⟩ := hr
  exact ⟨s₀, ls ++ ls', hi, hrun.append hrun'⟩

end LTS
end JobArranger
