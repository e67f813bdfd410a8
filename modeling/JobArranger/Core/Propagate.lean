import Mathlib.Data.List.Basic
import Mathlib.Logic.Relation
import Mathlib.Order.WellFoundedSet

/-!
# Changes carried upwards

The value of a node rests on the nodes below it, so a change of a node is
carried on: everything directly above it is redone, and then the same is done
from each of these. What stands above a node may stand above others too, and
above one another; nodes are redone as often as they are met.

* `Redoes`: redoing a node settles it and unsettles only what is above it.
* `visit_settles`: carrying the change of a node on settles everything that
  the change has unsettled, whatever else is still to be done.
* `visit_total`: where nothing is above itself the way up ends.
-/
namespace Propagate

variable {ν σ : Type*} (ups : ν → List ν) (redo : ν → σ → σ)

/-- Redo what is directly above `n`, then go on from each of it. -/
def visit : Nat → ν → σ → Option σ
  | 0, _, _ => none
  | k + 1, n, s => (ups n).foldlM (fun s u => visit k u s) ((ups n).foldl (fun s u => redo u s) s)

/-- What redoing a node does to states that are in order. Only what is above
another node is ever redone. -/
structure Redoes (Ok : σ → Prop) (Settled : σ → ν → Prop) : Prop where
  keeps : ∀ n u s, u ∈ ups n → Ok s → Ok (redo u s)
  own : ∀ u s, Ok s → u ∉ ups u → Settled (redo u s) u
  others : ∀ u s x, Ok s → x ≠ u → x ∉ ups u → Settled s x → Settled (redo u s) x

variable {ups redo} {Ok : σ → Prop} {Settled : σ → ν → Prop}

theorem visit_succ (k : Nat) (n : ν) (s : σ) : visit ups redo (k + 1) n s =
    (ups n).foldlM (fun s u => visit ups redo k u s) ((ups n).foldl (fun s u => redo u s) s) := rfl

/-! ## Folds that may fail -/

theorem foldlM_keeps {f : σ → ν → Option σ} {P : σ → Prop} (hf : ∀ s u s', P s → f s u = some s' → P s')
    {us : List ν} {s s' : σ} (hs : P s) (h : us.foldlM f s = some s') : P s' := by
  induction us generalizing s with
  | nil =>
    obtain rfl : s = s' := by simpa using h
    exact hs
  | cons u us ih =>
    rw [List.foldlM_cons] at h
    obtain ⟨s₁, h1, h2⟩ := Option.bind_eq_some_iff.1 h
    exact ih (hf s u s₁ hs h1) h2

theorem foldlM_mono {f g : σ → ν → Option σ} (hfg : ∀ s u s', f s u = some s' → g s u = some s')
    {us : List ν} {s s' : σ} (h : us.foldlM f s = some s') : us.foldlM g s = some s' := by
  induction us generalizing s with
  | nil => exact h
  | cons u us ih =>
    rw [List.foldlM_cons] at h ⊢
    obtain ⟨s₁, h1, h2⟩ := Option.bind_eq_some_iff.1 h
    exact Option.bind_eq_some_iff.2 ⟨s₁, hfg s u s₁ h1, ih h2⟩

theorem foldlM_total {f : σ → ν → Option σ} {us : List ν} (hf : ∀ u ∈ us, ∀ s, (f s u).isSome) (s : σ) :
    (us.foldlM f s).isSome := by
  induction us generalizing s with
  | nil => rfl
  | cons u us ih =>
    rw [List.foldlM_cons]
    obtain ⟨s₁, h1⟩ := Option.isSome_iff_exists.1 (hf u List.mem_cons_self s)
    rw [h1]
    exact ih (fun u hu => hf u (List.mem_cons_of_mem _ hu)) s₁

/-! ## What a visit settles -/

/-- Everything outside `D` is settled. -/
def SettledBut (Settled : σ → ν → Prop) (D : ν → Prop) (s : σ) : Prop := ∀ x, ¬ D x → Settled s x

theorem SettledBut.mono {D D' : ν → Prop} {s : σ} (h : SettledBut Settled D s) (hD : ∀ x, D x → D' x) :
    SettledBut Settled D' s :=
  fun x hx => h x fun hd => hx (hD x hd)

theorem redo_settles (r : Redoes ups redo Ok Settled) {D : ν → Prop} {u : ν} {s : σ} (hok : Ok s)
    (hu : u ∉ ups u) (h : SettledBut Settled (fun x => x = u ∨ D x) s) :
    SettledBut Settled (fun x => x ∈ ups u ∨ D x) (redo u s) := by
  intro x hx
  have hup : x ∉ ups u := fun hm => hx (.inl hm)
  by_cases hxu : x = u
  · rw [hxu]
    exact r.own u s hok hu
  · exact r.others u s x hok hxu hup (h x fun hd => hd.elim hxu fun hd => hx (.inr hd))

theorem foldl_keeps (r : Redoes ups redo Ok Settled) {n : ν} {us : List ν} (hus : us ⊆ ups n) {s : σ} (hok : Ok s) :
    Ok (us.foldl (fun s u => redo u s) s) := by
  induction us generalizing s with
  | nil => exact hok
  | cons u us ih =>
    obtain ⟨hu, hus⟩ := List.cons_subset.1 hus
    exact ih hus (r.keeps n u s hu hok)

/-- Redoing a list of nodes leaves unsettled what is directly above them. -/
theorem foldl_settles (r : Redoes ups redo Ok Settled) (hirr : ∀ u, u ∉ ups u) {n : ν} (us : List ν)
    (hus : us ⊆ ups n) {D : ν → Prop} {s : σ} (hok : Ok s) (h : SettledBut Settled (fun x => x ∈ us ∨ D x) s) :
    SettledBut Settled (fun x => (∃ u ∈ us, x ∈ ups u) ∨ D x) (us.foldl (fun s u => redo u s) s) := by
  induction us generalizing s D with
  | nil => exact h.mono fun x hx => .inr (hx.resolve_left List.not_mem_nil)
  | cons u us ih =>
    have hu : SettledBut Settled (fun x => x = u ∨ (x ∈ us ∨ D x)) s := by
      apply h.mono
      intro x hx
      simpa [or_assoc] using hx
    have h1 := redo_settles r hok (hirr u) hu
    obtain ⟨hu, hus⟩ := List.cons_subset.1 hus
    have h2 := ih hus (r.keeps n u s hu hok) (D := fun x => x ∈ ups u ∨ D x) (by
      apply h1.mono
      intro x hx
      tauto)
    apply h2.mono
    intro x hx
    obtain ⟨v, hv, hxv⟩ | hx | hx := hx
    · exact .inl ⟨v, List.mem_cons_of_mem _ hv, hxv⟩
    · exact .inl ⟨u, List.mem_cons_self, hx⟩
    · exact .inr hx

theorem visit_keeps (r : Redoes ups redo Ok Settled) {k : Nat} {n : ν} {s s' : σ} (hok : Ok s)
    (h : visit ups redo k n s = some s') : Ok s' := by
  induction k generalizing n s s' with
  | zero => cases h
  | succ k ih =>
    exact foldlM_keeps (fun s u s' hs h => ih hs h) (foldl_keeps r (List.Subset.refl _) hok) h

/-- The rest of the way up is another matter (`D`): what the change of `n`
has unsettled is settled. The induction is on the height left, for every
`D`: while one node above `n` is visited the others wait. -/
theorem visit_settles (r : Redoes ups redo Ok Settled) (hirr : ∀ u, u ∉ ups u) {k : Nat} {n : ν} {D : ν → Prop}
    {s s' : σ} (hok : Ok s) (h : SettledBut Settled (fun x => x ∈ ups n ∨ D x) s)
    (hv : visit ups redo k n s = some s') : SettledBut Settled D s' := by
  induction k generalizing n D s s' with
  | zero => cases hv
  | succ k ih =>
    have hok₁ := foldl_keeps r (List.Subset.refl _) hok (n := n)
    have h₁ := foldl_settles r hirr (ups n) (List.Subset.refl _) hok h
    rw [visit_succ] at hv
    generalize (ups n).foldl (fun s u => redo u s) s = s₁ at hok₁ h₁ hv
    -- the nodes still to be visited: only what is above them is unsettled
    generalize ups n = us at h₁ hv
    clear h
    induction us generalizing s₁ with
    | nil =>
      obtain rfl : s₁ = s' := by simpa using hv
      exact h₁.mono fun x hx => hx.resolve_left (by simp)
    | cons u us ihu =>
      rw [List.foldlM_cons] at hv
      obtain ⟨s₂, hu, hus⟩ := Option.bind_eq_some_iff.1 hv
      apply ihu s₂ (visit_keeps r hok₁ hu) _ hus
      apply ih (n := u) hok₁ _ hu
      apply h₁.mono
      intro x hx
      obtain ⟨v, hv, hxv⟩ | hx := hx
      · obtain rfl | hv := List.mem_cons.1 hv
        · exact .inl hxv
        · exact .inr (.inl ⟨v, hv, hxv⟩)
      · exact .inr (.inr hx)

/-! ## The way up ends -/

theorem visit_mono {k k' : Nat} (hk : k ≤ k') {n : ν} {s s' : σ} (h : visit ups redo k n s = some s') :
    visit ups redo k' n s = some s' := by
  induction k generalizing k' n s s' with
  | zero => cases h
  | succ k ih =>
    obtain ⟨j, rfl⟩ : ∃ j, k' = j + 1 := ⟨k' - 1, by omega⟩
    exact foldlM_mono (fun s u s' h => ih (by omega) h) h

/-- A bound for each member of a list is a bound for all of them. -/
theorem exists_bound {P : Nat → ν → Prop} (hmono : ∀ k k' u, k ≤ k' → P k u → P k' u) {us : List ν}
    (h : ∀ u ∈ us, ∃ k, P k u) : ∃ k, ∀ u ∈ us, P k u := by
  induction us with
  | nil => exact ⟨0, by simp⟩
  | cons u us ih =>
    obtain ⟨k₁, h1⟩ := h u List.mem_cons_self
    obtain ⟨k₂, h2⟩ := ih fun u hu => h u (List.mem_cons_of_mem _ hu)
    refine ⟨max k₁ k₂, ?_⟩
    intro v hv
    obtain rfl | hv := List.mem_cons.1 hv
    · exact hmono _ _ _ (Nat.le_max_left _ _) h1
    · exact hmono _ _ _ (Nat.le_max_right _ _) (h2 v hv)

theorem isSome_mono {k k' : Nat} (hk : k ≤ k') {n : ν} {s : σ} (h : (visit ups redo k n s).isSome) :
    (visit ups redo k' n s).isSome := by
  obtain ⟨s', hs'⟩ := Option.isSome_iff_exists.1 h
  rw [visit_mono hk hs']
  rfl

/-- How high the way up is does not depend on what is redone. -/
theorem visit_total (hwf : WellFounded fun u n => u ∈ ups n) (n : ν) :
    ∃ k, ∀ (redo : ν → σ → σ) s, (visit ups redo k n s).isSome := by
  induction n using hwf.induction with
  | h n ih =>
    obtain ⟨k, hk⟩ := exists_bound (P := fun k u => ∀ (redo : ν → σ → σ) s, (visit ups redo k u s).isSome)
      (fun k k' u hle h redo s => isSome_mono hle (h redo s)) ih
    exact ⟨k + 1, fun redo s => foldlM_total (fun u hu s => hk u hu redo s) _⟩

/-- Finitely many nodes, none above itself: the way up is well founded. -/
theorem wellFounded_of_acyclic {above : ν → ν → Prop} {nodes : List ν} (hnodes : ∀ u n, above u n → u ∈ nodes)
    (hacyc : ∀ n, ¬ Relation.TransGen above n n) : WellFounded above := by
  have hord : IsStrictOrder ν (Relation.TransGen above) :=
    { irrefl := hacyc, trans := fun _ _ _ h h' => h.trans h' }
  have hfin := (List.finite_toSet nodes).wellFoundedOn (r := Relation.TransGen above)
  have hacc : ∀ u ∈ nodes, Acc above u := by
    intro u hu
    refine hfin.induction hu (P := fun u => Acc above u) ?_
    intro v hv ih
    exact ⟨v, fun w hw => ih w (hnodes w v hw) (.single hw)⟩
  exact ⟨fun n => ⟨n, fun u hu => hacc u (hnodes u n hu)⟩⟩

end Propagate
