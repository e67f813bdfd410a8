import Mathlib.Data.List.Nodup
import Mathlib.Tactic.Common

/-!
# Tables as lists of rows

An SQL table is the list of its rows in the order an unordered `select`
returns them. `update p f` is `update … set f where p`, `lookup key k` the
first row whose key is `k` (the only one when the key is a primary key).

* `mem_update`: the rows after an update are the old rows, changed where
  the condition holds.
* `lookup_update`: an update that keeps the key commutes with a lookup.
-/
namespace JobArranger.Table

universe u v
variable {α : Type u} {κ : Type v} [DecidableEq κ]

def update (p : α → Bool) (f : α → α) (t : List α) : List α := t.map fun r => if p r then f r else r

def lookup (key : α → κ) (k : κ) (t : List α) : Option α := t.find? fun r => key r == k

theorem mem_update {p : α → Bool} {f : α → α} {t : List α} {r' : α} :
    r' ∈ update p f t ↔ ∃ r ∈ t, (if p r then f r else r) = r' := by
  simp [update]

/-- A column the update leaves alone in the rows it changes has the same
values, row by row. -/
theorem map_update_of {β : Type*} (g : α → β) (p : α → Bool) (f : α → α) (t : List α)
    (hg : ∀ r, p r → g (f r) = g r) : (update p f t).map g = t.map g := by
  simp only [update, List.map_map]
  refine List.map_congr_left fun r _ => ?_
  simp only [Function.comp]
  split
  · rename_i hp
    exact hg r hp
  · rfl

theorem map_update {β : Type*} (g : α → β) (p : α → Bool) (f : α → α) (t : List α)
    (hg : ∀ r, g (f r) = g r) : (update p f t).map g = t.map g :=
  map_update_of g p f t fun r _ => hg r

omit [DecidableEq κ] in
/-- Rows with one key are one row. -/
theorem eq_of_key {key : α → κ} {t : List α} (hn : (t.map key).Nodup) {r r' : α} (h : r ∈ t) (h' : r' ∈ t)
    (he : key r = key r') : r = r' :=
  List.inj_on_of_nodup_map hn h h' he

/-- Lists that agree on `g` have the same rows up to `g`. -/
theorem mem_of_map_eq {β : Type*} {g : α → β} {t t' : List α} (h : t'.map g = t.map g) {r' : α}
    (hr : r' ∈ t') : ∃ r ∈ t, g r = g r' :=
  List.mem_map.1 (h ▸ List.mem_map_of_mem hr)

theorem lookup_mem {key : α → κ} {k : κ} {t : List α} {r : α} (h : lookup key k t = some r) :
    r ∈ t ∧ key r = k := by
  refine ⟨List.mem_of_find?_eq_some h, ?_⟩
  have := List.find?_some h
  simpa using this

theorem lookup_isSome {key : α → κ} {k : κ} {t : List α} {r : α} (h : r ∈ t) (hk : key r = k) :
    (lookup key k t).isSome := by
  rw [lookup, List.find?_isSome]
  exact ⟨r, h, by simp [hk]⟩

/-- With pairwise distinct keys a lookup finds the row itself. -/
theorem lookup_eq {key : α → κ} {t : List α} (hn : (t.map key).Nodup) {r : α} (h : r ∈ t) :
    lookup key (key r) t = some r := by
  induction t with
  | nil => cases h
  | cons a t ih =>
    simp only [List.map_cons, List.nodup_cons] at hn
    rcases List.mem_cons.mp h with rfl | h'
    · simp [lookup]
    · have hne : key a ≠ key r := fun e => hn.1 (e ▸ List.mem_map_of_mem h')
      have := ih hn.2 h'
      simpa [lookup, List.find?_cons, hne] using this

/-- An update of a missing row changes nothing. -/
theorem update_missing {key : α → κ} {k : κ} {t : List α} (h : lookup key k t = none) (f : α → α) :
    update (fun r => key r == k) f t = t := by
  rw [lookup, List.find?_eq_none] at h
  refine (List.map_congr_left fun r hr => ?_).trans (List.map_id t)
  rw [if_neg (h r hr)]
  rfl

theorem lookup_update (key : α → κ) (k : κ) (p : α → Bool) (f : α → α) (t : List α)
    (hk : ∀ r, key (f r) = key r) :
    lookup key k (update p f t) = (lookup key k t).map fun r => if p r then f r else r := by
  induction t with
  | nil => rfl
  | cons a t ih =>
    have ha : key (if p a then f a else a) = key a := by split <;> simp [hk]
    simp only [lookup, update, List.map_cons, List.find?_cons, ha] at ih ⊢
    by_cases h : key a = k
    · simp [h]
    · have hb : (key a == k) = false := by simpa using h
      simp only [hb]
      exact ih

end JobArranger.Table
