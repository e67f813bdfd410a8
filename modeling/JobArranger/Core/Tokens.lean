import Mathlib.Data.List.Basic

/-!
# Used at most once

A key becomes available from time to time and may be used each time once.
`count k` is how often `k` has become available; a use is recorded with the
count at that moment, so that the records are distinct exactly when no
availability is used twice.

* `UsedOnce.next`: a step that uses nothing.
* `UsedOnce.use`: a use, which ends the availability.
-/
namespace JobArranger

universe u
variable {κ : Type u}

structure UsedOnce (avail : κ → Prop) (count : κ → Nat) (used : List (κ × Nat)) : Prop where
  past : ∀ k n, (k, n) ∈ used → n ≤ count k
  once : ∀ k n, (k, n) ∈ used → avail k → n < count k
  nodup : used.Nodup

variable {avail avail' : κ → Prop} {count count' : κ → Nat} {used : List (κ × Nat)}

theorem usedOnce_nil : UsedOnce avail count [] :=
  ⟨by simp, by simp, List.nodup_nil⟩

/-- What becomes available is counted. -/
theorem UsedOnce.next (h : UsedOnce avail count used) (hle : ∀ k, count k ≤ count' k)
    (hnew : ∀ k, avail' k → avail k ∨ count k < count' k) : UsedOnce avail' count' used := by
  refine ⟨fun k n hm => Nat.le_trans (h.past k n hm) (hle k), fun k n hm ha => ?_, h.nodup⟩
  rcases hnew k ha with ha | hlt
  · exact Nat.lt_of_lt_of_le (h.once k n hm ha) (hle k)
  · exact Nat.lt_of_le_of_lt (h.past k n hm) hlt

theorem UsedOnce.use (h : UsedOnce avail count used) {k : κ} (ha : avail k) (hle : ∀ k, count k ≤ count' k)
    (hnew : ∀ k, avail' k → avail k ∨ count k < count' k) (hend : ¬ avail' k) :
    UsedOnce avail' count' ((k, count k) :: used) := by
  have hnext := h.next hle hnew
  refine ⟨?_, ?_, ?_⟩
  · intro k' n hm
    rcases List.mem_cons.1 hm with he | hm
    · cases he
      exact hle k
    · exact hnext.past k' n hm
  · intro k' n hm ha'
    rcases List.mem_cons.1 hm with he | hm
    · cases he
      exact absurd ha' hend
    · exact hnext.once k' n hm ha'
  · rw [List.nodup_cons]
    exact ⟨fun hm => absurd (h.once k _ hm ha) (Nat.lt_irrefl _), h.nodup⟩

end JobArranger
