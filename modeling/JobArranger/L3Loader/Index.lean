import JobArranger.L3Loader.Define
import Mathlib.Data.List.Count
import Mathlib.Data.List.Nodup
import Mathlib.Data.List.Range

/-!
# Ids of the run tables (`jalibs/jaindex.c`)

Every process draws its ids from the counters of `ja_index_table`. A call of
`get_next_id` holds the row lock of its counter until its transaction ends,
so the calls of all processes on one counter form one sequence.

Past the last id of the range a call returns the first id again, and stores
it unchanged: the next call returns it once more.

* `getNextIds_ids`: the ids drawn from one counter, whatever is drawn from
  the others in between.
* `ids_distinct_iff`: they are distinct exactly when at most one call has
  found the counter past its range.
-/
namespace JobArranger

namespace CountId

/-- What a call returns and stores, from the stored number. -/
def draw (c : CountId) (v : Nat) : Nat × Nat :=
  if c.range.1 < v then (c.range.2, c.range.2) else (v, v + 1)

/-- The ids of `n` calls in a row. -/
def draws (c : CountId) : Nat → Nat → List Id
  | 0, _ => []
  | n + 1, v => (c.draw v).1 :: c.draws n (c.draw v).2

/-- The ids a counter is meant to hand out. -/
def InRange (c : CountId) (v : Nat) : Prop := c.range.2 ≤ v ∧ v ≤ c.range.1

/-- Number of ids of a counter. -/
def size (c : CountId) : Nat := c.range.1 - c.range.2 + 1

theorem range_le (c : CountId) : c.range.2 ≤ c.range.1 := by
  cases c <;> decide

theorem draw_within {c : CountId} {v : Nat} (h : v ≤ c.range.1) : c.draw v = (v, v + 1) :=
  if_neg (Nat.not_lt.2 h)

theorem draw_past {c : CountId} {v : Nat} (h : c.range.1 < v) : c.draw v = (c.range.2, c.range.2) :=
  if_pos h

theorem draws_add (c : CountId) (m n v : Nat) (h : v + m ≤ c.range.1 + 1) :
    c.draws (m + n) v = List.range' v m ++ c.draws n (v + m) := by
  induction m generalizing v with
  | zero => rw [Nat.zero_add, List.range'_zero, List.nil_append, Nat.add_zero]
  | succ m ih =>
    have hv : v ≤ c.range.1 := by omega
    rw [Nat.add_right_comm, draws, draw_within hv, ih (v + 1) (by omega), List.range'_succ, List.cons_append]
    congr 3
    omega

/-- Up to the end of the range the ids are consecutive. -/
theorem draws_within (c : CountId) (n v : Nat) (h : v + n ≤ c.range.1 + 1) : c.draws n v = List.range' v n := by
  have hadd := c.draws_add n 0 v h
  rw [Nat.add_zero] at hadd
  rw [hadd, draws, List.append_nil]

/-- The second call past the range returns the id of the first. -/
theorem draws_past (c : CountId) (n : Nat) :
    c.draws (n + 2) (c.range.1 + 1) = c.range.2 :: c.range.2 :: c.draws n (c.range.2 + 1) := by
  rw [draws, draw_past (Nat.lt_succ_self _), draws, draw_within c.range_le]

theorem draws_nodup_iff {c : CountId} {n v : Nat} (hv : c.InRange v) (hn : n ≤ c.size) :
    (c.draws n v).Nodup ↔ v + n ≤ c.range.1 + 2 := by
  obtain ⟨hlo, hhi⟩ := hv
  have hle := c.range_le
  unfold size at hn
  constructor
  · intro h
    by_contra hlt
    -- two calls have found the counter past the range
    have hsplit : n = (c.range.1 + 1 - v) + ((n - (c.range.1 + 1 - v) - 2) + 2) := by omega
    have hend : v + (c.range.1 + 1 - v) = c.range.1 + 1 := by omega
    rw [hsplit, draws_add _ _ _ _ (by omega), hend, draws_past] at h
    have htwo := (List.nodup_append.1 h).2.1
    simp at htwo
  · intro h
    rcases Nat.lt_or_ge (c.range.1 + 1) (v + n) with hpast | hwithin
    · -- the last call starts the range again, and the first id was not drawn before
      have hsplit : n = (c.range.1 + 1 - v) + 1 := by omega
      have hend : v + (c.range.1 + 1 - v) = c.range.1 + 1 := by omega
      have hfirst : c.range.2 < v := by omega
      rw [hsplit, draws_add _ _ _ _ (by omega), hend, draws, draw_past (Nat.lt_succ_self _), draws]
      refine List.nodup_append.2 ⟨List.nodup_range', List.nodup_singleton _, ?_⟩
      intro a ha b hb
      obtain ⟨h1, -⟩ := List.mem_range'_1.1 ha
      rw [List.mem_singleton] at hb
      subst hb
      exact Nat.ne_of_gt (Nat.lt_of_lt_of_le hfirst h1)
    · rw [draws_within _ _ _ hwithin]
      exact List.nodup_range'

theorem draw_inRange {c : CountId} {v : Nat} (hlo : c.range.2 ≤ v) :
    c.InRange (c.draw v).1 ∧ c.range.2 ≤ (c.draw v).2 := by
  have hle := c.range_le
  unfold draw InRange
  split
  · exact ⟨⟨Nat.le_refl _, hle⟩, Nat.le_refl _⟩
  · exact ⟨⟨hlo, by omega⟩, by omega⟩

theorem draws_inRange {c : CountId} {n v : Nat} (hlo : c.range.2 ≤ v) : ∀ id ∈ c.draws n v, c.InRange id := by
  induction n generalizing v with
  | zero =>
    intro id h
    cases h
  | succ n ih =>
    intro id h
    obtain ⟨hid, hnext⟩ := draw_inRange hlo
    rcases List.mem_cons.1 h with rfl | h
    · exact hid
    · exact ih hnext id h

theorem not_inRange_jobnetLd {id : Id} (h : CountId.jobnetEx.InRange id) : ¬ CountId.jobnetLd.InRange id := by
  obtain ⟨h1, h2⟩ := h
  intro hld
  obtain ⟨h3, h4⟩ := hld
  simp only [range] at h1 h2 h3 h4
  omega

end CountId

namespace Loader

/-- Successful calls of `get_next_id` of any processes, in the order of
their row locks: the counter and the id of each. -/
def getNextIds (s : Loader) : List CountId → Option (Loader × List (CountId × Id))
  | [] => some (s, [])
  | c :: cs => do
    let (s, id) ← s.getNextId c
    let (s, ids) ← s.getNextIds cs
    return (s, (c, id) :: ids)

/-- The ids drawn from one counter. -/
def idsOf (c : CountId) (ids : List (CountId × Id)) : List Id := (ids.filter (·.1 = c)).map (·.2)

theorem getNextId_draw {s s' : Loader} {c : CountId} {id : Id} (h : s.getNextId c = some (s', id)) :
    ∃ v, s.nextid c = some v ∧ id = (c.draw v).1 ∧
      s'.nextid = Function.update s.nextid c (some (c.draw v).2) := by
  unfold getNextId at h
  cases hv : s.nextid c with
  | none => simp [hv] at h
  | some v =>
    rw [hv] at h
    change (if (c.draw v).1 = 0 then none else some (_, (c.draw v).1)) = some (s', id) at h
    split at h
    · cases h
    · obtain ⟨rfl, rfl⟩ := Prod.mk.inj (Option.some.inj h)
      exact ⟨v, rfl, rfl, rfl⟩

/-- The ids drawn from one counter do not depend on the others. -/
theorem getNextIds_ids {cs : List CountId} {s s' : Loader} {out : List (CountId × Id)} {c : CountId} {v : Nat}
    (hrow : s.nextid c = some v) (h : s.getNextIds cs = some (s', out)) :
    idsOf c out = c.draws (cs.count c) v := by
  induction cs generalizing s s' out v with
  | nil =>
    obtain ⟨-, rfl⟩ := Prod.mk.inj (Option.some.inj h)
    rfl
  | cons d cs ih =>
    obtain ⟨⟨s₁, id⟩, hd, h⟩ := Option.bind_eq_some_iff.1 h
    obtain ⟨⟨s₂, ids⟩, hcs, h⟩ := Option.bind_eq_some_iff.1 h
    obtain ⟨-, rfl⟩ := Prod.mk.inj (Option.some.inj h)
    obtain ⟨w, hw, rfl, hnext⟩ := getNextId_draw hd
    by_cases hc : d = c
    · subst hc
      obtain rfl : w = v := Option.some.inj (hw.symm.trans hrow)
      have hrow₁ : s₁.nextid d = some (d.draw w).2 := by
        rw [hnext, Function.update_self]
      rw [List.count_cons_self, CountId.draws, ← ih hrow₁ hcs]
      simp [idsOf]
    · have hrow₁ : s₁.nextid c = some v := by
        rw [hnext, Function.update_of_ne (Ne.symm hc), hrow]
      rw [List.count_cons_of_ne hc, ← ih hrow₁ hcs]
      simp [idsOf, hc]

end Loader

open CountId Loader

/-- **Ids are unique up to the second call past the range.** For every
counter, every stored number of its range and every sequence of calls, of
which not more are for this counter than it has ids: the ids drawn from it
are distinct, and those of extra jobnets outside the range of loaded ones,
exactly when at most one call has found the counter past its range. -/
theorem ids_distinct_iff (s s' : Loader) (cs : List CountId) (out : List (CountId × Id)) (c : CountId) (v : Nat)
    (hrow : s.nextid c = some v) (hv : c.InRange v) (hn : cs.count c ≤ c.size)
    (h : s.getNextIds cs = some (s', out)) :
    ((idsOf c out).Nodup ∧ (c = .jobnetEx → ∀ id ∈ idsOf c out, ¬ CountId.jobnetLd.InRange id)) ↔
      v + cs.count c ≤ c.range.1 + 2 := by
  rw [getNextIds_ids hrow h, draws_nodup_iff hv hn]
  apply and_iff_left
  intro hc id hid
  subst hc
  exact not_inRange_jobnetLd (draws_inRange hv.1 id hid)

/-- Every counter at the last id of its range. -/
def lastIds : Loader where
  tables := Tables.empty
  nextid c := some c.range.1

/-- Three jobnets loaded at the end of the range get two ids. -/
theorem id_handed_out_twice :
    (lastIds.getNextIds [.jobnetLd, .jobnetLd, .jobnetLd]).map (fun r => idsOf .jobnetLd r.2) =
        some [1499999999999999999, 1, 1] ∧
      lastIds.nextid .jobnetLd = some 1499999999999999999 ∧ CountId.jobnetLd.InRange 1499999999999999999 ∧
      3 ≤ CountId.jobnetLd.size ∧ ¬ [1499999999999999999, 1, 1].Nodup := by
  unfold InRange
  decide +kernel

/-- One call past the range is harmless. -/
theorem ids_distinct_iff_lastIds :
    (([1699999999999999999, 1600000000000000000] : List Id).Nodup ∧
      (CountId.jobnetEx = .jobnetEx → ∀ id ∈ ([1699999999999999999, 1600000000000000000] : List Id),
        ¬ CountId.jobnetLd.InRange id)) ↔ 1699999999999999999 + 2 ≤ 1699999999999999999 + 2 := by
  have hsome : (lastIds.getNextIds [.jobnetEx, .job, .jobnetEx]).isSome := by decide +kernel
  obtain ⟨⟨s', out⟩, h⟩ := Option.isSome_iff_exists.1 hsome
  have hout : idsOf .jobnetEx out = [1699999999999999999, 1600000000000000000] := by
    have hids : (lastIds.getNextIds [.jobnetEx, .job, .jobnetEx]).map (fun r => idsOf .jobnetEx r.2) =
        some [1699999999999999999, 1600000000000000000] := by decide +kernel
    rw [h] at hids
    exact Option.some.inj hids
  have hiff := ids_distinct_iff lastIds s' [.jobnetEx, .job, .jobnetEx] out .jobnetEx 1699999999999999999 rfl
    (by unfold InRange; decide) (by decide) h
  rw [hout] at hiff
  exact hiff

end JobArranger
