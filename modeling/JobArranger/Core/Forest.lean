import Mathlib.Data.List.Nodup
import Mathlib.Logic.Relation

/-!
# Leaves first

Taking what is below a root so that everything is taken after what is below
it. Children of one parent are arbitrary, cycles beside the tree of the root
too; what the results need is that nothing has two parents and that the root
has none.

* `Path.nodup`: the way down from the root meets nothing twice.
* `Taken.leavesFirst`: taking only what has all its children taken, until the
  children of the root are taken, takes exactly what is below the root.
-/
namespace Forest

variable {α : Type*} (child : α → α → Prop) (root : α)

/-- A way down from the root, the last step first. -/
inductive Path : List α → Prop where
  | nil : Path []
  | cons {q : α} {path : List α} : child (path.headD root) q → Path path → Path (q :: path)

/-- What has been taken, in order: below the root, once, after its children. -/
inductive Taken : List α → Prop where
  | nil : Taken []
  | snoc {p : α} {out : List α} :
    Relation.TransGen child root p → p ∉ out → (∀ q, child p q → q ∈ out) → Taken out → Taken (out ++ [p])

/-- Exactly what is below the root, once, and after what is below it. -/
structure LeavesFirst (out : List α) : Prop where
  once : out.Nodup
  exactly : ∀ p, p ∈ out ↔ Relation.TransGen child root p
  after : ∀ p q, p ∈ out → Relation.TransGen child p q → ∃ pre post, out = pre ++ p :: post ∧ q ∈ pre

variable {child root}

/-! ## Ways down -/

theorem Path.desc {p : α} {path : List α} (h : Path child root path) (hp : p ∈ path) :
    Relation.TransGen child root p := by
  induction h generalizing p with
  | nil => exact absurd hp List.not_mem_nil
  | @cons q path hc hpath ih =>
    obtain rfl | hin := List.mem_cons.1 hp
    · cases path with
      | nil => exact .single hc
      | cons r path => exact (ih List.mem_cons_self).tail hc
    · exact ih hin

/-- Every step of the way is a child of the step before. -/
theorem Path.parent {q : α} {path : List α} (h : Path child root path) (hq : q ∈ path) :
    ∃ above below, path = above ++ q :: below ∧ child (below.headD root) q := by
  induction h with
  | nil => exact absurd hq List.not_mem_nil
  | @cons r rest hc hrest ih =>
    obtain rfl | hin := List.mem_cons.1 hq
    · exact ⟨[], rest, rfl, hc⟩
    · obtain ⟨above, below, rfl, hb⟩ := ih hin
      exact ⟨r :: above, below, rfl, hb⟩

theorem Path.nodup (hroot : ∀ p, ¬ child p root) (hparent : ∀ p p' q, child p q → child p' q → p = p')
    {path : List α} (h : Path child root path) : path.Nodup := by
  induction h with
  | nil => exact List.nodup_nil
  | @cons q path hc hpath ih =>
    refine List.nodup_cons.2 ⟨?_, ih⟩
    intro hq
    obtain ⟨above, below, rfl, hb⟩ := hpath.parent hq
    have hsame := hparent _ _ _ hc hb
    -- the parent of `q` heads the way, and stands behind `q` on it
    cases below with
    | nil =>
      obtain ⟨_, _, _, hhead⟩ := hpath.parent (q := (above ++ [q]).headD root) (by cases above <;> simp)
      rw [hsame] at hhead
      exact hroot _ hhead
    | cons r below =>
      cases above with
      | nil =>
        obtain rfl : q = r := hsame
        exact (List.nodup_cons.1 ih).1 List.mem_cons_self
      | cons a above =>
        obtain rfl : a = r := hsame
        exact (List.nodup_cons.1 ih).1 (by simp)

/-! ## What has been taken -/

namespace Taken

variable {out : List α}

theorem nodup (h : Taken child root out) : out.Nodup := by
  induction h with
  | nil => exact List.nodup_nil
  | @snoc p out _ hnew _ _ ih =>
    refine List.nodup_append.2 ⟨ih, List.nodup_singleton p, ?_⟩
    intro a ha b hb
    rw [List.mem_singleton.1 hb]
    exact ne_of_mem_of_not_mem ha hnew

theorem desc (h : Taken child root out) {p : α} (hp : p ∈ out) : Relation.TransGen child root p := by
  induction h with
  | nil => exact absurd hp List.not_mem_nil
  | snoc hd _ _ _ ih =>
    obtain hin | hlast := List.mem_append.1 hp
    · exact ih hin
    · rwa [List.mem_singleton.1 hlast]

theorem closed (h : Taken child root out) {p q : α} (hp : p ∈ out) (hc : child p q) : q ∈ out := by
  induction h with
  | nil => exact absurd hp List.not_mem_nil
  | snoc _ _ hall _ ih =>
    obtain hin | hlast := List.mem_append.1 hp
    · exact List.mem_append_left _ (ih hin)
    · obtain rfl := List.mem_singleton.1 hlast
      exact List.mem_append_left _ (hall q hc)

theorem after (h : Taken child root out) {p q : α} (hp : p ∈ out) (hd : Relation.TransGen child p q) :
    ∃ pre post, out = pre ++ p :: post ∧ q ∈ pre := by
  induction h with
  | nil => exact absurd hp List.not_mem_nil
  | @snoc r out _ _ hall hout ih =>
    obtain hin | hlast := List.mem_append.1 hp
    · obtain ⟨pre, post, rfl, hq⟩ := ih hin
      exact ⟨pre, post ++ [r], by simp, hq⟩
    · obtain rfl := List.mem_singleton.1 hlast
      refine ⟨out, [], rfl, ?_⟩
      clear hp ih
      induction hd with
      | single hc => exact hall _ hc
      | tail _ hc hb => exact hout.closed hb hc

/-- When the children of the root are taken, so is everything below it. -/
theorem leavesFirst (h : Taken child root out) (hroot : ∀ q, child root q → q ∈ out) :
    LeavesFirst child root out := by
  refine ⟨h.nodup, ?_, fun p q hp hd => h.after hp hd⟩
  intro p
  constructor
  · exact h.desc
  · intro hd
    induction hd with
    | single hc => exact hroot _ hc
    | tail _ hc hb => exact h.closed hb hc

end Taken

end Forest
