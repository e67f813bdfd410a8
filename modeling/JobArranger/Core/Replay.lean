import Mathlib.Data.List.Basic
import Mathlib.Data.List.Infix

/-!
# A snapshot and a log

A state that changes by entries `step s e = some s'`, a snapshot of it and a
log. Entries are written to the log after they took effect, one by one, and
a new snapshot is taken in two steps: the state is copied, and later the log
is emptied.

Replaying the log on the snapshot gives the state back when entries are
written in the order they took effect, and the log is emptied when exactly
the entries since the copy are still unwritten. `Sound` is the invariant of
these four operations, `Sound.recovers` what it is for.
-/
namespace JobArranger

/-- `since`: between the copy and the emptying, with the number of entries
that have taken effect since the copy. -/
structure Log (S E : Type) where
  state : S
  snapshot : S
  written : List E
  unwritten : List E
  since : Option Nat

namespace Log

variable {S E : Type}

/-- `step` along the entries. -/
def replay (step : S → E → Option S) (s : S) (es : List E) : Option S := es.foldlM step s

theorem replay_append (step : S → E → Option S) (s : S) (es es' : List E) :
    replay step s (es ++ es') = (replay step s es).bind fun s => replay step s es' := List.foldlM_append

theorem replay_snoc {step : S → E → Option S} {s s₁ s' : S} {es : List E} {e : E} (h : replay step s es = some s₁)
    (he : step s₁ e = some s') : replay step s (es ++ [e]) = some s' := by
  rw [replay_append, h, Option.bind_some]
  show (step s₁ e).bind some = some s'
  rw [he]
  rfl

/-- Between copy and emptying the entries since the copy lead to the state;
the unwritten ones end with them, or they with the unwritten ones. -/
def Sound (step : S → E → Option S) (l : Log S E) : Prop :=
  match l.since with
  | none => replay step l.snapshot (l.written ++ l.unwritten) = some l.state
  | some k => ∃ es, es.length = k ∧ replay step l.snapshot es = some l.state ∧
      (es <:+ l.unwritten ∨ l.unwritten <:+ es)

variable {step : S → E → Option S} {l : Log S E}

theorem Sound.recovers (h : Sound step l) (hs : l.since = none) (hu : l.unwritten = []) :
    replay step l.snapshot l.written = some l.state := by
  rw [Sound, hs] at h
  simpa [hu] using h

theorem Sound.effect (h : Sound step l) {e : E} {s' : S} (he : step l.state e = some s') :
    Sound step { l with state := s', unwritten := l.unwritten ++ [e], since := l.since.map (· + 1) } := by
  cases hs : l.since with
  | none =>
    rw [Sound, hs] at h
    show replay step l.snapshot (l.written ++ (l.unwritten ++ [e])) = some s'
    rw [← List.append_assoc]
    exact replay_snoc h he
  | some k =>
    rw [Sound, hs] at h
    obtain ⟨es, hk, hrep, hsuf⟩ := h
    refine ⟨es ++ [e], by rw [List.length_append, hk, List.length_singleton], replay_snoc hrep he, ?_⟩
    rcases hsuf with hsuf | hsuf
    · obtain ⟨t, ht⟩ := hsuf
      exact .inl ⟨t, by rw [← ht, List.append_assoc]⟩
    · obtain ⟨t, ht⟩ := hsuf
      exact .inr ⟨t, by rw [← ht, List.append_assoc]⟩

/-- The oldest unwritten entry is written. -/
theorem Sound.write (h : Sound step l) {e : E} {es : List E} (hu : l.unwritten = e :: es) :
    Sound step { l with written := l.written ++ [e], unwritten := es } := by
  cases hs : l.since with
  | none =>
    rw [Sound, hs] at h
    show replay step l.snapshot (l.written ++ [e] ++ es) = some l.state
    rw [List.append_assoc, List.singleton_append, ← hu]
    exact h
  | some k =>
    rw [Sound, hs] at h
    obtain ⟨xs, hk, hrep, hsuf⟩ := h
    refine ⟨xs, hk, hrep, ?_⟩
    show xs <:+ es ∨ es <:+ xs
    rw [hu] at hsuf
    rcases hsuf with hsuf | hsuf
    · rcases List.suffix_cons_iff.1 hsuf with rfl | hsuf
      · exact .inr (List.suffix_cons e es)
      · exact .inl hsuf
    · exact .inr ((List.suffix_cons e es).trans hsuf)

theorem sound_copy (l : Log S E) : Sound step { l with snapshot := l.state, since := some 0 } :=
  ⟨[], rfl, rfl, .inl List.nil_suffix⟩

/-- The log is emptied while exactly the entries since the copy are
unwritten. -/
theorem Sound.clear (h : Sound step l) (hs : l.since = some l.unwritten.length) :
    Sound step { l with written := [], since := none } := by
  rw [Sound, hs] at h
  obtain ⟨es, hk, hrep, hsuf⟩ := h
  have hes : es = l.unwritten := by
    rcases hsuf with hsuf | hsuf
    · exact hsuf.eq_of_length hk
    · exact (hsuf.eq_of_length hk.symm).symm
  rw [hes] at hrep
  exact hrep

end Log
end JobArranger
