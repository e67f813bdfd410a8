import JobArranger.Core.LTS
import JobArranger.Core.Prog

/-!
# Connections to a database

A client sends statements and brackets some of them by begin and commit or
rollback. The database answers each of them with success or failure, and may
lose the connection before it: the client then connects again and sends the
statement once more, but the server has rolled the open transaction back
and commits from now on every statement at once.

The client remembers that a statement of its transaction failed: it sends
nothing more, and its commit is a rollback.

What an open transaction has done so far is a function on the database,
applied at the commit: other clients work on the same database meanwhile.

* `Conn.Meets`: a property of the database and of what the open transaction
  has done to it; a statement, a begin and a commit keep it.
* `Cmd.wp`: what a client needs to hold so that every state of every run is
  good, whatever the others do (`Outside.rely`) and the database answers.
* `Cmd.wp_reachable`: it is enough.
* `wp_bind`, `wp_stmt`, `wp_begin`, `wp_commit`, `wp_rollback`, `wp_prog`: its rules.
-/
namespace JobArranger

/-- One connection. `pending` is what the transaction open at the server has
done; without one, each statement is committed at once. -/
structure Conn (σ : Type) where
  stored : σ
  level : Bool
  failed : Bool
  pending : Option (σ → σ)

structure Reply where
  lost : Bool
  ok : Bool
  deriving DecidableEq

inductive Cmd (σ α : Type) where
  | ret (a : α)
  | stmt (f : σ → σ) (k : Option σ → Cmd σ α)
  | begin (k : Cmd σ α)
  | commit (k : Cmd σ α)
  | rollback (k : Cmd σ α)

variable {σ α β : Type}

namespace Conn

/-- Other clients have made `t` of the database. -/
def changed (d : Conn σ) (t : σ) : Conn σ := { d with stored := t }

/-- The transaction at the server does not survive the connection. -/
def reconnect (d : Conn σ) (lost : Bool) : Conn σ := if lost then { d with pending := none } else d

/-- A statement, and the database it saw. -/
def stmt (d : Conn σ) (f : σ → σ) (r : Reply) : Conn σ × Option σ :=
  if d.failed then (d, none)
  else
    let d := d.reconnect r.lost
    if r.ok then
      match d.pending with
      | some p => ({ d with pending := some (f ∘ p) }, some (p d.stored))
      | none => ({ d with stored := f d.stored }, some d.stored)
    else ({ d with failed := d.level }, none)

def begin (d : Conn σ) (r : Reply) : Conn σ :=
  if d.failed then { d with level := true }
  else if r.ok then { d with level := true, pending := some id }
  else { d with level := true, failed := true }

def rollback (d : Conn σ) (r : Reply) : Conn σ :=
  if r.ok then { d with level := false, failed := false, pending := none }
  else { d.reconnect r.lost with level := false, failed := true }

def commit (d : Conn σ) (r : Reply) : Conn σ :=
  if d.failed then d.rollback r
  else
    let d := d.reconnect r.lost
    if r.ok then ⟨(d.pending.getD id) d.stored, false, false, none⟩ else { d with level := false, failed := true }

/-- Between two transactions: what one has left behind at the server is not
committed any more. -/
structure Closed (d : Conn σ) : Prop where
  level : d.level = false
  none : d.failed = true ∨ d.pending = none

/-- Inside a transaction that is still there. -/
structure Open (d : Conn σ) : Prop where
  level : d.level = true
  pending : d.failed = true ∨ d.pending ≠ none

variable {d : Conn σ} {r : Reply}

theorem begin_open (d : Conn σ) (r : Reply) : (d.begin r).Open ∧ (d.begin r).stored = d.stored := by
  unfold Conn.begin
  split
  · rename_i hf
    exact ⟨⟨rfl, .inl hf⟩, rfl⟩
  · split
    · exact ⟨⟨rfl, .inr nofun⟩, rfl⟩
    · exact ⟨⟨rfl, .inl rfl⟩, rfl⟩

/-- A query between two transactions. -/
theorem Closed.query (h : d.Closed) : (d.stmt id r).1.Closed ∧ (d.stmt id r).1.stored = d.stored := by
  unfold Conn.stmt
  split
  · exact ⟨h, rfl⟩
  · rename_i hf
    have hnone := h.none.resolve_left hf
    have hd : d.reconnect r.lost = d := by
      unfold reconnect
      split
      · rw [← hnone]
      · rfl
    dsimp only
    rw [hd, hnone]
    split
    · exact ⟨⟨h.level, .inr rfl⟩, rfl⟩
    · exact ⟨⟨h.level, .inr rfl⟩, rfl⟩

/-- It sees what is stored. -/
theorem Closed.seen (h : d.Closed) {s : σ} (hs : (d.stmt id r).2 = some s) : s = d.stored := by
  unfold Conn.stmt at hs
  split at hs
  · cases hs
  · rename_i hf
    have hnone := h.none.resolve_left hf
    have hre : (d.reconnect r.lost).pending = Option.none ∧ (d.reconnect r.lost).stored = d.stored := by
      unfold reconnect
      split
      · exact ⟨rfl, rfl⟩
      · exact ⟨hnone, rfl⟩
    dsimp only at hs
    rw [hre.1, hre.2] at hs
    split at hs
    · exact (Option.some.inj hs).symm
    · cases hs

/-- While the connection stays, nothing is stored. -/
theorem Open.stmt (h : d.Open) (hr : r.lost = false) (f : σ → σ) :
    (d.stmt f r).1.Open ∧ (d.stmt f r).1.stored = d.stored := by
  unfold Conn.stmt
  split
  · exact ⟨h, rfl⟩
  · rename_i hf
    have hd : d.reconnect r.lost = d := by rw [reconnect, hr, if_neg Bool.false_ne_true]
    dsimp only
    rw [hd]
    split
    · cases hp : d.pending with
      | none => exact absurd hp (h.pending.resolve_left hf)
      | some p => exact ⟨⟨h.level, .inr nofun⟩, rfl⟩
    · exact ⟨⟨h.level, .inl h.level⟩, rfl⟩

theorem rollback_closed (d : Conn σ) (r : Reply) : (d.rollback r).Closed ∧ (d.rollback r).stored = d.stored := by
  unfold rollback
  split
  · exact ⟨⟨rfl, .inr rfl⟩, rfl⟩
  · unfold reconnect
    split <;> exact ⟨⟨rfl, .inl rfl⟩, rfl⟩

theorem commit_closed (d : Conn σ) (r : Reply) : (d.commit r).Closed := by
  unfold commit
  split
  · exact (rollback_closed d r).1
  · dsimp only
    split
    · exact ⟨rfl, .inr rfl⟩
    · exact ⟨rfl, .inl rfl⟩

/-- `R` holds of the database, and of what an unfailed transaction has done
to it. -/
def Meets (R : σ → Option (σ → σ) → Prop) (d : Conn σ) : Prop :=
  R d.stored none ∧ (d.failed = true ∨ R d.stored d.pending)

section
variable {R R' : σ → Option (σ → σ) → Prop} {N : σ → Prop}

theorem reconnect_pending (d : Conn σ) (lost : Bool) :
    (d.reconnect lost).pending = d.pending ∨ (d.reconnect lost).pending = none := by
  unfold reconnect
  split
  · exact .inr rfl
  · exact .inl rfl

theorem reconnect_stored (d : Conn σ) (lost : Bool) : (d.reconnect lost).stored = d.stored := by
  unfold reconnect
  split <;> rfl

/-- A connection that is lost leaves what the database holds. -/
theorem Meets.reconnect (h : d.Meets R) (hf : ¬ d.failed = true) (lost : Bool) :
    R d.stored (d.reconnect lost).pending := by
  obtain hp | hp := reconnect_pending d lost
  · rw [hp]
    exact h.2.resolve_left hf
  · rw [hp]
    exact h.1

theorem Meets.stmt (h : d.Meets R) {f : σ → σ} (hsame : ∀ s o, R s o → R' s o)
    (hnow : ∀ s, R s none → R' (f s) none) (hlater : ∀ s p, R s (some p) → R' s (some (f ∘ p))) :
    (d.stmt f r).1.Meets R' := by
  unfold Conn.stmt
  split
  · rename_i hf
    exact ⟨hsame _ _ h.1, .inl hf⟩
  rename_i hf
  have hre := h.reconnect hf r.lost
  have hstored := reconnect_stored d r.lost
  dsimp only
  split
  · cases hp : (d.reconnect r.lost).pending with
    | some p =>
      rw [hp] at hre
      refine ⟨?_, .inr ?_⟩
      · change R' (d.reconnect r.lost).stored none
        rw [hstored]
        exact hsame _ _ h.1
      · change R' (d.reconnect r.lost).stored (some (f ∘ p))
        rw [hstored]
        exact hlater _ _ hre
    | none =>
      have hnew : R' (f (d.reconnect r.lost).stored) none := by
        rw [hstored]
        exact hnow _ h.1
      exact ⟨hnew, .inr hnew⟩
  · refine ⟨?_, .inr ?_⟩
    · change R' (d.reconnect r.lost).stored none
      rw [hstored]
      exact hsame _ _ h.1
    · change R' (d.reconnect r.lost).stored (d.reconnect r.lost).pending
      rw [hstored]
      exact hsame _ _ hre

theorem begin_meets (hnone : R d.stored none) (hid : R d.stored (some id)) : (d.begin r).Meets R := by
  unfold Conn.begin
  split
  · rename_i hf
    exact ⟨hnone, .inl hf⟩
  · split
    · exact ⟨hnone, .inr hid⟩
    · exact ⟨hnone, .inl rfl⟩

/-- What is stored after a commit. -/
theorem Meets.commit (h : d.Meets R) (hnone : ∀ s, R s none → N s) (hsome : ∀ s p, R s (some p) → N (p s)) :
    N (d.commit r).stored := by
  unfold Conn.commit
  split
  · rw [(rollback_closed d r).2]
    exact hnone _ h.1
  rename_i hf
  have hre := h.reconnect hf r.lost
  have hstored := reconnect_stored d r.lost
  dsimp only
  split
  · rw [hstored]
    cases hp : (d.reconnect r.lost).pending with
    | some p =>
      rw [hp] at hre
      exact hsome _ _ hre
    | none => exact hnone _ h.1
  · rw [hstored]
    exact hnone _ h.1

end

end Conn

namespace Cmd

def bind : Cmd σ α → (α → Cmd σ β) → Cmd σ β
  | ret a, g => g a
  | stmt f k, g => stmt f fun o => (k o).bind g
  | begin k, g => begin (k.bind g)
  | commit k, g => commit (k.bind g)
  | rollback k, g => rollback (k.bind g)

instance : Monad (Cmd σ) where
  pure := ret
  bind := bind

/-- A query. -/
def select : Cmd σ (Option σ) := stmt id ret

/-- The client takes the next reply. -/
def next (d : Conn σ) (r : Reply) : Cmd σ α → Option (Conn σ × Cmd σ α)
  | ret _ => none
  | stmt f k => some ((d.stmt f r).1, k (d.stmt f r).2)
  | begin k => some (d.begin r, k)
  | commit k => some (d.commit r, k)
  | rollback k => some (d.rollback r, k)

end Cmd

/-- A program without transaction commands. -/
def Prog.cmd : Prog σ α → Cmd σ α
  | .ret a => .ret a
  | .stmt f k => .stmt f fun o => (k o).cmd

namespace Prog

/-- Every statement has an effect in `E`. -/
def Effects (E : (σ → σ) → Prop) : Prog σ α → Prop
  | ret _ => True
  | stmt f k => E f ∧ ∀ o, (k o).Effects E

theorem Effects.bind {E : (σ → σ) → Prop} {p : Prog σ α} {g : α → Prog σ β} (hp : p.Effects E)
    (hg : ∀ a, (g a).Effects E) : (p >>= g).Effects E := by
  induction p with
  | ret a => exact hg a
  | stmt f k ih => exact ⟨hp.1, fun o => ih o (hp.2 o)⟩

end Prog

/-- What the other clients may do to the database, and how it may answer. -/
structure Outside (σ : Type) where
  rely : σ → σ → Prop
  reply : Conn σ → Reply → Prop
  refl : ∀ s, rely s s
  trans : ∀ s t u, rely s t → rely t u → rely s u

namespace Outside

/-- A step of another client (`none`) or a reply to this one. -/
inductive Step (w : Outside σ) : Conn σ × Cmd σ α → Option Reply → Conn σ × Cmd σ α → Prop where
  | other (d : Conn σ) (c : Cmd σ α) (t : σ) : w.rely d.stored t → Step w (d, c) none (d.changed t, c)
  | reply {d d' : Conn σ} {c c' : Cmd σ α} {r : Reply} : w.reply d r → c.next d r = some (d', c') →
    Step w (d, c) (some r) (d', c')

/-- The runs of client `c` on connection `d`. -/
def runs (w : Outside σ) (d : Conn σ) (c : Cmd σ α) : LTS (Conn σ × Cmd σ α) (Option Reply) where
  init s := s = (d, c)
  step := w.Step

/-- The connection is not lost inside a transaction. -/
def Up (w : Outside σ) : Prop := ∀ d r, d.level = true → w.reply d r → r.lost = false

/-- A run computed from the replies. -/
theorem runs_replies {w : Outside σ} {s s' : Conn σ × Cmd σ α} {rs : List Reply}
    (hw : ∀ r ∈ rs, ∀ d, w.reply d r) (h : rs.foldlM (fun s r => s.2.next s.1 r) s = some s') :
    (w.runs s.1 s.2).Reachable s' := by
  have hrun (rs : List Reply) (hw : ∀ r ∈ rs, ∀ d, w.reply d r) (t : Conn σ × Cmd σ α)
      (h : rs.foldlM (fun s r => s.2.next s.1 r) t = some s') : (w.runs s.1 s.2).Run t (rs.map some) s' := by
    induction rs generalizing t with
    | nil =>
      obtain rfl := Option.some.inj h
      exact .nil _
    | cons r rs ih =>
      obtain ⟨u, hu, hrest⟩ := Option.bind_eq_some_iff.1 h
      refine .cons (.reply (hw r List.mem_cons_self t.1) hu) ?_
      exact ih (fun r hr => hw r (List.mem_cons_of_mem _ hr)) u hrest
  exact ⟨s, rs.map some, rfl, hrun rs hw s h⟩

/-- The other clients keep it. -/
def Stable (w : Outside σ) (P : Conn σ → Prop) : Prop := ∀ d t, P d → w.rely d.stored t → P (d.changed t)

end Outside

namespace Cmd

variable {w : Outside σ} {I : σ → Prop} {P : Conn σ → Prop} {Q Q' : α → Conn σ → Prop} {d : Conn σ}

/-- Every state of every run from `d` is good, and the result meets `Q`. -/
def wp (w : Outside σ) (I : σ → Prop) : Cmd σ α → (α → Conn σ → Prop) → Conn σ → Prop
  | ret a, Q, d => ∀ t, w.rely d.stored t → I t ∧ Q a (d.changed t)
  | stmt f k, Q, d => ∀ t, w.rely d.stored t → I t ∧ ∀ r, w.reply (d.changed t) r →
    wp w I (k ((d.changed t).stmt f r).2) Q ((d.changed t).stmt f r).1
  | begin k, Q, d => ∀ t, w.rely d.stored t → I t ∧ ∀ r, w.reply (d.changed t) r → wp w I k Q ((d.changed t).begin r)
  | commit k, Q, d => ∀ t, w.rely d.stored t → I t ∧ ∀ r, w.reply (d.changed t) r → wp w I k Q ((d.changed t).commit r)
  | rollback k, Q, d => ∀ t, w.rely d.stored t → I t ∧ ∀ r, w.reply (d.changed t) r →
    wp w I k Q ((d.changed t).rollback r)

theorem wp_good {c : Cmd σ α} (h : c.wp w I Q d) : I d.stored := by
  cases c <;> exact (h d.stored (w.refl _)).1

theorem wp_changed {c : Cmd σ α} (h : c.wp w I Q d) {t : σ} (ht : w.rely d.stored t) : c.wp w I Q (d.changed t) := by
  cases c <;> exact fun u hu => h u (w.trans _ _ _ ht hu)

theorem wp_next {c c' : Cmd σ α} {d' : Conn σ} {r : Reply} (h : c.wp w I Q d) (hr : w.reply d r)
    (hn : c.next d r = some (d', c')) : c'.wp w I Q d' := by
  cases c with
  | ret a => cases hn
  | stmt f k =>
    obtain ⟨rfl, rfl⟩ := Prod.mk.inj (Option.some.inj hn)
    exact (h d.stored (w.refl _)).2 r hr
  | begin k =>
    obtain ⟨rfl, rfl⟩ := Prod.mk.inj (Option.some.inj hn)
    exact (h d.stored (w.refl _)).2 r hr
  | commit k =>
    obtain ⟨rfl, rfl⟩ := Prod.mk.inj (Option.some.inj hn)
    exact (h d.stored (w.refl _)).2 r hr
  | rollback k =>
    obtain ⟨rfl, rfl⟩ := Prod.mk.inj (Option.some.inj hn)
    exact (h d.stored (w.refl _)).2 r hr

theorem wp_mono {c : Cmd σ α} (h : c.wp w I Q d) (hQ : ∀ a d, Q a d → Q' a d) : c.wp w I Q' d := by
  induction c generalizing d with
  | ret a => exact fun t ht => ⟨(h t ht).1, hQ a _ (h t ht).2⟩
  | stmt f k ih => exact fun t ht => ⟨(h t ht).1, fun r hr => ih _ ((h t ht).2 r hr)⟩
  | begin k ih => exact fun t ht => ⟨(h t ht).1, fun r hr => ih ((h t ht).2 r hr)⟩
  | commit k ih => exact fun t ht => ⟨(h t ht).1, fun r hr => ih ((h t ht).2 r hr)⟩
  | rollback k ih => exact fun t ht => ⟨(h t ht).1, fun r hr => ih ((h t ht).2 r hr)⟩

/-- Sequence. -/
theorem wp_bind {c : Cmd σ α} {g : α → Cmd σ β} {Q : β → Conn σ → Prop}
    (h : c.wp w I (fun a d => (g a).wp w I Q d) d) : (c >>= g).wp w I Q d := by
  induction c generalizing d with
  | ret a => exact (h d.stored (w.refl _)).2
  | stmt f k ih => exact fun t ht => ⟨(h t ht).1, fun r hr => ih _ ((h t ht).2 r hr)⟩
  | begin k ih => exact fun t ht => ⟨(h t ht).1, fun r hr => ih ((h t ht).2 r hr)⟩
  | commit k ih => exact fun t ht => ⟨(h t ht).1, fun r hr => ih ((h t ht).2 r hr)⟩
  | rollback k ih => exact fun t ht => ⟨(h t ht).1, fun r hr => ih ((h t ht).2 r hr)⟩

/-- The states of the runs. -/
theorem wp_reachable {c : Cmd σ α} (h : c.wp w I Q d) {s : Conn σ × Cmd σ α} (hs : (w.runs d c).Reachable s) :
    I s.1.stored ∧ ∀ a, s.2 = ret a → Q a s.1 := by
  have hinv : (w.runs d c).Inductive fun s => s.2.wp w I Q s.1 := by
    refine ⟨fun s hs => ?_, fun s l s' hi hst => ?_⟩
    · obtain rfl := hs
      exact h
    · cases hst with
      | other d c t ht => exact wp_changed hi ht
      | reply hr hn => exact wp_next hi hr hn
  have hwp := hinv.reachable s hs
  refine ⟨wp_good hwp, fun a ha => ?_⟩
  rw [ha] at hwp
  exact (hwp _ (w.refl _)).2

/-! ## Rules

`P` is what is known before a command; the other clients keep it. -/

theorem wp_ret {a : α} (hP : w.Stable P) (hI : ∀ d, P d → I d.stored) (hd : P d) (h : ∀ d, P d → Q a d) :
    (ret a : Cmd σ α).wp w I Q d := fun t ht =>
  ⟨hI _ (hP d t hd ht), h _ (hP d t hd ht)⟩

theorem wp_stmt {f : σ → σ} {k : Option σ → Cmd σ α} (hP : w.Stable P) (hI : ∀ d, P d → I d.stored) (hd : P d)
    (h : ∀ d r, P d → w.reply d r → (k (d.stmt f r).2).wp w I Q (d.stmt f r).1) : (stmt f k).wp w I Q d :=
  fun t ht => ⟨hI _ (hP d t hd ht), fun r hr => h _ r (hP d t hd ht) hr⟩

theorem wp_begin {k : Cmd σ α} (hP : w.Stable P) (hI : ∀ d, P d → I d.stored) (hd : P d)
    (h : ∀ d r, P d → w.reply d r → k.wp w I Q (d.begin r)) : (begin k).wp w I Q d := fun t ht =>
  ⟨hI _ (hP d t hd ht), fun r hr => h _ r (hP d t hd ht) hr⟩

theorem wp_commit {k : Cmd σ α} (hP : w.Stable P) (hI : ∀ d, P d → I d.stored) (hd : P d)
    (h : ∀ d r, P d → w.reply d r → k.wp w I Q (d.commit r)) : (commit k).wp w I Q d := fun t ht =>
  ⟨hI _ (hP d t hd ht), fun r hr => h _ r (hP d t hd ht) hr⟩

theorem wp_rollback {k : Cmd σ α} (hP : w.Stable P) (hI : ∀ d, P d → I d.stored) (hd : P d)
    (h : ∀ d r, P d → w.reply d r → k.wp w I Q (d.rollback r)) : (rollback k).wp w I Q d := fun t ht =>
  ⟨hI _ (hP d t hd ht), fun r hr => h _ r (hP d t hd ht) hr⟩

theorem wp_select {g : Option σ → Cmd σ α} (hP : w.Stable P) (hI : ∀ d, P d → I d.stored) (hd : P d)
    (h : ∀ d r, P d → w.reply d r → (g (d.stmt id r).2).wp w I Q (d.stmt id r).1) :
    (select >>= g).wp w I Q d := wp_stmt hP hI hd h

/-- A program whose statements all keep `P` keeps `P`. -/
theorem wp_prog {p : Prog σ α} {E : (σ → σ) → Prop} (hp : p.Effects E) (hP : w.Stable P)
    (hI : ∀ d, P d → I d.stored) (hkeep : ∀ f d r, E f → P d → w.reply d r → P (d.stmt f r).1) (hd : P d) :
    p.cmd.wp w I (fun _ => P) d := by
  induction p generalizing d with
  | ret a => exact wp_ret hP hI hd fun _ h => h
  | stmt f k ih => exact wp_stmt hP hI hd fun d r hd hr => ih _ (hp.2 _) (hkeep f d r hp.1 hd hr)

theorem wp_prog_bind {p : Prog σ α} {g : α → Cmd σ β} {Q : β → Conn σ → Prop} {E : (σ → σ) → Prop}
    (hp : p.Effects E) (hP : w.Stable P) (hI : ∀ d, P d → I d.stored)
    (hkeep : ∀ f d r, E f → P d → w.reply d r → P (d.stmt f r).1) (hd : P d)
    (h : ∀ a d, P d → (g a).wp w I Q d) : (p.cmd >>= g).wp w I Q d :=
  wp_bind (wp_mono (wp_prog hp hP hI hkeep hd) h)

end Cmd
end JobArranger
