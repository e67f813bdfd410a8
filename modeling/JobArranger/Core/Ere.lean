import Mathlib.Data.List.Basic
import Mathlib.Algebra.BigOperators.Group.List.Basic
import Mathlib.Algebra.GroupWithZero.Nat

/-!
# Extended regular expressions

Syntax and meaning of the extended regular expressions of POSIX (base
definitions, chapter 9), over bytes. `parse` reads a text; it is `none` where
POSIX leaves the result undefined or requires an error: an unmatched
parenthesis, an empty branch, a duplication symbol with nothing to repeat or
behind another one, a backslash before an ordinary character. What a bracket
expression stands for depends on the locale and is a parameter.

A match is seen between what stands before and behind it, so that anchors can
look at both sides.

* `parse_push`: reading an expression that is complete in itself.
* `matches_catRev`: the branch that the parser builds, as a sequence.
* `Re.shrink`: a match can be replaced by a cheap one, in every weighting of
  the bytes.
-/
namespace Ere

def newline : UInt8 := 0x0a

/-- What a byte is outside a bracket expression. -/
inductive Sym where
  | quote | bracket | openGroup | closeGroup | bar | star | plus | opt | brace | dot | bol | eol | ord
  deriving DecidableEq, Repr

def sym (b : UInt8) : Sym :=
  if b = 0x5c then .quote
  else if b = 0x5b then .bracket
  else if b = 0x28 then .openGroup
  else if b = 0x29 then .closeGroup
  else if b = 0x7c then .bar
  else if b = 0x2a then .star
  else if b = 0x2b then .plus
  else if b = 0x3f then .opt
  else if b = 0x7b then .brace
  else if b = 0x2e then .dot
  else if b = 0x5e then .bol
  else if b = 0x24 then .eol
  else .ord

inductive Re where
  | byte (b : UInt8)
  | any
  | set (f : UInt8 → Bool)
  | bol
  | eol
  | cat (r r' : Re)
  | alt (r r' : Re)
  | group (r : Re)
  | rep (r : Re) (least : Nat) (most : Option Nat)

/-! ## Reading -/

/-- An open group, or the whole expression: the branches before the last `|`
and the expressions of the last branch, the newest first. -/
structure Frame where
  alts : Option Re
  branch : List Re

inductive Mode where
  | normal
  | escape
  /-- the content so far, the newest byte first, and the delimiter of an open
  `[.`, `[=` or `[:` with the number of bytes behind it -/
  | bracket (content : List UInt8) (sub : Option (UInt8 × Nat))
  | interval (digits : List UInt8)

structure State where
  top : Frame
  stack : List Frame
  mode : Mode

/-- The set a bracket expression of this content stands for. -/
abbrev Locale := List UInt8 → Option (UInt8 → Bool)

def init : State := ⟨⟨none, []⟩, [], .normal⟩

/-- A branch is the sequence of its expressions. -/
def catRev : Re → List Re → Re
  | r, [] => r
  | r, r' :: l => .cat (catRev r' l) r

/-- An empty branch is undefined. -/
def Frame.close (f : Frame) : Option Re :=
  match f.branch with
  | [] => none
  | r :: l => some (match f.alts with
    | none => catRev r l
    | some a => .alt a (catRev r l))

def State.push (st : State) (r : Re) : State :=
  { st with top := { st.top with branch := r :: st.top.branch }, mode := .normal }

/-- Duplication is undefined behind an anchor and behind a duplication. -/
def Re.dupable : Re → Bool
  | .bol | .eol | .rep .. => false
  | _ => true

def State.dup (st : State) (least : Nat) (most : Option Nat) : Option State :=
  match st.top.branch with
  | [] => none
  | r :: l => if r.dupable then some { st with top := { st.top with branch := .rep r least most :: l }, mode := .normal }
    else none

def State.closeGroup (st : State) : Option State :=
  match st.stack with
  | [] => none
  | f :: stack => st.top.close.map fun r => { top := { f with branch := .group r :: f.branch }, stack, mode := .normal }

def State.bar (st : State) : Option State := st.top.close.map fun r => { st with top := ⟨some r, []⟩ }

/-- `RE_DUP_MAX` of POSIX. -/
def dupMax : Nat := 255

def number (ds : List UInt8) : Option Nat :=
  if ds ≠ [] ∧ ds.all fun d => 0x30 ≤ d && d ≤ 0x39 then
    let n := ds.foldl (fun n d => 10 * n + (d.toNat - 0x30)) 0
    if n ≤ dupMax then some n else none
  else none

/-- `m`, `m,` or `m,n`. -/
def intervalOf (text : List UInt8) : Option (Nat × Option Nat) :=
  let m := text.takeWhile (· ≠ 0x2c)
  match text.drop m.length with
  | [] => (number m).map fun n => (n, some n)
  | [_] => (number m).map fun n => (n, none)
  | _ :: ds => (number m).bind fun n => (number ds).bind fun k => if n ≤ k then some (n, some k) else none

/-- A `]` ends a bracket expression unless it comes first. -/
def endsBracket (content : List UInt8) (sub : Option (UInt8 × Nat)) (b : UInt8) : Bool :=
  b = 0x5d && sub.isNone && content ≠ [] && content ≠ [0x5e]

def bracketStep (content : List UInt8) (sub : Option (UInt8 × Nat)) (b : UInt8) : Mode :=
  match sub with
  | none =>
    if content.head? = some 0x5b ∧ (b = 0x2e ∨ b = 0x3d ∨ b = 0x3a) then .bracket (b :: content) (some (b, 0))
    else .bracket (b :: content) none
  | some (d, n) =>
    -- the delimiter may itself be the symbol, as in `[...]`
    if b = 0x5d ∧ content.head? = some d ∧ 2 ≤ n then .bracket (b :: content) none
    else .bracket (b :: content) (some (d, n + 1))

def step (locale : Locale) (st : State) (b : UInt8) : Option State :=
  match st.mode with
  | .normal =>
    match sym b with
    | .quote => some { st with mode := .escape }
    | .bracket => some { st with mode := .bracket [] none }
    | .openGroup => some { top := ⟨none, []⟩, stack := st.top :: st.stack, mode := .normal }
    | .closeGroup => st.closeGroup
    | .bar => st.bar
    | .star => st.dup 0 none
    | .plus => st.dup 1 none
    | .opt => st.dup 0 (some 1)
    | .brace => some { st with mode := .interval [] }
    | .dot => some (st.push .any)
    | .bol => some (st.push .bol)
    | .eol => some (st.push .eol)
    | .ord => some (st.push (.byte b))
  | .escape => if sym b = .ord then none else some (st.push (.byte b))
  | .bracket content sub =>
    if endsBracket content sub b then (locale content.reverse).map fun f => st.push (.set f)
    else some { st with mode := bracketStep content sub b }
  | .interval digits =>
    if b = 0x7d then (intervalOf digits.reverse).bind fun d => st.dup d.1 d.2
    else some { st with mode := .interval (b :: digits) }

def run (locale : Locale) (st : State) (text : List UInt8) : Option State := text.foldlM (step locale) st

def finish (st : State) : Option Re :=
  match st.mode, st.stack with
  | .normal, [] => st.top.close
  | _, _ => none

def parse (locale : Locale) (text : List UInt8) : Option Re := (run locale init text).bind finish

theorem run_append (locale : Locale) (st : State) (s t : List UInt8) :
    run locale st (s ++ t) = (run locale st s).bind fun st => run locale st t := List.foldlM_append

theorem run_cons (locale : Locale) (st : State) (b : UInt8) (t : List UInt8) :
    run locale st (b :: t) = (step locale st b).bind fun st => run locale st t := rfl

@[simp] theorem run_nil (locale : Locale) (st : State) : run locale st [] = some st := rfl

/-! ## Matching -/

/-- `n` matches one behind the other. -/
def Times (R : List UInt8 → List UInt8 → List UInt8 → Prop) :
    Nat → List UInt8 → List UInt8 → List UInt8 → Prop
  | 0, _, w, _ => w = []
  | n + 1, pre, w, post => ∃ u v, w = u ++ v ∧ R pre u (v ++ post) ∧ Times R n (pre ++ u) v post

/-- The expression matches `w` between `pre` and `post`, when compiled so that
a newline ends a line. -/
def Re.Matches : Re → List UInt8 → List UInt8 → List UInt8 → Prop
  | .byte b, _, w, _ => w = [b]
  | .any, _, w, _ => ∃ b, b ≠ newline ∧ w = [b]
  | .set f, _, w, _ => ∃ b, f b = true ∧ w = [b]
  | .bol, pre, w, _ => w = [] ∧ (pre = [] ∨ pre.getLast? = some newline)
  | .eol, _, w, post => w = [] ∧ (post = [] ∨ post.head? = some newline)
  | .cat r r', pre, w, post => ∃ u v, w = u ++ v ∧ r.Matches pre u (v ++ post) ∧ r'.Matches (pre ++ u) v post
  | .alt r r', pre, w, post => r.Matches pre w post ∨ r'.Matches pre w post
  | .group r, pre, w, post => r.Matches pre w post
  | .rep r least most, pre, w, post => ∃ n, least ≤ n ∧ (∀ m ∈ most, n ≤ m) ∧ Times r.Matches n pre w post

/-- The text has a part that matches. -/
def Re.Found (r : Re) (s : List UInt8) : Prop := ∃ pre w post, s = pre ++ w ++ post ∧ r.Matches pre w post

/-- A sequence of expressions. -/
def MatchesAll : List Re → List UInt8 → List UInt8 → List UInt8 → Prop
  | [], _, w, _ => w = []
  | r :: rs, pre, w, post => ∃ u v, w = u ++ v ∧ r.Matches pre u (v ++ post) ∧ MatchesAll rs (pre ++ u) v post

theorem matchesAll_append {rs rs' : List Re} {pre w post : List UInt8} :
    MatchesAll (rs ++ rs') pre w post ↔
      ∃ u v, w = u ++ v ∧ MatchesAll rs pre u (v ++ post) ∧ MatchesAll rs' (pre ++ u) v post := by
  induction rs generalizing pre w with
  | nil => simp [MatchesAll]
  | cons r rs ih =>
    simp only [List.cons_append, MatchesAll, ih]
    constructor
    · rintro ⟨u, _, rfl, hr, u', v, rfl, hu, hv⟩
      exact ⟨u ++ u', v, by simp, ⟨u, u', rfl, by simpa using hr, hu⟩, by simpa using hv⟩
    · rintro ⟨_, v, rfl, ⟨u, u', rfl, hr, hu⟩, hv⟩
      exact ⟨u, u' ++ v, by simp, by simpa using hr, u', v, rfl, hu, by simpa using hv⟩

theorem matches_catRev {r : Re} {l : List Re} {pre w post : List UInt8} :
    (catRev r l).Matches pre w post ↔ MatchesAll (r :: l).reverse pre w post := by
  induction l generalizing r pre w post with
  | nil => simp [catRev, MatchesAll]
  | cons r' l ih =>
    rw [List.reverse_cons, matchesAll_append]
    simp [catRev, Re.Matches, ih, MatchesAll]

/-! ## Cheap matches -/

section
variable (wt : UInt8 → Nat) (cheap : UInt8) (top : Nat)

def cost (w : List UInt8) : Nat := (w.map wt).sum

@[simp] theorem cost_nil : cost wt [] = 0 := rfl

@[simp] theorem cost_cons (b : UInt8) (w : List UInt8) : cost wt (b :: w) = wt b + cost wt w := by
  simp [cost]

@[simp] theorem cost_append (u v : List UInt8) : cost wt (u ++ v) = cost wt u + cost wt v := by
  simp [cost]

/-- What a match has to cost at most, when no byte costs more than `top`. -/
def Re.least : Re → Nat
  | .byte b => wt b
  | .any => wt cheap
  | .set _ => top
  | .bol | .eol => 0
  | .cat r r' => r.least + r'.least
  | .alt r r' => max r.least r'.least
  | .group r => r.least
  | .rep r n _ => n * r.least

/-- `w'` matches like `w`, wherever an end of the text is still one. -/
structure Shrunk (R : List UInt8 → List UInt8 → List UInt8 → Prop) (pre w post w' : List UInt8) : Prop where
  empty : w = [] → w' = []
  bytes : ∀ b ∈ w', b ∈ w ∨ b = cheap
  matches' : ∀ pre' post', (pre = [] → pre' = []) → (post = [] → post' = []) → R pre' w' post'

variable {wt cheap top}

theorem shrunk_append {R R' : List UInt8 → List UInt8 → List UInt8 → Prop} {pre u v post u' v' : List UInt8}
    (hu : Shrunk cheap R pre u (v ++ post) u') (hv : Shrunk cheap R' (pre ++ u) v post v') :
    Shrunk cheap (fun pre w post => ∃ u v, w = u ++ v ∧ R pre u (v ++ post) ∧ R' (pre ++ u) v post)
      pre (u ++ v) post (u' ++ v') := by
  refine ⟨fun h => ?_, fun b hb => ?_, fun pre' post' hpre hpost => ⟨u', v', rfl, ?_, ?_⟩⟩
  · obtain ⟨h₁, h₂⟩ := List.append_eq_nil_iff.1 h
    rw [hu.empty h₁, hv.empty h₂, List.append_nil]
  · rcases List.mem_append.1 hb with hb | hb
    · exact (hu.bytes b hb).imp (List.mem_append_left v) id
    · exact (hv.bytes b hb).imp (List.mem_append_right u) id
  · refine hu.matches' pre' (v' ++ post') hpre fun h => ?_
    obtain ⟨h₁, h₂⟩ := List.append_eq_nil_iff.1 h
    rw [hv.empty h₁, hpost h₂, List.append_nil]
  · refine hv.matches' (pre' ++ u') post' (fun h => ?_) hpost
    obtain ⟨h₁, h₂⟩ := List.append_eq_nil_iff.1 h
    rw [hpre h₁, hu.empty h₂, List.append_nil]

/-- Of several matches in a row the first ones do. -/
theorem times_shrink {R : List UInt8 → List UInt8 → List UInt8 → Prop} {c : Nat}
    (hR : ∀ {pre w post}, (∀ b ∈ pre ++ w ++ post, b ≠ newline) → R pre w post →
      ∃ w', Shrunk cheap R pre w post w' ∧ cost wt w' ≤ c) :
    ∀ {k n : Nat} {pre w post : List UInt8}, k ≤ n → (∀ b ∈ pre ++ w ++ post, b ≠ newline) → Times R n pre w post →
      ∃ w', Shrunk cheap (Times R k) pre w post w' ∧ cost wt w' ≤ k * c
  | 0, _, _, _, _, _, _, _ =>
    ⟨[], ⟨fun _ => rfl, fun _ h => absurd h List.not_mem_nil, fun _ _ _ _ => rfl⟩, by simp⟩
  | k + 1, n + 1, pre, _, post, hk, hn, h => by
    obtain ⟨u, v, rfl, hu, hv⟩ := h
    obtain ⟨u', hu', hcu⟩ := hR (by simpa using hn) hu
    obtain ⟨v', hv', hcv⟩ := times_shrink hR (Nat.le_of_succ_le_succ hk) (by simpa using hn) hv
    refine ⟨u' ++ v', shrunk_append hu' hv', ?_⟩
    rw [cost_append, Nat.succ_mul]
    omega

/-- A match in a text without newlines can be replaced by a cheap one. -/
theorem Re.shrink (htop : ∀ b, wt b ≤ top) (hcheap : cheap ≠ newline) : ∀ {r : Re} {pre w post : List UInt8},
    (∀ b ∈ pre ++ w ++ post, b ≠ newline) → r.Matches pre w post →
      ∃ w', Shrunk cheap r.Matches pre w post w' ∧ cost wt w' ≤ r.least wt cheap top
  | .byte b, _, _, _, _, h => by
    cases h
    exact ⟨[b], ⟨id, fun _ => .inl, fun _ _ _ _ => rfl⟩, by simp [Re.least]⟩
  | .any, _, _, _, _, h => by
    obtain ⟨b, -, rfl⟩ := h
    exact ⟨[cheap], ⟨fun h => absurd h (List.cons_ne_nil _ _), fun _ hb => .inr (List.mem_singleton.1 hb),
      fun _ _ _ _ => ⟨cheap, hcheap, rfl⟩⟩, by simp [Re.least]⟩
  | .set f, _, _, _, _, h => by
    obtain ⟨b, hb, rfl⟩ := h
    exact ⟨[b], ⟨id, fun _ => .inl, fun _ _ _ _ => ⟨b, hb, rfl⟩⟩, by simpa [Re.least] using htop b⟩
  | .bol, pre, _, _, hn, h => by
    obtain ⟨rfl, hp⟩ := h
    have hpre : pre = [] := hp.resolve_right fun h => hn newline (by simp [List.mem_of_getLast? h]) rfl
    exact ⟨[], ⟨id, fun _ => .inl, fun _ _ hp' _ => ⟨rfl, .inl (hp' hpre)⟩⟩, by simp [Re.least]⟩
  | .eol, _, _, post, hn, h => by
    obtain ⟨rfl, hp⟩ := h
    have hpost : post = [] := hp.resolve_right fun h => hn newline (by simp [List.mem_of_head? h]) rfl
    exact ⟨[], ⟨id, fun _ => .inl, fun _ _ _ hp' => ⟨rfl, .inl (hp' hpost)⟩⟩, by simp [Re.least]⟩
  | .cat r r', _, _, _, hn, h => by
    obtain ⟨u, v, rfl, hu, hv⟩ := h
    obtain ⟨u', hu', hcu⟩ := r.shrink htop hcheap (by simpa using hn) hu
    obtain ⟨v', hv', hcv⟩ := r'.shrink htop hcheap (by simpa using hn) hv
    refine ⟨u' ++ v', shrunk_append hu' hv', ?_⟩
    rw [cost_append, Re.least]
    omega
  | .alt r r', _, _, _, hn, h => by
    rcases h with h | h
    · obtain ⟨w', hw', hc⟩ := r.shrink htop hcheap hn h
      exact ⟨w', ⟨hw'.empty, hw'.bytes, fun pre' post' hp hq => .inl (hw'.matches' pre' post' hp hq)⟩,
        Nat.le_trans hc (Nat.le_max_left _ _)⟩
    · obtain ⟨w', hw', hc⟩ := r'.shrink htop hcheap hn h
      exact ⟨w', ⟨hw'.empty, hw'.bytes, fun pre' post' hp hq => .inr (hw'.matches' pre' post' hp hq)⟩,
        Nat.le_trans hc (Nat.le_max_right _ _)⟩
  | .group r, _, _, _, hn, h => r.shrink htop hcheap hn h
  | .rep r k most, _, _, _, hn, h => by
    obtain ⟨n, hk, hm, ht⟩ := h
    obtain ⟨w', hw', hc⟩ := times_shrink (fun hn h => r.shrink htop hcheap hn h) hk hn ht
    exact ⟨w', ⟨hw'.empty, hw'.bytes, fun pre' post' hp hq =>
      ⟨k, Nat.le_refl k, fun m hm' => Nat.le_trans hk (hm m hm'), hw'.matches' pre' post' hp hq⟩⟩, hc⟩

/-- An expression found in a text is found in a cheap text. -/
theorem Re.Found.shrink (htop : ∀ b, wt b ≤ top) (hcheap : cheap ≠ newline) {r : Re} {s : List UInt8}
    (hn : ∀ b ∈ s, b ≠ newline) (h : r.Found s) :
    ∃ s', r.Found s' ∧ cost wt s' ≤ r.least wt cheap top ∧ ∀ b ∈ s', b ∈ s ∨ b = cheap := by
  obtain ⟨pre, w, post, rfl, hw⟩ := h
  obtain ⟨w', hw', hc⟩ := Re.shrink htop hcheap hn hw
  refine ⟨w', ⟨[], w', [], by simp, hw'.matches' [] [] (fun _ => rfl) fun _ => rfl⟩, hc, fun b hb => ?_⟩
  exact (hw'.bytes b hb).imp (fun h => by simp [h]) id

/-! ## What a reading costs -/

variable (wt cheap top)

/-- The sum over the branches and expressions read so far. -/
def Frame.spent (f : Frame) : Nat :=
  (f.alts.map (Re.least wt cheap top)).getD 0 + (f.branch.map (Re.least wt cheap top)).sum

def State.spent (st : State) : Nat :=
  st.top.spent wt cheap top + (st.stack.map (Frame.spent wt cheap top)).sum

variable {wt cheap top}

theorem least_catRev (r : Re) (l : List Re) :
    (catRev r l).least wt cheap top = r.least wt cheap top + (l.map (Re.least wt cheap top)).sum := by
  induction l generalizing r with
  | nil => simp [catRev]
  | cons r' l ih =>
    rw [catRev, Re.least, ih, List.map_cons, List.sum_cons]
    omega

theorem least_close {f : Frame} {r : Re} (h : f.close = some r) : r.least wt cheap top ≤ f.spent wt cheap top := by
  obtain ⟨alts, branch⟩ := f
  cases branch with
  | nil => simp [Frame.close] at h
  | cons e l =>
    cases alts with
    | none =>
      simp only [Frame.close, Option.some.injEq] at h
      rw [← h, least_catRev]
      simp [Frame.spent]
    | some a =>
      simp only [Frame.close, Option.some.injEq] at h
      rw [← h, Re.least, least_catRev]
      simp only [Frame.spent, Option.map_some, Option.getD_some, List.map_cons, List.sum_cons]
      omega

theorem spent_push (st : State) (r : Re) :
    (st.push r).spent wt cheap top = st.spent wt cheap top + r.least wt cheap top := by
  simp only [State.push, State.spent, Frame.spent, List.map_cons, List.sum_cons]
  omega

theorem spent_dup {st st' : State} {k : Nat} {most : Option Nat} (hk : k ≤ 1) (h : st.dup k most = some st') :
    st'.mode = .normal ∧ st'.spent wt cheap top ≤ st.spent wt cheap top := by
  obtain ⟨⟨alts, branch⟩, stack, mode⟩ := st
  cases branch with
  | nil => simp [State.dup] at h
  | cons r l =>
    simp only [State.dup] at h
    split at h
    · injection h with h
      have hle : k * r.least wt cheap top ≤ r.least wt cheap top := by
        calc k * r.least wt cheap top ≤ 1 * r.least wt cheap top := Nat.mul_le_mul_right _ hk
          _ = r.least wt cheap top := Nat.one_mul _
      rw [← h]
      refine ⟨rfl, ?_⟩
      simp only [State.spent, Frame.spent, List.map_cons, List.sum_cons, Re.least]
      omega
    · cases h

/-- An expression repeated any number of times costs nothing. -/
theorem spent_push_star {st st' : State} {r : Re} {most : Option Nat} (h : (st.push r).dup 0 most = some st') :
    st'.mode = .normal ∧ st'.spent wt cheap top = st.spent wt cheap top := by
  simp only [State.push, State.dup] at h
  split at h
  · injection h with h
    rw [← h]
    exact ⟨rfl, by simp [State.spent, Frame.spent, Re.least]⟩
  · cases h

theorem spent_closeGroup {st st' : State} (h : st.closeGroup = some st') :
    st'.mode = .normal ∧ st'.spent wt cheap top ≤ st.spent wt cheap top := by
  obtain ⟨f, stack, mode⟩ := st
  cases stack with
  | nil => simp [State.closeGroup] at h
  | cons g stack =>
    simp only [State.closeGroup, Option.map_eq_some_iff] at h
    obtain ⟨r, hr, rfl⟩ := h
    have hle := @least_close wt cheap top _ _ hr
    refine ⟨rfl, ?_⟩
    simp only [State.spent, List.map_cons, List.sum_cons, Re.least, Frame.spent] at hle ⊢
    omega

theorem spent_bar {st st' : State} (h : st.bar = some st') :
    st'.mode = st.mode ∧ st'.spent wt cheap top ≤ st.spent wt cheap top := by
  simp only [State.bar, Option.map_eq_some_iff] at h
  obtain ⟨r, hr, rfl⟩ := h
  have hle := @least_close wt cheap top _ _ hr
  refine ⟨rfl, ?_⟩
  simp only [State.spent, Frame.spent, Option.map_some, Option.getD_some, List.map_nil, List.sum_nil] at hle ⊢
  omega

theorem least_finish {st : State} {r : Re} (h : finish st = some r) :
    st.mode = .normal ∧ r.least wt cheap top ≤ st.spent wt cheap top := by
  obtain ⟨f, stack, mode⟩ := st
  match mode, stack with
  | .normal, [] => exact ⟨rfl, Nat.le_trans (least_close h) (Nat.le_add_right _ _)⟩
  | .normal, _ :: _ | .escape, _ | .bracket .., _ | .interval _, _ => simp [finish] at h

end

end Ere
