import Mathlib.Data.List.Basic

/-!
# Words of a shell command

How the POSIX shell splits a text into words and takes quoting away (shell
command language, 2.2 and 2.3), one byte at a time. `Reader.read` gives the state
after a byte and what became of the byte. An active byte ends the simple
command, redirects it or starts a command substitution; what follows one is
not a part of it, so nothing is said about the reading from there on.

Expansions of parameters and of names stay in the words, with a mark. A text
ends in the middle of something when a quote or a brace is open or when a
backslash has nothing behind it. Reserved words, assignments and aliases are
not looked at.

* `oneCommand_iff`: a text is one command exactly when it has words.
* `run_quoted`: a text in single quotes is taken as it is.
* `fate`: what can become of a byte.
* `run_slack`: what a text holds, apart from single quotes, is in the words or
  has separated them, and a single quote in a word has a price.
-/
namespace Shell

/-- What a byte is where nothing quotes it. -/
inductive Sym where
  | backslash | single | double | dollar | backquote | blank | newline | hash | openParen | operator | openBrace
  | closeBrace | glob | ord
  deriving DecidableEq, Repr

def sym (b : UInt8) : Sym :=
  if b = 0x5c then .backslash
  else if b = 0x27 then .single
  else if b = 0x22 then .double
  else if b = 0x24 then .dollar
  else if b = 0x60 then .backquote
  else if b = 0x20 ∨ b = 0x09 then .blank
  else if b = 0x0a then .newline
  else if b = 0x23 then .hash
  else if b = 0x28 then .openParen
  else if b = 0x29 ∨ b = 0x3b ∨ b = 0x26 ∨ b = 0x7c ∨ b = 0x3c ∨ b = 0x3e then .operator
  else if b = 0x7b then .openBrace
  else if b = 0x7d then .closeBrace
  else if b = 0x2a ∨ b = 0x3f ∨ b = 0x5b ∨ b = 0x7e then .glob
  else .ord

/-- What is open around the text: double quotes and the braces of `${`. -/
inductive Nest where
  | double | brace
  deriving DecidableEq, Repr

inductive Mode where
  | plain
  /-- behind a backslash -/
  | escape
  /-- in single quotes -/
  | single
  /-- behind a `$` that may start an expansion -/
  | dollar
  | comment
  deriving DecidableEq, Repr

structure Reader where
  /-- the innermost first -/
  stack : List Nest
  mode : Mode
  inWord : Bool
  deriving DecidableEq, Repr

def start : Reader := ⟨[], .plain, false⟩

/-- A byte of a word, and whether it may be expanded. -/
abbrev Piece := UInt8 × Bool

abbrev Word := List Piece

/-- What becomes of a byte. -/
inductive Role where
  /-- a quote character: a word, if only an empty one -/
  | quote
  | pieces (l : List Piece)
  | blank
  | skipped
  | active
  deriving DecidableEq, Repr

def Reader.inBrace (r : Reader) : Bool := r.stack.contains .brace

/-- A byte that belongs to the word as it is. -/
def Reader.put (r : Reader) (b : UInt8) (expands : Bool) : Reader × Role :=
  ({ r with mode := .plain, inWord := true }, .pieces [(b, expands || r.inBrace)])

def Reader.readPlain (r : Reader) (b : UInt8) : Reader × Role :=
  let r := { r with mode := .plain }
  match sym b, r.stack with
  | .backslash, _ => ({ r with mode := .escape }, .skipped)
  | .dollar, _ => ({ r with mode := .dollar, inWord := true }, .pieces [(b, true)])
  | .backquote, _ => (r, .active)
  | .double, .double :: s => ({ r with stack := s, inWord := true }, .quote)
  | _, .double :: _ => r.put b false
  | .double, _ => ({ r with stack := .double :: r.stack, inWord := true }, .quote)
  | .single, _ => ({ r with mode := .single, inWord := true }, .quote)
  | .closeBrace, .brace :: s => ({ r with stack := s }, .pieces [(b, true)])
  | _, .brace :: _ => r.put b true
  | .blank, [] => ({ r with inWord := false }, .blank)
  | .newline, [] | .openParen, [] | .operator, [] => ({ r with inWord := false }, .active)
  | .hash, [] => if r.inWord then r.put b false else ({ r with mode := .comment }, .skipped)
  | .glob, [] => r.put b true
  | _, [] => r.put b false

/-- In double quotes a backslash is one unless it is before a byte that is
special there. -/
def Reader.readEscaped (r : Reader) (b : UInt8) : Reader × Role :=
  match sym b, r.stack with
  | .newline, _ => ({ r with mode := .plain }, .skipped)
  | .dollar, .double :: _ | .backquote, .double :: _ | .double, .double :: _ | .backslash, .double :: _ => r.put b false
  | _, .double :: _ => ({ r with mode := .plain, inWord := true }, .pieces [(0x5c, r.inBrace), (b, r.inBrace)])
  | _, _ => r.put b false

def Reader.read (r : Reader) (b : UInt8) : Reader × Role :=
  match r.mode with
  | .plain => r.readPlain b
  | .escape => r.readEscaped b
  | .single =>
    if sym b = .single then ({ r with mode := .plain }, .quote)
    else ({ r with inWord := true }, .pieces [(b, r.inBrace)])
  | .dollar =>
    match sym b with
    | .openParen => ({ r with mode := .plain }, .active)
    | .openBrace => ({ stack := .brace :: r.stack, mode := .plain, inWord := true }, .pieces [(b, true)])
    | _ => r.readPlain b
  | .comment => if sym b = .newline then ({ r with mode := .plain, inWord := false }, .active) else (r, .skipped)

def Reader.next (r : Reader) (b : UInt8) : Reader := (r.read b).1

def Reader.active (r : Reader) (b : UInt8) : Bool := (r.read b).2 = .active

/-- Only these are ever active. -/
theorem active_of_sym (r : Reader) {b : UInt8} (hn : sym b ≠ .newline) (hp : sym b ≠ .openParen)
    (ho : sym b ≠ .operator) (hq : sym b ≠ .backquote) : r.active b = false := by
  obtain ⟨stack, mode, inWord⟩ := r
  have hplain : ∀ mode, ((Reader.readPlain ⟨stack, mode, inWord⟩ b).2 = .active) = False := by
    intro mode
    rcases stack with _ | ⟨_ | _, stack⟩
    all_goals
      unfold Reader.readPlain
      cases hs : sym b
      all_goals first | contradiction | (cases inWord <;> simp [Reader.put])
  cases mode with
  | plain => simp [Reader.active, Reader.read, hplain]
  | escape =>
    rcases stack with _ | ⟨_ | _, stack⟩
    all_goals
      unfold Reader.active Reader.read Reader.readEscaped
      cases hs : sym b
      all_goals simp [Reader.put]
  | single =>
    simp only [Reader.active, Reader.read]
    split <;> simp
  | dollar =>
    unfold Reader.active Reader.read
    cases hs : sym b
    all_goals first | contradiction | simp [hplain]
  | comment => simp [Reader.active, Reader.read, hn]

/-- Nothing is open. -/
def Reader.closed (r : Reader) : Bool := r.stack.isEmpty && r.mode ≠ .single && r.mode ≠ .escape

/-- The text is read to its end without a byte that `bad` names. -/
def Avoids (bad : Reader → UInt8 → Bool) (next : Reader → UInt8 → Reader) (r : Reader) (t : List UInt8) : Prop :=
  match t with
  | [] => r.closed = true
  | b :: t => bad r b = false ∧ Avoids bad next (next r b) t

/-- No control operator, redirection or command substitution is active in the
text, and nothing is open at its end. -/
def OneCommand (t : List UInt8) : Prop := Avoids Reader.active Reader.next start t

/-- No byte of the text is one that `bad` names. -/
def Clear (bad : Reader → UInt8 → Bool) (next : Reader → UInt8 → Reader) (r : Reader) (t : List UInt8) : Prop :=
  match t with
  | [] => True
  | b :: t => bad r b = false ∧ Clear bad next (next r b) t

instance (bad : Reader → UInt8 → Bool) (next : Reader → UInt8 → Reader) : ∀ (r : Reader) (t : List UInt8),
    Decidable (Clear bad next r t)
  | _, [] => .isTrue trivial
  | r, b :: t =>
    have := instDecidableClear bad next (next r b) t
    inferInstanceAs (Decidable (bad r b = false ∧ Clear bad next (next r b) t))

theorem avoids_iff {bad : Reader → UInt8 → Bool} {next : Reader → UInt8 → Reader} {r : Reader} {t : List UInt8} :
    Avoids bad next r t ↔ Clear bad next r t ∧ (t.foldl next r).closed = true := by
  induction t generalizing r with
  | nil => simp [Avoids, Clear]
  | cons b t ih => simp [Avoids, Clear, ih, and_assoc]

theorem clear_append {bad : Reader → UInt8 → Bool} {next : Reader → UInt8 → Reader} {r : Reader} {s t : List UInt8} :
    Clear bad next r (s ++ t) ↔ Clear bad next r s ∧ Clear bad next (s.foldl next r) t := by
  induction s generalizing r with
  | nil => simp [Clear]
  | cons b s ih => simp [Clear, ih, and_assoc]

theorem avoids_append {bad : Reader → UInt8 → Bool} {next : Reader → UInt8 → Reader} {r : Reader} {s t : List UInt8} :
    Avoids bad next r (s ++ t) ↔ Clear bad next r s ∧ Avoids bad next (s.foldl next r) t := by
  rw [avoids_iff, avoids_iff, clear_append, List.foldl_append, and_assoc]

/-! ## Words -/

structure Words where
  done : List Word
  cur : Option Word
  deriving DecidableEq

def Words.add (w : Words) : Role → Words
  | .quote => { w with cur := some (w.cur.getD []) }
  | .pieces l => { w with cur := some (w.cur.getD [] ++ l) }
  | .blank => ⟨w.done ++ w.cur.toList, none⟩
  | .skipped | .active => w

def Words.all (w : Words) : List Word := w.done ++ w.cur.toList

/-- Reader and words after a text; `none` once a byte was active. -/
def run (r : Reader) (w : Words) (t : List UInt8) : Option (Reader × Words) :=
  match t with
  | [] => some (r, w)
  | b :: t => if r.active b then none else run (r.next b) (w.add (r.read b).2) t

/-- The words of a text that is one command. -/
def words (t : List UInt8) : Option (List Word) :=
  (run start ⟨[], none⟩ t).bind fun p => if p.1.closed then some p.2.all else none

theorem run_append (r : Reader) (w : Words) (s t : List UInt8) :
    run r w (s ++ t) = (run r w s).bind fun p => run p.1 p.2 t := by
  induction s generalizing r w with
  | nil => rfl
  | cons b s ih =>
    simp only [List.cons_append, run]
    split
    · rfl
    · exact ih _ _

/-- A text has words exactly when it is one command. -/
theorem oneCommand_iff (t : List UInt8) : OneCommand t ↔ (words t).isSome = true := by
  have h : ∀ (t : List UInt8) (r : Reader) (w : Words), Avoids Reader.active Reader.next r t ↔
      ((run r w t).bind fun p => if p.1.closed then some p.2.all else none).isSome = true := by
    intro t
    induction t with
    | nil =>
      intro r w
      cases hc : r.closed <;> simp [Avoids, run, hc]
    | cons b t ih =>
      intro r w
      cases ha : r.active b <;> simp [Avoids, run, ha, ih (r.next b) (w.add (r.read b).2)]
  exact h t start ⟨[], none⟩

/-! ## Single quotes -/

/-- Bytes that are taken as they are. -/
def literal (t : List UInt8) : Word := t.map fun b => (b, false)

theorem run_single {r : Reader} (hr : r.mode = .single) (hs : r.stack = []) :
    ∀ {t : List UInt8} {done : List Word} {cur : Word}, (∀ b ∈ t, sym b ≠ .single) → r.inWord = true →
      run r ⟨done, some cur⟩ t = some (r, ⟨done, some (cur ++ literal t)⟩)
  | [], done, cur, _, _ => by simp [run, literal]
  | b :: t, done, cur, h, hw => by
    obtain ⟨stack, mode, inWord⟩ := r
    cases hr
    cases hs
    cases hw
    have hb : sym b ≠ .single := h b List.mem_cons_self
    have ih := @run_single ⟨[], .single, true⟩ rfl rfl t done (cur ++ [(b, false)])
      (fun c hc => h c (List.mem_cons_of_mem _ hc)) rfl
    simp [run, Reader.active, Reader.next, Reader.read, hb, Words.add, Reader.inBrace, ih, literal]

/-- A text in single quotes behind a blank is one more word. -/
theorem run_quoted {t : List UInt8} (h : ∀ b ∈ t, sym b ≠ .single) (done : List Word) :
    run ⟨[], .plain, false⟩ ⟨done, none⟩ ([0x27] ++ t ++ [0x27]) = some (⟨[], .plain, true⟩, ⟨done, some (literal t)⟩) := by
  rw [run_append, run_append]
  have hopen : run ⟨[], .plain, false⟩ ⟨done, none⟩ [0x27] = some (⟨[], .single, true⟩, ⟨done, some []⟩) := rfl
  rw [hopen, Option.bind_some, run_single rfl rfl h rfl, Option.bind_some]
  rfl

/-! ## Counting -/

/-- What quoting other than single quotes has cost so far, at least. -/
def Reader.paid (r : Reader) : Nat := (if .double ∈ r.stack then 1 else 0) + if r.mode = .escape then 1 else 0

/-- What can become of a byte that is not active. A single quote stays in a
word only where other quoting stands around or before it. -/
inductive Fate (r r' : Reader) (b : UInt8) : Role → Prop where
  | single (hb : sym b = .single) (h : r'.paid ≤ r.paid) : Fate r r' b .quote
  | double (hb : sym b ≠ .single) (h : r'.paid ≤ r.paid + 1) : Fate r r' b .quote
  | put (e : Bool) (hb : sym b = .single → 1 ≤ r.paid) (h : r'.paid ≤ r.paid) : Fate r r' b (.pieces [(b, e)])
  | both (e : Bool) (hr : r.paid = 2) (h : r'.paid ≤ 1) : Fate r r' b (.pieces [(0x5c, e), (b, e)])
  | blank (hb : sym b ≠ .single) (h : r'.paid ≤ r.paid) : Fate r r' b .blank
  | skipped (h : r'.paid ≤ r.paid + if sym b = .single then 0 else 1) : Fate r r' b .skipped

theorem fate_plain (r : Reader) {b : UInt8} (hm : r.mode ≠ .escape) (h : (r.readPlain b).2 ≠ .active) :
    Fate r (r.readPlain b).1 b (r.readPlain b).2 := by
  obtain ⟨stack, mode, inWord⟩ := r
  unfold Reader.readPlain at h ⊢
  rcases stack with _ | ⟨_ | _, stack⟩
  all_goals
    cases hb : sym b
    all_goals simp only [hb] at h ⊢
    all_goals first
      | exact absurd rfl h
      | exact .put _ (by simp [hb, Reader.paid]) (by simp [Reader.paid, Reader.put])
      | exact .single hb (by simp [Reader.paid])
      | exact .double (by simp [hb]) (by simp only [Reader.paid]; split_ifs <;> simp_all)
      | exact .blank (by simp [hb]) (by simp [Reader.paid])
      | exact .skipped (by simp [Reader.paid, hm, hb])
      | (cases inWord
         · exact .skipped (by simp [Reader.paid])
         · exact .put _ (by simp [hb]) (by simp [Reader.paid, Reader.put]))

theorem fate (r : Reader) {b : UInt8} (h : r.active b = false) : Fate r (r.next b) b (r.read b).2 := by
  obtain ⟨stack, mode, inWord⟩ := r
  simp only [Reader.active, decide_eq_false_iff_not] at h
  cases mode with
  | plain => exact fate_plain _ (by simp) h
  | escape =>
    simp only [Reader.next, Reader.read, Reader.readEscaped] at h ⊢
    rcases stack with _ | ⟨_ | _, stack⟩
    all_goals
      cases hb : sym b
      all_goals simp only [hb] at h ⊢
      all_goals first
        | exact .put _ (by simp [Reader.paid]) (by simp [Reader.paid, Reader.put])
        | exact .both _ (by simp [Reader.paid]) (by simp [Reader.paid])
        | exact .skipped (by simp only [Reader.paid]; split_ifs <;> simp_all)
  | single =>
    simp only [Reader.next, Reader.read] at h ⊢
    split
    · rename_i hb
      exact .single hb (by simp [Reader.paid])
    · rename_i hb
      exact .put _ (fun hc => absurd hc hb) (by simp [Reader.paid])
  | dollar =>
    simp only [Reader.next, Reader.read] at h ⊢
    cases hb : sym b
    all_goals simp only [hb] at h ⊢
    all_goals first
      | exact absurd trivial h
      | exact .put _ (by simp [hb]) (by simp [Reader.paid])
      | exact fate_plain _ (by simp) h
  | comment =>
    simp only [Reader.next, Reader.read] at h ⊢
    split
    · rename_i hb
      simp [hb] at h
    · exact .skipped (by simp)

/-- The bytes of the words that are not single quotes. -/
def held (w : Words) : Nat := w.all.flatten.countP fun p => sym p.1 ≠ .single

/-- The single quotes in the words. -/
def quotes (w : Words) : Nat := w.all.flatten.countP fun p => sym p.1 = .single

/-- The blanks that the words have taken, at least, and one. -/
def gaps (w : Words) : Nat := w.all.length + if w.cur.isNone then 1 else 0

theorem add_quote (w : Words) : (w.add .quote).all.flatten = w.all.flatten ∧ gaps (w.add .quote) = gaps w := by
  obtain ⟨done, _ | c⟩ := w
  · simp [Words.add, Words.all, gaps]
  · simp [Words.add, Words.all, gaps]

theorem add_pieces (w : Words) (l : List Piece) :
    (w.add (.pieces l)).all.flatten = w.all.flatten ++ l ∧ gaps (w.add (.pieces l)) = gaps w := by
  obtain ⟨done, _ | c⟩ := w
  · simp [Words.add, Words.all, gaps]
  · simp [Words.add, Words.all, gaps]

theorem add_blank (w : Words) : (w.add .blank).all = w.all ∧
    gaps w ≤ gaps (w.add .blank) ∧ gaps (w.add .blank) ≤ gaps w + 1 := by
  obtain ⟨done, _ | c⟩ := w
  · simp [Words.add, Words.all, gaps]
  · simp [Words.add, Words.all, gaps]

/-- One byte: it is held, takes a gap or is lost, and whatever keeps a single
quote has lost something. -/
theorem slack_step {r : Reader} {w : Words} {b : UInt8} {s : Nat} (ha : r.active b = false) (hs : r.paid ≤ s) :
    ∃ s', (if sym b = .single then 0 else 1) + held w + gaps w + s =
        held (w.add (r.read b).2) + gaps (w.add (r.read b).2) + s' ∧
      (r.next b).paid ≤ s' ∧ (1 ≤ s → 1 ≤ s') ∧ (quotes w < quotes (w.add (r.read b).2) → 1 ≤ s') := by
  have hfate := fate r ha
  generalize (r.read b).2 = role at hfate ⊢
  cases hfate with
  | single hb h =>
    obtain ⟨hf, hg⟩ := add_quote w
    refine ⟨s, ?_, by omega, id, fun hq => ?_⟩
    · simp only [held, hf, hg, hb, if_true]
      omega
    · simp [quotes, hf] at hq
  | double hb h =>
    obtain ⟨hf, hg⟩ := add_quote w
    refine ⟨s + 1, ?_, by omega, fun _ => by omega, fun _ => by omega⟩
    simp only [held, hf, hg, hb, if_false]
    omega
  | put e hb h =>
    obtain ⟨hf, hg⟩ := add_pieces w [(b, e)]
    refine ⟨s, ?_, by omega, id, fun hq => ?_⟩
    · by_cases hsym : sym b = .single
      · simp [held, hf, hg, hsym]
      · simp [held, hf, hg, hsym]
        omega
    · by_cases hsym : sym b = .single
      · have := hb hsym
        omega
      · simp [quotes, hf, hsym] at hq
  | both e hr h =>
    obtain ⟨hf, hg⟩ := add_pieces w [(0x5c, e), (b, e)]
    have hslash : sym 0x5c = .backslash := rfl
    refine ⟨s - 1, ?_, by omega, fun _ => by omega, fun _ => by omega⟩
    by_cases hsym : sym b = .single
    · simp [held, hf, hg, hsym, hslash]
      omega
    · simp [held, hf, hg, hsym, hslash]
      omega
  | blank hb h =>
    obtain ⟨hall, hle, hge⟩ := add_blank w
    refine ⟨s + (gaps w + 1 - gaps (w.add .blank)), ?_, by omega, fun _ => by omega, fun hq => ?_⟩
    · simp only [held, hall, hb, if_false]
      omega
    · simp [quotes, hall] at hq
  | skipped h =>
    refine ⟨s + if sym b = .single then 0 else 1, ?_, by omega, fun _ => by omega, fun hq => ?_⟩
    · simp only [Words.add]
      omega
    · simp [Words.add] at hq

theorem quotes_mono (r : Reader) (w : Words) (b : UInt8) : quotes w ≤ quotes (w.add (r.read b).2) := by
  generalize (r.read b).2 = role
  cases role with
  | quote => simp [quotes, (add_quote w).1]
  | pieces l => simp [quotes, (add_pieces w l).1]
  | blank => simp [quotes, (add_blank w).1]
  | skipped | active => exact Nat.le_refl _

/-- A whole text: what is not a single quote is held, separates words or is
lost, and something is lost when a single quote is held. -/
theorem run_slack {t : List UInt8} : ∀ {r r' : Reader} {w w' : Words} {s : Nat}, r.paid ≤ s →
    run r w t = some (r', w') →
    ∃ s', (t.countP fun b => sym b ≠ .single) + held w + gaps w + s = held w' + gaps w' + s' ∧ (1 ≤ s → 1 ≤ s') ∧
      (quotes w < quotes w' → 1 ≤ s') := by
  induction t with
  | nil =>
    intro r r' w w' s _ h
    injection h with h
    injection h with hr hw
    subst hw
    exact ⟨s, by simp, id, fun hq => absurd hq (Nat.lt_irrefl _)⟩
  | cons b t ih =>
    intro r r' w w' s hs h
    rw [run] at h
    cases ha : r.active b with
    | true => simp [ha] at h
    | false =>
      rw [ha, if_neg (by simp)] at h
      obtain ⟨s₁, heq, hguard, hone, hquote⟩ := slack_step (w := w) ha hs
      obtain ⟨s₂, heq', hone', hquote'⟩ := ih hguard h
      have hcount : ((b :: t).countP fun b => sym b ≠ .single) =
          (t.countP fun b => sym b ≠ .single) + if sym b = .single then 0 else 1 := by
        rw [List.countP_cons]
        by_cases hsym : sym b = .single
        · simp [hsym]
        · simp [hsym]
      refine ⟨s₂, ?_, fun h => hone' (hone h), fun hq => ?_⟩
      · rw [hcount]
        omega
      · by_cases hfirst : quotes w < quotes (w.add (r.read b).2)
        · exact hone' (hquote hfirst)
        · have := quotes_mono r w b
          exact hquote' (by omega)

/-- Words are not lost again. -/
theorem length_all_mono {t : List UInt8} : ∀ {r r' : Reader} {w w' : Words}, run r w t = some (r', w') →
    w.all.length ≤ w'.all.length := by
  induction t with
  | nil =>
    intro r r' w w' h
    injection h with h
    injection h with _ hw
    exact Nat.le_of_eq (by rw [hw])
  | cons b t ih =>
    intro r r' w w' h
    rw [run] at h
    split at h
    · cases h
    · refine Nat.le_trans ?_ (ih h)
      obtain ⟨done, cur⟩ := w
      generalize (r.read b).2 = role
      cases role <;> cases cur <;> simp [Words.add, Words.all]

/-- Behind the start of a comment nothing is read. -/
theorem run_comment {t : List UInt8} : ∀ {r r' : Reader} {w w' : Words}, r.mode = .comment →
    run r w t = some (r', w') → w' = w := by
  induction t with
  | nil =>
    intro r r' w w' _ h
    injection h with h
    injection h with _ hw
    exact hw.symm
  | cons b t ih =>
    intro r r' w w' hm h
    rw [run] at h
    split at h
    · cases h
    · rename_i ha
      have hsym : sym b ≠ .newline := by
        intro hc
        simp [Reader.active, Reader.read, hm, hc] at ha
      have hread : r.read b = (r, .skipped) := by simp [Reader.read, hm, hsym]
      rw [Reader.next, hread] at h
      exact ih hm h

end Shell
