import JobArranger.Core.Shell
import JobArranger.Core.Utf8
import JobArranger.L1Data.Value

/-!
# Formulas for the shell (`jalibs/jastr.c`)

A calculation icon hands its formula to `expr` or `date` through `popen`, an
extended job its parameters to `zabbix_sender`. `ja_format_expr` puts a
backslash before eighteen bytes, `ja_format_date` puts the formula in double
quotes and drops seven bytes, `ja_format_extjob` drops six.

None of them looks at what quoting the bytes before have opened. `exprBad`,
`dateBad` and `extjobBad` name the bytes of the input that get out;
`expr_iff`, `date_iff` and `extjob_iff` that there are no others.
-/
namespace JobArranger.Format

open Shell

/-! ## The source -/

/-- The cases of `ja_format_expr` that write a backslash. -/
def exprEscapes (b : UInt8) : Bool := (ascii "+-*/%!=<>()|&:;[]`").contains b

/-- mirrors src/jalibs/jastr.c:431-475 -/
def jaFormatExpr (input : Text) : Text :=
  ascii "expr " ++ input.flatMap fun b => if exprEscapes b then [0x5c, b] else [b]

/-- The bytes that `ja_format_date` drops: double quote, backquote, single
quote, `>`, `<`, `&`, backslash. -/
def dateDrops (b : UInt8) : Bool := [0x22, 0x60, 0x27, 0x3e, 0x3c, 0x26, 0x5c].contains b

/-- The loop of `ja_format_date`: the first `;` ends the first argument. -/
def dateLoop : Bool → Text → Text
  | _, [] => []
  | flag, b :: p =>
    if flag = false ∧ b = 0x3b then [0x22, 0x20, 0x2b, 0x22] ++ dateLoop true p
    else if dateDrops b then dateLoop flag p
    else b :: dateLoop flag p

/-- mirrors src/jalibs/jastr.c:490-536 -/
def jaFormatDate (input : Text) : Text :=
  ascii "date --date " ++ [0x22] ++ dateLoop false input ++ [0x22]

def extjobDrops (b : UInt8) : Bool := (ascii ";`><&|").contains b

/-- mirrors src/jalibs/jastr.c:551-583 -/
def jaFormatExtjob (input : Text) : Text := input.filter fun b => !extjobDrops b

/-! ## `expr` -/

/-- Reading a byte that stands for itself. -/
def ordinary (r : Reader) : Reader :=
  match r.mode with
  | .comment => r
  | .single => { r with inWord := true }
  | _ => { r with mode := .plain, inWord := true }

/-- The input read with the bytes that get a backslash as ordinary ones. -/
def exprNext (r : Reader) (b : UInt8) : Reader := if exprEscapes b then ordinary r else r.next b

/-- A byte that gets a backslash and stands behind one that takes it away, or
another that is active: a newline. -/
def exprBad (r : Reader) (b : UInt8) : Bool :=
  if exprEscapes b then r.mode = .escape && ({ r with mode := .plain } : Reader).active b else r.active b

theorem exprEscapes_sym : ∀ b, exprEscapes b = true →
    sym b = .operator ∨ sym b = .openParen ∨ sym b = .backquote ∨ sym b = .glob ∨ sym b = .ord :=
  Utf8.forall_byte (by decide +kernel)

/-- The backslash and the byte behind it. -/
theorem read_escaped (r : Reader) {b : UInt8} (h : exprEscapes b = true) :
    r.active 0x5c = false ∧ (r.next 0x5c).active b = exprBad r b ∧
      (exprBad r b = false → (r.next 0x5c).next b = exprNext r b) := by
  obtain ⟨stack, mode, inWord⟩ := r
  have hq : sym 0x5c = .backslash := rfl
  simp only [exprBad, exprNext, h, if_true, ordinary]
  rcases exprEscapes_sym b h with hb | hb | hb | hb | hb
  all_goals
    cases mode
    all_goals
      rcases stack with _ | ⟨_ | _, stack⟩
      all_goals simp [Reader.active, Reader.next, Reader.read, Reader.readPlain, Reader.readEscaped, Reader.put, hq, hb]

theorem avoids_expr (r : Reader) (t : Text) :
    Avoids Reader.active Reader.next r (t.flatMap fun b => if exprEscapes b then [0x5c, b] else [b]) ↔
      Avoids exprBad exprNext r t := by
  induction t generalizing r with
  | nil => exact Iff.rfl
  | cons b t ih =>
    rw [List.flatMap_cons]
    by_cases h : exprEscapes b = true
    · obtain ⟨hquote, hactive, hnext⟩ := read_escaped r h
      rw [if_pos h]
      simp only [List.cons_append, List.nil_append, Avoids, hquote, hactive, true_and]
      refine and_congr_right fun hb => ?_
      rw [hnext hb, ih]
    · rw [if_neg h]
      simp only [List.cons_append, List.nil_append, Avoids, exprBad, exprNext, h, Bool.false_eq_true, if_false, ih]

/-- `expr` gets one command, and the formula fits into `cmd`. -/
def ExprContained (input : Text) : Prop :=
  OneCommand (jaFormatExpr input) ∧ (input.length < maxStringLen → (jaFormatExpr input).length < maxStringLen)

theorem length_jaFormatExpr (input : Text) :
    (jaFormatExpr input).length = 5 + input.length + input.countP exprEscapes := by
  have hloop : (input.flatMap fun b => if exprEscapes b then [0x5c, b] else [b]).length =
      input.length + input.countP exprEscapes := by
    induction input with
    | nil => rfl
    | cons b t ih =>
      rw [List.flatMap_cons, List.length_append, ih, List.countP_cons, List.length_cons]
      by_cases h : exprEscapes b = true
      · simp only [h, if_true, List.length_cons, List.length_nil]
        omega
      · simp only [h, Bool.false_eq_true, if_false, List.length_cons, List.length_nil]
        omega
  have hname : (ascii "expr ").length = 5 := rfl
  rw [jaFormatExpr, List.length_append, hloop, hname, Nat.add_assoc]

theorem expr_iff (input : Text) : ExprContained input ↔
    Avoids exprBad exprNext Shell.start input ∧
      (input.length < maxStringLen → 5 + input.length + input.countP exprEscapes < maxStringLen) := by
  have hname : Clear Reader.active Reader.next Shell.start (ascii "expr ") := by decide
  rw [ExprContained, length_jaFormatExpr, OneCommand, jaFormatExpr, avoids_append, avoids_expr]
  exact and_congr_left fun _ => and_iff_right hname

/-! ## The extended job -/

def extjobNext (r : Reader) (b : UInt8) : Reader := if extjobDrops b then r else r.next b

/-- A newline or a parenthesis that is active, that of `$(` among them. -/
def extjobBad (r : Reader) (b : UInt8) : Bool := (b = 0x0a || b = 0x28 || b = 0x29) && r.active b

/-- What is left holds no other active byte. -/
theorem active_kept (r : Reader) {b : UInt8} (h : extjobDrops b = false) : r.active b = extjobBad r b := by
  have hsym : ∀ b, extjobDrops b = false → b ≠ 0x0a → b ≠ 0x28 → b ≠ 0x29 →
      sym b ≠ .newline ∧ sym b ≠ .openParen ∧ sym b ≠ .operator ∧ sym b ≠ .backquote :=
    Utf8.forall_byte (by decide +kernel)
  unfold extjobBad
  by_cases hb : b = 0x0a ∨ b = 0x28 ∨ b = 0x29
  · simp [or_assoc, hb]
  · simp only [not_or] at hb
    obtain ⟨hn, hp, ho, hq⟩ := hsym b h hb.1 hb.2.1 hb.2.2
    rw [active_of_sym r hn hp ho hq, Bool.and_false]

theorem avoids_extjob (r : Reader) (t : Text) :
    Avoids Reader.active Reader.next r (t.filter fun b => !extjobDrops b) ↔
      Avoids (fun r b => !extjobDrops b && extjobBad r b) extjobNext r t := by
  induction t generalizing r with
  | nil => exact Iff.rfl
  | cons b t ih =>
    cases h : extjobDrops b with
    | true => simp [Avoids, extjobNext, h, ih]
    | false => simp [Avoids, extjobNext, h, ih, active_kept r h]

def ExtjobContained (input : Text) : Prop :=
  OneCommand (jaFormatExtjob input) ∧ (input.length < maxStringLen → (jaFormatExtjob input).length < maxStringLen)

theorem extjob_iff (input : Text) : ExtjobContained input ↔
    Avoids (fun r b => !extjobDrops b && extjobBad r b) extjobNext Shell.start input := by
  rw [ExtjobContained, OneCommand, jaFormatExtjob, avoids_extjob]
  exact and_iff_left fun h => Nat.lt_of_le_of_lt (List.length_filter_le _ _) h

/-! ## `date` -/

/-- In the double quotes of the first argument. -/
def inQuotes : Reader := ⟨[.double], .plain, true⟩

def dateNext (r : Reader) (b : UInt8) : Reader := if dateDrops b then r else r.next b

/-- The parenthesis of `$(`. -/
def dateBad (r : Reader) (b : UInt8) : Bool := !dateDrops b && (b = 0x28 && r.mode = .dollar)

/-- In the double quotes, and in any number of braces of `${`. -/
structure DateRead (r : Reader) : Prop where
  stack : ∃ n, r.stack = List.replicate n .brace ++ [.double]
  mode : r.mode = .plain ∨ r.mode = .dollar
  inWord : r.inWord = true

theorem dateDrops_sym : ∀ b, dateDrops b = false →
    sym b ≠ .double ∧ sym b ≠ .single ∧ sym b ≠ .backquote ∧ sym b ≠ .backslash ∧ (sym b = .openParen ↔ b = 0x28) :=
  Utf8.forall_byte (by decide +kernel)

/-- A byte that is copied: it is active behind `$` only, stays in the quotes
and adds to the word. -/
theorem DateRead.step {r : Reader} (h : DateRead r) {b : UInt8} (hb : dateDrops b = false) :
    r.active b = dateBad r b ∧ (dateBad r b = false → DateRead (r.next b) ∧ ∃ l, (r.read b).2 = .pieces l) := by
  obtain ⟨hd, hs, hq, hbs, hp⟩ := dateDrops_sym b hb
  obtain ⟨stack, mode, inWord⟩ := r
  obtain ⟨⟨n, hn⟩, hmode, hword⟩ := h
  simp only at hn hmode hword
  subst hn hword
  have hplain : ∀ mode, ∃ s mode' l, Reader.readPlain ⟨List.replicate n .brace ++ [.double], mode, true⟩ b =
      (⟨List.replicate s .brace ++ [.double], mode', true⟩, .pieces l) ∧ (mode' = .plain ∨ mode' = .dollar) := by
    intro mode
    unfold Reader.readPlain
    cases n with
    | zero =>
      cases hsym : sym b
      all_goals first
        | contradiction
        | exact ⟨0, _, _, rfl, .inl rfl⟩
        | exact ⟨0, _, _, rfl, .inr rfl⟩
    | succ n =>
      cases hsym : sym b
      all_goals first
        | contradiction
        | exact ⟨n + 1, _, _, rfl, .inl rfl⟩
        | exact ⟨n + 1, _, _, rfl, .inr rfl⟩
        | exact ⟨n, _, _, rfl, .inl rfl⟩
  rcases hmode with rfl | rfl
  · obtain ⟨s, mode', l, he, hm⟩ := hplain .plain
    refine ⟨by simp [Reader.active, Reader.read, he, dateBad], fun _ => ⟨?_, l, by simp [Reader.read, he]⟩⟩
    simp only [Reader.next, Reader.read, he]
    exact ⟨⟨s, rfl⟩, hm, rfl⟩
  · obtain ⟨s, mode', l, he, hm⟩ := hplain .dollar
    by_cases hparen : b = 0x28
    · subst hparen
      exact ⟨rfl, fun hbad => absurd hbad (by simp [dateBad, dateDrops])⟩
    · have hsym : sym b ≠ .openParen := fun hc => hparen (hp.1 hc)
      by_cases hbrace : sym b = .openBrace
      · refine ⟨by simp [Reader.active, Reader.read, hbrace, dateBad, hparen], fun _ => ⟨?_, ?_⟩⟩
        · simp only [Reader.next, Reader.read, hbrace]
          exact ⟨⟨n + 1, rfl⟩, .inl rfl, rfl⟩
        · exact ⟨[(b, true)], by simp only [Reader.read, hbrace]⟩
      · have hread : Reader.read ⟨List.replicate n .brace ++ [.double], .dollar, true⟩ b =
            Reader.readPlain ⟨List.replicate n .brace ++ [.double], .dollar, true⟩ b := by
          simp only [Reader.read]
        refine ⟨by simp [Reader.active, hread, he, dateBad, hparen], fun _ => ⟨?_, l, by rw [hread, he]⟩⟩
        simp only [Reader.next, hread, he]
        exact ⟨⟨s, rfl⟩, hm, rfl⟩

/-- The `;` that becomes a new argument: in a brace it is one more piece of
the word. -/
theorem DateRead.split {r : Reader} (h : DateRead r) (done : List Word) (cur : Word) :
    DateRead (r.next 0x3b) ∧ dateBad r 0x3b = false ∧
      ∃ w, run r ⟨done, some cur⟩ [0x22, 0x20, 0x2b, 0x22] = some (r.next 0x3b, w) ∧
        ((∃ l, w = ⟨done, some (cur ++ l)⟩) ∨ w = ⟨done ++ [cur], some [(0x2b, false)]⟩) := by
  have hnext := (h.step (b := 0x3b) (by decide)).2 (by simp [dateBad])
  refine ⟨hnext.1, by simp [dateBad], ?_⟩
  obtain ⟨stack, mode, inWord⟩ := r
  obtain ⟨⟨n, hn⟩, hmode, hword⟩ := h
  simp only at hn hmode hword
  subst hn hword
  cases n with
  | zero =>
    refine ⟨⟨done ++ [cur], some [(0x2b, false)]⟩, ?_, .inr rfl⟩
    rcases hmode with rfl | rfl
    all_goals rfl
  | succ n =>
    refine ⟨⟨done, some (cur ++ [(0x20, true), (0x2b, true)])⟩, ?_, .inl ⟨_, rfl⟩⟩
    have hadd : cur ++ [(0x20, true)] ++ [(0x2b, true)] = cur ++ [((0x20 : UInt8), true), (0x2b, true)] := by simp
    rw [← hadd]
    rcases hmode with rfl | rfl
    all_goals rfl

/-- Where the words go on from, once the loop is through. -/
inductive Added (done : List Word) (cur : Word) : Bool → Words → Prop where
  | one (flag : Bool) (l : Word) : Added done cur flag ⟨done, some (cur ++ l)⟩
  | two (l f : Word) : Added done cur false ⟨done ++ [cur ++ l], some ((0x2b, false) :: f)⟩

/-- The loop, read behind the double quote. -/
theorem run_dateLoop {t : Text} : ∀ {r : Reader} {flag : Bool} {done : List Word} {cur : Word}, DateRead r →
    (Clear dateBad dateNext r t → DateRead (t.foldl dateNext r) ∧
      ∃ w, run r ⟨done, some cur⟩ (dateLoop flag t) = some (t.foldl dateNext r, w) ∧ Added done cur flag w) ∧
    (¬ Clear dateBad dateNext r t → run r ⟨done, some cur⟩ (dateLoop flag t) = none) := by
  induction t with
  | nil =>
    intro r flag done cur h
    refine ⟨fun _ => ⟨h, _, rfl, ?_⟩, fun hc => absurd trivial hc⟩
    have hone := @Added.one done cur flag []
    rwa [List.append_nil] at hone
  | cons b t ih =>
    intro r flag done cur h
    rw [List.foldl_cons, Clear]
    by_cases hsplit : flag = false ∧ b = 0x3b
    · obtain ⟨rfl, rfl⟩ := hsplit
      obtain ⟨hr, hbad, w, hrun, hw⟩ := h.split done cur
      have hnext : dateNext r 0x3b = r.next 0x3b := rfl
      have hloop : dateLoop false (0x3b :: t) = [0x22, 0x20, 0x2b, 0x22] ++ dateLoop true t := rfl
      rw [hnext, hloop, run_append, hrun, Option.bind_some]
      rcases hw with ⟨l, rfl⟩ | rfl
      · obtain ⟨hclear, hactive⟩ := @ih _ true done (cur ++ l) hr
        refine ⟨fun hc => ?_, fun hc => hactive fun ht => hc ⟨hbad, ht⟩⟩
        obtain ⟨hend, w', hrun', hw'⟩ := hclear hc.2
        refine ⟨hend, w', hrun', ?_⟩
        cases hw' with
        | one _ l' =>
          rw [List.append_assoc]
          exact .one false _
      · obtain ⟨hclear, hactive⟩ := @ih _ true (done ++ [cur]) [(0x2b, false)] hr
        refine ⟨fun hc => ?_, fun hc => hactive fun ht => hc ⟨hbad, ht⟩⟩
        obtain ⟨hend, w', hrun', hw'⟩ := hclear hc.2
        refine ⟨hend, w', hrun', ?_⟩
        cases hw' with
        | one _ l' =>
          have htwo := @Added.two done cur [] l'
          rwa [List.append_nil] at htwo
    · by_cases hdrop : dateDrops b = true
      · have hloop : dateLoop flag (b :: t) = dateLoop flag t := by rw [dateLoop, if_neg hsplit, if_pos hdrop]
        have hnext : dateNext r b = r := if_pos hdrop
        have hbad : dateBad r b = false := by simp [dateBad, hdrop]
        obtain ⟨hclear, hactive⟩ := @ih _ flag done cur h
        rw [hloop, hnext]
        exact ⟨fun hc => hclear hc.2, fun hc => hactive fun ht => hc ⟨hbad, ht⟩⟩
      · have hkeep : dateDrops b = false := by simpa using hdrop
        have hloop : dateLoop flag (b :: t) = b :: dateLoop flag t := by rw [dateLoop, if_neg hsplit, if_neg hdrop]
        have hnext : dateNext r b = r.next b := if_neg hdrop
        obtain ⟨hactive, hstep⟩ := h.step hkeep
        rw [hloop, hnext, run, hactive]
        cases hbad : dateBad r b with
        | true => exact ⟨fun hc => absurd hc.1 (by simp), fun _ => rfl⟩
        | false =>
          obtain ⟨hr, l, hl⟩ := hstep hbad
          rw [if_neg (by simp), hl]
          obtain ⟨hclear, hactive⟩ := @ih _ flag done (cur ++ l) hr
          refine ⟨fun hc => ?_, fun hc => hactive fun ht => hc ⟨rfl, ht⟩⟩
          obtain ⟨hend, w', hrun', hw'⟩ := hclear hc.2
          refine ⟨hend, w', hrun', ?_⟩
          cases hw' with
          | one _ l' =>
            rw [List.append_assoc]
            exact .one flag _
          | two l' f =>
            rw [List.append_assoc]
            exact .two _ f

/-- No `$(` is left in the input, and every `${` that is left ends. -/
def DateClear (input : Text) : Prop :=
  Clear dateBad dateNext inQuotes input ∧ (input.foldl dateNext inQuotes).stack = [.double]

/-- The words behind `date` are `--date`, one argument and perhaps a format. -/
def DateWords (input : Text) : Prop :=
  ∃ a, words (jaFormatDate input) = some [literal (ascii "date"), literal (ascii "--date"), a] ∨
    ∃ f, words (jaFormatDate input) = some [literal (ascii "date"), literal (ascii "--date"), a, (0x2b, false) :: f]

theorem run_jaFormatDate (input : Text) : run Shell.start ⟨[], none⟩ (jaFormatDate input) =
    (run inQuotes ⟨[literal (ascii "date"), literal (ascii "--date")], some []⟩ (dateLoop false input)).bind
      fun p => run p.1 p.2 [0x22] := by
  have hname : run Shell.start ⟨[], none⟩ (ascii "date --date " ++ [0x22]) =
      some (inQuotes, ⟨[literal (ascii "date"), literal (ascii "--date")], some []⟩) := by decide +kernel
  rw [jaFormatDate, run_append, run_append, hname, Option.bind_some]

/-- The double quote at the end closes the quotes, or opens others in a brace. -/
theorem DateRead.close {r : Reader} (h : DateRead r) (w : Words) (hw : ∃ a, w.cur = some a) :
    ∃ r', run r w [0x22] = some (r', w) ∧ (r'.closed = true ↔ r.stack = [.double]) := by
  obtain ⟨stack, mode, inWord⟩ := r
  obtain ⟨⟨n, hn⟩, hmode, hword⟩ := h
  obtain ⟨done, cur⟩ := w
  obtain ⟨a, rfl⟩ := hw
  simp only at hn hmode hword
  subst hn hword
  cases n with
  | zero =>
    refine ⟨⟨[], .plain, true⟩, ?_, by simp [Reader.closed]⟩
    rcases hmode with rfl | rfl
    all_goals rfl
  | succ n =>
    refine ⟨⟨.double :: .brace :: (List.replicate n .brace ++ [.double]), .plain, true⟩, ?_, ?_⟩
    · rcases hmode with rfl | rfl
      all_goals rfl
    · simp [Reader.closed, List.replicate_succ]

theorem words_jaFormatDate (input : Text) :
    (DateClear input → DateWords input) ∧ (¬ DateClear input → words (jaFormatDate input) = none) := by
  have hstart : DateRead inQuotes := ⟨⟨0, rfl⟩, .inl rfl, rfl⟩
  obtain ⟨hclear, hactive⟩ := @run_dateLoop input _ false
    [literal (ascii "date"), literal (ascii "--date")] [] hstart
  by_cases hc : Clear dateBad dateNext inQuotes input
  · obtain ⟨hend, w, hrun, hw⟩ := hclear hc
    obtain ⟨r', hclose, hiff⟩ := hend.close w (by cases hw <;> exact ⟨_, rfl⟩)
    have hwords : words (jaFormatDate input) = if r'.closed then some w.all else none := by
      rw [words, run_jaFormatDate, hrun, Option.bind_some, hclose, Option.bind_some]
    refine ⟨fun h => ?_, fun h => ?_⟩
    · rw [hiff.2 h.2, if_pos rfl] at hwords
      rw [DateWords, hwords]
      cases hw with
      | one _ l => exact ⟨l, .inl rfl⟩
      | two l f => exact ⟨l, .inr ⟨f, rfl⟩⟩
    · have hopen : r'.closed = false := by
        rw [← Bool.not_eq_true, hiff]
        exact fun hs => h ⟨hc, hs⟩
      rw [hwords, hopen]
      rfl
  · refine ⟨fun h => absurd h.1 hc, fun _ => ?_⟩
    rw [words, run_jaFormatDate, hactive hc]
    rfl

/-- `date` gets one command with these words only, and the formula fits into
`cmd`. -/
def DateContained (input : Text) : Prop :=
  OneCommand (jaFormatDate input) ∧ DateWords input ∧
    (input.length < maxStringLen → (jaFormatDate input).length < maxStringLen)

theorem length_dateLoop (flag : Bool) (t : Text) : (dateLoop flag t).length =
    t.countP (fun b => !dateDrops b) + if flag = false ∧ 0x3b ∈ t then 3 else 0 := by
  induction t generalizing flag with
  | nil => simp [dateLoop]
  | cons b t ih =>
    rw [dateLoop, List.countP_cons]
    by_cases hsplit : flag = false ∧ b = 0x3b
    · obtain ⟨rfl, rfl⟩ := hsplit
      have hkeep : dateDrops 0x3b = false := rfl
      simp [ih, hkeep]
    · rw [if_neg hsplit]
      have hmem : (flag = false ∧ 0x3b ∈ b :: t) ↔ (flag = false ∧ 0x3b ∈ t) := by
        simp only [List.mem_cons]
        constructor
        · rintro ⟨hf, hb | ht⟩
          · exact absurd ⟨hf, hb.symm⟩ hsplit
          · exact ⟨hf, ht⟩
        · rintro ⟨hf, ht⟩
          exact ⟨hf, .inr ht⟩
      simp only [hmem]
      cases hdrop : dateDrops b with
      | true => simp [ih]
      | false =>
        simp [ih]
        omega

theorem length_jaFormatDate (input : Text) : (jaFormatDate input).length =
    14 + input.countP (fun b => !dateDrops b) + if 0x3b ∈ input then 3 else 0 := by
  have hname : (ascii "date --date ").length = 12 := rfl
  simp only [jaFormatDate, List.length_append, length_dateLoop, hname, List.length_singleton, true_and]
  omega

theorem date_iff (input : Text) : DateContained input ↔ DateClear input ∧
    (input.length < maxStringLen →
      14 + input.countP (fun b => !dateDrops b) + (if 0x3b ∈ input then 3 else 0) < maxStringLen) := by
  rw [DateContained, length_jaFormatDate, oneCommand_iff]
  obtain ⟨hclear, hnone⟩ := words_jaFormatDate input
  constructor
  · rintro ⟨hone, -, hlen⟩
    refine ⟨?_, hlen⟩
    by_contra hc
    rw [hnone hc] at hone
    cases hone
  · rintro ⟨hc, hlen⟩
    have hwords := hclear hc
    refine ⟨?_, hwords, hlen⟩
    obtain ⟨a, h | ⟨f, h⟩⟩ := hwords
    all_goals simp [h]

/-! ## All three -/

end JobArranger.Format
