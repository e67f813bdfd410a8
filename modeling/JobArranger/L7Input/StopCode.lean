import JobArranger.Core.Double
import JobArranger.L5Server.Answer
import JobArranger.L6Agent.JobDb

/-!
# Stop codes (`jalibs/jastr.c`)

The stop code of a job is a list of numbers and ranges, as `1,3-5,10`. The
job editor asks for non-empty groups of digits between commas and hyphens;
`ja_number_match` compares the exit code with one element after the other,
as doubles, and gives up at an element it cannot read. The trapper and the
session program take every answer but 0 as a stop. The texts are one line:
what a text box holds and what `%d` prints.

* `jaNumberComp_accepted`: what one accepted element answers.
* `stops_exactly_iff`: the job stops exactly for the listed codes unless an
  element of two hyphens, or a range that runs down, comes before every
  element that lists the code.
-/
namespace JobArranger.StopCode

open Sql (isDigit natVal digits)
open Double (atof)
open Agent.JobDb (intText_natCast intText_neg)

/-! ## The editor -/

/-- mirrors frontend/jobarg_manager/common/Utils/CheckUtil.cs:219-227 -/
def isHankakuNum (str : Text) : Bool := str.all isDigit

/-- mirrors frontend/jobarg_manager/common/Utils/CheckUtil.cs:245-260 -/
def isHankakuNumBeforeOrAfterCommaAndHyphen (str : Text) : Bool :=
  str.isEmpty || (str.splitOnP fun b => b == 44 || b == 45).all fun i => !i.isEmpty && isHankakuNum i

/-! ## The comparison -/

/-- `^[-]{0,1}[0-9]+[.]{0,1}[0-9]*$`. mirrors src/jalibs/jastr.c:274-282 -/
def jaIsNumber (str : Text) : Bool :=
  let t := if str.head? = some 45 then str.tail else str
  let point := t.dropWhile isDigit
  !(t.takeWhile isDigit).isEmpty && (if point.head? = some 46 then point.tail else point).all isDigit

/-- The range is cut at the first hyphen after its first character.
mirrors src/jalibs/jastr.c:297-352 -/
def jaNumberComp (num : Int) : Text → Int
  | [] => -1
  | c :: rest =>
    let newRange := c :: rest.takeWhile (· != 45)
    let flag := rest.dropWhile (· != 45)
    if jaIsNumber newRange = false then -1
    else match flag with
      | [] => if num = atof newRange then 1 else 0
      | _ :: p =>
        if jaIsNumber p = false then -1
        else if atof newRange > atof p then -1
        else if num ≥ atof newRange ∧ num ≤ atof p then 1
        else 0

/-- `string_replace(s, " ", "")` -/
def withoutBlanks (s : Text) : Text := s.filter (· != 32)

/-- The tokens of `strtok(s, ",")`. -/
def strtok (s : Text) : List Text := (s.splitOn 44).filter fun t => !t.isEmpty

/-- The loop over the tokens: the first answer other than 0 ends it. -/
def matchLoop (value : Int) : Int → List Text → Int
  | ret, [] => ret
  | _, tp :: tps =>
    let ret := jaNumberComp value tp
    if ret ≠ 0 then ret else matchLoop value ret tps

/-- `none` is NULL. mirrors src/jalibs/jastr.c:368-416 -/
def jaNumberMatch (string pattern : Option Text) : Int :=
  match string, pattern with
  | some string, some pattern =>
    if withoutBlanks string = [] ∨ withoutBlanks pattern = [] then 0
    else if jaIsNumber (withoutBlanks string) = false then -1
    else matchLoop (atof (withoutBlanks string)) (-1) (strtok (withoutBlanks pattern))
  | _, _ => 0

/-- The exit code stops the job.
mirrors src/jobarg_server/jatrapper/jatrapjobresult.c:370-376, src/jobarg_session/jobarg_session.c:1181-1187 -/
def stops (returnCode : Int32) (stopCode : Option Text) : Bool :=
  jaNumberMatch (some (intText returnCode.toInt)) stopCode ≠ 0

/-! ## What a stop code lists -/

/-- A number. -/
def IsGroup (g : Text) : Prop := g ≠ [] ∧ ∀ b ∈ g, isDigit b = true

/-- The element is the number `n` or a range around it. -/
def Covers (n : Int) (e : Text) : Prop :=
  (IsGroup e ∧ n = natVal e) ∨
    ∃ a b, e = a ++ 45 :: b ∧ IsGroup a ∧ IsGroup b ∧ (natVal a : Int) ≤ n ∧ n ≤ natVal b

def Listed (n : Int) (pattern : Text) : Prop := ∃ e ∈ pattern.splitOn 44, Covers n e

/-- The element has two hyphens, or is a range from a number to a lesser one. -/
def Malformed (e : Text) : Prop :=
  1 < e.count 45 ∨ ∃ a b, e = a ++ 45 :: b ∧ IsGroup a ∧ IsGroup b ∧ atof b < atof a

/-- A job with this stop code stops exactly for the codes it lists. -/
structure StopsExactly (n : Int32) (pattern : Text) : Prop where
  listed : Listed n.toInt pattern → jaNumberMatch (some (intText n.toInt)) (some pattern) = 1
  other : ¬ Listed n.toInt pattern → jaNumberMatch (some (intText n.toInt)) (some pattern) = 0
  stop : stops n (some pattern) = true ↔ Listed n.toInt pattern

/-! ## One element -/

theorem IsGroup.notMem {g : Text} (h : IsGroup g) {c : UInt8} (hc : isDigit c = false) : c ∉ g := by
  intro hm
  simp [h.2 c hm] at hc

theorem IsGroup.head {g : Text} (h : IsGroup g) : ∃ c r, g = c :: r ∧ isDigit c = true := by
  obtain ⟨hne, hd⟩ := h
  cases g with
  | nil => exact absurd rfl hne
  | cons c r => exact ⟨c, r, rfl, hd c List.mem_cons_self⟩

theorem isDigit_ne {c d : UInt8} (h : isDigit c = true) (hd : isDigit d = false) : c ≠ d := by
  rintro rfl
  simp [h] at hd

theorem IsGroup.isNumber {g : Text} (h : IsGroup g) : jaIsNumber g = true := by
  obtain ⟨c, r, rfl, hc⟩ := h.head
  have hdrop : (c :: r).dropWhile isDigit = [] := List.dropWhile_eq_nil_iff.2 h.2
  have hminus : c ≠ 45 := isDigit_ne hc (by decide)
  simp [jaIsNumber, hminus, hdrop, List.takeWhile_eq_self_iff.2 h.2]

/-- A hyphen after digits is not part of a number. -/
theorem isNumber_hyphen {g rest : Text} (h : IsGroup g) : jaIsNumber (g ++ 45 :: rest) = false := by
  obtain ⟨c, r, rfl, hc⟩ := h.head
  have hminus : c ≠ 45 := isDigit_ne hc (by decide)
  have hhyphen : isDigit 45 = false := by decide
  have hdrop : ((c :: r) ++ 45 :: rest).dropWhile isDigit = 45 :: rest := by
    rw [List.dropWhile_append_of_pos h.2, List.dropWhile_cons_of_neg (by simp [hhyphen])]
  simp only [List.cons_append] at hdrop ⊢
  simp [jaIsNumber, hminus, hdrop, hhyphen]

/-- Up to its first hyphen an element is the digits before it. -/
theorem takeWhile_group {c : UInt8} {r : Text} (h : IsGroup (c :: r)) (rest : Text) :
    (r ++ 45 :: rest).takeWhile (· != 45) = r ∧ (r ++ 45 :: rest).dropWhile (· != 45) = 45 :: rest := by
  have hr : ∀ b ∈ r, (b != 45) = true := by
    intro b hb
    simpa using isDigit_ne (h.2 b (List.mem_cons_of_mem _ hb)) (by decide : isDigit 45 = false)
  constructor
  · rw [List.takeWhile_append_of_pos hr]; simp
  · rw [List.dropWhile_append_of_pos hr]; simp

theorem comp_number (num : Int) {g : Text} (h : IsGroup g) :
    jaNumberComp num g = if num = atof g then 1 else 0 := by
  obtain ⟨c, r, rfl, -⟩ := h.head
  have hr : ∀ b ∈ r, (b != 45) = true := by
    intro b hb
    simpa using isDigit_ne (h.2 b (List.mem_cons_of_mem _ hb)) (by decide : isDigit 45 = false)
  simp [jaNumberComp, List.takeWhile_eq_self_iff.2 hr, List.dropWhile_eq_nil_iff.2 hr, h.isNumber]

theorem comp_range (num : Int) {a b : Text} (ha : IsGroup a) (hb : IsGroup b) :
    jaNumberComp num (a ++ 45 :: b) =
      if atof a > atof b then -1 else if num ≥ atof a ∧ num ≤ atof b then 1 else 0 := by
  obtain ⟨c, r, rfl, -⟩ := ha.head
  obtain ⟨htake, hdrop⟩ := takeWhile_group ha b
  simp [jaNumberComp, htake, hdrop, ha.isNumber, hb.isNumber]

theorem comp_two_hyphens (num : Int) {a b rest : Text} (ha : IsGroup a) (hb : IsGroup b) :
    jaNumberComp num (a ++ 45 :: (b ++ 45 :: rest)) = -1 := by
  obtain ⟨c, r, rfl, -⟩ := ha.head
  obtain ⟨htake, hdrop⟩ := takeWhile_group ha (b ++ 45 :: rest)
  simp [jaNumberComp, htake, hdrop, isNumber_hyphen hb]

/-! ## The elements the editor accepts -/

/-- Splitting at either separator is splitting at one and then at the other. -/
theorem splitOnP_or (p q : UInt8 → Bool) (s : Text) :
    s.splitOnP (fun b => p b || q b) = (s.splitOnP p).flatMap (·.splitOnP q) := by
  induction s with
  | nil => simp
  | cons x s ih =>
    obtain ⟨h, t, hs⟩ := List.exists_cons_of_ne_nil (List.splitOnP_ne_nil p s)
    obtain ⟨h', t', hs'⟩ := List.exists_cons_of_ne_nil (List.splitOnP_ne_nil q h)
    rw [List.splitOnP_cons_eq_if_modifyHead, List.splitOnP_cons_eq_if_modifyHead (p := p), ih, hs]
    by_cases hp : p x
    · simp [hp]
    · by_cases hq : q x <;> simp [hp, hq, List.splitOnP_cons_eq_if_modifyHead, hs']

/-- Each element of an accepted stop code is made of numbers. -/
theorem accepted_groups {pattern e : Text} (h : isHankakuNumBeforeOrAfterCommaAndHyphen pattern = true)
    (hne : pattern ≠ []) (he : e ∈ pattern.splitOn 44) : ∀ g ∈ e.splitOn 45, IsGroup g := by
  intro g hg
  have hall : ∀ g ∈ pattern.splitOnP (fun b => b == 44 || b == 45), IsGroup g := by
    simpa [isHankakuNumBeforeOrAfterCommaAndHyphen, hne, isHankakuNum, IsGroup] using h
  apply hall
  rw [splitOnP_or, List.mem_flatMap]
  exact ⟨e, he, hg⟩

/-- An element is a number, a range, or has a second hyphen. -/
theorem element_cases {e : Text} (h : ∀ g ∈ e.splitOn 45, IsGroup g) :
    IsGroup e ∨ (∃ a b, e = a ++ 45 :: b ∧ IsGroup a ∧ IsGroup b) ∨
      ∃ a b rest, e = a ++ 45 :: (b ++ 45 :: rest) ∧ IsGroup a ∧ IsGroup b := by
  have hback : [45].intercalate (e.splitOn 45) = e := List.intercalate_splitOn 45
  cases hs : e.splitOn 45 with
  | nil => exact absurd hs (List.splitOn_ne_nil 45 e)
  | cons a gs =>
    rw [hs] at h hback
    cases gs with
    | nil => left; simpa [← hback] using h a
    | cons b gs =>
      have ha : IsGroup a := h a (by simp)
      have hb : IsGroup b := h b (by simp)
      cases gs with
      | nil => right; left; exact ⟨a, b, by simp [← hback], ha, hb⟩
      | cons c gs =>
        right; right
        exact ⟨a, b, [45].intercalate (c :: gs), by simp [← hback], ha, hb⟩

theorem count_group {g : Text} (h : IsGroup g) : g.count 45 = 0 :=
  List.count_eq_zero.2 (h.notMem (by decide))

theorem range_inj {a b a' b' : Text} (ha : IsGroup a) (ha' : IsGroup a') :
    a ++ 45 :: b = a' ++ 45 :: b' ↔ a = a' ∧ b = b' := by
  have hd : isDigit 45 = false := by decide
  constructor
  · intro h
    obtain ⟨h1, h2⟩ := List.append_inj h (by
      have h1 := congrArg (List.idxOf 45) h
      rwa [List.idxOf_append_of_notMem (ha.notMem hd), List.idxOf_append_of_notMem (ha'.notMem hd),
        List.idxOf_cons_self, List.idxOf_cons_self, Nat.add_zero, Nat.add_zero] at h1)
    exact ⟨h1, (List.cons.inj h2).2⟩
  · rintro ⟨rfl, rfl⟩; rfl

theorem count_range {a b : Text} (ha : IsGroup a) (hb : IsGroup b) : (a ++ 45 :: b).count 45 = 1 := by
  simp [count_group ha, count_group hb]

/-- An `int` is a double. -/
theorem atof_intText {n : Int} (hlo : -2 ^ 53 < n) (hhi : n < 2 ^ 53) : atof (intText n) = n * Double.one := by
  have hd : ∀ m, ∀ b ∈ digits m, isDigit b = true := fun _ _ => Sql.isDigit_of_mem_digits
  cases n with
  | ofNat m =>
    rw [Int.ofNat_eq_natCast] at *
    rw [intText_natCast, Double.atof_digits (hd m), Sql.natVal_digits, Double.ofDecimal_exact (by omega), Nat.cast_mul]
  | negSucc m =>
    rw [Int.negSucc_eq] at *
    have hm : -((m : Int) + 1) = -((m + 1 : Nat) : Int) := by omega
    rw [hm, intText_neg, Double.atof_minus_digits (hd _), Sql.natVal_digits, Double.ofDecimal_exact (by omega),
      Nat.cast_mul, Int.neg_mul]

/-- What one accepted element answers. -/
theorem jaNumberComp_accepted {n : Int} (hn : n < 2 ^ 53) {e : Text} (h : ∀ g ∈ e.splitOn 45, IsGroup g) :
    (Malformed e ∧ jaNumberComp (n * Double.one) e = -1) ∨
      (¬ Malformed e ∧ Covers n e ∧ jaNumberComp (n * Double.one) e = 1) ∨
      (¬ Malformed e ∧ ¬ Covers n e ∧ jaNumberComp (n * Double.one) e = 0) := by
  have hd : isDigit 45 = false := by decide
  rcases element_cases h with hg | ⟨a, b, rfl, ha, hb⟩ | ⟨a, b, rest, rfl, ha, hb⟩
  · have hwell : ¬ Malformed e := by
      rintro (hc | ⟨a, b, rfl, -⟩)
      · rw [count_group hg] at hc; omega
      · exact hg.notMem hd (by simp)
    have hcovers : Covers n e ↔ n = natVal e := by
      constructor
      · rintro (hc | ⟨a, b, rfl, -⟩)
        · exact hc.2
        · exact absurd (by simp) (hg.notMem (c := 45) hd)
      · exact fun hc => .inl ⟨hg, hc⟩
    rw [comp_number _ hg, Double.atof_digits hg.2, hcovers]
    simp only [Double.ofDecimal_eq_iff hn]
    by_cases hv : n = natVal e <;> simp [hv, hwell]
  · have hmal : Malformed (a ++ 45 :: b) ↔ atof b < atof a := by
      constructor
      · rintro (hc | ⟨a', b', he, ha', -, hlt⟩)
        · rw [count_range ha hb] at hc; omega
        · obtain ⟨rfl, rfl⟩ := (range_inj ha ha').1 he
          exact hlt
      · exact fun hlt => .inr ⟨a, b, rfl, ha, hb, hlt⟩
    have hcovers : Covers n (a ++ 45 :: b) ↔ (natVal a : Int) ≤ n ∧ n ≤ natVal b := by
      constructor
      · rintro (hc | ⟨a', b', he, ha', -, hv⟩)
        · exact absurd (by simp) (hc.1.notMem (c := 45) hd)
        · obtain ⟨rfl, rfl⟩ := (range_inj ha ha').1 he
          exact hv
      · exact fun hv => .inr ⟨a, b, rfl, ha, hb, hv⟩
    rw [comp_range _ ha hb, hmal, hcovers]
    by_cases hlt : atof b < atof a
    · simp [hlt]
    · have hrange : n * Double.one ≥ atof a ∧ n * Double.one ≤ atof b ↔ (natVal a : Int) ≤ n ∧ n ≤ natVal b := by
        rw [Double.atof_digits ha.2, Double.atof_digits hb.2]
        exact and_congr (Double.ofDecimal_le_iff hn) (Double.le_ofDecimal_iff hn)
      simp only [gt_iff_lt, hlt, if_false, hrange]
      by_cases hv : (natVal a : Int) ≤ n ∧ n ≤ natVal b <;> simp [hv]
  · have hmal : Malformed (a ++ 45 :: (b ++ 45 :: rest)) := by
      left
      simp only [List.count_append, List.count_cons_self]
      omega
    exact .inl ⟨hmal, comp_two_hyphens _ ha hb⟩

/-! ## The whole stop code -/

/-- Before each malformed element stands one that lists the code. -/
def Shielded (n : Int) (es : List Text) : Prop :=
  ∀ pre e post, es = pre ++ e :: post → Malformed e → ∃ e' ∈ pre, Covers n e'

theorem shielded_cons {n : Int} {e : Text} {es : List Text} (hm : ¬ Malformed e) (hc : ¬ Covers n e) :
    Shielded n (e :: es) ↔ Shielded n es := by
  constructor
  · rintro h pre x post rfl hx
    obtain ⟨e', he', hcov⟩ := h (e :: pre) x post rfl hx
    rcases List.mem_cons.1 he' with rfl | hin
    · exact absurd hcov hc
    · exact ⟨e', hin, hcov⟩
  · intro h pre x post heq hx
    cases pre with
    | nil => exact absurd ((List.cons.inj heq).1 ▸ hx) hm
    | cons y pre =>
      obtain ⟨e', he', hcov⟩ := h pre x post (List.cons.inj heq).2 hx
      exact ⟨e', List.mem_cons_of_mem _ he', hcov⟩

theorem matchLoop_stop {value ret ans : Int} {tp : Text} {tps : List Text} (h : jaNumberComp value tp = ans)
    (ha : ans ≠ 0) : matchLoop value ret (tp :: tps) = ans := by
  rw [matchLoop, h, if_pos ha]

theorem matchLoop_next {value ret : Int} {tp : Text} {tps : List Text} (h : jaNumberComp value tp = 0) :
    matchLoop value ret (tp :: tps) = matchLoop value 0 tps := by
  rw [matchLoop, h, if_neg (by simp)]

/-- The loop answers as the list says exactly when nothing malformed is met
first: by induction on the elements not yet compared. -/
theorem matchLoop_iff {n : Int} (hn : n < 2 ^ 53) {es : List Text} (h : ∀ e ∈ es, ∀ g ∈ e.splitOn 45, IsGroup g) :
    ((∃ e ∈ es, Covers n e) → matchLoop (n * Double.one) 0 es = 1) ∧
        (¬ (∃ e ∈ es, Covers n e) → matchLoop (n * Double.one) 0 es = 0) ↔ Shielded n es := by
  induction es with
  | nil => simp [matchLoop, Shielded]
  | cons e es ih =>
    have ih := ih fun x hx => h x (List.mem_cons_of_mem _ hx)
    rcases jaNumberComp_accepted hn (h e List.mem_cons_self) with ⟨hm, he⟩ | ⟨hm, hc, he⟩ | ⟨hm, hc, he⟩
    · have hopen : ¬ Shielded n (e :: es) := by
        intro hs
        obtain ⟨e', he', -⟩ := hs [] e es rfl hm
        exact absurd he' List.not_mem_nil
      have hloop : matchLoop (n * Double.one) 0 (e :: es) = -1 := matchLoop_stop he (by decide)
      rw [hloop]
      simp only [hopen, iff_false]
      rintro ⟨h1, h0⟩
      by_cases hl : ∃ e' ∈ e :: es, Covers n e'
      · exact absurd (h1 hl) (by decide)
      · exact absurd (h0 hl) (by decide)
    · have hloop : matchLoop (n * Double.one) 0 (e :: es) = 1 := matchLoop_stop he (by decide)
      have hs : Shielded n (e :: es) := by
        intro pre x post heq hx
        cases pre with
        | nil => exact absurd ((List.cons.inj heq).1 ▸ hx) hm
        | cons y pre => exact ⟨y, List.mem_cons_self, (List.cons.inj heq).1 ▸ hc⟩
      rw [hloop]
      exact iff_of_true ⟨fun _ => rfl, fun hno => absurd ⟨e, List.mem_cons_self, hc⟩ hno⟩ hs
    · have hloop : matchLoop (n * Double.one) 0 (e :: es) = matchLoop (n * Double.one) 0 es := matchLoop_next he
      have hrest : (∃ x ∈ e :: es, Covers n x) ↔ ∃ x ∈ es, Covers n x := by simp [hc]
      rw [hloop, shielded_cons hm hc, hrest]
      exact ih

theorem mem_splitOnP {p : UInt8 → Bool} {b : UInt8} {s : Text} (h : b ∈ s) :
    p b = true ∨ ∃ g ∈ s.splitOnP p, b ∈ g := by
  induction s with
  | nil => exact absurd h List.not_mem_nil
  | cons x s ih =>
    obtain ⟨g, gs, hs⟩ := List.exists_cons_of_ne_nil (List.splitOnP_ne_nil p s)
    rw [List.splitOnP_cons_eq_if_modifyHead, hs]
    rw [hs] at ih
    by_cases hx : p x = true
    · rcases List.mem_cons.1 h with rfl | hin
      · exact .inl hx
      · rcases ih hin with hb | ⟨g', hg', hb⟩
        · exact .inl hb
        · exact .inr ⟨g', by simpa [hx] using .inr (List.mem_cons.1 hg'), hb⟩
    · rcases List.mem_cons.1 h with rfl | hin
      · exact .inr ⟨b :: g, by simp [hx], List.mem_cons_self⟩
      · rcases ih hin with hb | ⟨g', hg', hb⟩
        · exact .inl hb
        · rcases List.mem_cons.1 hg' with rfl | hg'
          · exact .inr ⟨x :: g', by simp [hx], List.mem_cons_of_mem _ hb⟩
          · exact .inr ⟨g', by simp [hx, hg'], hb⟩

theorem withoutBlanks_digits {s : Text} (h : ∀ b ∈ s, b ≠ 32) : withoutBlanks s = s :=
  List.filter_eq_self.2 fun b hb => by simpa using h b hb

theorem accepted_noBlank {pattern : Text} (h : isHankakuNumBeforeOrAfterCommaAndHyphen pattern = true) :
    withoutBlanks pattern = pattern := by
  refine withoutBlanks_digits fun b hb => ?_
  have hne : pattern ≠ [] := List.ne_nil_of_mem hb
  have hall : ∀ g ∈ pattern.splitOnP (fun b => b == 44 || b == 45), IsGroup g := by
    simpa [isHankakuNumBeforeOrAfterCommaAndHyphen, hne, isHankakuNum, IsGroup] using h
  rcases mem_splitOnP (p := fun b => b == 44 || b == 45) hb with hsep | ⟨g, hg, hbg⟩
  · rintro rfl
    exact absurd hsep (by decide)
  · exact isDigit_ne ((hall g hg).2 b hbg) (by decide)

/-- No element of an accepted stop code is empty, so `strtok` skips none. -/
theorem strtok_accepted {pattern : Text} (h : isHankakuNumBeforeOrAfterCommaAndHyphen pattern = true)
    (hne : pattern ≠ []) : strtok pattern = pattern.splitOn 44 := by
  refine List.filter_eq_self.2 fun e he => ?_
  have hg := accepted_groups h hne he
  cases e with
  | nil => exact absurd rfl (hg [] (by simp)).1
  | cons b e => rfl

theorem intText_noBlank (n : Int) : withoutBlanks (intText n) = intText n := by
  have hd : ∀ m, ∀ b ∈ digits m, b ≠ 32 := fun m b hb => isDigit_ne (Sql.isDigit_of_mem_digits hb) (by decide)
  refine withoutBlanks_digits fun b hb => ?_
  cases n with
  | ofNat m =>
    rw [Int.ofNat_eq_natCast, intText_natCast] at hb
    exact hd m b hb
  | negSucc m =>
    rw [Int.negSucc_eq, show -((m : Int) + 1) = -((m + 1 : Nat) : Int) by omega, intText_neg] at hb
    rcases List.mem_cons.1 hb with rfl | hb
    · decide
    · exact hd _ b hb

theorem intText_isNumber (n : Int) : jaIsNumber (intText n) = true := by
  have hg : ∀ m, IsGroup (digits m) := fun m => ⟨Sql.digits_ne_nil m, fun _ => Sql.isDigit_of_mem_digits⟩
  cases n with
  | ofNat m =>
    rw [Int.ofNat_eq_natCast, intText_natCast]
    exact (hg m).isNumber
  | negSucc m =>
    rw [Int.negSucc_eq, show -((m : Int) + 1) = -((m + 1 : Nat) : Int) by omega, intText_neg]
    have hdrop : (digits (m + 1)).dropWhile isDigit = [] := List.dropWhile_eq_nil_iff.2 (hg _).2
    simp [jaIsNumber, hdrop, List.takeWhile_eq_self_iff.2 (hg (m + 1)).2, Sql.digits_ne_nil]

theorem intText_ne_nil (n : Int) : intText n ≠ [] := by
  intro h
  have := intText_isNumber n
  rw [h] at this
  exact absurd this (by decide)

/-- An accepted stop code that is not empty is compared element by element. -/
theorem jaNumberMatch_accepted (n : Int32) {pattern : Text}
    (h : isHankakuNumBeforeOrAfterCommaAndHyphen pattern = true) (hne : pattern ≠ []) :
    jaNumberMatch (some (intText n.toInt)) (some pattern) =
      matchLoop (n.toInt * Double.one) 0 (pattern.splitOn 44) := by
  have hlo := n.le_toInt
  have hhi := n.toInt_lt
  simp only [jaNumberMatch, intText_noBlank, accepted_noBlank h, intText_ne_nil, hne, or_self, if_false,
    intText_isNumber, strtok_accepted h hne, atof_intText (n := n.toInt) (by omega) (by omega)]
  cases hs : pattern.splitOn 44 with
  | nil => exact absurd hs (List.splitOn_ne_nil 44 pattern)
  | cons e es => rfl

/-- Without a stop code nothing stops the job. -/
theorem stopsExactly_nil (n : Int32) : StopsExactly n [] ∧ Shielded n.toInt (([] : Text).splitOn 44) := by
  have hno : ∀ m, ¬ Covers m [] := by
    rintro m (⟨hg, -⟩ | ⟨a, b, he, -⟩)
    · exact hg.1 rfl
    · simp at he
  have hun : ¬ Listed n.toInt [] := by simp [Listed, hno]
  have hzero : jaNumberMatch (some (intText n.toInt)) (some []) = 0 := by simp [jaNumberMatch, withoutBlanks]
  refine ⟨⟨fun hl => absurd hl hun, fun _ => hzero, by simp [stops, hzero, hun]⟩, ?_⟩
  intro pre e post heq hm
  have he : e = [] := by
    have : e ∈ ([] : Text).splitOn 44 := by rw [heq]; simp
    simpa using this
  subst he
  rcases hm with hc | ⟨a, b, he, -⟩
  · simp at hc
  · simp at he

/-- A job with an accepted stop code stops exactly for the codes it lists, if
and only if before each element with two hyphens, and before each range that
runs down, an element lists the exit code. -/
theorem stops_exactly_iff (n : Int32) (pattern : Text)
    (h : isHankakuNumBeforeOrAfterCommaAndHyphen pattern = true) :
    StopsExactly n pattern ↔ Shielded n.toInt (pattern.splitOn 44) := by
  by_cases hne : pattern = []
  · subst hne
    exact iff_of_true (stopsExactly_nil n).1 (stopsExactly_nil n).2
  have hhi := n.toInt_lt
  have hloop := matchLoop_iff (n := n.toInt) (by omega) fun e he => accepted_groups h hne he
  rw [← jaNumberMatch_accepted n h hne] at hloop
  rw [← hloop]
  constructor
  · exact fun hs => ⟨hs.listed, hs.other⟩
  · rintro ⟨h1, h0⟩
    refine ⟨h1, h0, ?_⟩
    by_cases hl : Listed n.toInt pattern
    · simp [stops, h1 hl, hl]
    · simp [stops, h0 hl, hl]

/-- `1,5-3` stops the job for the exit code 1, which comes first. -/
theorem stops_exactly_one :
    isHankakuNumBeforeOrAfterCommaAndHyphen (ascii "1,5-3") = true ∧ StopsExactly 1 (ascii "1,5-3") := by
  have ha : isHankakuNumBeforeOrAfterCommaAndHyphen (ascii "1,5-3") = true := by decide
  refine ⟨ha, (stops_exactly_iff 1 (ascii "1,5-3") ha).2 ?_⟩
  have hone : IsGroup [49] := ⟨by simp, by simp [isDigit]⟩
  intro pre e post heq hm
  rw [show (ascii "1,5-3").splitOn 44 = [[49], [53, 45, 51]] by decide] at heq
  cases pre with
  | nil =>
    obtain ⟨rfl, -⟩ := List.cons.inj heq
    rcases hm with hc | ⟨a, b, he, -⟩
    · exact absurd hc (by decide)
    · exact absurd (he ▸ by simp) (hone.notMem (c := 45) (by decide))
  | cons y pre =>
    obtain ⟨rfl, -⟩ := List.cons.inj heq
    exact ⟨[49], List.mem_cons_self, .inl ⟨hone, by decide⟩⟩

/-- A range that runs down stops the job for an exit code that is not listed. -/
theorem range_down_stops :
    isHankakuNumBeforeOrAfterCommaAndHyphen (ascii "5-3") = true ∧ ¬ Listed 0 (ascii "5-3") ∧
      jaNumberMatch (some (intText (0 : Int32).toInt)) (some (ascii "5-3")) = -1 ∧
      stops 0 (some (ascii "5-3")) = true ∧ ¬ StopsExactly 0 (ascii "5-3") := by
  have hfive : IsGroup [53] := ⟨by simp, by simp [isDigit]⟩
  have hlisted : ¬ Listed 0 (ascii "5-3") := by
    rintro ⟨e, he, hc⟩
    rw [show (ascii "5-3").splitOn 44 = [[53] ++ 45 :: [51]] by decide, List.mem_singleton] at he
    subst he
    rcases hc with hg | ⟨a, b, he, ha, -, hle, -⟩
    · exact hg.1.notMem (c := 45) (by decide) (by simp)
    · obtain ⟨rfl, rfl⟩ := (range_inj hfive ha).1 he
      exact absurd hle (by decide)
  have hstop : stops 0 (some (ascii "5-3")) = true := by decide +kernel
  exact ⟨by decide, hlisted, by decide +kernel, hstop, fun hs => hlisted (hs.stop.1 hstop)⟩

/-! ## The trapper -/

/-- The trapper ends a job by its code, compared by `ja_number_match`:
normally exactly when the code is not listed. -/
theorem verdict_listed {codes : StopCodes} {job : JobResult} {row : Job} {n : Int32} {code : Text}
    (hm : codes.numberMatch = fun s p => jaNumberMatch (some s) (some p)) (hj : JudgedByCode job row)
    (ht : row.jobType = .job) (hn : job.returnCode = n.toInt) (hc : codes.code job.jobid = some code)
    (hs : StopsExactly n code) (db : ServerDb) :
    ((verdict codes job row).clean db).2 = .normal ↔ ¬ Listed n.toInt code := by
  have hstop : stops n (some code) = true ↔ jaNumberMatch (some (intText n.toInt)) (some code) ≠ 0 := by
    simp [stops]
  rw [verdict_normal, NormalEnd, and_iff_right hj, ← hs.stop, hstop]
  simp [goodCode, ht, hn, hc, hm]

end JobArranger.StopCode
