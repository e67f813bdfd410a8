import Mathlib.Data.List.Basic
import Mathlib.Data.List.Infix
import Mathlib.Data.List.TakeWhile
import Mathlib.Tactic.Ring

/-!
# One SQL statement of literals

`replace into t values (v, …, v)` as SQLite reads it when every value is a
literal of its column's type: an integer, or a string between single quotes
with each quote inside doubled. Blanks and comments stand between tokens.

* `strBody_escape`, `escape_of_strBody`: a string literal is the escaped
  text and its closing quote, and nothing else.
* `values_cons`, `values_last`: the list is read value by value, from what
  spells each (`Spells`).
* `values_spec`: the quotes of the values that were read, each doubled and
  with the two around it, are in the text.
-/
namespace Sql

/-- A stored value. `real` holds an integer that SQLite keeps as a double. -/
inductive Value where
  | null
  | int (i : Int)
  | real (i : Int)
  | text (s : List UInt8)
  deriving DecidableEq, Repr

/-- The declared type of a column. -/
inductive Kind where
  | integer
  | text
  deriving DecidableEq, Repr

abbrev Row := List Value

/-! ## Tokens -/

def isBlank (b : UInt8) : Bool := b == 32 || b == 9 || b == 10 || b == 12 || b == 13

def isDigit (b : UInt8) : Bool := 48 ≤ b && b ≤ 57

inductive Mode where
  | code
  | line
  | block
  deriving DecidableEq, Repr

/-- What is left after blanks, `--` comments and `/* */` comments. -/
def skip : Mode → List UInt8 → List UInt8
  | _, [] => []
  | .code, [b] => if isBlank b then [] else [b]
  | .line, [_] => []
  | .block, [_] => []
  | .code, b :: c :: s =>
    if b = 45 ∧ c = 45 then skip .line s
    else if b = 47 ∧ c = 42 then skip .block s
    else if isBlank b then skip .code (c :: s)
    else b :: c :: s
  | .line, b :: c :: s => if b = 10 then skip .code (c :: s) else skip .line (c :: s)
  | .block, b :: c :: s => if b = 42 ∧ c = 47 then skip .code s else skip .block (c :: s)

/-- The body of a string literal, after its opening quote: the value and
what follows the closing quote. -/
def strBody : List UInt8 → Option (List UInt8 × List UInt8)
  | [] => none
  | [b] => if b = 39 then some ([], []) else none
  | b :: c :: s =>
    if b = 39 then
      if c = 39 then (strBody s).map fun r => (39 :: r.1, r.2) else some ([], c :: s)
    else (strBody (c :: s)).map fun r => (b :: r.1, r.2)

/-- The value of a text of digits. -/
def natVal (ds : List UInt8) : Nat := ds.foldl (fun v b => 10 * v + (b.toNat - 48)) 0

/-- An unsigned integer and what follows it. -/
def number (s : List UInt8) : Option (Nat × List UInt8) :=
  if s.takeWhile isDigit = [] then none
  else some (natVal (s.takeWhile isDigit), s.dropWhile isDigit)

/-- The nearest double: 53 significant bits, ties to even. -/
def roundDouble (n : Nat) : Nat :=
  let unit := 2 ^ (n.log2 - 52)
  let q := n / unit
  let r := n % unit
  if 2 * r < unit ∨ (2 * r = unit ∧ q % 2 = 0) then q * unit else (q + 1) * unit

/-- An integer literal: beyond 64 bits it is a double. -/
def Value.ofInteger (i : Int) : Value :=
  if -2 ^ 63 ≤ i ∧ i < 2 ^ 63 then .int i else .real (i.sign * roundDouble i.natAbs)

/-- A literal of the kind at the start of the text. -/
def literal : Kind → List UInt8 → Option (Value × List UInt8)
  | .text, [] => none
  | .text, b :: s => if b = 39 then (strBody s).map fun r => (.text r.1, r.2) else none
  | .integer, s =>
    if s.head? = some 45 then (number s.tail).map fun r => (.ofInteger (-(r.1 : Int)), r.2)
    else (number s).map fun r => (.ofInteger (r.1 : Int), r.2)

/-! ## The statement -/

/-- The literals of the columns, up to the closing bracket. -/
def values : List Kind → List UInt8 → Option (Row × List UInt8)
  | [], _ => none
  | [k], s =>
    (literal k (skip .code s)).bind fun r =>
      if (skip .code r.2).head? = some 41 then some ([r.1], (skip .code r.2).tail) else none
  | k :: k' :: ks, s =>
    (literal k (skip .code s)).bind fun r =>
      if (skip .code r.2).head? = some 44 then
        (values (k' :: ks) (skip .code r.2).tail).map fun vs => (r.1 :: vs.1, vs.2)
      else none

/-- Nothing but blanks after the statement, or after its semicolon. -/
def atEnd (s : List UInt8) : Bool :=
  skip .code s = [] ∨ (skip .code s).head? = some 59 ∧ skip .code (skip .code s).tail = []

/-- The row of a text that is one statement with the head given, as
`replace into t values (`. -/
def statement (head : List UInt8) (kinds : List Kind) (sql : List UInt8) : Option Row :=
  if head.isPrefixOf sql then
    (values kinds (sql.drop head.length)).bind fun r => if atEnd r.2 then some r.1 else none
  else none

/-- `replace`, with the first column the primary key. -/
def replaceRow (rows : List Row) (row : Row) : List Row := rows.filter (·.head? != row.head?) ++ [row]

/-! ## Blanks -/

theorem skip_blank {b : UInt8} {s : List UInt8} (h : isBlank b = true) : skip .code (b :: s) = skip .code s := by
  have h45 : b ≠ 45 := by intro he; subst he; revert h; decide
  have h47 : b ≠ 47 := by intro he; subst he; revert h; decide
  cases s with
  | nil => simp [skip, h]
  | cons c s => simp [skip, h, h45, h47]

theorem skip_token {b : UInt8} {s : List UInt8} (h : isBlank b = false) (h45 : b ≠ 45) (h47 : b ≠ 47) :
    skip .code (b :: s) = b :: s := by
  cases s with
  | nil => simp [skip, h]
  | cons c s => simp [skip, h, h45, h47]

theorem skip_minus {c : UInt8} {s : List UInt8} (h : c ≠ 45) : skip .code (45 :: c :: s) = 45 :: c :: s := by
  simp [skip, h, isBlank]

theorem skip_digit {b : UInt8} {s : List UInt8} (h : isDigit b = true) : skip .code (b :: s) = b :: s := by
  have hb : 48 ≤ b.toNat ∧ b.toNat ≤ 57 := by
    simpa [isDigit, UInt8.le_iff_toNat_le] using h
  have hne : ∀ c : UInt8, c.toNat < 48 → b ≠ c := by
    intro c hc he
    subst he
    omega
  have hblank : isBlank b = false := by
    simp [isBlank, hne]
  exact skip_token hblank (hne _ (by decide)) (hne _ (by decide))

/-! ## String literals -/

/-- Each quote doubled. -/
def escape : List UInt8 → List UInt8
  | [] => []
  | b :: s => if b = 39 then 39 :: 39 :: escape s else b :: escape s

@[simp] theorem escape_nil : escape [] = [] := rfl

theorem escape_quote (s : List UInt8) : escape (39 :: s) = 39 :: 39 :: escape s := if_pos rfl

theorem escape_cons {b : UInt8} (h : b ≠ 39) (s : List UInt8) : escape (b :: s) = b :: escape s := if_neg h

theorem escape_of_not_mem {s : List UInt8} (h : 39 ∉ s) : escape s = s := by
  induction s with
  | nil => rfl
  | cons b s ih =>
    obtain ⟨hb, hs⟩ : 39 ≠ b ∧ 39 ∉ s := by simpa using h
    rw [escape_cons hb.symm, ih hs]

theorem strBody_other {b : UInt8} (h : b ≠ 39) (s : List UInt8) :
    strBody (b :: s) = (strBody s).map fun r => (b :: r.1, r.2) := by
  cases s with
  | nil => simp [strBody, h]
  | cons c s => simp [strBody, h]

theorem strBody_double (s : List UInt8) : strBody (39 :: 39 :: s) = (strBody s).map fun r => (39 :: r.1, r.2) := by
  simp [strBody]

theorem strBody_close {s : List UInt8} (h : s.head? ≠ some 39) : strBody (39 :: s) = some ([], s) := by
  cases s with
  | nil => simp [strBody]
  | cons c s =>
    have hc : c ≠ 39 := by simpa using h
    simp [strBody, hc]

theorem strBody_escape (v : List UInt8) {rest : List UInt8} (h : rest.head? ≠ some 39) :
    strBody (escape v ++ 39 :: rest) = some (v, rest) := by
  induction v with
  | nil => exact strBody_close h
  | cons b v ih =>
    by_cases hb : b = 39
    · subst hb
      rw [escape_quote, List.cons_append, List.cons_append, strBody_double, ih]
      rfl
    · rw [escape_cons hb, List.cons_append, strBody_other hb, ih]
      rfl

theorem escape_of_strBody {s v rest : List UInt8} (h : strBody s = some (v, rest)) :
    s = escape v ++ 39 :: rest := by
  fun_induction strBody s generalizing v with
  | case1 => cases h
  | case2 =>
    simp only [Option.some.injEq, Prod.mk.injEq] at h
    simp [← h.1, ← h.2]
  | case3 => cases h
  | case4 s ih =>
    obtain ⟨⟨v', rest'⟩, hr, heq⟩ := Option.map_eq_some_iff.1 h
    simp only [Prod.mk.injEq] at heq
    obtain ⟨rfl, rfl⟩ := heq
    rw [escape_quote, ih hr]
    rfl
  | case5 c s hc =>
    simp only [Option.some.injEq, Prod.mk.injEq] at h
    simp [← h.1, ← h.2]
  | case6 b c s hb ih =>
    obtain ⟨⟨v', rest'⟩, hr, heq⟩ := Option.map_eq_some_iff.1 h
    simp only [Prod.mk.injEq] at heq
    obtain ⟨rfl, rfl⟩ := heq
    rw [escape_cons hb, ih hr]
    rfl

theorem count_quote_escape (v : List UInt8) : (escape v).count 39 = 2 * v.count 39 := by
  induction v with
  | nil => rfl
  | cons b v ih =>
    by_cases hb : b = 39
    · subst hb
      rw [escape_quote, List.count_cons_self, List.count_cons_self, List.count_cons_self, ih]
      omega
    · rw [escape_cons hb, List.count_cons_of_ne hb, List.count_cons_of_ne hb, ih]

/-! ## Integers -/

/-- A text of the digits of `n`. -/
def digits (n : Nat) : List UInt8 := (Nat.toDigits 10 n).map fun c => UInt8.ofNat c.toNat

theorem digits_ne_nil (n : Nat) : digits n ≠ [] := by simp [digits, Nat.toDigits_ne_nil]

theorem isDigit_ofNat {c : Char} (h : c.isDigit = true) :
    isDigit (UInt8.ofNat c.toNat) = true ∧ (UInt8.ofNat c.toNat).toNat - 48 = c.toNat - '0'.toNat := by
  have hc : 48 ≤ c.toNat ∧ c.toNat ≤ 57 := by
    unfold Char.isDigit at h
    simp only [Bool.and_eq_true, decide_eq_true_eq, UInt32.le_iff_toNat_le] at h
    exact h
  have ht : (UInt8.ofNat c.toNat).toNat = c.toNat := by
    rw [UInt8.toNat_ofNat']
    omega
  refine ⟨?_, by rw [ht]; rfl⟩
  simp [isDigit, UInt8.le_iff_toNat_le, ht, hc]

theorem isDigit_of_mem_digits {n : Nat} {b : UInt8} (h : b ∈ digits n) : isDigit b = true := by
  obtain ⟨c, hc, rfl⟩ := List.mem_map.1 h
  exact (isDigit_ofNat (Nat.isDigit_of_mem_toDigits (by omega) (by omega) hc)).1

theorem natVal_digits (n : Nat) : natVal (digits n) = n := by
  have hfold : ∀ (l : List Char) (v : Nat), (∀ c ∈ l, c.isDigit = true) →
      (l.map fun c => UInt8.ofNat c.toNat).foldl (fun v b => 10 * v + (b.toNat - 48)) v = Nat.ofDigitChars 10 l v := by
    intro l
    induction l with
    | nil => intro v _; rfl
    | cons c l ih =>
      intro v hl
      rw [List.map_cons, List.foldl_cons, (isDigit_ofNat (hl c (by simp))).2, Nat.ofDigitChars_cons]
      exact ih _ fun c hc => hl c (by simp [hc])
  rw [natVal, digits, hfold _ _ fun c hc => Nat.isDigit_of_mem_toDigits (by omega) (by omega) hc,
    Nat.ofDigitChars_ten_toDigits]

theorem isDigit_bounds {b : UInt8} (h : isDigit b = true) : 48 ≤ b.toNat ∧ b.toNat ≤ 57 := by
  simpa [isDigit, UInt8.le_iff_toNat_le] using h

theorem natVal_concat (s : List UInt8) (b : UInt8) : natVal (s ++ [b]) = 10 * natVal s + (b.toNat - 48) := by
  rw [natVal, List.foldl_append]
  rfl

theorem natVal_zeros (k : Nat) (s : List UInt8) : natVal (List.replicate k 48 ++ s) = natVal s := by
  induction k with
  | zero => rfl
  | succ k ih => exact ih

theorem natVal_lt {s : List UInt8} (h : ∀ b ∈ s, isDigit b = true) : natVal s < 10 ^ s.length := by
  induction s using List.reverseRecOn with
  | nil => simp [natVal]
  | append_singleton s b ih =>
    have hs := ih fun c hc => h c (List.mem_append_left _ hc)
    obtain ⟨-, hb⟩ := isDigit_bounds (h b (by simp))
    rw [natVal_concat, List.length_append, List.length_singleton, pow_succ]
    omega

/-- Digit texts of one length are their value. -/
theorem natVal_inj {s t : List UInt8} (hs : ∀ b ∈ s, isDigit b = true) (ht : ∀ b ∈ t, isDigit b = true)
    (hl : s.length = t.length) (hv : natVal s = natVal t) : s = t := by
  induction s using List.reverseRecOn generalizing t with
  | nil => exact (List.length_eq_zero_iff.1 hl.symm).symm
  | append_singleton s b ih =>
    obtain rfl | ⟨t, c, rfl⟩ := List.eq_nil_or_concat t
    · simp at hl
    obtain ⟨hb, hb'⟩ := isDigit_bounds (hs b (by simp))
    obtain ⟨hc, hc'⟩ := isDigit_bounds (ht c (by simp))
    rw [List.concat_eq_append] at ht hl hv ⊢
    rw [natVal_concat, natVal_concat] at hv
    have hrest : s = t := by
      apply ih (fun d hd => hs d (List.mem_append_left _ hd)) (fun d hd => ht d (List.mem_append_left _ hd))
      · simpa using hl
      · omega
    have hlast : b = c := UInt8.toNat_inj.1 (by omega)
    rw [hrest, hlast]

theorem length_digits_le {w n : Nat} (hw : 0 < w) (h : n < 10 ^ w) : (digits n).length ≤ w := by
  rw [digits, List.length_map]
  exact (Nat.length_toDigits_le_iff (by omega) hw).2 h

/-- Digits are the text of their value, filled up with zeros. -/
theorem zeros_digits {s : List UInt8} (h : ∀ b ∈ s, isDigit b = true) (hne : s ≠ []) :
    List.replicate (s.length - (digits (natVal s)).length) 48 ++ digits (natVal s) = s := by
  have hlen : (digits (natVal s)).length ≤ s.length := length_digits_le (List.length_pos_iff.2 hne) (natVal_lt h)
  apply natVal_inj
  · intro b hb
    obtain hz | hd := List.mem_append.1 hb
    · rw [List.eq_of_mem_replicate hz]
      rfl
    · exact isDigit_of_mem_digits hd
  · exact h
  · rw [List.length_append, List.length_replicate]
    omega
  · rw [natVal_zeros, natVal_digits]

/-- What may follow a literal: no digit, which would prolong a number, and
no quote, which would prolong a string. -/
def Stops (s : List UInt8) : Prop := ∀ b, s.head? = some b → isDigit b = false ∧ b ≠ 39

theorem number_digits (n : Nat) {rest : List UInt8} (h : Stops rest) :
    number (digits n ++ rest) = some (n, rest) := by
  have hd : ∀ b ∈ digits n, isDigit b = true := fun b => isDigit_of_mem_digits
  have htake : (digits n ++ rest).takeWhile isDigit = digits n := by
    rw [List.takeWhile_append_of_pos hd]
    cases rest with
    | nil => simp
    | cons b rest => simp [(h b rfl).1]
  have hdrop : (digits n ++ rest).dropWhile isDigit = rest := by
    rw [List.dropWhile_append_of_pos hd]
    cases rest with
    | nil => rfl
    | cons b rest => simp [(h b rfl).1]
  rw [number, htake, hdrop, if_neg (digits_ne_nil n), natVal_digits]

/-! ## Reading the list -/

/-- The text is a literal of the value. -/
def Spells (k : Kind) (t : List UInt8) (v : Value) : Prop :=
  ∀ rest, Stops rest → literal k (skip .code (t ++ rest)) = some (v, rest)

theorem spells_text (v : List UInt8) : Spells .text (39 :: escape v ++ [39]) (.text v) := by
  intro rest hrest
  have hhead : rest.head? ≠ some 39 := fun h => (hrest 39 h).2 rfl
  have heq : (39 :: escape v ++ [39]) ++ rest = 39 :: (escape v ++ 39 :: rest) := by simp
  rw [heq, skip_token (by decide) (by decide) (by decide), literal, if_pos rfl, strBody_escape v hhead]
  rfl

theorem spells_digits (n : Nat) : Spells .integer (digits n) (.ofInteger n) := by
  intro rest hrest
  obtain ⟨b, ds, hds⟩ := List.exists_cons_of_ne_nil (digits_ne_nil n)
  have hb : isDigit b = true := isDigit_of_mem_digits (n := n) (by simp [hds])
  have h45 : b ≠ 45 := by intro he; subst he; revert hb; decide
  have hskip : skip .code (digits n ++ rest) = digits n ++ rest := by
    rw [hds, List.cons_append, skip_digit hb]
  rw [hskip, literal, if_neg (by simpa [hds] using h45), number_digits n hrest]
  rfl

theorem spells_negative (n : Nat) : Spells .integer (45 :: digits n) (.ofInteger (-(n : Int))) := by
  intro rest hrest
  obtain ⟨b, ds, hds⟩ := List.exists_cons_of_ne_nil (digits_ne_nil n)
  have hb : isDigit b = true := isDigit_of_mem_digits (n := n) (by simp [hds])
  have h45 : b ≠ 45 := by intro he; subst he; revert hb; decide
  have hskip : skip .code (45 :: digits n ++ rest) = 45 :: (digits n ++ rest) := by
    rw [hds, List.cons_append, List.cons_append, skip_minus h45]
  rw [hskip, literal, List.head?_cons, if_pos rfl, List.tail_cons, number_digits n hrest]
  rfl

theorem stops_cons {b : UInt8} {s : List UInt8} (hd : isDigit b = false) (hq : b ≠ 39) : Stops (b :: s) := by
  intro c hc
  obtain rfl : b = c := by simpa using hc
  exact ⟨hd, hq⟩

theorem values_blank (ks : List Kind) (s : List UInt8) : values ks (32 :: s) = values ks s := by
  have hskip : skip .code (32 :: s) = skip .code s := skip_blank (by decide)
  cases ks with
  | nil => rfl
  | cons k ks =>
    cases ks with
    | nil => rw [values, values, hskip]
    | cons k' ks => rw [values, values, hskip]

theorem values_cons {k : Kind} {t sep s : List UInt8} {v : Value} (h : Spells k t v) (hstop : Stops sep)
    (hsep : skip .code sep = 44 :: s) {k' : Kind} {ks : List Kind} :
    values (k :: k' :: ks) (t ++ sep) = (values (k' :: ks) s).map fun vs => (v :: vs.1, vs.2) := by
  rw [values, h sep hstop, Option.bind_some]
  simp only [hsep, List.head?_cons, List.tail_cons, if_true]

theorem values_last {k : Kind} {t sep s : List UInt8} {v : Value} (h : Spells k t v) (hstop : Stops sep)
    (hsep : skip .code sep = 41 :: s) : values [k] (t ++ sep) = some ([v], s) := by
  rw [values, h sep hstop, Option.bind_some]
  simp only [hsep, List.head?_cons, List.tail_cons, if_true]

/-! ## What was read -/

/-- The kind of a literal of the value. -/
def Value.kind : Value → Kind
  | .text _ => .text
  | _ => .integer

/-- The quotes a literal of the value takes. -/
def Value.quotes : Value → Nat
  | .text t => 2 * t.count 39 + 2
  | _ => 0

theorem ofInteger_kind (i : Int) : (Value.ofInteger i).kind = .integer ∧ (Value.ofInteger i).quotes = 0 := by
  unfold Value.ofInteger
  split <;> exact ⟨rfl, rfl⟩

theorem skip_suffix (m : Mode) (s : List UInt8) : skip m s <:+ s := by
  fun_induction skip m s with
  | case1 => exact List.suffix_rfl
  | case2 => exact List.nil_suffix
  | case3 => exact List.suffix_rfl
  | case4 => exact List.nil_suffix
  | case5 => exact List.nil_suffix
  | case6 b c s _ ih => exact ih.trans ⟨[b, c], rfl⟩
  | case7 b c s _ _ ih => exact ih.trans ⟨[b, c], rfl⟩
  | case8 b c s _ _ _ ih => exact ih.trans (List.suffix_cons b _)
  | case9 => exact List.suffix_rfl
  | case10 c s ih => exact ih.trans (List.suffix_cons _ _)
  | case11 b c s _ ih => exact ih.trans (List.suffix_cons _ _)
  | case12 b c s _ ih => exact ih.trans ⟨[b, c], rfl⟩
  | case13 b c s _ ih => exact ih.trans (List.suffix_cons _ _)

theorem count_skip_le (m : Mode) (s : List UInt8) : (skip m s).count 39 ≤ s.count 39 :=
  (skip_suffix m s).sublist.count_le 39

theorem count_tail_le (s : List UInt8) : s.tail.count 39 ≤ s.count 39 := (List.tail_sublist s).count_le 39

theorem count_number_le {s rest : List UInt8} {n : Nat} (h : number s = some (n, rest)) :
    rest.count 39 ≤ s.count 39 := by
  unfold number at h
  split at h
  · cases h
  · simp only [Option.some.injEq, Prod.mk.injEq] at h
    rw [← h.2]
    exact (List.dropWhile_sublist _).count_le 39

/-- A literal takes the quotes of its value off the text. -/
theorem literal_spec {k : Kind} {s rest : List UInt8} {v : Value} (h : literal k s = some (v, rest)) :
    v.kind = k ∧ v.quotes + rest.count 39 ≤ s.count 39 := by
  cases k with
  | text =>
    cases s with
    | nil => cases h
    | cons b s =>
      rw [literal] at h
      split at h
      · rename_i hb
        obtain ⟨⟨t, rest'⟩, hbody, heq⟩ := Option.map_eq_some_iff.1 h
        simp only [Prod.mk.injEq] at heq
        obtain ⟨rfl, rfl⟩ := heq
        refine ⟨rfl, ?_⟩
        rw [hb, escape_of_strBody hbody, List.count_cons_self, List.count_append, count_quote_escape,
          List.count_cons_self]
        show 2 * t.count 39 + 2 + _ ≤ _
        omega
      · cases h
  | integer =>
    rw [literal] at h
    split at h
    · obtain ⟨⟨n, rest'⟩, hnum, heq⟩ := Option.map_eq_some_iff.1 h
      simp only [Prod.mk.injEq] at heq
      obtain ⟨rfl, rfl⟩ := heq
      have hrest := (count_number_le hnum).trans (count_tail_le s)
      obtain ⟨hkind, hquotes⟩ := ofInteger_kind (-(n : Int))
      exact ⟨hkind, by omega⟩
    · obtain ⟨⟨n, rest'⟩, hnum, heq⟩ := Option.map_eq_some_iff.1 h
      simp only [Prod.mk.injEq] at heq
      obtain ⟨rfl, rfl⟩ := heq
      have hrest := count_number_le hnum
      obtain ⟨hkind, hquotes⟩ := ofInteger_kind (n : Int)
      exact ⟨hkind, by omega⟩

/-- No quote of a list of values is read twice, and none is made up. -/
theorem values_spec {ks : List Kind} {s rest : List UInt8} {row : Row} (h : values ks s = some (row, rest)) :
    row.map Value.kind = ks ∧ (row.map Value.quotes).sum ≤ s.count 39 := by
  induction ks generalizing s row with
  | nil => cases h
  | cons k ks ih =>
    have hskip := count_skip_le .code s
    cases ks with
    | nil =>
      rw [values] at h
      obtain ⟨⟨v, after⟩, hlit, h⟩ := Option.bind_eq_some_iff.1 h
      obtain ⟨hkind, hquotes⟩ := literal_spec hlit
      dsimp only at h
      split at h
      · simp only [Option.some.injEq, Prod.mk.injEq] at h
        obtain ⟨rfl, -⟩ := h
        simp only [List.map_cons, List.map_nil, List.sum_cons, List.sum_nil, hkind, true_and]
        omega
      · cases h
    | cons k' ks =>
      rw [values] at h
      obtain ⟨⟨v, after⟩, hlit, h⟩ := Option.bind_eq_some_iff.1 h
      obtain ⟨hkind, hquotes⟩ := literal_spec hlit
      dsimp only at h
      split at h
      · obtain ⟨⟨row', rest'⟩, hvals, heq⟩ := Option.map_eq_some_iff.1 h
        simp only [Prod.mk.injEq] at heq
        obtain ⟨rfl, rfl⟩ := heq
        obtain ⟨hkinds, hsum⟩ := ih hvals
        have htail := count_tail_le (skip .code after)
        have hafter := count_skip_le .code after
        simp only [List.map_cons, List.sum_cons, hkind, hkinds, true_and]
        omega
      · cases h

end Sql
