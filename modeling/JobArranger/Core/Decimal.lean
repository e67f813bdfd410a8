import Mathlib.Data.List.Induction
import Mathlib.Data.List.TakeWhile
import Mathlib.Tactic.Ring

/-!
# Decimal texts

Fixed-width decimal texts as C programs print, cut and compare them: the
`%0wd` conversion, `atoi` on a text of digits, `strlcpy` as a prefix, and
`strcmp`.

* `dec_append`, `take_dec`, `drop_dec`: printing side by side and cutting
  apart are arithmetic on the value.
* `atoi_dec`: reading back what was printed.
* `strcmp_dec`: on texts of one width `strcmp` compares the values.
-/
namespace Decimal

/-- The `w` lowest decimal digits of `n`, most significant first. -/
def dec : Nat → Nat → List Char
  | 0, _ => []
  | w + 1, n => dec w (n / 10) ++ [Nat.digitChar (n % 10)]

/-- The conversion `%0wd`: at least `w` digits, and as many as `n` has. -/
def fmt (w n : Nat) : List Char :=
  dec (max w (Nat.toDigits 10 n).length) n

/-- The value of a digit. -/
def digitVal (c : Char) : Nat := c.toNat - '0'.toNat

/-- `atoi` on a text without sign or blanks: the leading digits. -/
def atoi (s : List Char) : Nat :=
  (s.takeWhile Char.isDigit).foldl (fun v c => 10 * v + digitVal c) 0

/-- `strlcpy(dst, src, size)`: at most `size - 1` characters. -/
def strlcpy (src : List Char) (size : Nat) : List Char := src.take (size - 1)

/-- `strcmp`: the sign of the first difference. -/
def strcmp : List Char → List Char → Int
  | [], [] => 0
  | [], _ :: _ => -1
  | _ :: _, [] => 1
  | a :: s, b :: t => if a.toNat < b.toNat then -1 else if b.toNat < a.toNat then 1 else strcmp s t

/-! ## Printing and cutting -/

@[simp] theorem dec_length (w n : Nat) : (dec w n).length = w := by
  induction w generalizing n with
  | zero => rfl
  | succ w ih => simp [dec, ih]

theorem fmt_eq_dec {w n : Nat} (hw : 0 < w) (h : n < 10 ^ w) : fmt w n = dec w n := by
  have hl : (Nat.toDigits 10 n).length ≤ w := (Nat.length_toDigits_le_iff (by omega) hw).2 h
  rw [fmt, Nat.max_eq_left hl]

theorem fmt_eq_dec_of_digits {w k n : Nat} (hw : w ≤ k + 1) (hlo : 10 ^ k ≤ n) (hhi : n < 10 ^ (k + 1)) :
    fmt w n = dec (k + 1) n := by
  have hl : (Nat.toDigits 10 n).length ≤ k + 1 := (Nat.length_toDigits_le_iff (by omega) (by omega)).2 hhi
  have hg : ¬ (Nat.toDigits 10 n).length ≤ k := by
    intro hc
    rcases Nat.eq_zero_or_pos k with rfl | hk
    · exact absurd (List.length_eq_zero_iff.1 (Nat.le_zero.1 hc)) Nat.toDigits_ne_nil
    · have := (Nat.length_toDigits_le_iff (by omega) hk).1 hc
      omega
  have hmax : max w (Nat.toDigits 10 n).length = k + 1 := by omega
  rw [fmt, hmax]

theorem dec_append (a b x y : Nat) (h : y < 10 ^ b) :
    dec a x ++ dec b y = dec (a + b) (x * 10 ^ b + y) := by
  induction b generalizing y with
  | zero =>
    have : y = 0 := by simpa using h
    simp [dec, this]
  | succ b ih =>
    have hy : y / 10 < 10 ^ b := by rw [pow_succ] at h; omega
    have hq : (x * 10 ^ (b + 1) + y) / 10 = x * 10 ^ b + y / 10 := by
      rw [pow_succ, ← Nat.mul_assoc]; omega
    have hr : (x * 10 ^ (b + 1) + y) % 10 = y % 10 := by
      rw [pow_succ, ← Nat.mul_assoc]; omega
    rw [← Nat.add_assoc, dec, dec, hq, hr, ← ih _ hy, List.append_assoc]

/-- The width splits: the first digits print the quotient, the rest the
value itself. -/
theorem dec_add (a b n : Nat) : dec (a + b) n = dec a (n / 10 ^ b) ++ dec b n := by
  induction b generalizing n with
  | zero => simp [dec]
  | succ b ih =>
    have hq : n / 10 / 10 ^ b = n / 10 ^ (b + 1) := by rw [Nat.div_div_eq_div_mul, pow_succ']
    rw [← Nat.add_assoc, dec, dec, ih, hq, List.append_assoc]

theorem take_dec (a b n : Nat) : (dec (a + b) n).take a = dec a (n / 10 ^ b) := by
  rw [dec_add, List.take_left' (by simp)]

theorem drop_dec (a b n : Nat) : (dec (a + b) n).drop a = dec b n := by
  rw [dec_add, List.drop_left' (by simp)]

/-! ## Reading back -/

theorem isDigit_digitChar {d : Nat} (h : d < 10) : (Nat.digitChar d).isDigit := by
  revert d; decide

theorem digitVal_digitChar {d : Nat} (h : d < 10) : digitVal (Nat.digitChar d) = d := by
  revert d; decide

theorem isDigit_of_mem_dec {w n : Nat} {c : Char} (h : c ∈ dec w n) : c.isDigit := by
  induction w generalizing n with
  | zero => simp [dec] at h
  | succ w ih =>
    rcases List.mem_append.1 h with h | h
    · exact ih h
    · rw [List.mem_singleton.1 h]
      exact isDigit_digitChar (Nat.mod_lt _ (by omega))

theorem atoi_dec (w n : Nat) : atoi (dec w n) = n % 10 ^ w := by
  have hd : ∀ c ∈ dec w n, c.isDigit = true := fun c => isDigit_of_mem_dec
  rw [atoi, List.takeWhile_eq_self_iff.2 hd]
  clear hd
  induction w generalizing n with
  | zero => simp [dec, Nat.mod_one]
  | succ w ih =>
    rw [dec, List.foldl_append, ih, List.foldl_cons, List.foldl_nil,
      digitVal_digitChar (Nat.mod_lt _ (by omega)), pow_succ', Nat.mod_mul]
    omega

theorem atoi_dec_of_lt {w n : Nat} (h : n < 10 ^ w) : atoi (dec w n) = n := by
  rw [atoi_dec, Nat.mod_eq_of_lt h]

theorem atoi_fmt {w n : Nat} (hw : 0 < w) : atoi (fmt w n) = n := by
  have hlen : (Nat.toDigits 10 n).length ≤ max w (Nat.toDigits 10 n).length := Nat.le_max_right ..
  exact atoi_dec_of_lt ((Nat.length_toDigits_le_iff (by omega) (by omega)).1 hlen)

theorem toNat_digitChar {d : Nat} (h : d < 10) : (Nat.digitChar d).toNat = 48 + d := by
  revert d; decide

theorem dec_split (a b n : Nat) : dec (a + b) n = dec a (n / 10 ^ b) ++ dec b (n % 10 ^ b) := by
  have hn : n / 10 ^ b * 10 ^ b + n % 10 ^ b = n := Nat.div_add_mod' n _
  rw [dec_append _ _ _ _ (Nat.mod_lt _ (Nat.pow_pos (by omega))), hn]

theorem dec_mod (w n : Nat) : dec w (n % 10 ^ w) = dec w n := by
  have h := dec_split 0 w n
  simpa [dec] using h.symm

theorem digitVal_lt {c : Char} (h : c.isDigit) : digitVal c < 10 := by
  simp only [Char.isDigit, Bool.and_eq_true, decide_eq_true_eq] at h
  have h2 : c.toNat ≤ '9'.toNat := h.2
  have h9 : '9'.toNat = 57 := rfl
  have h0 : '0'.toNat = 48 := rfl
  unfold digitVal
  omega

theorem digitChar_digitVal {c : Char} (h : c.isDigit) : Nat.digitChar (digitVal c) = c := by
  have hlt := digitVal_lt h
  simp only [Char.isDigit, Bool.and_eq_true, decide_eq_true_eq] at h
  have h1 : '0'.toNat ≤ c.toNat := h.1
  apply Char.toNat_inj.1
  rw [toNat_digitChar hlt]
  have h0 : '0'.toNat = 48 := rfl
  unfold digitVal
  omega

/-- A text of digits is what its value prints. -/
theorem dec_atoi_lt {s : List Char} (h : s.all Char.isDigit) : dec s.length (atoi s) = s ∧ atoi s < 10 ^ s.length := by
  have hd : ∀ c ∈ s, c.isDigit = true := by simpa using h
  rw [atoi, List.takeWhile_eq_self_iff.2 hd]
  clear h
  induction s using List.reverseRecOn with
  | nil => simp [dec]
  | append_singleton s c ih =>
    obtain ⟨hdec, hlt⟩ := ih fun d hmem => hd d (by simp [hmem])
    have hc := hd c (by simp)
    have hv := digitVal_lt hc
    rw [List.foldl_append, List.foldl_cons, List.foldl_nil, List.length_append, List.length_singleton, dec, pow_succ]
    generalize s.foldl (fun v c => 10 * v + digitVal c) 0 = v at hdec hlt
    have hq : (10 * v + digitVal c) / 10 = v := by omega
    have hr : (10 * v + digitVal c) % 10 = digitVal c := by omega
    rw [hq, hr, hdec, digitChar_digitVal hc]
    exact ⟨rfl, by omega⟩

/-! ## Comparing -/

theorem strcmp_append_of_length_eq {s t : List Char} (h : s.length = t.length) (u v : List Char) :
    strcmp (s ++ u) (t ++ v) = if strcmp s t = 0 then strcmp u v else strcmp s t := by
  induction s generalizing t with
  | nil =>
    cases t with
    | nil => simp [strcmp]
    | cons b t => simp at h
  | cons a s ih =>
    cases t with
    | nil => simp at h
    | cons b t =>
      have ht : s.length = t.length := by simpa using h
      simp only [List.cons_append, strcmp]
      split
      · simp
      · split
        · simp
        · exact ih ht

/-- The sign of `a - b`, as `strcmp` reports it. -/
def cmp (a b : Nat) : Int := if a < b then -1 else if b < a then 1 else 0

theorem strcmp_digit {a b : Nat} (ha : a < 10) (hb : b < 10) :
    strcmp [Nat.digitChar a] [Nat.digitChar b] = cmp a b := by
  simp only [strcmp, toNat_digitChar ha, toNat_digitChar hb, cmp, Nat.add_lt_add_iff_left]

theorem strcmp_dec {w a b : Nat} (ha : a < 10 ^ w) (hb : b < 10 ^ w) :
    strcmp (dec w a) (dec w b) = cmp a b := by
  induction w generalizing a b with
  | zero =>
    have : a = 0 ∧ b = 0 := by simpa using And.intro ha hb
    simp [this, dec, strcmp, cmp]
  | succ w ih =>
    rw [pow_succ] at ha hb
    rw [dec, dec, strcmp_append_of_length_eq (by simp), ih (by omega) (by omega),
      strcmp_digit (Nat.mod_lt _ (by omega)) (Nat.mod_lt _ (by omega))]
    rcases Nat.lt_trichotomy (a / 10) (b / 10) with h | h | h
    · have hc : cmp (a / 10) (b / 10) = -1 := if_pos h
      rw [hc, if_neg (by decide), cmp, if_pos (by omega)]
    · have hc : cmp (a / 10) (b / 10) = 0 := by
        rw [cmp, if_neg (by omega), if_neg (by omega)]
      have hlt : a % 10 < b % 10 ↔ a < b := by omega
      have hgt : b % 10 < a % 10 ↔ b < a := by omega
      rw [hc, if_pos rfl]
      simp only [cmp, hlt, hgt]
    · have hc : cmp (a / 10) (b / 10) = 1 := by
        rw [cmp, if_neg (by omega), if_pos h]
      rw [hc, if_neg (by decide), cmp, if_neg (by omega), if_pos (by omega)]

theorem strcmp_dec_le {w a b : Nat} (ha : a < 10 ^ w) (hb : b < 10 ^ w) :
    strcmp (dec w a) (dec w b) ≤ 0 ↔ a ≤ b := by
  rw [strcmp_dec ha hb, cmp]
  split
  · simp; omega
  · split
    · simp; omega
    · simp; omega

theorem strcmp_dec_ge {w a b : Nat} (ha : a < 10 ^ w) (hb : b < 10 ^ w) :
    0 ≤ strcmp (dec w a) (dec w b) ↔ b ≤ a := by
  rw [strcmp_dec ha hb, cmp]
  split
  · simp; omega
  · split
    · simp; omega
    · simp; omega

end Decimal
