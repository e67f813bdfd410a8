import JobArranger.Core.Sql
import Mathlib.Tactic.Ring
import Mathlib.Algebra.Order.Ring.Int

/-!
# Doubles read from decimal texts

`atof` on a plain decimal text: a sign, digits and perhaps a point with
digits. A double is an integer number of units of 2^-1074; an infinity is
±2^1024, which lies beyond every finite double, so that comparisons come
out as they do with infinities.

* `ofDecimal_exact`: an integer below 2^53 is read exactly.
* `ofDecimal_le_iff`, `le_ofDecimal_iff`, `ofDecimal_eq_iff`: against such
  an integer, what was read compares as the number that was written.
-/
namespace Double

open Sql (isDigit natVal digits)

/-- `m / d` to 53 significant bits, ties to even. -/
def round (m d : Nat) : Nat :=
  let unit := 2 ^ ((m / d).log2 - 52)
  let q := m / (d * unit)
  let r := m % (d * unit)
  if 2 * r < d * unit ∨ (2 * r = d * unit ∧ q % 2 = 0) then q * unit else (q + 1) * unit

/-- The binary places after the point. -/
def places : Nat := 1074

/-- One, in units. -/
def one : Nat := 2 ^ places

def infinity : Nat := 2 ^ 1024 * one

/-- The double nearest to `m / 10^k`. -/
def ofDecimal (m k : Nat) : Nat := min (round (m * one) (10 ^ k)) infinity

/-- `atof` on a text without blanks and exponent. -/
def atof (s : List UInt8) : Int :=
  let t := if s.head? = some 45 then s.tail else s
  let whole := t.takeWhile isDigit
  let point := t.dropWhile isDigit
  let frac := if point.head? = some 46 then point.tail.takeWhile isDigit else []
  let v : Int := ofDecimal (natVal (whole ++ frac)) frac.length
  if s.head? = some 45 then -v else v

/-! ## Integers -/

theorem one_pos : 0 < one := Nat.two_pow_pos places

theorem log2_mul_two_pow {n : Nat} (h : n ≠ 0) (k : Nat) : (n * 2 ^ k).log2 = n.log2 + k := by
  have hlog := (Nat.log2_eq_iff h).1 rfl
  have hk : 0 < 2 ^ k := Nat.two_pow_pos k
  rw [Nat.log2_eq_iff (Nat.mul_ne_zero h hk.ne'), Nat.pow_add, Nat.add_right_comm, Nat.pow_add]
  exact ⟨Nat.mul_le_mul_right _ hlog.1, Nat.mul_lt_mul_of_pos_right hlog.2 hk⟩

theorem log2_mul_one {n : Nat} (h : n ≠ 0) : (n * one).log2 = n.log2 + places := log2_mul_two_pow h places

/-- Rounding stays at or above the power of two below the number. -/
theorem two_pow_log2_le_round {m : Nat} (h : m ≠ 0) : 2 ^ m.log2 ≤ round m 1 := by
  have hle : 2 ^ m.log2 ≤ m := ((Nat.log2_eq_iff h).1 rfl).1
  have hunit : 2 ^ m.log2 = 2 ^ (m.log2 - (m.log2 - 52)) * 2 ^ (m.log2 - 52) := by
    rw [← Nat.pow_add]; congr 1; omega
  have hq : 2 ^ m.log2 ≤ m / 2 ^ (m.log2 - 52) * 2 ^ (m.log2 - 52) := by
    rw [hunit]
    refine Nat.mul_le_mul_right _ ?_
    rw [Nat.le_div_iff_mul_le (Nat.two_pow_pos _), ← hunit]
    exact hle
  simp only [round, Nat.div_one, Nat.one_mul]
  split
  · exact hq
  · exact hq.trans (Nat.mul_le_mul_right _ (Nat.le_succ _))

theorem two_pow_53_le : 2 ^ 53 ≤ 2 ^ 1024 := by
  apply Nat.pow_le_pow_right <;> omega

theorem ofDecimal_exact {n : Nat} (h : n < 2 ^ 53) : ofDecimal n 0 = n * one := by
  have hinf : n * one ≤ infinity :=
    Nat.mul_le_mul_right _ (h.le.trans two_pow_53_le)
  rcases Nat.eq_zero_or_pos n with rfl | hn
  · simp [ofDecimal, round]
  have hlog : n.log2 < 53 := (Nat.log2_lt hn.ne').2 h
  -- the unit of the last place divides every integer
  have hp : ∀ k, 52 ≤ k → 2 ^ (n.log2 + k - 52) ∣ n * 2 ^ k := fun k hk =>
    Dvd.dvd.mul_left (Nat.pow_dvd_pow 2 (by omega)) n
  have hdvd : 2 ^ (n.log2 + places - 52) ∣ n * one := hp places (by decide)
  have hround : round (n * one) 1 = n * one := by
    simp only [round, Nat.div_one, Nat.one_mul, log2_mul_one hn.ne']
    rw [if_pos (.inl (by rw [Nat.mod_eq_zero_of_dvd hdvd]; simp)), Nat.div_mul_cancel hdvd]
  rw [ofDecimal, pow_zero, hround, Nat.min_eq_left hinf]

theorem le_ofDecimal_of_large {n : Nat} (h : 2 ^ 53 ≤ n) : 2 ^ 53 * one ≤ ofDecimal n 0 := by
  have hn : n ≠ 0 := by have := Nat.two_pow_pos 53; omega
  have hlog : 53 ≤ n.log2 := (Nat.le_log2 hn).2 h
  have hr := two_pow_log2_le_round (Nat.mul_ne_zero hn one_pos.ne')
  have hlow : 2 ^ 53 * one ≤ 2 ^ (n * one).log2 := by
    obtain ⟨k, hk⟩ : ∃ k, one = 2 ^ k := ⟨places, rfl⟩
    rw [hk, log2_mul_two_pow hn, ← Nat.pow_add]
    exact Nat.pow_le_pow_right (by omega) (by omega)
  have hinf : 2 ^ 53 * one ≤ infinity := Nat.mul_le_mul_right _ two_pow_53_le
  rw [ofDecimal, pow_zero, Nat.le_min]
  generalize one = u at *
  exact ⟨Nat.le_trans hlow hr, hinf⟩

/-! ## Comparing with an integer of fewer than 54 bits -/

variable {n : Int} {a : Nat}

theorem ofDecimal_le_iff (h : n < 2 ^ 53) : (ofDecimal a 0 : Int) ≤ n * one ↔ (a : Int) ≤ n := by
  have hone : (0 : Int) < one := by exact_mod_cast one_pos
  by_cases ha : a < 2 ^ 53
  · rw [ofDecimal_exact ha, Nat.cast_mul, Int.mul_le_mul_right hone]
  · have hl : ((2 ^ 53 * one : Nat) : Int) ≤ ofDecimal a 0 := by
      exact_mod_cast le_ofDecimal_of_large (Nat.not_lt.1 ha)
    have hlt : n * (one : Int) < ((2 ^ 53 * one : Nat) : Int) := by
      rw [Nat.cast_mul]
      exact Int.mul_lt_mul_of_pos_right (by exact_mod_cast h) hone
    constructor <;> intro hc <;> omega

theorem le_ofDecimal_iff (h : n < 2 ^ 53) : n * one ≤ (ofDecimal a 0 : Int) ↔ n ≤ (a : Int) := by
  have hone : (0 : Int) < one := by exact_mod_cast one_pos
  by_cases ha : a < 2 ^ 53
  · rw [ofDecimal_exact ha, Nat.cast_mul, Int.mul_le_mul_right hone]
  · have hl : ((2 ^ 53 * one : Nat) : Int) ≤ ofDecimal a 0 := by
      exact_mod_cast le_ofDecimal_of_large (Nat.not_lt.1 ha)
    have hlt : n * (one : Int) < ((2 ^ 53 * one : Nat) : Int) := by
      rw [Nat.cast_mul]
      exact Int.mul_lt_mul_of_pos_right (by exact_mod_cast h) hone
    constructor <;> intro hc <;> omega

theorem ofDecimal_eq_iff (h : n < 2 ^ 53) : n * one = (ofDecimal a 0 : Int) ↔ n = (a : Int) := by
  have hle := ofDecimal_le_iff (a := a) h
  have hge := le_ofDecimal_iff (a := a) h
  omega

/-! ## Texts of digits -/

theorem atof_digits {s : List UInt8} (h : ∀ b ∈ s, isDigit b = true) : atof s = ofDecimal (natVal s) 0 := by
  have hhead : s.head? ≠ some 45 := by
    intro hc
    have := h 45 (List.mem_of_mem_head? hc)
    simp [isDigit] at this
  have hdrop : s.dropWhile isDigit = [] := List.dropWhile_eq_nil_iff.2 h
  simp [atof, hhead, hdrop, List.takeWhile_eq_self_iff.2 h]

theorem atof_minus_digits {s : List UInt8} (h : ∀ b ∈ s, isDigit b = true) :
    atof (45 :: s) = -(ofDecimal (natVal s) 0 : Int) := by
  have hdrop : s.dropWhile isDigit = [] := List.dropWhile_eq_nil_iff.2 h
  simp [atof, hdrop, List.takeWhile_eq_self_iff.2 h]

end Double
