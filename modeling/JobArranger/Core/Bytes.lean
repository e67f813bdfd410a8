import Mathlib.Tactic.Positivity
import Mathlib.Tactic.Ring

/-!
# Integers as bytes

The bytes of a fixed-width integer in memory, the lowest first, as `write`
and `send` put them into a file or a message.

* `leVal_leBytes`: reading what was written.
-/
namespace JobArranger

/-- The `n` bytes of an integer, the lowest first. -/
def leBytes : Nat → Nat → List UInt8
  | 0, _ => []
  | n + 1, v => UInt8.ofNat v :: leBytes n (v / 256)

def leVal : List UInt8 → Nat
  | [] => 0
  | b :: bs => b.toNat + 256 * leVal bs

@[simp] theorem leBytes_length (n v : Nat) : (leBytes n v).length = n := by
  induction n generalizing v with
  | zero => rfl
  | succ n ih => simp [leBytes, ih]

theorem leVal_leBytes (n v : Nat) : leVal (leBytes n v) = v % 256 ^ n := by
  induction n generalizing v with
  | zero => simp [leBytes, leVal, Nat.mod_one]
  | succ n ih =>
    rw [leBytes, leVal, ih, pow_succ', Nat.mod_mul]
    simp

@[simp] theorem leVal_uint64 (v : UInt64) : leVal (leBytes 8 v.toNat) = v.toNat := by
  rw [leVal_leBytes]
  exact Nat.mod_eq_of_lt v.toNat_lt

@[simp] theorem leVal_uint32 (v : UInt32) : leVal (leBytes 4 v.toNat) = v.toNat := by
  rw [leVal_leBytes]
  exact Nat.mod_eq_of_lt v.toNat_lt

end JobArranger
