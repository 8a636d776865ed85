import Mathlib.Data.Nat.Bitwise

/-!
# Flag words

A machine word that packs a field above a row of flag bits is built with `|`
and taken apart with `&`, shifts and masks. Words are natural numbers here;
these lemmas turn the bit operations into the arithmetic `omega` knows.
-/

namespace Mos.Lib

/-- `w & m` as a C condition. -/
def testFlag (w m : Nat) : Bool := w &&& m != 0

/-- A one-bit mask reads one bit. -/
theorem testFlag_two_pow (w k : Nat) : testFlag w (2 ^ k) = w.testBit k := by
  unfold testFlag
  rw [Nat.and_two_pow]
  cases w.testBit k <;> simp

@[simp] theorem testFlag_zero_left (m : Nat) : testFlag 0 m = false := by
  simp [testFlag]

/-- A flag of an OR is a flag of one of the two words. -/
theorem testFlag_or (a b k : Nat) :
    testFlag (a ||| b) (2 ^ k) = (testFlag a (2 ^ k) || testFlag b (2 ^ k)) := by
  rw [testFlag_two_pow, testFlag_two_pow, testFlag_two_pow, Nat.testBit_or]

/-- A field above bit `k` and flags below it do not overlap: OR is addition. -/
theorem field_or_flags {a b k : Nat} (hb : b < 2 ^ k) : a * 2 ^ k ||| b = a * 2 ^ k + b := by
  rw [← Nat.shiftLeft_eq, Nat.shiftLeft_add_eq_or_of_lt hb]

/-- Clearing the low `k` bits of an `n`-bit word with its mask. -/
theorem land_high_mask {w n k : Nat} (hk : k ≤ n) (hw : w < 2 ^ n) :
    w &&& (2 ^ n - 2 ^ k) = w / 2 ^ k * 2 ^ k := by
  apply Nat.eq_of_testBit_eq
  intro i
  have hmask : (2 ^ n - 2 ^ k : Nat) = (2 ^ (n - k) - 1) * 2 ^ k := by
    rw [Nat.sub_mul, ← Nat.pow_add, Nat.sub_add_cancel hk, Nat.one_mul]
  rw [Nat.testBit_and, hmask, Nat.testBit_mul_two_pow, Nat.testBit_mul_two_pow,
    Nat.testBit_two_pow_sub_one, Nat.testBit_div_two_pow]
  by_cases hik : k ≤ i
  · have hsub : i - k + k = i := Nat.sub_add_cancel hik
    rw [hsub]
    by_cases hin : i < n
    · have : i - k < n - k := by omega
      simp [hik, this]
    · have hhigh : w.testBit i = false :=
        Nat.testBit_eq_false_of_lt (Nat.lt_of_lt_of_le hw (Nat.pow_le_pow_right (by decide) (by omega)))
      simp [hhigh]
  · simp [hik]

end Mos.Lib
