import Mathlib.Data.Nat.Bits
import Mathlib.Logic.Function.Basic

/-!
# MOS on RISC-V — bitmaps of 32-bit words

An array of words read as one sequence of bits, the way C code does it: word
`i >> 5`, mask `1 << (i & 31)`. Setting and clearing a bit leaves the others
alone (`isSet_set`, `isSet_clear`).
-/

namespace Mos.Lib

abbrev Bitmap := Nat → BitVec 32

namespace Bitmap

def mask (i : Nat) : BitVec 32 := 1#32 <<< (i &&& 31)

def isSet (m : Bitmap) (i : Nat) : Prop := m (i >>> 5) &&& mask i ≠ 0#32

def set (m : Bitmap) (i : Nat) : Bitmap := Function.update m (i >>> 5) (m (i >>> 5) ||| mask i)

def clear (m : Bitmap) (i : Nat) : Bitmap := Function.update m (i >>> 5) (m (i >>> 5) &&& ~~~mask i)

instance (m : Bitmap) (i : Nat) : Decidable (m.isSet i) := inferInstanceAs (Decidable (_ ≠ _))

theorem and_31 (i : Nat) : i &&& 31 = i % 32 := Nat.and_two_pow_sub_one_eq_mod i 5

theorem getLsbD_mask (i n : Nat) (hn : n < 32) : (mask i).getLsbD n = decide (n = i % 32) := by
  have hi : i % 32 < 32 := Nat.mod_lt _ (by decide)
  unfold mask
  rw [and_31, BitVec.getLsbD_shiftLeft]
  by_cases h : n = i % 32
  · simp [h, hi]
  · by_cases hlt : n < i % 32
    · simp [h, hlt]
    · have : ¬ n - i % 32 = 0 := by omega
      simp [h, hn, BitVec.getLsbD_one, this]

/-- A bit is set when the word has it. -/
theorem isSet_iff (m : Bitmap) (i : Nat) :
    m.isSet i ↔ (m (i >>> 5)).getLsbD (i % 32) = true := by
  have hi : i % 32 < 32 := Nat.mod_lt _ (by decide)
  unfold isSet
  constructor
  · intro h
    by_contra hbit
    refine h (BitVec.eq_of_getLsbD_eq fun n hn => ?_)
    rw [BitVec.getLsbD_and, getLsbD_mask i n hn]
    by_cases hn' : n = i % 32
    · simp only [hn', Bool.not_eq_true] at hbit ⊢
      simp [hbit]
    · simp [hn']
  · intro h hzero
    have hbit := congrArg (fun x : BitVec 32 => x.getLsbD (i % 32)) hzero
    simp only [BitVec.getLsbD_and, getLsbD_mask i _ hi, h] at hbit
    simp at hbit

theorem index_eq_iff (i j : Nat) : j = i ↔ j >>> 5 = i >>> 5 ∧ j % 32 = i % 32 := by
  rw [Nat.shiftRight_eq_div_pow, Nat.shiftRight_eq_div_pow]
  omega

theorem isSet_set (m : Bitmap) (i j : Nat) : (m.set i).isSet j ↔ m.isSet j ∨ j = i := by
  have hj : j % 32 < 32 := Nat.mod_lt _ (by decide)
  rw [isSet_iff, isSet_iff, index_eq_iff]
  unfold set
  by_cases hw : j >>> 5 = i >>> 5
  · rw [hw, Function.update_self, BitVec.getLsbD_or, getLsbD_mask i _ hj]
    simp
  · rw [Function.update_of_ne hw]
    simp [hw]

theorem isSet_clear (m : Bitmap) (i j : Nat) : (m.clear i).isSet j ↔ m.isSet j ∧ j ≠ i := by
  have hj : j % 32 < 32 := Nat.mod_lt _ (by decide)
  rw [isSet_iff, isSet_iff, Ne, index_eq_iff]
  unfold clear
  by_cases hw : j >>> 5 = i >>> 5
  · rw [hw, Function.update_self, BitVec.getLsbD_and, BitVec.getLsbD_not, getLsbD_mask i _ hj]
    simp [hj]
  · rw [Function.update_of_ne hw]
    simp [hw]

/-- A bit that is cleared and set again. -/
theorem set_clear {m : Bitmap} {i : Nat} (h : m.isSet i) : (m.clear i).set i = m := by
  have hi : i % 32 < 32 := Nat.mod_lt _ (by decide)
  unfold set clear
  rw [Function.update_self, Function.update_idem]
  refine Function.update_eq_self_iff.mpr (BitVec.eq_of_getLsbD_eq fun n hn => ?_)
  rw [BitVec.getLsbD_or, BitVec.getLsbD_and, BitVec.getLsbD_not, getLsbD_mask i n hn]
  by_cases hn' : n = i % 32
  · rw [isSet_iff] at h
    simp [hn', h]
  · simp [hn, hn']

end Bitmap

end Mos.Lib
