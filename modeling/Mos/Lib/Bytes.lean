import Mathlib.Algebra.Group.Nat.Defs
import Mathlib.Data.Nat.Basic

/-!
# Bytes of a little-endian word

Byte `k` of a 32-bit word and the word with that byte replaced. The two laws
say that a byte store is read back and that the other bytes stay.
-/

namespace Mos.Lib

def getByte (w k : Nat) : Nat := w / 256 ^ k % 256

def setByte (w k b : Nat) : Nat :=
  w % 256 ^ k + b % 256 * 256 ^ k + w / 256 ^ (k + 1) * 256 ^ (k + 1)

theorem getByte_lt (w k : Nat) : getByte w k < 256 := Nat.mod_lt _ (by decide)

theorem getByte_setByte_self (w k b : Nat) : getByte (setByte w k b) k = b % 256 := by
  have hpos : 0 < 256 ^ k := Nat.pow_pos (by decide)
  have hlow : w % 256 ^ k < 256 ^ k := Nat.mod_lt _ hpos
  have hsplit : setByte w k b = w % 256 ^ k + (b % 256 + w / 256 ^ (k + 1) * 256) * 256 ^ k := by
    unfold setByte
    rw [Nat.add_mul, Nat.mul_assoc, ← Nat.pow_succ', Nat.add_assoc]
  unfold getByte
  rw [hsplit, Nat.add_mul_div_right _ _ hpos, Nat.div_eq_of_lt hlow, Nat.zero_add,
    Nat.add_mul_mod_self_right, Nat.mod_mod]

theorem getByte_setByte_of_ne {k j : Nat} (h : j ≠ k) (w b : Nat) :
    getByte (setByte w k b) j = getByte w j := by
  have hpos : ∀ n, 0 < 256 ^ n := fun n => Nat.pow_pos (by decide)
  -- `w` itself, cut at byte `k` in the same way
  have hw : w = w % 256 ^ k + getByte w k * 256 ^ k + w / 256 ^ (k + 1) * 256 ^ (k + 1) := by
    unfold getByte
    rw [Nat.pow_succ, ← Nat.div_div_eq_div_mul, Nat.mul_comm (256 ^ k) 256, ← Nat.mul_assoc,
      Nat.add_assoc, ← Nat.add_mul, Nat.add_comm (w / 256 ^ k % 256), Nat.div_add_mod', Nat.add_comm]
    exact (Nat.div_add_mod' w (256 ^ k)).symm
  rcases Nat.lt_or_gt_of_ne h with hlt | hgt
  · -- below byte `k` both words are `w % 256 ^ k`
    have key : ∀ m, getByte (w % 256 ^ k + m * 256 ^ k) j = getByte (w % 256 ^ k) j := by
      intro m
      obtain ⟨n, rfl⟩ : ∃ n, k = j + 1 + n := ⟨k - (j + 1), by omega⟩
      unfold getByte
      rw [show m * 256 ^ (j + 1 + n) = m * 256 ^ n * 256 * 256 ^ j by
        rw [Nat.pow_add, Nat.pow_succ]; ac_rfl, Nat.add_mul_div_right _ _ (hpos j),
        Nat.add_mul_mod_self_right]
    have hset : setByte w k b = w % 256 ^ k + (b % 256 + w / 256 ^ (k + 1) * 256) * 256 ^ k := by
      unfold setByte
      rw [Nat.add_mul, Nat.mul_assoc, ← Nat.pow_succ', Nat.add_assoc]
    have hkey := key (w / 256 ^ k)
    rw [Nat.mod_add_div' w (256 ^ k)] at hkey
    rw [hset, key, hkey]
  · -- above byte `k` both words are `w / 256 ^ (k + 1)`
    obtain ⟨n, rfl⟩ : ∃ n, j = k + 1 + n := ⟨j - (k + 1), by omega⟩
    have key : ∀ c < 256, getByte (w % 256 ^ k + c * 256 ^ k + w / 256 ^ (k + 1) * 256 ^ (k + 1))
        (k + 1 + n) = w / 256 ^ (k + 1) / 256 ^ n % 256 := by
      intro c hc
      have hlow : w % 256 ^ k + c * 256 ^ k < 256 ^ (k + 1) := by
        have h1 : w % 256 ^ k < 256 ^ k := Nat.mod_lt _ (hpos k)
        have h2 : c * 256 ^ k ≤ 255 * 256 ^ k := Nat.mul_le_mul_right _ (by omega)
        rw [Nat.pow_succ]
        omega
      unfold getByte
      rw [Nat.pow_add 256 (k + 1) n, ← Nat.div_div_eq_div_mul, Nat.add_mul_div_right _ _ (hpos (k + 1)),
        Nat.div_eq_of_lt hlow, Nat.zero_add]
    have hset : getByte (setByte w k b) (k + 1 + n) = w / 256 ^ (k + 1) / 256 ^ n % 256 :=
      key (b % 256) (Nat.mod_lt _ (by decide))
    have hkey := key _ (getByte_lt w k)
    rw [← hw] at hkey
    rw [hset, hkey]

end Mos.Lib
