import Mathlib.Algebra.Group.Nat.Defs
import Mathlib.Data.List.GetD
import Mathlib.Logic.Function.Basic
import Mathlib.Tactic.SplitIfs

/-!
# Byte-addressed memory

A memory is a map from addresses to bytes. Words are little-endian. `copy m dst src n` has
the `n` bytes from `src` at `dst` as well.

Main results:

* `loadWord_storeWord` and `loadWord_congr` — a stored word is read back, and a word is
  what its four bytes are;
* `storeBytes_append` and `storeBytes_byte` — bytes stored one after the other, and read back;
* `loadBytes_add` and `loadBytes_copy` — the bytes of a range, in two parts and copied;
* `copy_copy` — one copy after the other, as long as the first does not reach what the
  second reads.
-/

namespace Mos.Lib

abbrev ByteMem := Nat → BitVec 8

def loadWord (m : ByteMem) (a : Nat) : Nat :=
  (m a).toNat + 2 ^ 8 * (m (a + 1)).toNat + 2 ^ 16 * (m (a + 2)).toNat + 2 ^ 24 * (m (a + 3)).toNat

def storeWord (m : ByteMem) (a w : Nat) : ByteMem := fun x =>
  if a ≤ x ∧ x < a + 4 then BitVec.ofNat 8 (w / 256 ^ (x - a)) else m x

/-- The bytes `bs`, from `a` on. -/
def storeBytes (m : ByteMem) (a : Nat) (bs : List (BitVec 8)) : ByteMem := fun x =>
  if a ≤ x ∧ x < a + bs.length then bs.getD (x - a) 0 else m x

/-- The `n` bytes from `a` on. -/
def loadBytes (m : ByteMem) (a n : Nat) : List (BitVec 8) := (List.range n).map fun i => m (a + i)

/-- The `n` bytes from `src` on go to `dst`. -/
def copy (m : ByteMem) (dst src n : Nat) : ByteMem := fun x =>
  if dst ≤ x ∧ x < dst + n then m (src + (x - dst)) else m x

variable {m m' : ByteMem} {a b dst src n w x : Nat}

theorem loadWord_lt (m : ByteMem) (a : Nat) : loadWord m a < 2 ^ 32 := by
  unfold loadWord
  have h₀ := (m a).isLt
  have h₁ := (m (a + 1)).isLt
  have h₂ := (m (a + 2)).isLt
  have h₃ := (m (a + 3)).isLt
  omega

theorem loadWord_congr (h : ∀ x, a ≤ x → x < a + 4 → m' x = m x) : loadWord m' a = loadWord m a := by
  unfold loadWord
  rw [h a (by omega) (by omega), h (a + 1) (by omega) (by omega), h (a + 2) (by omega) (by omega),
    h (a + 3) (by omega) (by omega)]

theorem storeWord_of_notMem (h : x < a ∨ a + 4 ≤ x) : storeWord m a w x = m x := by
  unfold storeWord
  rw [if_neg (by omega)]

theorem storeWord_byte (m : ByteMem) (a w : Nat) {k : Nat} (hk : k < 4) :
    (storeWord m a w (a + k)).toNat = w / 256 ^ k % 256 := by
  unfold storeWord
  rw [if_pos (by omega), Nat.add_sub_cancel_left, BitVec.toNat_ofNat]

theorem loadWord_storeWord (m : ByteMem) (a : Nat) (hw : w < 2 ^ 32) : loadWord (storeWord m a w) a = w := by
  have h₀ := storeWord_byte m a w (k := 0) (by decide)
  unfold loadWord
  rw [Nat.add_zero] at h₀
  rw [h₀, storeWord_byte m a w (by decide), storeWord_byte m a w (by decide), storeWord_byte m a w (by decide)]
  omega

theorem loadWord_storeWord_of_ne (h : b + 4 ≤ a ∨ a + 4 ≤ b) : loadWord (storeWord m a w) b = loadWord m b :=
  loadWord_congr fun x _ _ => storeWord_of_notMem (by omega)

/-- A byte of a word is the byte in memory. -/
theorem loadWord_byte (m : ByteMem) (a : Nat) {k : Nat} (hk : k < 4) :
    BitVec.ofNat 8 (loadWord m a / 256 ^ k) = m (a + k) := by
  have hk' : k = 0 ∨ k = 1 ∨ k = 2 ∨ k = 3 := by omega
  have h₀ := (m a).isLt
  have h₁ := (m (a + 1)).isLt
  have h₂ := (m (a + 2)).isLt
  have h₃ := (m (a + 3)).isLt
  apply BitVec.eq_of_toNat_eq
  rw [BitVec.toNat_ofNat]
  unfold loadWord
  rcases hk' with rfl | rfl | rfl | rfl
  · show _ = (m a).toNat
    omega
  · omega
  · omega
  · omega

theorem storeBytes_nil (m : ByteMem) (a : Nat) : storeBytes m a [] = m := by
  funext x
  unfold storeBytes
  rw [if_neg (by rw [List.length_nil]; omega)]

theorem storeBytes_of_notMem {bs : List (BitVec 8)} (h : x < a ∨ a + bs.length ≤ x) : storeBytes m a bs x = m x := by
  unfold storeBytes
  rw [if_neg (by omega)]

theorem storeBytes_byte (m : ByteMem) (a : Nat) {bs : List (BitVec 8)} {k : Nat} (hk : k < bs.length) :
    storeBytes m a bs (a + k) = bs[k] := by
  unfold storeBytes
  rw [if_pos (by omega), Nat.add_sub_cancel_left, List.getD_eq_getElem _ _ hk]

/-- Bytes in two parts. -/
theorem storeBytes_append (m : ByteMem) (a : Nat) (bs cs : List (BitVec 8)) :
    storeBytes (storeBytes m a bs) (a + bs.length) cs = storeBytes m a (bs ++ cs) := by
  funext x
  unfold storeBytes
  rw [List.length_append]
  by_cases hlo : a ≤ x ∧ x < a + bs.length
  · rw [if_neg (by omega), if_pos hlo, if_pos (by omega), List.getD_append _ _ _ _ (by omega)]
  · by_cases hhi : a + bs.length ≤ x ∧ x < a + bs.length + cs.length
    · rw [if_pos hhi, if_pos (by omega), List.getD_append_right _ _ _ _ (by omega), Nat.sub_add_eq]
    · rw [if_neg hhi, if_neg hlo, if_neg (by omega)]

theorem copy_zero (m : ByteMem) (dst src : Nat) : copy m dst src 0 = m := by
  funext x
  unfold copy
  rw [if_neg (by omega)]

theorem copy_of_notMem (h : x < dst ∨ dst + n ≤ x) : copy m dst src n x = m x := by
  unfold copy
  rw [if_neg (by omega)]

theorem copy_byte (m : ByteMem) (dst src : Nat) {k : Nat} (hk : k < n) : copy m dst src n (dst + k) = m (src + k) := by
  unfold copy
  rw [if_pos (by omega), Nat.add_sub_cancel_left]

theorem loadWord_copy (h : a + 4 ≤ dst ∨ dst + n ≤ a) : loadWord (copy m dst src n) a = loadWord m a :=
  loadWord_congr fun x _ _ => copy_of_notMem (by omega)

theorem copy_succ (m : ByteMem) (dst src n : Nat) :
    copy m dst src (n + 1) = Function.update (copy m dst src n) (dst + n) (m (src + n)) := by
  funext x
  rw [Function.update_apply]
  unfold copy
  split_ifs with h₁ h₂ h₃ h₄ h₅
  · rw [h₂, Nat.add_sub_cancel_left]
  · rfl
  · omega
  · omega
  · omega
  · rfl

/-- A word that is loaded and stored elsewhere. -/
theorem storeWord_copy (m : ByteMem) (dst src : Nat) : storeWord m dst (loadWord m src) = copy m dst src 4 := by
  funext x
  unfold storeWord copy
  split_ifs with h
  · exact loadWord_byte m src (by omega)
  · rfl

/-- A word that is there already. -/
theorem storeWord_loadWord (m : ByteMem) (a : Nat) : storeWord m a (loadWord m a) = m := by
  funext x
  rw [storeWord_copy]
  unfold copy
  split_ifs with h
  · rw [Nat.add_sub_cancel' h.1]
  · rfl

/-- A copy in two parts. -/
theorem copy_copy {p : Nat} (h : dst + n + p ≤ src ∨ src + n + p ≤ dst) :
    copy (copy m dst src n) (dst + n) (src + n) p = copy m dst src (n + p) := by
  funext x
  unfold copy
  by_cases hlo : dst ≤ x ∧ x < dst + n
  · rw [if_neg (by omega), if_pos hlo, if_pos (by omega)]
  · by_cases hhi : dst + n ≤ x ∧ x < dst + n + p
    · rw [if_pos hhi, if_neg (by omega), if_pos (by omega)]
      congr 1
      omega
    · rw [if_neg hhi, if_neg hlo, if_neg (by omega)]

theorem loadBytes_length (m : ByteMem) (a n : Nat) : (loadBytes m a n).length = n := by
  unfold loadBytes
  rw [List.length_map, List.length_range]

/-- Bytes in two parts. -/
theorem loadBytes_add (m : ByteMem) (a n k : Nat) :
    loadBytes m a (n + k) = loadBytes m a n ++ loadBytes m (a + n) k := by
  unfold loadBytes
  rw [List.range_add, List.map_append, List.map_map]
  simp only [Function.comp_def, Nat.add_assoc]

theorem loadBytes_congr (h : ∀ x, a ≤ x → x < a + n → m' x = m x) : loadBytes m' a n = loadBytes m a n := by
  refine List.map_congr_left fun i hi => h (a + i) (Nat.le_add_right a i) ?_
  have := List.mem_range.mp hi
  omega

theorem loadBytes_copy (m : ByteMem) (dst src n : Nat) :
    loadBytes (copy m dst src n) dst n = loadBytes m src n :=
  List.map_congr_left fun _ hi => copy_byte m dst src (List.mem_range.mp hi)

end Mos.Lib
