import Mos.Lib.ByteMem
import Mos.Lib.Loop

/-!
# MOS on RISC-V — memcpy and memset

Both routines of `lib/string.c` go byte by byte up to a word boundary, word by word as long
as a word fits, and byte by byte again. Addresses have 32 bits, and so has `dst + 4`.

Main results:

* `memcpy_run` and `memset_run` — what they leave is what the loop over single bytes leaves;
* `memOps_naive_iff` — they return, and with that, exactly if the words do not end at the last
  word of the address space, where `dst + 4` is zero again and the loop never stops.
-/

namespace Mos.Base

open Mos.Lib

-- ---------------------------------------------------------------------------
-- The source
-- ---------------------------------------------------------------------------

/-- An address, or a sum of addresses, in 32 bits. -/
def addr (a : Nat) : Nat := a % 2 ^ 32

/-- The memory, and the two pointers of a routine. -/
structure Cursor where
  mem : ByteMem
  dst : Nat
  src : Nat

/-- `*(char *)dst++ = *(char *)src++`. -/
def copyByte (s : Cursor) : Cursor :=
  ⟨Function.update s.mem s.dst (s.mem s.src), addr (s.dst + 1), addr (s.src + 1)⟩

/-- `*(uint32_t *)dst = *(uint32_t *)src`, and both pointers move on. -/
def copyWord (s : Cursor) : Cursor :=
  ⟨storeWord s.mem s.dst (loadWord s.mem s.src), addr (s.dst + 4), addr (s.src + 4)⟩

/-- The memory after `memcpy(dst, src, n)`, if no loop takes more than `fuel` tests. -/
def memcpy (fuel : Nat) (m : ByteMem) (dst src n : Nat) : Option ByteMem := do
  let max := addr (dst + n)
  if src % 4 ≠ dst % 4 then
    let s ← loop (fun s => s.dst < max) (fun s => some (copyByte s)) fuel ⟨m, dst, src⟩
    return s.mem
  let s ← loop (fun s => s.dst % 4 ≠ 0 ∧ s.dst < max) (fun s => some (copyByte s)) fuel ⟨m, dst, src⟩
  let s ← loop (fun s => addr (s.dst + 4) ≤ max) (fun s => some (copyWord s)) fuel s
  let s ← loop (fun s => s.dst < max) (fun s => some (copyByte s)) fuel s
  return s.mem

/-- The memory, and the pointer of `memset`. -/
structure Fill where
  mem : ByteMem
  dst : Nat

def fillByte (byte : BitVec 8) (s : Fill) : Fill := ⟨Function.update s.mem s.dst byte, addr (s.dst + 1)⟩

def fillWord (word : Nat) (s : Fill) : Fill := ⟨storeWord s.mem s.dst word, addr (s.dst + 4)⟩

/-- `byte | byte << 8 | byte << 16 | byte << 24`. -/
def fourTimes (byte : Nat) : Nat := byte ||| byte <<< 8 ||| byte <<< 16 ||| byte <<< 24

/-- `memset(dst, c, n)`; `c & 0xff` is the low byte of an `int`. -/
def memset (fuel : Nat) (m : ByteMem) (dst : Nat) (c : Int) (n : Nat) : Option ByteMem := do
  let max := addr (dst + n)
  let byte := BitVec.ofInt 8 c
  let word := fourTimes byte.toNat
  let s ← loop (fun s => s.dst % 4 ≠ 0 ∧ s.dst < max) (fun s => some (fillByte byte s)) fuel ⟨m, dst⟩
  let s ← loop (fun s => addr (s.dst + 4) ≤ max) (fun s => some (fillWord word s)) fuel s
  let s ← loop (fun s => s.dst < max) (fun s => some (fillByte byte s)) fuel s
  return s.mem

-- ---------------------------------------------------------------------------
-- What they should do
-- ---------------------------------------------------------------------------

/-- The loop over `n` single bytes, from the first to the last. -/
def byteCopy (m : ByteMem) (dst src : Nat) : Nat → ByteMem
  | 0 => m
  | n + 1 => let m := byteCopy m dst src n; Function.update m (dst + n) (m (src + n))

def byteFill (m : ByteMem) (dst : Nat) (byte : BitVec 8) : Nat → ByteMem
  | 0 => m
  | n + 1 => Function.update (byteFill m dst byte n) (dst + n) byte

/-- `memcpy` returns, with the memory of the naive loop; only the destination has changed. -/
def MemcpyRight (m : ByteMem) (dst src n : Nat) : Prop :=
  ∃ fuel m', memcpy fuel m dst src n = some m' ∧ m' = byteCopy m dst src n ∧
    ∀ x, x < dst ∨ dst + n ≤ x → m' x = m x

def MemsetRight (m : ByteMem) (dst : Nat) (c : Int) (n : Nat) : Prop :=
  ∃ fuel m', memset fuel m dst c n = some m' ∧ m' = byteFill m dst (BitVec.ofInt 8 c) n ∧
    ∀ x, x < dst ∨ dst + n ≤ x → m' x = m x

variable {m : ByteMem} {dst src n k x : Nat} {byte : BitVec 8}

/-- The naive loop leaves alone what is not copied to. -/
theorem byteCopy_of_notMem (h : x < dst ∨ dst + n ≤ x) : byteCopy m dst src n x = m x := by
  induction n with
  | zero => rfl
  | succ n ih =>
    rw [byteCopy, Function.update_of_ne (by omega)]
    exact ih (by omega)

/-- Forward, the loop reads what it has not overwritten. -/
theorem byteCopy_eq_copy (h : dst ≤ src ∨ src + n ≤ dst) : byteCopy m dst src n = copy m dst src n := by
  induction n with
  | zero => exact (copy_zero m dst src).symm
  | succ n ih =>
    rw [byteCopy, ih (by omega), copy_of_notMem (by omega), copy_succ]

theorem byteCopy_add (m : ByteMem) (dst src k n : Nat) :
    byteCopy m dst src (k + n) = byteCopy (byteCopy m dst src k) (dst + k) (src + k) n := by
  induction n with
  | zero => rfl
  | succ n ih => rw [byteCopy, ← ih, ← Nat.add_assoc, byteCopy, Nat.add_assoc, Nat.add_assoc]

theorem byteFill_add (m : ByteMem) (dst : Nat) (byte : BitVec 8) (k n : Nat) :
    byteFill m dst byte (k + n) = byteFill (byteFill m dst byte k) (dst + k) byte n := by
  induction n with
  | zero => rfl
  | succ n ih => rw [byteFill, ← ih, ← Nat.add_assoc, byteFill, Nat.add_assoc]

theorem addr_of_lt (h : x < 2 ^ 32) : addr x = x := Nat.mod_eq_of_lt h

-- ---------------------------------------------------------------------------
-- Words
-- ---------------------------------------------------------------------------

/-- A word is copied like four bytes: overlapping ranges are a whole word apart. -/
theorem storeWord_byteCopy (h : src % 4 = dst % 4) : storeWord m dst (loadWord m src) = byteCopy m dst src 4 := by
  rw [byteCopy_eq_copy (by omega), storeWord_copy]

theorem fourTimes_eq {b : Nat} (h : b < 2 ^ 8) : fourTimes b = 0x1010101 * b := by
  have h₁ : b ||| b <<< 8 = b <<< 8 + b := by
    rw [Nat.or_comm, Nat.shiftLeft_add_eq_or_of_lt h]
  have hlt₁ : b <<< 8 + b < 2 ^ 16 := by
    rw [Nat.shiftLeft_eq]
    omega
  have h₂ : b <<< 8 + b ||| b <<< 16 = b <<< 16 + (b <<< 8 + b) := by
    rw [Nat.or_comm, Nat.shiftLeft_add_eq_or_of_lt hlt₁]
  have hlt₂ : b <<< 16 + (b <<< 8 + b) < 2 ^ 24 := by
    rw [Nat.shiftLeft_eq, Nat.shiftLeft_eq]
    omega
  rw [fourTimes, h₁, h₂, Nat.or_comm, ← Nat.shiftLeft_add_eq_or_of_lt hlt₂, Nat.shiftLeft_eq, Nat.shiftLeft_eq,
    Nat.shiftLeft_eq]
  omega

theorem byteFill_eq (m : ByteMem) (dst : Nat) (byte : BitVec 8) (n : Nat) :
    byteFill m dst byte n = fun x => if dst ≤ x ∧ x < dst + n then byte else m x := by
  induction n with
  | zero =>
    funext x
    rw [if_neg (by omega), byteFill]
  | succ n ih =>
    funext x
    rw [byteFill, ih, Function.update_apply]
    by_cases hx : x = dst + n
    · rw [if_pos hx, if_pos (by omega)]
    · rw [if_neg hx]
      exact if_congr (by omega) rfl rfl

theorem byteFill_of_notMem (h : x < dst ∨ dst + n ≤ x) : byteFill m dst byte n x = m x := by
  rw [byteFill_eq]
  exact if_neg (by omega)

/-- The word of `memset` is four times its byte. -/
theorem storeWord_byteFill : storeWord m dst (fourTimes byte.toNat) = byteFill m dst byte 4 := by
  have hlt := byte.isLt
  have hbyte : ∀ j < 4, BitVec.ofNat 8 (fourTimes byte.toNat / 256 ^ j) = byte := fun j hj => by
    have hj' : j = 0 ∨ j = 1 ∨ j = 2 ∨ j = 3 := by omega
    apply BitVec.eq_of_toNat_eq
    rw [BitVec.toNat_ofNat, fourTimes_eq hlt]
    rcases hj' with rfl | rfl | rfl | rfl
    · omega
    · rw [show 0x1010101 * byte.toNat / 256 ^ 1 = 0x10101 * byte.toNat by omega]
      omega
    · rw [show 0x1010101 * byte.toNat / 256 ^ 2 = 0x101 * byte.toNat by omega]
      omega
    · rw [show 0x1010101 * byte.toNat / 256 ^ 3 = byte.toNat by omega]
      omega
  rw [byteFill_eq]
  funext x
  rw [storeWord]
  split_ifs with hx
  · exact hbyte (x - dst) (by omega)
  · rfl

-- ---------------------------------------------------------------------------
-- The loops
-- ---------------------------------------------------------------------------

/-- `memcpy` after `k` bytes. -/
def copied (m : ByteMem) (dst src k : Nat) : Cursor := ⟨byteCopy m dst src k, dst + k, src + k⟩

def filled (m : ByteMem) (dst : Nat) (byte : BitVec 8) (k : Nat) : Fill := ⟨byteFill m dst byte k, dst + k⟩

theorem copyByte_copied (hdst : dst + n < 2 ^ 32) (hsrc : src + n < 2 ^ 32) (h : k + 1 ≤ n) :
    copyByte (copied m dst src k) = copied m dst src (k + 1) := by
  show (⟨_, addr (dst + k + 1), addr (src + k + 1)⟩ : Cursor) = _
  rw [addr_of_lt (by omega), addr_of_lt (by omega)]
  rfl

theorem copyWord_copied (hdst : dst + n < 2 ^ 32) (hsrc : src + n < 2 ^ 32) (halign : src % 4 = dst % 4)
    (h : k + 4 ≤ n) : copyWord (copied m dst src k) = copied m dst src (k + 4) := by
  show (⟨storeWord (byteCopy m dst src k) (dst + k) (loadWord (byteCopy m dst src k) (src + k)),
    addr (dst + k + 4), addr (src + k + 4)⟩ : Cursor) = _
  rw [addr_of_lt (by omega), addr_of_lt (by omega), storeWord_byteCopy (by omega), ← byteCopy_add]
  rfl

theorem fillByte_filled (hdst : dst + n < 2 ^ 32) (h : k + 1 ≤ n) :
    fillByte byte (filled m dst byte k) = filled m dst byte (k + 1) := by
  show (⟨_, addr (dst + k + 1)⟩ : Fill) = _
  rw [addr_of_lt (by omega)]
  rfl

theorem fillWord_filled (hdst : dst + n < 2 ^ 32) (h : k + 4 ≤ n) :
    fillWord (fourTimes byte.toNat) (filled m dst byte k) = filled m dst byte (k + 4) := by
  show (⟨storeWord (byteFill m dst byte k) (dst + k) (fourTimes byte.toNat), addr (dst + k + 4)⟩ : Fill) = _
  rw [addr_of_lt (by omega), storeWord_byteFill, ← byteFill_add]
  rfl

/-- A loop over single bytes. -/
theorem copyBytes_loop (m : ByteMem) (dst src : Nat) (hdst : dst + n < 2 ^ 32) (hsrc : src + n < 2 ^ 32) (c : Cursor → Prop)
    [DecidablePred c] (hc : ∀ s, c s → s.dst < dst + n) (hk : k ≤ n) :
    ∃ j, k ≤ j ∧ j ≤ n ∧ ¬ c (copied m dst src j) ∧ ∀ fuel, n - k < fuel →
      loop c (fun s => some (copyByte s)) fuel (copied m dst src k) = some (copied m dst src j) := by
  refine loop_count (copied m dst src) Nat.one_pos ?_ hk
  intro j _ hj
  have hlt : dst + j < dst + n := hc _ hj
  have hle : j + 1 ≤ n := by omega
  exact ⟨hle, congrArg some (copyByte_copied hdst hsrc hle)⟩

theorem fillBytes_loop (m : ByteMem) (dst : Nat) (byte : BitVec 8) (hdst : dst + n < 2 ^ 32) (c : Fill → Prop)
    [DecidablePred c] (hc : ∀ s, c s → s.dst < dst + n) (hk : k ≤ n) :
    ∃ j, k ≤ j ∧ j ≤ n ∧ ¬ c (filled m dst byte j) ∧ ∀ fuel, n - k < fuel →
      loop c (fun s => some (fillByte byte s)) fuel (filled m dst byte k) = some (filled m dst byte j) := by
  refine loop_count (filled m dst byte) Nat.one_pos ?_ hk
  intro j _ hj
  have hlt : dst + j < dst + n := hc _ hj
  have hle : j + 1 ≤ n := by omega
  exact ⟨hle, congrArg some (fillByte_filled hdst hle)⟩

/-- The loop over whole words, while `dst + 4` stays below `2 ^ 32`. -/
theorem copyWords_loop (m : ByteMem) (dst src : Nat) (hdst : dst + n < 2 ^ 32 - 4) (hsrc : src + n < 2 ^ 32)
    (halign : src % 4 = dst % 4) (hk : k ≤ n) :
    ∃ j ≤ n, ∀ fuel, n - k < fuel → loop (fun s => addr (s.dst + 4) ≤ dst + n) (fun s => some (copyWord s)) fuel
      (copied m dst src k) = some (copied m dst src j) := by
  obtain ⟨j, -, hj, -, hrun⟩ := loop_count (c := fun s : Cursor => addr (s.dst + 4) ≤ dst + n)
    (b := fun s => some (copyWord s)) (copied m dst src) (w := 4) (by decide) (fun j hj hc => by
      have hle : addr (dst + j + 4) ≤ dst + n := hc
      rw [addr_of_lt (by omega)] at hle
      have hjn : j + 4 ≤ n := by omega
      exact ⟨hjn, congrArg some (copyWord_copied (by omega) hsrc halign hjn)⟩) hk
  exact ⟨j, hj, hrun⟩

theorem fillWords_loop (m : ByteMem) (byte : BitVec 8) (hdst : dst + n < 2 ^ 32 - 4) (hk : k ≤ n) :
    ∃ j ≤ n, ∀ fuel, n - k < fuel → loop (fun s => addr (s.dst + 4) ≤ dst + n)
      (fun s => some (fillWord (fourTimes byte.toNat) s)) fuel (filled m dst byte k) = some (filled m dst byte j) := by
  obtain ⟨j, -, hj, -, hrun⟩ := loop_count (c := fun s : Fill => addr (s.dst + 4) ≤ dst + n)
    (b := fun s => some (fillWord (fourTimes byte.toNat) s)) (filled m dst byte) (w := 4) (by decide) (fun j hj hc => by
      have hle : addr (dst + j + 4) ≤ dst + n := hc
      rw [addr_of_lt (by omega)] at hle
      have hjn : j + 4 ≤ n := by omega
      exact ⟨hjn, congrArg some (fillWord_filled (by omega) hjn)⟩) hk
  exact ⟨j, hj, hrun⟩

-- ---------------------------------------------------------------------------
-- The routines
-- ---------------------------------------------------------------------------

/-- Off the last word of the address space, `memcpy` is the naive loop. -/
theorem memcpy_run (m : ByteMem) (hdst : dst + n ≤ 2 ^ 32 - 4) (hsrc : src + n ≤ 2 ^ 32 - 4)
    (h : ¬ (src % 4 = dst % 4 ∧ dst + n = 2 ^ 32 - 4)) {fuel : Nat} (hfuel : n < fuel) :
    memcpy fuel m dst src n = some (byteCopy m dst src n) := by
  have hmax : addr (dst + n) = dst + n := addr_of_lt (by omega)
  have hstart : (⟨m, dst, src⟩ : Cursor) = copied m dst src 0 := rfl
  have hlast : ∀ {k}, k ≤ n → loop (fun s => s.dst < dst + n) (fun s => some (copyByte s)) fuel (copied m dst src k) =
      some (copied m dst src n) := fun {k} hk => by
    obtain ⟨j, -, hj, hend, hrun⟩ := copyBytes_loop (n := n) m dst src (by omega) (by omega) (fun s => s.dst < dst + n)
      (fun _ hs => hs) hk
    have hge : ¬ dst + j < dst + n := hend
    rw [hrun fuel (by omega), show j = n by omega]
  unfold memcpy
  rw [hmax, hstart]
  by_cases halign : src % 4 = dst % 4
  · -- up to a word boundary, the words, and what is left
    obtain ⟨i, -, hi, -, hrun₁⟩ := copyBytes_loop (n := n) m dst src (by omega) (by omega)
      (fun s => s.dst % 4 ≠ 0 ∧ s.dst < dst + n) (fun _ hs => hs.2) (Nat.zero_le n)
    obtain ⟨j, hj, hrun₂⟩ := copyWords_loop (n := n) m dst src (by omega) (by omega) halign hi
    rw [if_neg (not_not.mpr halign), hrun₁ fuel (by omega), Option.bind_eq_bind, Option.bind_some,
      hrun₂ fuel (by omega), Option.bind_some, hlast hj]
    rfl
  · rw [if_pos halign, hlast (Nat.zero_le n)]
    rfl

theorem memset_run (m : ByteMem) (c : Int) (hdst : dst + n < 2 ^ 32 - 4) {fuel : Nat} (hfuel : n < fuel) :
    memset fuel m dst c n = some (byteFill m dst (BitVec.ofInt 8 c) n) := by
  have hmax : addr (dst + n) = dst + n := addr_of_lt (by omega)
  obtain ⟨byte, hb⟩ : ∃ byte, BitVec.ofInt 8 c = byte := ⟨_, rfl⟩
  have hstart : (⟨m, dst⟩ : Fill) = filled m dst byte 0 := rfl
  obtain ⟨i, -, hi, -, hrun₁⟩ := fillBytes_loop (n := n) m dst byte (by omega)
    (fun s => s.dst % 4 ≠ 0 ∧ s.dst < dst + n) (fun _ hs => hs.2) (Nat.zero_le n)
  obtain ⟨j, hj, hrun₂⟩ := fillWords_loop m byte hdst hi
  obtain ⟨k, -, hk, hend, hrun₃⟩ := fillBytes_loop (n := n) m dst byte (by omega) (fun s => s.dst < dst + n) (fun _ hs => hs) hj
  have hge : ¬ dst + k < dst + n := hend
  unfold memset
  rw [hmax, hb, hstart]
  show (loop _ _ _ _ >>= _) = _
  rw [hrun₁ fuel (by omega), Option.bind_eq_bind, Option.bind_some, hrun₂ fuel (by omega),
    Option.bind_some, hrun₃ fuel (by omega), show k = n by omega]
  rfl

/-- Where words end at the last word of the address space, the next test passes for ever. -/
theorem words_never {σ : Type} (ptr : σ → Nat) {b : σ → Option σ} {s : σ}
    (hb : ∀ s s', b s = some s' → ptr s' = addr (ptr s + 4)) (halign : ptr s % 4 = 0) (fuel : Nat) :
    loop (fun s => addr (ptr s + 4) ≤ 2 ^ 32 - 4) b fuel s = none := by
  refine loop_never (fun s => ptr s % 4 = 0) ?_ halign fuel
  intro s hs
  have hround : addr (ptr s + 4) % 4 = 0 ∧ addr (ptr s + 4) ≤ 2 ^ 32 - 4 := by
    unfold addr
    omega
  refine ⟨hround.2, ?_⟩
  intro s' hs'
  rw [hb s s' hs']
  exact hround.1

theorem memcpy_never (m : ByteMem) (hsrc : src + n ≤ 2 ^ 32 - 4) (halign : src % 4 = dst % 4)
    (hend : dst + n = 2 ^ 32 - 4) (fuel : Nat) : memcpy fuel m dst src n = none := by
  have hmax : addr (dst + n) = dst + n := addr_of_lt (by omega)
  have hstart : (⟨m, dst, src⟩ : Cursor) = copied m dst src 0 := rfl
  obtain ⟨i, -, hi, hstop, hrun⟩ := copyBytes_loop (n := n) m dst src (by omega) (by omega)
    (fun s => s.dst % 4 ≠ 0 ∧ s.dst < dst + n) (fun _ hs => hs.2) (Nat.zero_le n)
  have hword : (copied m dst src i).dst % 4 = 0 := by
    have hno : ¬ ((dst + i) % 4 ≠ 0 ∧ dst + i < dst + n) := hstop
    show (dst + i) % 4 = 0
    omega
  unfold memcpy
  rw [hmax, hstart, if_neg (not_not.mpr halign)]
  cases hfirst : loop (fun s => s.dst % 4 ≠ 0 ∧ s.dst < dst + n) (fun s => some (copyByte s)) fuel
      (copied m dst src 0) with
  | none => rfl
  | some s =>
    have hs : s = copied m dst src i := by
      have hmore := loop_mono hfirst (show fuel ≤ fuel + (n + 1) by omega)
      rw [hrun _ (by omega)] at hmore
      exact (Option.some.inj hmore).symm
    rw [Option.bind_eq_bind, Option.bind_some, hs, hend,
      words_never Cursor.dst (fun _ _ h => (congrArg Cursor.dst (Option.some.inj h)).symm) hword]
    rfl

theorem memset_never (m : ByteMem) (c : Int) (hend : dst + n = 2 ^ 32 - 4) (fuel : Nat) :
    memset fuel m dst c n = none := by
  have hmax : addr (dst + n) = dst + n := addr_of_lt (by omega)
  obtain ⟨byte, hb⟩ : ∃ byte, BitVec.ofInt 8 c = byte := ⟨_, rfl⟩
  have hstart : (⟨m, dst⟩ : Fill) = filled m dst byte 0 := rfl
  obtain ⟨i, -, hi, hstop, hrun⟩ := fillBytes_loop (n := n) m dst byte (by omega)
    (fun s => s.dst % 4 ≠ 0 ∧ s.dst < dst + n) (fun _ hs => hs.2) (Nat.zero_le n)
  have hword : (filled m dst byte i).dst % 4 = 0 := by
    have hno : ¬ ((dst + i) % 4 ≠ 0 ∧ dst + i < dst + n) := hstop
    show (dst + i) % 4 = 0
    omega
  unfold memset
  rw [hmax, hb, hstart]
  show (loop _ _ _ _ >>= _) = _
  cases hfirst : loop (fun s => s.dst % 4 ≠ 0 ∧ s.dst < dst + n) (fun s => some (fillByte byte s)) fuel
      (filled m dst byte 0) with
  | none => rfl
  | some s =>
    have hs : s = filled m dst byte i := by
      have hmore := loop_mono hfirst (show fuel ≤ fuel + (n + 1) by omega)
      rw [hrun _ (by omega)] at hmore
      exact (Option.some.inj hmore).symm
    rw [Option.bind_eq_bind, Option.bind_some, hs, hend,
      words_never Fill.dst (fun _ _ h => (congrArg Fill.dst (Option.some.inj h)).symm) hword]
    rfl

/-- **memcpy and memset.** They return with the memory of the naive loops, and touch nothing
else, exactly if the words do not end at the last word of the address space. -/
theorem memOps_naive_iff (m : ByteMem) (c : Int) (hdst : dst + n ≤ 2 ^ 32 - 4) (hsrc : src + n ≤ 2 ^ 32 - 4) :
    (MemcpyRight m dst src n ↔ ¬ (src % 4 = dst % 4 ∧ dst + n = 2 ^ 32 - 4)) ∧
      (MemsetRight m dst c n ↔ dst + n ≠ 2 ^ 32 - 4) := by
  have hcopy : ∀ x, x < dst ∨ dst + n ≤ x → byteCopy m dst src n x = m x := fun _ => byteCopy_of_notMem
  have hfill : ∀ x, x < dst ∨ dst + n ≤ x → byteFill m dst (BitVec.ofInt 8 c) n x = m x := fun _ => byteFill_of_notMem
  refine ⟨⟨?_, ?_⟩, ⟨?_, ?_⟩⟩
  · intro h hlast
    obtain ⟨fuel, m', hrun, -⟩ := h
    rw [memcpy_never m hsrc hlast.1 hlast.2] at hrun
    cases hrun
  · intro h
    exact ⟨n + 1, _, memcpy_run m hdst hsrc h (Nat.lt_succ_self n), rfl, hcopy⟩
  · intro h hlast
    obtain ⟨fuel, m', hrun, -⟩ := h
    rw [memset_never m c hlast] at hrun
    cases hrun
  · intro h
    exact ⟨n + 1, _, memset_run m c (by omega) (Nat.lt_succ_self n), rfl, hfill⟩

/-- Six bytes over a range that overlaps them, and six bytes filled. -/
theorem memOps_naive_overlap :
    (MemcpyRight (BitVec.ofNat 8) 0x1004 0x1000 6 ↔ ¬ (0x1000 % 4 = 0x1004 % 4 ∧ 0x1004 + 6 = 2 ^ 32 - 4)) ∧
      (MemsetRight (BitVec.ofNat 8) 0x1004 (-1) 6 ↔ 0x1004 + 6 ≠ 2 ^ 32 - 4) :=
  memOps_naive_iff (BitVec.ofNat 8) (-1) (by decide) (by decide)

/-- **The last word.** `memset((void *)0xfffffffc, 0, 0)` does not return. -/
theorem memset_lastWord : ¬ MemsetRight (fun _ => 0) 0xfffffffc 0 0 := by
  rintro ⟨fuel, m', hrun, -⟩
  rw [memset_never _ 0 (by decide)] at hrun
  cases hrun

end Mos.Base
