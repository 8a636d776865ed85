import Mos.Lib.Exact
import Mos.Tools.FsFormat

/-!
# MOS on RISC-V — a directory while the image is filled

`Room` holds of the image at all times: the blocks from `nextbno` on are untouched, and every
name ends within its field. `Directory` is a directory with its first `j` files in use, all its blocks
from block `B` on, and `Touch` is all that an operation on a file may change when its blocks
start at `B`. With them it is known of each operation when it succeeds: exactly when the blocks it takes
are there (`saveBlockLink_exactly`, `readBlocks_exactly`, `createFile_exactly`).
-/

namespace Mos.Tools

open Mos.Lib
open Mos.Fs (BY2BLK BIT2BLK NDIRECT NINDIRECT FILE2BLK MAXNAMELEN slash)

variable {img img' img'' : Image} {p q f : FilePtr} {B i j n len nblk bno iblk : Nat}

/-- What the language leaves undefined. -/
def Halt.Undefined : Halt → Prop
  | .badIndex _ => True
  | .overrun => True
  | _ => False

/-- A name with its NUL. -/
def NameOk (F : File) : Prop := ∃ k < MAXNAMELEN, F.fName k = 0

-- ---------------------------------------------------------------------------
-- The invariant
-- ---------------------------------------------------------------------------

structure Room (img : Image) : Prop where
  high : img.nextbno ≤ NBLOCK
  fresh : ∀ b k, img.nextbno ≤ b → img.file (.slot b k) = .zero
  names : ∀ f, NameOk (img.file f)

/-- A file in a block before `B`, or the root. -/
def FilePtr.below (B : Nat) : FilePtr → Prop
  | .root => True
  | .slot b _ => b < B

/-- The number of block `i` of a file. -/
def Image.link (img : Image) (f : FilePtr) (i : Nat) : Nat :=
  if i < NDIRECT then (img.file f).fDirect i else img.word (img.file f).fIndirect i

/-- File `e` of a directory. -/
def Image.entry (img : Image) (p : FilePtr) (e : Nat) : FilePtr :=
  .slot (img.link p (e / FILE2BLK)) (e % FILE2BLK)

/-- A file with `len` blocks has an index block if it needs one. -/
def HasTable (img : Image) (B : Nat) (f : FilePtr) (len : Nat) : Prop :=
  if len ≤ NDIRECT then (img.file f).fIndirect = 0
  else B ≤ (img.file f).fIndirect ∧ (img.file f).fIndirect < img.nextbno

/-- The blocks of a directory with `j` files. -/
def dirBlocks (j : Nat) : Nat := (j + FILE2BLK - 1) / FILE2BLK

structure Directory (img : Image) (B : Nat) (p : FilePtr) (len j : Nat) : Prop where
  start : 0 < B
  place : p.below B
  size : (img.file p).fSize = BY2BLK * len
  count : B + len ≤ img.nextbno
  link : ∀ i < len, B ≤ img.link p i ∧ img.link p i < img.nextbno
  once : ∀ i < len, ∀ i' < len, img.link p i = img.link p i' → i = i'
  table : HasTable img B p len
  used : ∀ e < j, (img.file (img.entry p e)).fName 0 ≠ 0
  free : ∀ e, j ≤ e → e < FILE2BLK * len → img.file (img.entry p e) = .zero

/-- What is before block `B` is as it was, but for the file `p`, which keeps its name. -/
structure Touch (B : Nat) (p : FilePtr) (img img' : Image) : Prop where
  next : img.nextbno ≤ img'.nextbno
  file : ∀ f, f.below B → f ≠ p → img'.file f = img.file f
  word : ∀ b < B, img'.word b = img.word b
  name : (img'.file p).fName = (img.file p).fName

theorem Touch.refl (B : Nat) (p : FilePtr) (img : Image) : Touch B p img img :=
  ⟨Nat.le_refl _, fun _ _ _ => rfl, fun _ _ => rfl, rfl⟩

theorem Touch.trans (h : Touch B p img img') (h' : Touch B p img' img'') : Touch B p img img'' where
  next := h.next.trans h'.next
  file := fun f hb hf => (h'.file f hb hf).trans (h.file f hb hf)
  word := fun b hb => (h'.word b hb).trans (h.word b hb)
  name := h'.name.trans h.name

theorem FilePtr.below.mono (h : f.below B) (hn : B ≤ n) : f.below n := by
  cases f with
  | root => trivial
  | slot b k => exact Nat.lt_of_lt_of_le h hn

/-- A file that lies past `B`, with its own blocks past `n`, is none of what `p` has to keep. -/
theorem Touch.inner (h : Touch n f img img') (hB : B ≤ n) (hf : ¬ f.below B) (hp : p.below B) :
    Touch B p img img' := by
  have hne : ∀ g : FilePtr, g.below B → g ≠ f := by
    intro g hg hgf
    rw [hgf] at hg
    exact hf hg
  exact ⟨h.next, fun g hg _ => h.file g (hg.mono hB) (hne g hg), fun b hb => h.word b (Nat.lt_of_lt_of_le hb hB),
    congrArg File.fName (h.file p (hp.mono hB) (hne p hp))⟩

namespace Directory

variable (h : Directory img B p len j)
include h

theorem entry_lt {e : Nat} (he : e < FILE2BLK * len) :
    B ≤ img.link p (e / FILE2BLK) ∧ img.link p (e / FILE2BLK) < img.nextbno :=
  h.link _ (Nat.div_lt_of_lt_mul he)

/-- The files of a directory lie past `B`. -/
theorem entry_not_below {e : Nat} (he : e < FILE2BLK * len) : ¬ (img.entry p e).below B :=
  Nat.not_lt.mpr (h.entry_lt he).1

theorem entry_below {e : Nat} (he : e < FILE2BLK * len) : (img.entry p e).below img.nextbno :=
  (h.entry_lt he).2

/-- No file of a directory is the directory. -/
theorem entry_ne {e : Nat} (he : e < FILE2BLK * len) : img.entry p e ≠ p := by
  intro hp
  have hplace := h.place
  rw [← hp] at hplace
  exact h.entry_not_below he hplace

theorem entry_inj {e e' : Nat} (he : e < FILE2BLK * len) (he' : e' < FILE2BLK * len)
    (heq : img.entry p e = img.entry p e') : e = e' := by
  unfold Image.entry at heq
  rw [FilePtr.slot.injEq] at heq
  have hdiv := h.once _ (Nat.div_lt_of_lt_mul he) _ (Nat.div_lt_of_lt_mul he') heq.1
  rw [← Nat.div_add_mod e FILE2BLK, ← Nat.div_add_mod e' FILE2BLK, hdiv, heq.2]

/-- A directory is kept when its file, its words and its files are, but for one file that stays in use. -/
theorem keep {e₀ : Nat} (hlen : j ≤ FILE2BLK * len) (he₀ : e₀ < j) (hB : B ≤ img.nextbno)
    (ht : Touch img.nextbno (img.entry p e₀) img img') : Directory img' B p len j := by
  have hlt₀ : e₀ < FILE2BLK * len := Nat.lt_of_lt_of_le he₀ hlen
  have hpfile : img'.file p = img.file p :=
    ht.file p (h.place.mono hB) (Ne.symm (h.entry_ne hlt₀))
  have hlink : ∀ i < len, img'.link p i = img.link p i := by
    intro i hi
    unfold Image.link
    rw [hpfile]
    split_ifs with hd
    · rfl
    · have htab := h.table
      unfold HasTable at htab
      rw [if_neg (by omega)] at htab
      exact congrFun (ht.word _ htab.2) i
  have hentry : ∀ e < FILE2BLK * len, img'.entry p e = img.entry p e := by
    intro e he
    unfold Image.entry
    rw [hlink _ (Nat.div_lt_of_lt_mul he)]
  refine ⟨h.start, h.place, ?_, Nat.le_trans h.count ht.next, ?_, ?_, ?_, ?_, ?_⟩
  · rw [hpfile, h.size]
  · intro i hi
    rw [hlink i hi]
    exact ⟨(h.link i hi).1, Nat.lt_of_lt_of_le (h.link i hi).2 ht.next⟩
  · intro i hi i' hi' heq
    rw [hlink i hi, hlink i' hi'] at heq
    exact h.once i hi i' hi' heq
  · have htab := h.table
    unfold HasTable at htab ⊢
    rw [hpfile]
    split_ifs at htab ⊢ with hd
    · exact htab
    · exact ⟨htab.1, Nat.lt_of_lt_of_le htab.2 ht.next⟩
  · intro e he
    have hlt : e < FILE2BLK * len := Nat.lt_of_lt_of_le he hlen
    rw [hentry e hlt]
    by_cases heq : e = e₀
    · rw [heq, ht.name]
      exact h.used e₀ he₀
    · rw [ht.file _ (h.entry_below hlt) fun hc => heq (h.entry_inj hlt hlt₀ hc)]
      exact h.used e he
  · intro e hje hlt
    rw [hentry e hlt, ht.file _ (h.entry_below hlt) fun hc => absurd (h.entry_inj hlt hlt₀ hc) (by omega)]
    exact h.free e hje hlt

end Directory

-- ---------------------------------------------------------------------------
-- Blocks
-- ---------------------------------------------------------------------------

/-- The image after `next_block(type)`. -/
def Image.taken (img : Image) (type : Nat) : Image :=
  { img with type := Function.update img.type img.nextbno type, nextbno := img.nextbno + 1 }

theorem useBlock_run (hn : n < NBLOCK) (img : Image) : useBlock n img = .ok ((), img) := by
  unfold useBlock
  rw [if_pos hn]
  rfl

theorem useBlock_bad (hn : ¬ n < NBLOCK) (img : Image) : useBlock n img = .error (.badIndex n) := by
  unfold useBlock
  rw [if_neg hn]
  rfl

theorem assert_run {c : Prop} [Decidable c] (hc : c) (img : Image) : assert c img = .ok ((), img) := by
  unfold assert
  rw [if_pos hc]
  rfl

theorem useBlock_exactly (n : Nat) (img : Image) :
    Exactly Halt.Undefined (useBlock n) img (n < NBLOCK) fun _ img' => img = img' :=
  .of_cases (fun hn => .of_ok (useBlock_run hn img) rfl) fun hn => .of_error (useBlock_bad hn img) trivial

theorem nextBlock_exactly (type : Nat) (img : Image) :
    Exactly Halt.Undefined (nextBlock type) img (img.nextbno < NBLOCK)
      fun bno img' => bno = img.nextbno ∧ img' = img.taken type := by
  refine .of_cases (fun hn => ?_) fun hn => ?_
  · have hrun : nextBlock type img = .ok (img.nextbno, img.taken type) := by
      unfold nextBlock
      rw [run_get, run_bind (useBlock_run hn img)]
      rfl
    exact .of_ok hrun ⟨rfl, rfl⟩
  · have hrun : nextBlock type img = .error (.badIndex img.nextbno) := by
      unfold nextBlock
      rw [run_get, run_bind_error (useBlock_bad hn img)]
    exact .of_error hrun trivial

/-- A block that is taken is not yet of use to anything. -/
theorem Room.taken (h : Room img) (hn : img.nextbno < NBLOCK) (type : Nat) : Room (img.taken type) :=
  ⟨hn, fun b k hb => h.fresh b k (Nat.le_of_succ_le hb), h.names⟩

/-- The index block that comes with link `nblk`. -/
def tableBlocks (nblk : Nat) : Nat := if nblk = NDIRECT then 1 else 0

/-- Block `bno` has become link `nblk` of the file `f`, and the other files are as they were. -/
structure Linked (B : Nat) (f : FilePtr) (nblk bno : Nat) (img img' : Image) : Prop where
  next : img'.nextbno = img.nextbno + tableBlocks nblk
  high : img'.nextbno ≤ NBLOCK
  files : ∀ f', f' ≠ f → img'.file f' = img.file f'
  name : (img'.file f).fName = (img.file f).fName
  size : (img'.file f).fSize = (img.file f).fSize
  word : ∀ b < B, img'.word b = img.word b
  link : ∀ i < nblk, img'.link f i = img.link f i
  last : img'.link f nblk = bno
  table : HasTable img' B f (nblk + 1)

/-- The index block `ind` is there for link `nblk`. -/
structure Indexed (B : Nat) (f : FilePtr) (nblk ind : Nat) (img img' : Image) : Prop where
  next : img'.nextbno = img.nextbno + tableBlocks nblk
  high : img'.nextbno ≤ NBLOCK
  files : ∀ f', f' ≠ f → img'.file f' = img.file f'
  name : (img'.file f).fName = (img.file f).fName
  size : (img'.file f).fSize = (img.file f).fSize
  word : img'.word = img.word
  link : ∀ i < nblk, img'.link f i = img.link f i
  indirect : (img'.file f).fIndirect = ind
  lo : B ≤ ind
  hi : ind < img'.nextbno

theorem indexBlock_exactly (hr : Room img) (hpos : 0 < B) (hB : B ≤ img.nextbno) (ht : HasTable img B f nblk)
    (hd : ¬ nblk < NDIRECT) :
    Exactly Halt.Undefined (indexBlock f) img (img.nextbno + tableBlocks nblk ≤ NBLOCK)
      fun ind img' => Indexed B f nblk ind img img' := by
  unfold HasTable at ht
  by_cases hi : nblk = NDIRECT
  · -- The first link that is not in the file itself.
    rw [if_pos (Nat.le_of_eq hi)] at ht
    have hone : tableBlocks nblk = 1 := if_pos hi
    have hrun : indexBlock f img = (nextBlock BLOCK_INDEX >>= fun bno => do
        setFile f fun F => { F with fIndirect := bno }
        return bno) img := by
      unfold indexBlock
      rw [run_get, if_pos ht]
    rw [hone]
    refine .same ((nextBlock_exactly BLOCK_INDEX img).bind_run ?_) hrun
    rintro hlt bno img' ⟨rfl, rfl⟩
    refine .of_ok rfl ⟨?_, hlt, ?_, ?_, ?_, rfl, ?_, ?_, hB, Nat.lt_succ_self _⟩
    · rw [hone]
      rfl
    · intro f' hf'
      exact Function.update_of_ne hf' ..
    · simp only [Function.update_self, Image.taken]
    · simp only [Function.update_self, Image.taken]
    · intro i hin
      simp only [Image.link, if_pos (show i < NDIRECT by omega), Function.update_self, Image.taken]
    · simp only [Function.update_self]
  · have hnone : tableBlocks nblk = 0 := if_neg hi
    rw [if_neg (show ¬ nblk ≤ NDIRECT by omega)] at ht
    have hrun : indexBlock f img = .ok ((img.file f).fIndirect, img) := by
      unfold indexBlock
      rw [run_get, if_neg (by omega)]
      rfl
    rw [hnone]
    refine (Exactly.of_ok hrun ?_).congr ⟨fun _ => trivial, fun _ => hr.high⟩
    exact ⟨by rw [hnone]; rfl, hr.high, fun _ _ => rfl, rfl, rfl, rfl, fun _ _ => rfl, rfl, ht.1, ht.2⟩

/-- **A link is saved exactly when there is a block for the index it may need.** -/
theorem saveBlockLink_exactly (hr : Room img) (hpos : 0 < B) (hB : B ≤ img.nextbno)
    (ht : HasTable img B f nblk) (hn : nblk < NINDIRECT) (bno : Nat) :
    Exactly Halt.Undefined (saveBlockLink f nblk bno) img (img.nextbno + tableBlocks nblk ≤ NBLOCK)
      fun _ img' => Linked B f nblk bno img img' := by
  refine .bind_ok (assert_run hn img) ?_
  by_cases hd : nblk < NDIRECT
  · have hnone : tableBlocks nblk = 0 := if_neg (Nat.ne_of_lt hd)
    rw [if_pos hd, hnone]
    refine (Exactly.of_ok rfl ?_).congr ⟨fun _ => trivial, fun _ => hr.high⟩
    refine ⟨by rw [hnone]; rfl, hr.high, fun f' hf' => Function.update_of_ne hf' .., ?_, ?_, fun _ _ => rfl,
      ?_, ?_, ?_⟩
    · simp only [Function.update_self]
    · simp only [Function.update_self]
    · intro i hi
      simp only [Image.link, if_pos (Nat.lt_trans hi hd), Function.update_self]
      exact Function.update_of_ne (Nat.ne_of_lt hi) ..
    · simp only [Image.link, if_pos hd, Function.update_self]
    · unfold HasTable at ht ⊢
      rw [if_pos (Nat.le_of_lt hd)] at ht
      rw [if_pos (Nat.succ_le_of_lt hd)]
      simp only [Function.update_self]
      exact ht
  · rw [if_neg hd]
    refine (indexBlock_exactly hr hpos hB ht hd).bind_run fun _ ind img₁ h₁ => ?_
    refine .bind_ok (useBlock_run (Nat.lt_of_lt_of_le h₁.hi h₁.high) img₁) (.of_ok rfl ?_)
    refine ⟨h₁.next, h₁.high, h₁.files, h₁.name, h₁.size, ?_, ?_, ?_, ?_⟩
    · intro b hb
      rw [← h₁.word]
      exact Function.update_of_ne (Nat.ne_of_lt (Nat.lt_of_lt_of_le hb h₁.lo)) ..
    · intro i hi
      rw [← h₁.link i hi]
      unfold Image.link
      split_ifs with hid
      · rfl
      · simp only [h₁.indirect, Function.update_self]
        exact Function.update_of_ne (Nat.ne_of_lt hi) ..
    · simp only [Image.link, if_neg hd, h₁.indirect, Function.update_self]
    · unfold HasTable
      rw [if_neg (by omega)]
      simp only [h₁.indirect]
      exact ⟨h₁.lo, h₁.hi⟩

theorem Room.linked (h : Room img) (hl : Linked B f nblk bno img img') (hf : f.below img.nextbno) : Room img' := by
  refine ⟨hl.high, fun b k hb => ?_, fun g => ?_⟩
  · have hlo : img.nextbno ≤ b := Nat.le_trans (hl.next ▸ Nat.le_add_right ..) hb
    have hne : FilePtr.slot b k ≠ f := by
      intro heq
      rw [← heq] at hf
      exact Nat.not_lt.mpr hlo hf
    rw [hl.files _ hne]
    exact h.fresh b k hlo
  · unfold NameOk
    by_cases hg : g = f
    · rw [hg, hl.name]
      exact h.names f
    · rw [hl.files g hg]
      exact h.names g

theorem Linked.touch (h : Linked B f nblk bno img img') : Touch B f img img' :=
  ⟨h.next ▸ Nat.le_add_right .., fun g _ hg => h.files g hg, h.word, h.name⟩

theorem HasTable.taken (h : HasTable img B f nblk) (type : Nat) : HasTable (img.taken type) B f nblk := by
  unfold HasTable at h ⊢
  split_ifs at h ⊢ with hn
  · exact h
  · exact ⟨h.1, Nat.lt_succ_of_lt h.2⟩

theorem Touch.taken (B : Nat) (f : FilePtr) (img : Image) (type : Nat) : Touch B f img (img.taken type) :=
  ⟨Nat.le_succ _, fun _ _ _ => rfl, fun _ _ => rfl, rfl⟩

-- ---------------------------------------------------------------------------
-- The data of a file
-- ---------------------------------------------------------------------------

/-- The blocks that `n` reads take, from link `iblk` on. -/
def readCost (n iblk : Nat) : Nat := if iblk ≤ NDIRECT ∧ NDIRECT < iblk + n then n + 1 else n

theorem readCost_succ (n iblk : Nat) : readCost (n + 1) iblk = 1 + tableBlocks iblk + readCost n (iblk + 1) := by
  unfold readCost tableBlocks
  split_ifs <;> omega

/-- **A file is read exactly when its blocks are there, and one more**, for the read that gives nothing. -/
theorem readBlocks_exactly (hr : Room img) (hpos : 0 < B) (hf : f.below B) (hB : B + iblk ≤ img.nextbno)
    (ht : HasTable img B f iblk) (n : Nat) :
    Exactly Halt.Undefined (readBlocks f n iblk) img (img.nextbno + readCost n iblk < NBLOCK)
      fun _ img' => img'.nextbno = img.nextbno + readCost n iblk ∧ Room img' ∧ Touch B f img img' := by
  induction n generalizing img iblk with
  | zero =>
    have hcost : readCost 0 iblk = 0 := if_neg (by omega)
    rw [hcost]
    refine .get ((useBlock_exactly img.nextbno img).mono ?_)
    rintro _ img' rfl
    exact ⟨rfl, hr, Touch.refl B f img⟩
  | succ n ih =>
    refine Exactly.congr (P := img.nextbno < NBLOCK ∧ img.nextbno < NBLOCK ∧
      img.nextbno + 1 + tableBlocks iblk ≤ NBLOCK ∧
      img.nextbno + 1 + tableBlocks iblk + readCost n (iblk + 1) < NBLOCK) ?_ ?_
    · refine .get ((useBlock_exactly img.nextbno img).bind ?_)
      rintro hlt _ _ rfl
      refine (nextBlock_exactly BLOCK_DATA _).bind ?_
      rintro - bno _ ⟨rfl, rfl⟩
      have hr₁ := hr.taken hlt BLOCK_DATA
      have hn : iblk < NINDIRECT := by
        have hbig : NINDIRECT = NBLOCK := rfl
        omega
      have hB₁ : B ≤ (img.taken BLOCK_DATA).nextbno := Nat.le_succ_of_le (Nat.le_trans (Nat.le_add_right ..) hB)
      refine (saveBlockLink_exactly hr₁ hpos hB₁ (ht.taken _) hn _).bind ?_
      intro _ _ img₂ hl
      have hnext : img₂.nextbno = img.nextbno + 1 + tableBlocks iblk := hl.next
      have hrest := ih (hr₁.linked hl (hf.mono hB₁)) (by omega) hl.table
      rw [hnext] at hrest
      refine hrest.mono fun _ img₃ h₃ => ⟨?_, h₃.2.1, ?_⟩
      · rw [h₃.1, readCost_succ]
        omega
      · exact ((Touch.taken B f img _).trans hl.touch).trans h₃.2.2
    · rw [readCost_succ]
      omega

-- ---------------------------------------------------------------------------
-- A file for a directory
-- ---------------------------------------------------------------------------

theorem entry_eq (img : Image) (p : FilePtr) {k : Nat} (hk : k < FILE2BLK) (i : Nat) :
    img.entry p (FILE2BLK * i + k) = .slot (img.link p i) k := by
  unfold Image.entry
  rw [Nat.mul_add_div (by decide), Nat.div_eq_of_lt hk, Nat.add_zero, Nat.mul_add_mod, Nat.mod_eq_of_lt hk]

namespace Directory

variable (h : Directory img B p len j)
include h

/-- In a block before the one of the first unused file, every file is used. -/
theorem find_none (hi : FILE2BLK * (i + 1) ≤ j) :
    (List.range FILE2BLK).find? (fun k => (img.file (.slot (img.link p i) k)).fName 0 = 0) = none := by
  rw [List.find?_eq_none]
  intro k hk
  rw [List.mem_range] at hk
  rw [decide_eq_true_eq, ← entry_eq img p hk]
  exact h.used _ (by rw [Nat.mul_succ] at hi; omega)

theorem find_some (hlo : FILE2BLK * i ≤ j) (hhi : j < FILE2BLK * (i + 1)) (hj : j < FILE2BLK * len) :
    (List.range FILE2BLK).find? (fun k => (img.file (.slot (img.link p i) k)).fName 0 = 0) =
      some (j - FILE2BLK * i) := by
  rw [Nat.mul_succ] at hhi
  have hk : j - FILE2BLK * i < FILE2BLK := by omega
  rw [List.find?_range_eq_some]
  refine ⟨?_, List.mem_range.mpr hk, fun k hlt => ?_⟩
  · rw [decide_eq_true_eq, ← entry_eq img p hk, Nat.add_sub_cancel' hlo, h.free j (Nat.le_refl _) hj]
    rfl
  · rw [Bool.not_eq_true', decide_eq_false_iff_not, ← entry_eq img p (Nat.lt_trans hlt hk)]
    exact h.used _ (by omega)

variable (hr : Room img)
include hr

theorem linkOf_run (hi : i < len) : linkOf p i img = .ok (img.link p i, img) := by
  unfold linkOf
  rw [run_get]
  unfold Image.link
  split_ifs with hd
  · rfl
  · have ht := h.table
    unfold HasTable at ht
    rw [if_neg (by omega)] at ht
    rw [run_bind (useBlock_run (Nat.lt_of_lt_of_le ht.2 hr.high) img)]
    rfl

/-- The scan finds the first unused file. -/
theorem findUnused_run (hj : j ≤ FILE2BLK * len) :
    ∀ n i, i + n = len → FILE2BLK * i ≤ j →
      findUnused p n i img = .ok (if j < FILE2BLK * len then some (img.entry p j) else none, img)
  | 0, i, hlen, hlo => by
    rw [Nat.add_zero] at hlen
    rw [hlen] at hlo
    rw [if_neg (Nat.not_lt.mpr hlo)]
    rfl
  | n + 1, i, hlen, hlo => by
    have hi : i < len := by omega
    have hb : img.link p i < NBLOCK := Nat.lt_of_lt_of_le (h.link i hi).2 hr.high
    unfold findUnused
    rw [run_bind (h.linkOf_run hr hi), run_bind (useBlock_run hb img), run_get]
    by_cases hhi : j < FILE2BLK * (i + 1)
    · have hlt : j < FILE2BLK * len := Nat.lt_of_lt_of_le hhi (Nat.mul_le_mul_left _ hi)
      have hk : j - FILE2BLK * i < FILE2BLK := by
        rw [Nat.mul_succ] at hhi
        omega
      rw [h.find_some hlo hhi hlt, if_pos hlt]
      have heq := entry_eq img p hk i
      rw [Nat.add_sub_cancel' hlo] at heq
      rw [heq]
      rfl
    · rw [h.find_none (Nat.not_lt.mp hhi)]
      exact findUnused_run hj n (i + 1) (by omega) (Nat.not_lt.mp hhi)

end Directory

/-- The image with another file at `f`. -/
def Image.put (img : Image) (f : FilePtr) (F : File) : Image := { img with file := Function.update img.file f F }

@[simp] theorem Image.put_self (img : Image) (f : FilePtr) (F : File) : (img.put f F).file f = F :=
  Function.update_self ..

theorem Image.put_of_ne {g : FilePtr} (h : g ≠ f) (img : Image) (F : File) : (img.put f F).file g = img.file g :=
  Function.update_of_ne h ..

@[simp] theorem Image.put_put (img : Image) (f : FilePtr) (F G : File) : (img.put f F).put f G = img.put f G := by
  unfold Image.put
  rw [Function.update_idem]

/-- The links of a file that keeps its block numbers. -/
theorem Image.put_link {F : File} (hdir : F.fDirect = (img.file f).fDirect)
    (hind : F.fIndirect = (img.file f).fIndirect) (i : Nat) : (img.put f F).link f i = img.link f i := by
  unfold Image.link
  rw [img.put_self, hdir, hind]
  rfl

theorem Image.put_link_of_ne (h : f ≠ p) (img : Image) (F : File) (i : Nat) :
    (img.put f F).link p i = img.link p i := by
  unfold Image.link
  rw [img.put_of_ne (Ne.symm h)]
  rfl

theorem Image.put_entry_of_ne (h : f ≠ p) (img : Image) (F : File) (e : Nat) :
    (img.put f F).entry p e = img.entry p e :=
  congrArg (FilePtr.slot · _) (img.put_link_of_ne h F _)

theorem setFile_run (f : FilePtr) (upd : File → File) (img : Image) :
    setFile f upd img = .ok ((), img.put f (upd (img.file f))) := rfl

theorem Room.put (h : Room img) (hf : f.below img.nextbno) {F : File} (hF : NameOk F) : Room (img.put f F) := by
  refine ⟨h.high, fun b k hb => ?_, fun g => ?_⟩
  · have hne : FilePtr.slot b k ≠ f := by
      intro heq
      rw [← heq] at hf
      exact Nat.not_lt.mpr hb hf
    rw [img.put_of_ne hne]
    exact h.fresh b k hb
  · by_cases hg : g = f
    · rw [hg, img.put_self]
      exact hF
    · rw [img.put_of_ne hg]
      exact h.names g

theorem Touch.put (img : Image) (hf : f = p ∨ ¬ f.below B) {F : File}
    (hname : f = p → F.fName = (img.file p).fName) : Touch B p img (img.put f F) := by
  refine ⟨Nat.le_refl _, fun g hg hgp => img.put_of_ne ?_ F, fun _ _ => rfl, ?_⟩
  · rintro rfl
    exact hf.elim hgp fun hn => hn hg
  · by_cases hfp : f = p
    · rw [← hfp, img.put_self, hname hfp, hfp]
    · rw [img.put_of_ne (Ne.symm hfp)]

namespace Directory

/-- A new link block, of unused files. -/
theorem grow {t : Nat} {F : File} (h : Directory img B p len j) (hr : Room img) (hj : j ≤ FILE2BLK * len)
    (hl : Linked B p len img.nextbno (img.taken t) img') (hsize : F.fSize = BY2BLK * (len + 1))
    (hdir : F.fDirect = (img'.file p).fDirect) (hind : F.fIndirect = (img'.file p).fIndirect) :
    Directory (img'.put p F) B p (len + 1) j := by
  have hB : B ≤ img.nextbno := Nat.le_trans (Nat.le_add_right ..) h.count
  have hnext : img.nextbno + 1 ≤ img'.nextbno := hl.next ▸ Nat.le_add_right ..
  have hput : (img'.put p F).file p = F := img'.put_self p F
  have hlink : ∀ i < len, (img'.put p F).link p i = img.link p i := fun i hi =>
    (Image.put_link hdir hind i).trans (hl.link i hi)
  have hlast : (img'.put p F).link p len = img.nextbno := (Image.put_link hdir hind len).trans hl.last
  have hentry : ∀ e < FILE2BLK * len, (img'.put p F).entry p e = img.entry p e := by
    intro e he
    unfold Image.entry
    rw [hlink _ (Nat.div_lt_of_lt_mul he)]
  have hfile : ∀ g, g ≠ p → (img'.put p F).file g = img.file g := fun g hg =>
    (img'.put_of_ne hg F).trans (hl.files g hg)
  refine ⟨h.start, h.place, ?_, ?_, ?_, ?_, ?_, ?_, ?_⟩
  · rw [hput, hsize]
  · have hcount := h.count
    show B + (len + 1) ≤ img'.nextbno
    omega
  · intro i hi
    show _ ∧ _ < img'.nextbno
    rcases Nat.lt_succ_iff_lt_or_eq.mp hi with hi | rfl
    · rw [hlink i hi]
      have hold := h.link i hi
      omega
    · rw [hlast]
      omega
  · -- The new block is none of the old ones.
    have hnew : ∀ i < len, (img'.put p F).link p i ≠ img.nextbno := by
      intro i hi
      rw [hlink i hi]
      exact Nat.ne_of_lt (h.link i hi).2
    intro i hi i' hi' heq
    rcases Nat.lt_succ_iff_lt_or_eq.mp hi with hi | rfl
    · rcases Nat.lt_succ_iff_lt_or_eq.mp hi' with hi' | rfl
      · rw [hlink i hi, hlink i' hi'] at heq
        exact h.once i hi i' hi' heq
      · exact absurd (heq.trans hlast) (hnew i hi)
    · rcases Nat.lt_succ_iff_lt_or_eq.mp hi' with hi' | rfl
      · exact absurd (heq.symm.trans hlast) (hnew i' hi')
      · rfl
  · have ht := hl.table
    unfold HasTable at ht ⊢
    rw [hput, hind]
    exact ht
  · intro e he
    have hlt : e < FILE2BLK * len := Nat.lt_of_lt_of_le he hj
    rw [hentry e hlt, hfile _ (h.entry_ne hlt)]
    exact h.used e he
  · intro e hje hlt
    by_cases he : e < FILE2BLK * len
    · rw [hentry e he, hfile _ (h.entry_ne he)]
      exact h.free e hje he
    · have hdiv : e / FILE2BLK = len :=
        Nat.le_antisymm (Nat.le_of_lt_succ (Nat.div_lt_of_lt_mul hlt))
          ((Nat.le_div_iff_mul_le (by decide)).mpr (by rw [Nat.mul_comm]; exact Nat.not_lt.mp he))
      unfold Image.entry
      rw [hdiv, hlast, hfile]
      · exact hr.fresh _ _ (Nat.le_refl _)
      · intro heq
        have hplace := h.place.mono hB
        rw [← heq] at hplace
        exact Nat.lt_irrefl _ hplace

/-- The first unused file is put to use. -/
theorem name (h : Directory img B p len j) (hj : j < FILE2BLK * len) {F : File} (hF : F.fName 0 ≠ 0) :
    Directory (img.put (img.entry p j) F) B p len (j + 1) := by
  have hp : (img.put (img.entry p j) F).file p = img.file p := img.put_of_ne (Ne.symm (h.entry_ne hj)) F
  have hlink := img.put_link_of_ne (h.entry_ne hj) F
  have hentry := img.put_entry_of_ne (h.entry_ne hj) F
  have hother : ∀ e < FILE2BLK * len, e ≠ j →
      (img.put (img.entry p j) F).file (img.entry p e) = img.file (img.entry p e) := fun e he hne =>
    img.put_of_ne (fun heq => hne (h.entry_inj he hj heq)) F
  refine ⟨h.start, h.place, ?_, h.count, ?_, ?_, ?_, ?_, ?_⟩
  · rw [hp]
    exact h.size
  · intro i hi
    rw [hlink]
    exact h.link i hi
  · intro i hi i' hi' heq
    rw [hlink, hlink] at heq
    exact h.once i hi i' hi' heq
  · have ht := h.table
    unfold HasTable at ht ⊢
    rw [hp]
    exact ht
  · intro e he
    rw [hentry]
    by_cases hej : e = j
    · rw [hej]
      rw [img.put_self]
      exact hF
    · rw [hother e (by omega) hej]
      exact h.used e (by omega)
  · intro e hje he
    rw [hentry, hother e he (by omega)]
    exact h.free e (by omega) he

end Directory

/-- The blocks that file `j` of a directory takes before it has any of its own. -/
def entryBlocks (j : Nat) : Nat := if j % FILE2BLK = 0 then 1 + tableBlocks (j / FILE2BLK) else 0

theorem le_dirBlocks (j : Nat) : j ≤ FILE2BLK * dirBlocks j := by
  have h16 : FILE2BLK = 16 := rfl
  unfold dirBlocks
  rw [h16]
  omega

/-- There is an unused file in the blocks of the directory. -/
theorem dirBlocks_of_lt (h : j < FILE2BLK * dirBlocks j) : entryBlocks j = 0 ∧ dirBlocks (j + 1) = dirBlocks j := by
  have h16 : FILE2BLK = 16 := rfl
  unfold dirBlocks at h ⊢
  unfold entryBlocks
  rw [h16] at h ⊢
  exact ⟨if_neg (by omega), by omega⟩

/-- The blocks of the directory are full. -/
theorem dirBlocks_of_full (h : ¬ j < FILE2BLK * dirBlocks j) :
    j = FILE2BLK * dirBlocks j ∧ entryBlocks j = 1 + tableBlocks (dirBlocks j) ∧
      dirBlocks (j + 1) = dirBlocks j + 1 := by
  have h16 : FILE2BLK = 16 := rfl
  unfold dirBlocks at h ⊢
  unfold entryBlocks
  rw [h16] at h ⊢
  have hdiv : j / 16 = (j + 16 - 1) / 16 := by omega
  rw [if_pos (by omega), hdiv]
  exact ⟨by omega, rfl, by omega⟩

theorem makeLinkBlock_exactly (h : Directory img B p len j) (hr : Room img) (hj : j ≤ FILE2BLK * len) :
    Exactly Halt.Undefined (makeLinkBlock p len) img (img.nextbno + (1 + tableBlocks len) ≤ NBLOCK)
      fun bno img' => bno = img'.link p len ∧ img'.nextbno = img.nextbno + (1 + tableBlocks len) ∧ Room img' ∧
        Touch B p img img' ∧ Directory img' B p (len + 1) j := by
  have hB : B ≤ img.nextbno := Nat.le_trans (Nat.le_add_right ..) h.count
  have hbig : NINDIRECT = NBLOCK := rfl
  have hpos := h.start
  have hcount := h.count
  refine Exactly.congr (P := img.nextbno < NBLOCK ∧ img.nextbno + 1 + tableBlocks len ≤ NBLOCK) ?_ (by omega)
  refine (nextBlock_exactly BLOCK_FILE img).bind ?_
  rintro hlt _ _ ⟨rfl, rfl⟩
  have hr₁ := hr.taken hlt BLOCK_FILE
  have hB₁ : B ≤ (img.taken BLOCK_FILE).nextbno := Nat.le_succ_of_le hB
  refine (saveBlockLink_exactly hr₁ h.start hB₁ (h.table.taken _) (by omega) _).bind_run ?_
  intro _ _ img₂ hl
  have hnext : img₂.nextbno = img.nextbno + 1 + tableBlocks len := hl.next
  have hr₂ := hr₁.linked hl (h.place.mono hB₁)
  have hsize : (img₂.file p).grown.fSize = BY2BLK * (len + 1) := by
    have hold : (img₂.file p).fSize = BY2BLK * len := hl.size.trans h.size
    have hlen : len < 1024 := by
      have hblocks : NBLOCK = 1024 := rfl
      omega
    have hpage : BY2BLK = 4096 := rfl
    rw [File.grown_fSize, hold, hpage]
    omega
  have hp₂ : p.below img₂.nextbno := h.place.mono (by omega)
  have hd := h.grow hr hj hl hsize (File.grown_fDirect _) (File.grown_fIndirect _)
  refine .bind_ok (setFile_run p File.grown img₂) (.of_ok rfl ⟨?_, ?_, ?_, ?_, hd⟩)
  · exact hl.last.symm.trans (Image.put_link (File.grown_fDirect _) (File.grown_fIndirect _) len).symm
  · show img₂.nextbno = _
    omega
  · refine hr₂.put hp₂ ?_
    unfold NameOk
    rw [File.grown_fName]
    exact hr₂.names p
  · exact ((Touch.taken B p img _).trans hl.touch).trans (.put img₂ (Or.inl rfl) fun _ => File.grown_fName _)

/-- **A directory has a file to give exactly when the blocks for one are there.** -/
theorem createFile_exactly (h : Directory img B p (dirBlocks j) j) (hr : Room img) :
    Exactly Halt.Undefined (createFile p) img (img.nextbno + entryBlocks j ≤ NBLOCK)
      fun f img' => f = img'.entry p j ∧ img'.nextbno = img.nextbno + entryBlocks j ∧ Room img' ∧
        Touch B p img img' ∧ Directory img' B p (dirBlocks (j + 1)) j := by
  have hnblk : (img.file p).fSize / BY2BLK = dirBlocks j := by
    rw [h.size, Nat.mul_div_cancel_left _ (by decide)]
  have hle := le_dirBlocks j
  have hfind := h.findUnused_run hr hle (dirBlocks j) 0 (Nat.zero_add _) (Nat.zero_le _)
  refine .get ?_
  rw [hnblk]
  refine .bind_ok hfind ?_
  by_cases hlt : j < FILE2BLK * dirBlocks j
  · obtain ⟨hnone, hsame⟩ := dirBlocks_of_lt hlt
    rw [if_pos hlt, hnone, hsame]
    exact (Exactly.of_ok rfl ⟨rfl, rfl, hr, Touch.refl B p img, h⟩).congr ⟨fun _ => trivial, fun _ => hr.high⟩
  · obtain ⟨hfull, hcost, hsucc⟩ := dirBlocks_of_full hlt
    rw [if_neg hlt, hcost, hsucc]
    refine (makeLinkBlock_exactly h hr hle).bind_run ?_
    rintro - bno img' ⟨rfl, hnext, hr', ht, hd⟩
    have hlink := hd.link (dirBlocks j) (Nat.lt_succ_self _)
    refine .bind_ok (useBlock_run (Nat.lt_of_lt_of_le hlink.2 hr'.high) img') (.of_ok rfl ⟨?_, hnext, hr', ht, hd⟩)
    rw [← entry_eq img' p (show 0 < FILE2BLK by decide), Nat.add_zero, ← hfull]

end Mos.Tools
