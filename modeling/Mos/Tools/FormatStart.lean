import Mos.Fs.InitRun
import Mos.Fs.Resolve
import Mos.Tools.FormatLinks

/-!
# MOS on RISC-V — the file server on an image of `fsformat`

The tool and the server share a header, and nothing else: what the one means by a block, the other
has to find out from the block numbers. On a little-endian host, `Image.block` is what `finish_fs`
writes. The server starts on it (`fsformat_serves`), its files are those of the image, block for
block, and what it takes for free is what the tool has not handed out.
-/

namespace Mos.Tools

open Mos.Lib Mos.Fs

variable {img : Image} {use : Uses} {st : FsState} {data : Nat → Block} {f : FilePtr} {b i j k n w : Nat}

-- ---------------------------------------------------------------------------
-- The blocks that are written
-- ---------------------------------------------------------------------------

/-- Word `w` of a `struct File`. -/
def File.word (F : File) (w : Nat) : BitVec 32 :=
  if w < W_SIZE then
    BitVec.ofNat 32 (F.fName (4 * w) % 256 + F.fName (4 * w + 1) % 256 * 256 ^ 1 +
      F.fName (4 * w + 2) % 256 * 256 ^ 2 + F.fName (4 * w + 3) % 256 * 256 ^ 3)
  else if w = W_SIZE then BitVec.ofNat 32 F.fSize
  else if w = W_TYPE then BitVec.ofNat 32 F.fType
  else if w < W_INDIRECT then BitVec.ofNat 32 (F.fDirect (w - W_DIRECT))
  else if w = W_INDIRECT then BitVec.ofNat 32 F.fIndirect
  else 0

def Super.word (s : Super) (w : Nat) : BitVec 32 :=
  if w = 0 then BitVec.ofNat 32 s.sMagic
  else if w = 1 then BitVec.ofNat 32 s.sNblocks
  else if w < 66 then s.sRoot.word (w - 2)
  else 0

/-- Block `b` of the image file; `data` is what the host has for the data of files. -/
def Image.block (img : Image) (data : Nat → Block) (b : Nat) : Block := fun i =>
  if img.type b = BLOCK_SUPER then img.block1.word i
  else if img.type b = BLOCK_FILE then (img.file (.slot b (i / 64))).word (i % 64)
  else if img.type b = BLOCK_INDEX ∨ img.type b = BLOCK_BMAP then BitVec.ofNat 32 (img.word b i)
  else if img.type b = BLOCK_DATA then data b i
  else 0

theorem getByte_word (f : Nat → Nat) (hk : k < 4) :
    getByte (BitVec.ofNat 32 (f 0 % 256 + f 1 % 256 * 256 ^ 1 + f 2 % 256 * 256 ^ 2 +
      f 3 % 256 * 256 ^ 3)).toNat k = f k % 256 := by
  have h0 := Nat.mod_lt (f 0) (show 256 > 0 by decide)
  have h1 := Nat.mod_lt (f 1) (show 256 > 0 by decide)
  have h2 := Nat.mod_lt (f 2) (show 256 > 0 by decide)
  have h3 := Nat.mod_lt (f 3) (show 256 > 0 by decide)
  rw [BitVec.toNat_ofNat, Nat.mod_eq_of_lt (by omega)]
  unfold getByte
  obtain rfl | rfl | rfl | rfl : k = 0 ∨ k = 1 ∨ k = 2 ∨ k = 3 := by omega
  all_goals omega

/-- The block and the word where a file begins. -/
def FilePtr.at : FilePtr → Nat × Nat
  | .root => (1, 2)
  | .slot b k => (b, 64 * k)

def Cell.at : Cell → Nat × Nat
  | .direct f k => (f.at.1, f.at.2 + W_DIRECT + k)
  | .table f => (f.at.1, f.at.2 + W_INDIRECT)
  | .entry b i => (b, i)

/-- The super block and the bitmap of the image. -/
theorem superWord (h : Finished img use) (data : Nat → Block) :
    img.block data 1 0 = Mos.Fs.FS_MAGIC ∧ img.block data 1 1 = BitVec.ofNat 32 NBLOCK := by
  constructor <;> rw [Image.block, if_pos h.tidy.super.2, h.super] <;> rfl

theorem bitmapBits (h : Finished img use) (data : Nat → Block) (hb : b < NBLOCK) :
    (superRead (img.block data)).diskBits.isSet b ↔ img.nextbno ≤ b := by
  have hlt : b < 1024 := hb
  have hshift : b >>> 5 = b / 32 := Nat.shiftRight_eq_div_pow b 5
  have hidx : ((Fin.ofNat 1024 (b / 32) : Fin 1024) : Nat) = b / 32 := Nat.mod_eq_of_lt (by omega)
  have hblock : bitmapBlock (b / 32) = 2 := by
    unfold bitmapBlock
    omega
  have hword : (superRead (img.block data)).diskBits (b / 32) = BitVec.ofNat 32 (img.word 2 (b / 32)) := by
    unfold FsState.diskBits
    show img.block data (bitmapBlock (b / 32)) (Fin.ofNat 1024 (b / 32)) = _
    have hne : BLOCK_BMAP ≠ BLOCK_SUPER ∧ BLOCK_BMAP ≠ BLOCK_FILE := by decide
    rw [hblock, Image.block, h.tidy.bitmap.2, if_neg hne.1, if_neg hne.2, if_pos (Or.inr rfl), hidx]
  rw [Bitmap.isSet_iff, hshift, hword, BitVec.getLsbD_ofNat, h.bits b hb]
  simp [Nat.mod_lt]

/-- The server has started on the image. -/
structure Serves (img : Image) (use : Uses) (data : Nat → Block) (st : FsState) : Prop where
  image : Finished img use
  started : Started (img.block data) st

theorem fileSlot_iff : FileSlot use b i ↔ ∃ f, IsFile use f ∧ f.at = (b, i) := by
  constructor
  · intro h
    cases h with
    | root => exact ⟨.root, .root, rfl⟩
    | @entry b k hb hk => exact ⟨.slot b k, .slot hb hk, rfl⟩
  · rintro ⟨f, hf, hat⟩
    cases hf with
    | root =>
      cases hat
      exact .root
    | slot hb hk =>
      cases hat
      exact .entry hb hk

namespace Serves

variable (h : Serves img use data st)
include h

theorem word (hb : b ≠ 0) (j : Nat) : st.word b j = img.block data b (Fin.ofNat 1024 j) := by
  unfold FsState.word
  rw [h.started.contents b hb]

/-- A block with a use is not the boot block. -/
theorem pos {u : Use} (hb : use b = some u) : b ≠ 0 := by
  rintro rfl
  rw [h.image.tidy.boot] at hb
  cases hb

/-- The words of a file. -/
theorem fileWord (hf : IsFile use f) (hw : w < 64) :
    st.word f.at.1 (f.at.2 + w) = (img.file f).word w := by
  cases hf with
  | root =>
    have hidx : ((Fin.ofNat 1024 (2 + w) : Fin 1024) : Nat) = 2 + w := Nat.mod_eq_of_lt (by omega)
    show st.word 1 (2 + w) = _
    rw [h.word (by decide), Image.block, if_pos h.image.tidy.super.2, h.image.super, hidx, Super.word,
      if_neg (by omega), if_neg (by omega), if_pos (by omega), Nat.add_sub_cancel_left]
  | @slot b k hb hk =>
    have hlt : 64 * k + w < 1024 := by
      simp only [FILE2BLK, BY2BLK, Mos.Kern.BY2PG, BY2FILE] at hk
      omega
    have hidx : ((Fin.ofNat 1024 (64 * k + w) : Fin 1024) : Nat) = 64 * k + w := Nat.mod_eq_of_lt hlt
    have hdiv : (64 * k + w) / 64 = k := by omega
    have hmod : (64 * k + w) % 64 = w := by omega
    have htype : img.type b = BLOCK_FILE := by
      have := h.image.tidy.types b
      rw [hb] at this
      exact this
    have hne : BLOCK_FILE ≠ BLOCK_SUPER := by decide
    show st.word b (64 * k + w) = _
    rw [h.word (h.pos hb), Image.block, htype, if_neg hne, if_pos rfl, hidx, hdiv, hmod]

/-- The words of an index block. -/
theorem tableWord {d : Bool} (hb : use b = some (.table d)) (hi : i < 1024) :
    st.word b i = BitVec.ofNat 32 (img.word b i) := by
  have hidx : ((Fin.ofNat 1024 i : Fin 1024) : Nat) = i := Nat.mod_eq_of_lt hi
  have htype : img.type b = BLOCK_INDEX := by
    have := h.image.tidy.types b
    rw [hb] at this
    exact this
  have hne : BLOCK_INDEX ≠ BLOCK_SUPER ∧ BLOCK_INDEX ≠ BLOCK_FILE := by decide
  rw [h.word (h.pos hb), Image.block, htype, if_neg hne.1, if_neg hne.2, if_pos (Or.inl rfl), hidx]

/-- The server takes the files for directories that are. -/
theorem isDir (hf : IsFile use f) : st.isDir f.at.1 f.at.2 = (img.file f).isDir := by
  have hword : st.word f.at.1 (f.at.2 + W_TYPE) = BitVec.ofNat 32 (img.file f).fType := by
    rw [h.fileWord hf (by decide)]
    rfl
  unfold FsState.isDir File.isDir
  rw [hword]
  rcases h.image.tidy.kinds f with hk | hk
  · rw [hk]
    decide
  · rw [hk]
    decide

/-- Block numbers fit into words. -/
theorem cell_lt {c : Cell} {u : Use} (hc : Points img use c u) : img.cell c < 2 ^ 32 := by
  rcases h.image.tidy.names c u hc with h0 | hu
  · rw [h0]
    decide
  · have hlt := h.image.tidy.below hu
    have hhigh : img.nextbno ≤ 1024 := h.image.tidy.room.high
    omega

theorem cellWord {c : Cell} {u : Use} (hc : Points img use c u) :
    st.word c.at.1 c.at.2 = BitVec.ofNat 32 (img.cell c) := by
  cases hc with
  | @direct f k hf hk =>
    have hk' : k < 10 := hk
    show st.word f.at.1 (f.at.2 + W_DIRECT + k) = _
    rw [Nat.add_assoc, h.fileWord hf (by simp only [W_DIRECT]; omega), File.word,
      if_neg (by simp only [W_SIZE, W_DIRECT]; omega), if_neg (by simp only [W_SIZE, W_DIRECT]; omega),
      if_neg (by simp only [W_TYPE, W_DIRECT]; omega),
      if_pos (by simp only [W_INDIRECT, W_DIRECT]; omega), Nat.add_sub_cancel_left]
    rfl
  | @table f hf =>
    show st.word f.at.1 (f.at.2 + W_INDIRECT) = _
    rw [h.fileWord hf (by decide)]
    rfl
  | @entry b i d hb _ hhi => exact h.tableWord hb hhi

/-- A place where the server finds a block number is a cell of the image. -/
theorem ptr_points {u : Use} (hp : Ptr st use b i u) :
    ∃ c, Points img use c u ∧ c.at = (b, i) ∧ st.word b i = BitVec.ofNat 32 (img.cell c) := by
  have hcell : ∃ c, Points img use c u ∧ c.at = (b, i) := by
    cases hp with
    | direct hf hk =>
      obtain ⟨f, hfile, hat⟩ := fileSlot_iff.mp hf
      have hdir := h.isDir hfile
      rw [hat] at hdir
      rw [hdir]
      refine ⟨.direct f _, .direct hfile hk, ?_⟩
      show (f.at.1, f.at.2 + W_DIRECT + _) = _
      rw [hat]
    | table hf =>
      obtain ⟨f, hfile, hat⟩ := fileSlot_iff.mp hf
      have hdir := h.isDir hfile
      rw [hat] at hdir
      rw [hdir]
      refine ⟨.table f, .table hfile, ?_⟩
      show (f.at.1, f.at.2 + W_INDIRECT) = _
      rw [hat]
    | entry hb hlo hhi => exact ⟨.entry _ _, .entry hb hlo hhi, rfl⟩
  obtain ⟨c, hc, hat⟩ := hcell
  have hword := h.cellWord hc
  rw [hat] at hword
  exact ⟨c, hc, hat, hword⟩

theorem toNat_cell {c : Cell} {u : Use} (hc : Points img use c u) :
    (BitVec.ofNat 32 (img.cell c)).toNat = img.cell c := by
  rw [BitVec.toNat_ofNat]
  exact Nat.mod_eq_of_lt (h.cell_lt hc)

theorem nblocks : st.nblocks = NBLOCK := by
  rw [h.started.size, (superWord h.image data).2]
  rfl

/-- What is free is what was not handed out. -/
theorem isFree : st.isFree b ↔ img.nextbno ≤ b ∧ b < NBLOCK := by
  rw [h.started.bits, ← h.started.size, h.nblocks]
  constructor
  · rintro ⟨hb, hset⟩
    exact ⟨(bitmapBits h.image data hb).mp hset, hb⟩
  · rintro ⟨hge, hb⟩
    exact ⟨hb, (bitmapBits h.image data hb).mpr hge⟩

/-- **The layout.** -/
theorem layout : Layout st use where
  ready := h.started.ready
  size := by
    rw [h.nblocks]
    decide
  inUse b u hb := by
    have hlt := h.image.tidy.below hb
    refine ⟨?_, fun hc => ?_⟩
    · rw [h.nblocks]
      exact Nat.lt_of_lt_of_le hlt h.image.tidy.room.high
    · exact absurd (h.isFree.mp hc).1 (Nat.not_le.mpr hlt)
  superUse := h.image.tidy.super.1
  bitmapUse c hc := by
    rw [h.nblocks] at hc
    have hdiv : c / BIT2BLK = 0 := Nat.div_eq_of_lt (Nat.lt_trans hc (by decide))
    rw [hdiv]
    exact h.image.tidy.bitmap.1
  names b i u hp := by
    obtain ⟨c, hc, -, hword⟩ := h.ptr_points hp
    rw [hword, h.toNat_cell hc]
    exact (h.image.tidy.names c u hc).imp_left fun h0 => by rw [h0]; rfl
  once b i u b' i' u' hp hp' hne heq := by
    obtain ⟨c, hc, hat, hword⟩ := h.ptr_points hp
    obtain ⟨c', hc', hat', hword'⟩ := h.ptr_points hp'
    rw [hword] at hne heq
    rw [hword'] at heq
    have hcell := congrArg BitVec.toNat heq
    rw [h.toNat_cell hc, h.toNat_cell hc'] at hcell
    have hpos : img.cell c ≠ 0 := fun h0 => hne (by rw [h0]; rfl)
    obtain rfl := h.image.tidy.once c u c' u' hc hc' hpos hcell
    exact Prod.mk.inj (hat.symm.trans hat')
  rootDir := by
    show st.word FilePtr.root.at.1 (FilePtr.root.at.2 + W_DIR) = 0
    rw [h.fileWord .root (by decide)]
    rfl

-- ---------------------------------------------------------------------------
-- Directories
-- ---------------------------------------------------------------------------

/-- Each block of a directory has its number where the server looks for it. -/
theorem named (hf : IsFile use f) (hfull : img.Full f n) (hn : n ≤ NINDIRECT) (hi : i < n) :
    ∃ c u, Points img use c u ∧ img.cell c ≠ 0 ∧ img.place f i = some c ∧
      st.slot f.at.1 f.at.2 i = some c.at := by
  obtain ⟨c, hplace, hne⟩ := hfull i hi
  have hslot : st.slot f.at.1 f.at.2 i = some c.at ∧ ∃ u, Points img use c u := by
    have hplace' := hplace
    unfold Image.place at hplace'
    unfold FsState.slot
    split_ifs at hplace' with hd htable
    · cases hplace'
      rw [if_pos hd]
      exact ⟨rfl, _, .direct hf hd⟩
    · cases hplace'
      have hu := (h.image.tidy.names (.table f) _ (.table hf)).resolve_left htable
      have hword : st.word f.at.1 (f.at.2 + W_INDIRECT) = BitVec.ofNat 32 (img.file f).fIndirect :=
        h.cellWord (.table hf)
      have hnat : (BitVec.ofNat 32 (img.file f).fIndirect).toNat = (img.file f).fIndirect :=
        h.toNat_cell (.table hf)
      have hpos : BitVec.ofNat 32 (img.file f).fIndirect ≠ 0 := fun h0 => htable (by rw [← hnat, h0]; rfl)
      have hlt : i < NINDIRECT := Nat.lt_of_lt_of_le hi hn
      rw [if_neg hd, hword, if_pos ⟨hlt, hpos⟩, hnat]
      exact ⟨rfl, _, .entry hu (Nat.not_lt.mp hd) hlt⟩
  obtain ⟨hs, u, hc⟩ := hslot
  exact ⟨c, u, hc, hne, hplace, hs⟩

/-- The size of a directory, in blocks. -/
theorem dirSize (hf : IsFile use f) (hdir : (img.file f).isDir = true) :
    ∃ n ≤ NINDIRECT, st.dirBlocks f.at.1 f.at.2 = n ∧ img.Full f n := by
  obtain ⟨n, hn, hsize, hfull⟩ := h.image.tidy.dirs f hf hdir
  refine ⟨n, hn, ?_, hfull⟩
  have hword : st.word f.at.1 (f.at.2 + W_SIZE) = BitVec.ofNat 32 (img.file f).fSize := by
    rw [h.fileWord hf (by decide)]
    rfl
  have hbig : n ≤ 1024 := hn
  unfold FsState.dirBlocks
  rw [hword, BitVec.toNat_ofNat, hsize]
  simp only [BY2BLK, Mos.Kern.BY2PG]
  omega

theorem attached (hf : FileSlot use b i) (hdir : st.isDir b i = true) (hn : n < st.dirBlocks b i) :
    ∃ d, st.Names b i n d := by
  obtain ⟨f, hfile, hat⟩ := fileSlot_iff.mp hf
  have hdir' := h.isDir hfile
  have hblocks := h.dirSize hfile
  rw [hat] at hdir' hblocks
  obtain ⟨m, hm, heq, hfull⟩ := hblocks (hdir'.symm.trans hdir)
  rw [heq] at hn
  obtain ⟨c, u, hc, hne, -, hs⟩ := h.named hfile hfull hm hn
  rw [hat] at hs
  refine ⟨_, c.at.1, c.at.2, hs, fun h0 => hne ?_, rfl⟩
  rw [h.cellWord hc] at h0
  rw [← h.toNat_cell hc, h0]
  rfl

/-- No directory has a hole. -/
theorem dense : st.Dense := by
  intro b i n hfound hdir hn hhole
  obtain ⟨d, hd⟩ := h.attached (hfound.slot h.layout) hdir hn
  exact hhole.2 d hd

/-- The bytes of a name. -/
theorem nameByte (hf : IsFile use f) (hm : n < MAXNAMELEN) :
    st.byte f.at.1 f.at.2 n = (img.file f).fName n % 256 := by
  simp only [MAXNAMELEN] at hm
  have hsplit : n = 4 * (n / 4) + n % 4 := (Nat.div_add_mod n 4).symm
  have hw : n / 4 < W_SIZE := by
    simp only [W_SIZE]
    omega
  unfold FsState.byte
  rw [h.fileWord hf (by omega), File.word, if_pos hw]
  generalize n / 4 = w at hsplit
  rw [hsplit]
  have hlow : n % 4 < 4 := Nat.mod_lt n (by decide)
  generalize n % 4 = k at hlow
  rw [Nat.mul_add_mod, Nat.mod_eq_of_lt hlow]
  exact getByte_word (fun k => (img.file f).fName (4 * w + k)) hlow

theorem inTree (ht : InTree st b i) : FileSlot use b i := by
  induction ht with
  | root => exact .root
  | entry _ hdir _ hd hk _ ih =>
    have huse := h.layout.names_use ih hd
    rw [hdir] at huse
    exact .entry huse hk

theorem dirBlock (hd : DirBlock st n) : use n = some .dir := by
  obtain ⟨b, i, m, ht, hdir, -, hnames⟩ := hd
  have huse := h.layout.names_use (h.inTree ht) hnames
  rw [hdir] at huse
  exact huse

theorem dirTable (hd : DirTable st n) : use n = some (.table true) := by
  obtain ⟨b, i, ht, hdir, hmany, rfl⟩ := hd
  have hslot := h.inTree ht
  obtain ⟨d, b', j, hs, -, -⟩ := h.attached hslot hdir hmany
  unfold FsState.slot at hs
  rw [if_neg (Nat.lt_irrefl _)] at hs
  split_ifs at hs with htable
  have huse := h.layout.ptrNamed (.table hslot) htable.2
  rw [hdir] at huse
  exact huse

/-- **The directories can be walked through.** -/
theorem dirTree : DirTree st where
  ready := h.started.ready
  size := h.layout.size
  attached b i n ht hdir hn := h.attached (h.inTree ht) hdir hn
  used d hd := by
    rcases hd with hd | hd
    · exact h.layout.inUse d _ (h.dirBlock hd)
    · exact h.layout.inUse d _ (h.dirTable hd)
  apart d hd := by
    have huse := h.dirBlock hd
    refine ⟨?_, fun ht => ?_⟩
    · rintro (rfl | ⟨c, hc, rfl⟩)
      · rw [h.layout.superUse] at huse
        cases huse
      · rw [h.layout.bitmapUse c hc] at huse
        cases huse
    · rw [h.dirTable ht] at huse
      cases huse
  ends d k hd hk := by
    obtain ⟨m, hm, hzero⟩ := h.image.tidy.room.names (.slot d k)
    refine ⟨m, hm, ?_⟩
    have hbyte := h.nameByte (.slot (h.dirBlock hd) hk) hm
    rw [hzero] at hbyte
    exact hbyte

end Serves

-- ---------------------------------------------------------------------------
-- The start of the server
-- ---------------------------------------------------------------------------

/-- The server comes to its end of `fs_init`, if the kernel has pages for the four blocks it caches. -/
theorem Finished.starts (h : Finished img use) (data : Nat → Block) {mem : Nat → Bool}
    (hmem : ∀ n < 4, mem n = true) :
    ∃ st, fsInit (emptyCache (img.block data) mem) = .ok ((), st) ∧ Serves img use data st ∧
      Asked (emptyCache (img.block data) mem) st := by
  obtain ⟨hmagic, hword⟩ := superWord h data
  have hsize : (img.block data 1 1).toNat = NBLOCK := by
    rw [hword]
    rfl
  have hform : Formatted (superRead (img.block data)) := by
    have hn : (superRead (img.block data)).nblocks = NBLOCK := hsize
    have hres : reserved NBLOCK = 3 := by decide
    refine ⟨?_, fun b hb hset => ?_⟩
    · rw [hn]
      decide
    · rw [hn, hres] at hb
      have hlt : b < NBLOCK := Nat.lt_trans hb (by decide)
      have hge := (bitmapBits h data hlt).mp hset
      have hstart := h.tidy.start
      omega
  have hfits : (img.block data 1 1).toNat ≤ DISKMAX / BY2BLK := by
    rw [hsize]
    decide
  have hne : (img.block data 1 1).toNat % BIT2BLK ≠ 0 := by
    rw [hsize]
    decide
  have hone : (img.block data 1 1).toNat / BIT2BLK = 0 := by
    rw [hsize]
    decide
  have hpages : ∀ n < 0 + 4, mem n = true := fun n hn => hmem n (by omega)
  obtain ⟨st, hrun, hst, hasked⟩ := fsInit_run hmagic hfits hform hne hone hpages
  exact ⟨st, hrun, ⟨h, hst⟩, hasked⟩

/-- **What the tool writes, the server starts on**: it takes the blocks for what the tool has made of
them, finds all of every directory, and gives away what the tool has not. -/
theorem fsformat_serves {args : List Arg} {written : Nat → Bool}
    (hrun : fsformat args written .zero = .ok ((), img)) (data : Nat → Block) {mem : Nat → Bool}
    (hmem : ∀ n < 4, mem n = true) :
    ∃ st use, fsInit (emptyCache (img.block data) mem) = .ok ((), st) ∧ Layout st use ∧ st.Dense ∧ DirTree st ∧
      ∀ b, st.isFree b ↔ img.nextbno ≤ b ∧ b < NBLOCK := by
  obtain ⟨use, hfin⟩ := fsformat_tidy hrun
  obtain ⟨st, hinit, hst, -⟩ := hfin.starts data hmem
  exact ⟨st, use, hinit, hst.layout, hst.dense, hst.dirTree, fun _ => hst.isFree⟩

/-- A directory `d` with a file `a` of two blocks. -/
def smallDir : Given where
  path := [100]
  node := .dir (.cons ⟨[97], List.cons_ne_nil _ _, fun h => absurd (List.mem_singleton.mp h) (by decide),
    fun h => absurd (List.mem_singleton.mp h) (by decide)⟩ (.file (.ofBytes 5000)) .nil)
  noNul := fun h => absurd (List.mem_singleton.mp h) (by decide)
  named := fun _ h => by cases h

theorem smallDir_done : ∃ img, fsformat [.given smallDir] (fun _ => true) .zero = .ok ((), img) := by
  refine fsformat_done (List.cons_ne_nil _ _) (fun a ha => ⟨smallDir, List.mem_singleton.mp ha⟩) ⟨fun g hg => ?_, ?_⟩
  · obtain rfl := List.mem_singleton.mp hg
    exact ⟨Or.inr (show 1 < MAXNAMELEN by decide), trivial⟩
  · decide

theorem fsformat_serves_small : ∃ (img : Image) (st : FsState) (use : Uses),
    fsInit (emptyCache (img.block fun _ => zeroBlock) fun _ => true) = .ok ((), st) ∧ Layout st use ∧ st.Dense ∧
      DirTree st ∧ ∀ b, st.isFree b ↔ img.nextbno ≤ b ∧ b < NBLOCK := by
  obtain ⟨img, hrun⟩ := smallDir_done
  obtain ⟨st, use, h⟩ := fsformat_serves hrun (fun _ => zeroBlock) fun _ _ => rfl
  exact ⟨img, st, use, h⟩

end Mos.Tools
