import Mos.Fs.Layout
import Mos.Tools.FormatFits

/-!
# MOS on RISC-V — the block numbers of an image

What the blocks of an image are used for is what the file server will use them for. `Tidy` holds
of the image at all times: with the uses `use`, each block number in it is that of a block of the
use that it should have, no two are the same, directories have no holes, and a file without a name
is a file of zeros. No hypothesis is made on the arguments: a run of the tool that comes to its
end has kept to it (`fsformat_tidy`).

A block number is found in a `Cell`: in a file, or in an index block.
-/

namespace Mos.Tools

open Mos.Lib
open Mos.Fs (BY2BLK BIT2BLK NDIRECT NINDIRECT FILE2BLK MAXNAMELEN slash Use Uses)

variable {img img' : Image} {use use' : Uses} {p f g : FilePtr} {b i k n bno : Nat} {path : List Nat}

-- ---------------------------------------------------------------------------
-- Cells
-- ---------------------------------------------------------------------------

/-- Where the tool keeps a block number. -/
inductive Cell where
  | direct (f : FilePtr) (k : Nat)
  | table (f : FilePtr)
  | entry (b i : Nat)
  deriving DecidableEq

def Image.cell (img : Image) : Cell → Nat
  | .direct f k => (img.file f).fDirect k
  | .table f => (img.file f).fIndirect
  | .entry b i => img.word b i

/-- `f_type == FTYPE_DIR`. -/
def File.isDir (F : File) : Bool := decide (F.fType = FTYPE_DIR)

/-- The root, or a file in a block of files. -/
inductive IsFile (use : Uses) : FilePtr → Prop where
  | root : IsFile use .root
  | slot {b k : Nat} (hb : use b = some .dir) (hk : k < FILE2BLK) : IsFile use (.slot b k)

/-- The block number in the cell is that of a block of the given use. -/
inductive Points (img : Image) (use : Uses) : Cell → Use → Prop where
  | direct {f : FilePtr} {k : Nat} (hf : IsFile use f) (hk : k < NDIRECT) :
      Points img use (.direct f k) (.content (img.file f).isDir)
  | table {f : FilePtr} (hf : IsFile use f) : Points img use (.table f) (.table (img.file f).isDir)
  | entry {b i : Nat} {d : Bool} (hb : use b = some (.table d)) (hlo : NDIRECT ≤ i)
      (hhi : i < NINDIRECT) : Points img use (.entry b i) (.content d)

/-- The cell of block `i` of a file. -/
def Image.place (img : Image) (f : FilePtr) (i : Nat) : Option Cell :=
  if i < NDIRECT then some (.direct f i)
  else if (img.file f).fIndirect ≠ 0 then some (.entry (img.file f).fIndirect i)
  else none

/-- The first `n` blocks of a file are there. -/
def Image.Full (img : Image) (f : FilePtr) (n : Nat) : Prop :=
  ∀ i < n, ∃ c, img.place f i = some c ∧ img.cell c ≠ 0

/-- The type of a block goes with its use. -/
def Typed (type : Nat) : Option Use → Prop
  | none => type = 0 ∨ type = BLOCK_BOOT
  | some .system => type = BLOCK_SUPER ∨ type = BLOCK_BMAP
  | some .dir => type = BLOCK_FILE
  | some .data => type = BLOCK_DATA
  | some (.table _) => type = BLOCK_INDEX

/-- A directory has as many blocks as its size says. -/
def Dense (img : Image) (f : FilePtr) : Prop :=
  ∃ n ≤ NINDIRECT, (img.file f).fSize = BY2BLK * n ∧ img.Full f n

structure Tidy (img : Image) (use : Uses) : Prop where
  room : Room img
  start : 3 ≤ img.nextbno
  types : ∀ b, Typed (img.type b) (use b)
  super : use 1 = some .system ∧ img.type 1 = BLOCK_SUPER
  bitmap : use 2 = some .system ∧ img.type 2 = BLOCK_BMAP
  boot : use 0 = none
  new : ∀ b, img.nextbno ≤ b → use b = none ∧ ∀ i, img.word b i = 0
  names : ∀ c u, Points img use c u → img.cell c = 0 ∨ use (img.cell c) = some u
  once : ∀ c u c' u', Points img use c u → Points img use c' u' → img.cell c ≠ 0 →
    img.cell c = img.cell c' → c = c'
  unused : ∀ b k, use b = some .dir → k < FILE2BLK → (img.file (.slot b k)).fName 0 = 0 →
    img.file (.slot b k) = .zero
  dirs : ∀ f, IsFile use f → (img.file f).isDir = true → Dense img f
  kinds : ∀ f, (img.file f).fType = FTYPE_REG ∨ (img.file f).fType = FTYPE_DIR

/-- No cell has the block number. -/
def Unnamed (img : Image) (use : Uses) (bno : Nat) : Prop :=
  ∀ c u, Points img use c u → img.cell c ≠ bno

/-- A file with a name, or the root. -/
def Used (img : Image) (f : FilePtr) : Prop := f = .root ∨ (img.file f).fName 0 ≠ 0

/-- What stays: the uses of blocks, the types of the files with names, the numbers for the super
block, and the bitmap. -/
structure Grows (img : Image) (use : Uses) (img' : Image) (use' : Uses) : Prop where
  next : img.nextbno ≤ img'.nextbno
  numbers : img'.sMagic = img.sMagic ∧ img'.sNblocks = img.sNblocks
  bits : img'.word 2 = img.word 2
  uses : ∀ b u, use b = some u → use' b = some u
  files : ∀ f, IsFile use f → Used img f → Used img' f ∧ (img'.file f).fType = (img.file f).fType

theorem Grows.refl (img : Image) (use : Uses) : Grows img use img use :=
  ⟨Nat.le_refl _, ⟨rfl, rfl⟩, rfl, fun _ _ h => h, fun _ _ h => ⟨h, rfl⟩⟩

theorem IsFile.mono (h : IsFile use f) (huse : ∀ b u, use b = some u → use' b = some u) :
    IsFile use' f := by
  cases h with
  | root => exact .root
  | slot hb hk => exact .slot (huse _ _ hb) hk

theorem Grows.trans {img'' : Image} {use'' : Uses} (h : Grows img use img' use')
    (h' : Grows img' use' img'' use'') : Grows img use img'' use'' := by
  refine ⟨h.next.trans h'.next, ⟨h'.numbers.1.trans h.numbers.1, h'.numbers.2.trans h.numbers.2⟩,
    h'.bits.trans h.bits, fun b u hb => h'.uses b u (h.uses b u hb), fun f hf hu => ?_⟩
  obtain ⟨hu', htype⟩ := h.files f hf hu
  obtain ⟨hu'', htype'⟩ := h'.files f (hf.mono h.uses) hu'
  exact ⟨hu'', htype'.trans htype⟩

/-- The tool may stop for any reason. -/
def tidyContract : Contract Image Uses Halt where
  inv := Tidy
  moves := Grows
  allowed _ _ := True
  refl := Grows.refl
  trans := Grows.trans
  back _ _ := trivial

-- ---------------------------------------------------------------------------
-- A block is handed out
-- ---------------------------------------------------------------------------

namespace Tidy

variable (h : Tidy img use)
include h

theorem below {u : Use} (hb : use b = some u) : b < img.nextbno := by
  by_contra hge
  rw [(h.new b (Nat.not_lt.mp hge)).1] at hb
  cases hb

/-- A file lies in a block that has been handed out. -/
theorem fileBelow (hf : IsFile use f) : f.below img.nextbno := by
  cases hf with
  | root => trivial
  | slot hb _ => exact h.below hb

theorem unnamed (hnone : use bno = none) (hpos : bno ≠ 0) : Unnamed img use bno := by
  rintro c u hc rfl
  rcases h.names c u hc with h0 | hu
  · exact hpos h0
  · rw [hnone] at hu
    cases hu

/-- A file that is not zero was one before the block was handed out. -/
theorem isFile_old {v : Use} (hf : IsFile (Function.update use img.nextbno (some v)) f)
    (hne : img.file f ≠ .zero) : IsFile use f := by
  cases hf with
  | root => exact .root
  | @slot b k hb hk =>
    by_cases hbn : b = img.nextbno
    · rw [hbn] at hne
      exact absurd (h.room.fresh _ k (Nat.le_refl _)) hne
    · rw [Function.update_of_ne hbn] at hb
      exact .slot hb hk

/-- So was a cell that is not zero. -/
theorem points_old {type : Nat} {u v : Use} {c : Cell}
    (hc : Points (img.taken type) (Function.update use img.nextbno (some v)) c u)
    (hne : img.cell c ≠ 0) : Points img use c u := by
  cases hc with
  | @direct f k hf hk =>
    refine .direct (h.isFile_old hf fun hz => hne ?_) hk
    show (img.file f).fDirect k = 0
    rw [hz]
    rfl
  | @table f hf =>
    refine .table (h.isFile_old hf fun hz => hne ?_)
    show (img.file f).fIndirect = 0
    rw [hz]
    rfl
  | @entry b i d hb hlo hhi =>
    by_cases hbn : b = img.nextbno
    · rw [hbn] at hne
      exact absurd ((h.new _ (Nat.le_refl _)).2 i) hne
    · rw [Function.update_of_ne hbn] at hb
      exact .entry hb hlo hhi

theorem unnamed_taken {t : Nat} {v : Use} (hpos : bno ≠ 0) (hfree : Unnamed img use bno) :
    Unnamed (img.taken t) (Function.update use img.nextbno (some v)) bno := by
  intro c u hc heq
  have hne : img.cell c ≠ 0 := fun h0 => hpos (heq.symm.trans h0)
  exact hfree c u (h.points_old hc hne) heq

/-- `next_block`. -/
theorem taken (hlt : img.nextbno < NBLOCK) {type : Nat} {v : Use} (htype : Typed type (some v)) :
    Tidy (img.taken type) (Function.update use img.nextbno (some v)) := by
  have hnone : use img.nextbno = none := (h.new _ (Nat.le_refl _)).1
  have hlow : ∀ b, b < 3 → b ≠ img.nextbno := fun b hb hc => by
    have := h.start
    omega
  have hold : ∀ b, b ≠ img.nextbno → Function.update use img.nextbno (some v) b = use b :=
    fun b hb => Function.update_of_ne hb ..
  have hkeep : ∀ b u, use b = some u → Function.update use img.nextbno (some v) b = some u := by
    intro b u hb
    rw [hold b, hb]
    rintro rfl
    rw [hnone] at hb
    cases hb
  refine ⟨h.room.taken hlt type, Nat.le_succ_of_le h.start, fun b => ?_, ⟨hkeep _ _ h.super.1, ?_⟩,
    ⟨hkeep _ _ h.bitmap.1, ?_⟩, ?_, fun b hb => ?_, fun c u hc => ?_,
    fun c u c' u' hc hc' hne heq => ?_, fun b k hb hk h0 => ?_, fun f hf hdir => ?_, h.kinds⟩
  · by_cases hb : b = img.nextbno
    · subst hb
      show Typed (Function.update img.type img.nextbno type img.nextbno) _
      rw [Function.update_self, Function.update_self]
      exact htype
    · show Typed (Function.update img.type img.nextbno type b) _
      rw [Function.update_of_ne hb, hold b hb]
      exact h.types b
  · exact (Function.update_of_ne (hlow 1 (by decide)) ..).trans h.super.2
  · exact (Function.update_of_ne (hlow 2 (by decide)) ..).trans h.bitmap.2
  · rw [hold 0 (hlow 0 (by decide))]
    exact h.boot
  · have hlt' : img.nextbno + 1 ≤ b := hb
    rw [hold b (by omega)]
    exact h.new b (by omega)
  · by_cases h0 : img.cell c = 0
    · exact Or.inl h0
    · exact Or.inr (hkeep _ _ ((h.names c u (h.points_old hc h0)).resolve_left h0))
  · exact h.once c u c' u' (h.points_old hc hne) (h.points_old hc' (heq ▸ hne)) hne heq
  · by_cases hbn : b = img.nextbno
    · rw [hbn]
      exact h.room.fresh _ k (Nat.le_refl _)
    · rw [hold b hbn] at hb
      exact h.unused b k hb hk h0
  · refine h.dirs f (h.isFile_old hf fun hz => ?_) hdir
    have hreg : File.zero.isDir = false := by decide
    have hdir' : (img.file f).isDir = true := hdir
    rw [hz, hreg] at hdir'
    cases hdir'

end Tidy

/-- `next_block` gives a block that no cell names. -/
theorem nextBlock_runs (h : Tidy img use) {t : Nat} {v : Use} (htype : Typed t (some v)) :
    Runs tidyContract (nextBlock t) img use fun bno img' use' =>
      img' = img.taken t ∧ use' = Function.update use img.nextbno (some v) ∧ bno = img.nextbno ∧
        bno ≠ 0 ∧ Unnamed img' use' bno := by
  by_cases hlt : img.nextbno < NBLOCK
  · have hrun : nextBlock t img = .ok (img.nextbno, img.taken t) := by
      unfold nextBlock
      rw [run_get, run_bind (useBlock_run hlt img)]
      rfl
    have hpos : img.nextbno ≠ 0 := by
      have := h.start
      omega
    have hnone : use img.nextbno = none := (h.new _ (Nat.le_refl _)).1
    have htidy := h.taken hlt htype
    refine .of_ok (C := tidyContract) hrun htidy
      ⟨Nat.le_succ _, ⟨rfl, rfl⟩, rfl, fun b u hb => ?_, fun f _ hu => ⟨hu, rfl⟩⟩
      ⟨rfl, rfl, rfl, hpos, ?_⟩
    · refine (Function.update_of_ne ?_ ..).trans hb
      rintro rfl
      rw [hnone] at hb
      cases hb
    · exact h.unnamed_taken hpos (h.unnamed hnone hpos)
  · have hrun : nextBlock t img = .error (.badIndex img.nextbno) := by
      unfold nextBlock
      rw [run_get, run_bind_error (useBlock_bad hlt img)]
    exact .of_error hrun trivial

-- ---------------------------------------------------------------------------
-- A block number is stored
-- ---------------------------------------------------------------------------

/-- Block number `v` goes to a cell. -/
def Image.set (img : Image) (v : Nat) : Cell → Image
  | .direct f k =>
    img.put f { img.file f with fDirect := Function.update (img.file f).fDirect k v }
  | .table f => img.put f { img.file f with fIndirect := v }
  | .entry b i =>
    { img with word := Function.update img.word b (Function.update (img.word b) i v) }

/-- The file of the cell has a name. -/
def Cell.Named (img : Image) : Cell → Prop
  | .direct f _ | .table f => Used img f
  | .entry _ _ => True

theorem put_file (img : Image) (f : FilePtr) (F : File) (g : FilePtr) :
    (img.put f F).file g = if g = f then F else img.file g := by
  by_cases hg : g = f
  · rw [if_pos hg, hg, img.put_self]
  · rw [if_neg hg, img.put_of_ne hg]

theorem cell_set (img : Image) (v : Nat) (c c' : Cell) :
    (img.set v c).cell c' = if c' = c then v else img.cell c' := by
  cases c with
  | direct f k =>
    cases c' with
    | direct g j =>
      simp only [Image.set, Image.cell, put_file, Cell.direct.injEq]
      by_cases hg : g = f
      · subst hg
        by_cases hj : j = k
        · simp [hj]
        · simp [hj]
      · simp [hg]
    | table g =>
      simp only [Image.set, Image.cell, put_file]
      by_cases hg : g = f
      · simp [hg]
      · simp [hg]
    | entry b i => simp [Image.set, Image.cell, Image.put]
  | table f =>
    cases c' with
    | direct g j =>
      simp only [Image.set, Image.cell, put_file]
      by_cases hg : g = f
      · simp [hg]
      · simp [hg]
    | table g =>
      simp only [Image.set, Image.cell, put_file, Cell.table.injEq]
      by_cases hg : g = f
      · simp [hg]
      · simp [hg]
    | entry b i => simp [Image.set, Image.cell, Image.put]
  | entry b i =>
    cases c' with
    | direct g j => simp [Image.set, Image.cell]
    | table g => simp [Image.set, Image.cell]
    | entry b' j =>
      simp only [Image.set, Image.cell, Cell.entry.injEq]
      by_cases hb : b' = b
      · subst hb
        by_cases hj : j = i
        · simp [hj]
        · simp [hj]
      · simp [hb]

/-- Names, sizes and types are no block numbers. -/
theorem set_fields (img : Image) (v : Nat) (c : Cell) (f : FilePtr) :
    ((img.set v c).file f).fName = (img.file f).fName ∧
      ((img.set v c).file f).fSize = (img.file f).fSize ∧
      ((img.set v c).file f).fType = (img.file f).fType := by
  cases c with
  | direct g k | table g =>
    simp only [Image.set, put_file]
    by_cases hf : f = g
    · simp [hf]
    · simp [hf]
  | entry b i => exact ⟨rfl, rfl, rfl⟩

theorem set_rest (img : Image) (v : Nat) (c : Cell) :
    (img.set v c).type = img.type ∧ (img.set v c).nextbno = img.nextbno ∧
      (img.set v c).sMagic = img.sMagic ∧ (img.set v c).sNblocks = img.sNblocks := by
  cases c with
  | direct | table | entry => exact ⟨rfl, rfl, rfl, rfl⟩

theorem Points.set {c c' : Cell} {u : Use} {v : Nat} :
    Points (img.set v c) use c' u ↔ Points img use c' u := by
  have hdir : ∀ f, ((img.set v c).file f).isDir = (img.file f).isDir := fun f => by
    unfold File.isDir
    rw [(set_fields img v c f).2.2]
  constructor
  · intro hc
    cases hc with
    | direct hf hk =>
      rw [hdir]
      exact .direct hf hk
    | table hf =>
      rw [hdir]
      exact .table hf
    | entry hb hlo hhi => exact .entry hb hlo hhi
  · intro hc
    cases hc with
    | @direct f k hf hk =>
      rw [← hdir f]
      exact .direct hf hk
    | @table f hf =>
      rw [← hdir f]
      exact .table hf
    | entry hb hlo hhi => exact .entry hb hlo hhi

/-- A cell has one use. -/
theorem Points.unique {c : Cell} {u u' : Use} (h : Points img use c u) (h' : Points img use c u') :
    u = u' := by
  cases h with
  | direct => cases h' with | direct => rfl
  | table => cases h' with | table => rfl
  | entry hb =>
    cases h' with
    | entry hb' =>
      rw [hb] at hb'
      cases hb'
      rfl

/-- The other blocks of a file are where they were, if no index block is replaced. -/
theorem place_set {c c' : Cell} {v : Nat} (hnew : ∀ g, c = .table g → img.cell c = 0)
    (hplace : img.place f i = some c') : (img.set v c).place f i = some c' := by
  unfold Image.place at hplace ⊢
  by_cases hi : i < NDIRECT
  · rw [if_pos hi] at hplace ⊢
    exact hplace
  · rw [if_neg hi] at hplace ⊢
    by_cases h0 : (img.file f).fIndirect = 0
    · rw [if_neg (not_not.mpr h0)] at hplace
      cases hplace
    · have hne : Cell.table f ≠ c := by
        rintro rfl
        exact h0 (hnew f rfl)
      have hcell := cell_set img v c (.table f)
      rw [if_neg hne] at hcell
      have hsame : ((img.set v c).file f).fIndirect = (img.file f).fIndirect := hcell
      rw [hsame]
      exact hplace

theorem full_set {c : Cell} {v : Nat} (hv : v ≠ 0) (hnew : ∀ g, c = .table g → img.cell c = 0)
    (hfull : img.Full f n) : (img.set v c).Full f n := by
  intro i hi
  obtain ⟨c', hplace, hne⟩ := hfull i hi
  refine ⟨c', place_set hnew hplace, ?_⟩
  rw [cell_set]
  split_ifs
  · exact hv
  · exact hne

theorem Unnamed.set {c : Cell} {v : Nat} (h : Unnamed img use bno) (hv : v ≠ bno) :
    Unnamed (img.set v c) use bno := by
  intro c' u hc'
  rw [cell_set]
  split_ifs
  · exact hv
  · exact h c' u (Points.set.mp hc')

/-- **A block number is stored** that no cell has yet. -/
theorem Tidy.set (h : Tidy img use) {c : Cell} {u : Use} (hc : Points img use c u)
    (hused : c.Named img) (hnew : ∀ g, c = .table g → img.cell c = 0) (hpos : bno ≠ 0)
    (hbno : use bno = some u) (hfree : Unnamed img use bno) : Tidy (img.set bno c) use := by
  obtain ⟨htype, hnext, -⟩ := set_rest img bno c
  refine ⟨⟨?_, fun b k hb => ?_, fun f => ?_⟩, ?_, fun b => ?_, ?_, ?_, h.boot, fun b hb => ?_,
    fun c' u' hc' => ?_, fun c₁ u₁ c₂ u₂ h₁ h₂ hne heq => ?_, fun b k hb hk h0 => ?_,
    fun f hf hdir => ?_, fun f => ?_⟩
  · rw [hnext]
    exact h.room.high
  · have hbelow : ∀ g, IsFile use g → FilePtr.slot b k ≠ g := by
      rintro g hg rfl
      have hlt : b < img.nextbno := h.fileBelow hg
      rw [hnext] at hb
      omega
    have hsame : (img.set bno c).file (.slot b k) = img.file (.slot b k) := by
      cases hc with
      | direct hf _ => exact img.put_of_ne (hbelow _ hf) _
      | table hf => exact img.put_of_ne (hbelow _ hf) _
      | entry _ _ _ => rfl
    rw [hsame]
    exact h.room.fresh b k (hnext ▸ hb)
  · unfold NameOk
    rw [(set_fields img bno c f).1]
    exact h.room.names f
  · rw [hnext]
    exact h.start
  · rw [htype]
    exact h.types b
  · rw [htype]
    exact h.super
  · rw [htype]
    exact h.bitmap
  · rw [hnext] at hb
    obtain ⟨hnone, hzero⟩ := h.new b hb
    refine ⟨hnone, fun i => ?_⟩
    have hcell := cell_set img bno c (.entry b i)
    have hne : Cell.entry b i ≠ c := by
      rintro rfl
      cases hc with
      | entry hb' _ _ =>
        rw [hnone] at hb'
        cases hb'
    rw [if_neg hne] at hcell
    exact hcell.trans (hzero i)
  · have hold := Points.set.mp hc'
    rw [cell_set]
    split_ifs with heq
    · subst heq
      rw [hold.unique hc]
      exact Or.inr hbno
    · exact h.names c' u' hold
  · have hold₁ := Points.set.mp h₁
    have hold₂ := Points.set.mp h₂
    rw [cell_set] at hne heq
    rw [cell_set] at heq
    by_cases h₁c : c₁ = c
    · by_cases h₂c : c₂ = c
      · rw [h₁c, h₂c]
      · rw [if_pos h₁c, if_neg h₂c] at heq
        exact absurd heq.symm (hfree c₂ u₂ hold₂)
    · by_cases h₂c : c₂ = c
      · rw [if_neg h₁c, if_pos h₂c] at heq
        exact absurd heq (hfree c₁ u₁ hold₁)
      · rw [if_neg h₁c] at hne heq
        rw [if_neg h₂c] at heq
        exact h.once c₁ u₁ c₂ u₂ hold₁ hold₂ hne heq
  · rw [(set_fields img bno c _).1] at h0
    have hne : ∀ g, Used img g → FilePtr.slot b k ≠ g := by
      rintro g hg rfl
      rcases hg with hroot | hname
      · cases hroot
      · exact hname h0
    have hsame : (img.set bno c).file (.slot b k) = img.file (.slot b k) := by
      cases c with
      | direct g j => exact img.put_of_ne (hne g hused) _
      | table g => exact img.put_of_ne (hne g hused) _
      | entry _ _ => rfl
    rw [hsame]
    exact h.unused b k hb hk h0
  · obtain ⟨-, hsize, hty⟩ := set_fields img bno c f
    have hdir' : (img.file f).isDir = true := by
      unfold File.isDir at hdir ⊢
      rw [← hty]
      exact hdir
    obtain ⟨n, hn, hs, hfull⟩ := h.dirs f hf hdir'
    exact ⟨n, hn, hsize.trans hs, full_set hpos hnew hfull⟩
  · rw [(set_fields img bno c f).2.2]
    exact h.kinds f

-- ---------------------------------------------------------------------------
-- A file gets another name, size or type
-- ---------------------------------------------------------------------------

/-- The block numbers of the file are those it has in the image. -/
def SameLinks (img : Image) (f : FilePtr) (F : File) : Prop :=
  F.fDirect = (img.file f).fDirect ∧ F.fIndirect = (img.file f).fIndirect

section

variable {F : File}

theorem cell_put (hlinks : SameLinks img f F) (c : Cell) : (img.put f F).cell c = img.cell c := by
  obtain ⟨hdirect, hind⟩ := hlinks
  cases c with
  | direct g k =>
    simp only [Image.cell, put_file]
    split_ifs with hg
    · rw [hg, hdirect]
    · rfl
  | table g =>
    simp only [Image.cell, put_file]
    split_ifs with hg
    · rw [hg, hind]
    · rfl
  | entry b i => rfl

theorem place_put (hlinks : SameLinks img f F) (g : FilePtr) (i : Nat) :
    (img.put f F).place g i = img.place g i := by
  have hcell : ((img.put f F).file g).fIndirect = (img.file g).fIndirect := cell_put hlinks (.table g)
  unfold Image.place
  rw [hcell]

theorem full_put (hlinks : SameLinks img f F) (g : FilePtr) (n : Nat) :
    (img.put f F).Full g n ↔ img.Full g n := by
  unfold Image.Full
  simp only [place_put hlinks, cell_put hlinks]

/-- The type may change when the file has no blocks. -/
theorem points_put (htype : F.isDir = (img.file f).isDir ∨ ((∀ k, F.fDirect k = 0) ∧ F.fIndirect = 0))
    {c : Cell} {u : Use} (hc : Points (img.put f F) use c u) (hne : (img.put f F).cell c ≠ 0) :
    Points img use c u := by
  have hdir : ∀ g, (g = f → F.isDir = (img.file f).isDir) →
      ((img.put f F).file g).isDir = (img.file g).isDir := fun g hg => by
    rw [put_file]
    split_ifs with hgf
    · rw [hg hgf, hgf]
    · rfl
  cases hc with
  | @direct g k hf hk =>
    rw [hdir g fun hgf => htype.resolve_right fun hz => hne ?_]
    · exact .direct hf hk
    · simp only [Image.cell, put_file, if_pos hgf, hz.1]
  | @table g hf =>
    rw [hdir g fun hgf => htype.resolve_right fun hz => hne ?_]
    · exact .table hf
    · simp only [Image.cell, put_file, if_pos hgf, hz.2]
  | entry hb hlo hhi => exact .entry hb hlo hhi

theorem Tidy.put (h : Tidy img use) (hf : IsFile use f) (hlinks : SameLinks img f F) (hok : NameOk F)
    (hname : f = .root ∨ F.fName 0 ≠ 0) (hkind : F.fType = FTYPE_REG ∨ F.fType = FTYPE_DIR)
    (htype : F.isDir = (img.file f).isDir ∨ ((∀ k, F.fDirect k = 0) ∧ F.fIndirect = 0))
    (hdense : F.isDir = true → ∃ n ≤ NINDIRECT, F.fSize = BY2BLK * n ∧ img.Full f n) :
    Tidy (img.put f F) use := by
  have hcell := cell_put hlinks
  refine ⟨h.room.put (h.fileBelow hf) hok, h.start, h.types, h.super, h.bitmap, h.boot, h.new,
    fun c u hc => ?_, fun c u c' u' hc hc' hne heq => ?_, fun b k hb hk h0 => ?_,
    fun g hg hdir => ?_, fun g => ?_⟩
  · by_cases h0 : (img.put f F).cell c = 0
    · exact Or.inl h0
    · have hold := points_put htype hc h0
      rw [hcell] at h0 ⊢
      exact Or.inr ((h.names c u hold).resolve_left h0)
  · have hold := points_put htype hc hne
    have hold' := points_put htype hc' (heq ▸ hne)
    rw [hcell] at hne heq
    rw [hcell] at heq
    exact h.once c u c' u' hold hold' hne heq
  · rw [put_file] at h0 ⊢
    split_ifs at h0 ⊢ with heq
    · rcases hname with hroot | hne
      · rw [hroot] at heq
        cases heq
      · exact absurd h0 hne
    · exact h.unused b k hb hk h0
  · unfold Dense
    simp only [full_put hlinks]
    rw [put_file] at hdir ⊢
    split_ifs at hdir ⊢ with heq
    · rw [heq]
      exact hdense hdir
    · exact h.dirs g hg hdir
  · rw [put_file]
    split_ifs
    · exact hkind
    · exact h.kinds g

theorem Grows.put (img : Image) (use : Uses) (hname : f = .root ∨ F.fName 0 ≠ 0)
    (htype : Used img f → F.fType = (img.file f).fType) : Grows img use (img.put f F) use := by
  refine ⟨Nat.le_refl _, ⟨rfl, rfl⟩, rfl, fun _ _ hb => hb, fun g _ hu => ?_⟩
  by_cases hg : g = f
  · subst hg
    refine ⟨hname.imp_right fun hn => ?_, ?_⟩
    · rw [img.put_self]
      exact hn
    · rw [img.put_self]
      exact htype hu
  · unfold Used
    rw [img.put_of_ne hg]
    exact ⟨hu, rfl⟩

end

-- ---------------------------------------------------------------------------
-- The blocks of a file
-- ---------------------------------------------------------------------------

theorem useBlock_runs (h : Tidy img use) (n : Nat) :
    Runs tidyContract (useBlock n) img use fun _ img' use' => img = img' ∧ use = use' := by
  unfold useBlock
  exact .ite (fun _ => .pure h ⟨rfl, rfl⟩) fun _ => .of_error rfl trivial

theorem assert_runs (h : Tidy img use) (c : Prop) [Decidable c] :
    Runs tidyContract (assert c) img use fun _ img' use' => c ∧ img = img' ∧ use = use' := by
  unfold assert
  exact .ite (fun hc => .pure h ⟨hc, rfl, rfl⟩) fun _ => .of_error rfl trivial

/-- No file has another name, size or type. -/
def SameFields (img img' : Image) : Prop :=
  ∀ f, (img'.file f).fName = (img.file f).fName ∧ (img'.file f).fSize = (img.file f).fSize ∧
    (img'.file f).fType = (img.file f).fType

theorem SameFields.refl (img : Image) : SameFields img img := fun _ => ⟨rfl, rfl, rfl⟩

theorem SameFields.trans {img'' : Image} (h : SameFields img img') (h' : SameFields img' img'') :
    SameFields img img'' := fun f =>
  ⟨(h' f).1.trans (h f).1, (h' f).2.1.trans (h f).2.1, (h' f).2.2.trans (h f).2.2⟩

theorem SameFields.isDir (h : SameFields img img') (f : FilePtr) :
    (img'.file f).isDir = (img.file f).isDir := by
  unfold File.isDir
  rw [(h f).2.2]

theorem SameFields.used (h : SameFields img img') (hu : Used img f) : Used img' f := by
  unfold Used
  rw [(h f).1]
  exact hu

/-- Block `nblk` of a file is there, and no other file has changed but for block numbers. -/
structure Saved (f : FilePtr) (nblk : Nat) (img img' : Image) : Prop where
  fields : SameFields img img'
  full : ∀ n, img.Full f n → img'.Full f n
  last : ∃ c, img'.place f nblk = some c ∧ img'.cell c ≠ 0

/-- Storing a block number, as a step. -/
theorem set_runs (h : Tidy img use) {x : Tool Unit} {c : Cell} {u : Use} (hc : Points img use c u)
    (hused : c.Named img) (hnew : ∀ g, c = .table g → img.cell c = 0) (hpos : bno ≠ 0)
    (hbno : use bno = some u) (hfree : Unnamed img use bno) (hrun : x img = .ok ((), img.set bno c)) :
    Runs tidyContract x img use fun _ img' use' => img' = img.set bno c ∧ use' = use := by
  have hfields : SameFields img (img.set bno c) := set_fields img bno c
  obtain ⟨-, hnext, hnumbers⟩ := set_rest img bno c
  have hbits : (img.set bno c).word 2 = img.word 2 := by
    cases hc with
    | direct | table => rfl
    | @entry b i d hb hlo hhi =>
      refine Function.update_of_ne ?_ ..
      rintro rfl
      rw [h.bitmap.1] at hb
      cases hb
  exact .of_ok (C := tidyContract) hrun (h.set hc hused hnew hpos hbno hfree)
    ⟨Nat.le_of_eq hnext.symm, hnumbers, hbits, fun _ _ hb => hb,
      fun f _ hu => ⟨hfields.used hu, (hfields f).2.2⟩⟩ ⟨rfl, rfl⟩

/-- `index_block`, while block `bno` waits to be named. -/
theorem indexBlock_runs (h : Tidy img use) (hf : IsFile use f) (hused : Used img f) {u : Use}
    (hpos : bno ≠ 0) (hbno : use bno = some u) (hfree : Unnamed img use bno) :
    Runs tidyContract (indexBlock f) img use fun ind img' use' =>
      (img'.file f).fIndirect = ind ∧ ind ≠ 0 ∧ use' ind = some (.table (img.file f).isDir) ∧
        Unnamed img' use' bno ∧ SameFields img img' ∧ ∀ n, img.Full f n → img'.Full f n := by
  unfold indexBlock
  refine .get_bind ?_
  by_cases h0 : (img.file f).fIndirect = 0
  · rw [if_pos h0]
    refine (nextBlock_runs h (t := BLOCK_INDEX) (v := .table (img.file f).isDir) rfl).bind ?_
    rintro ind img₁ use₁ h₁ hg ⟨rfl, rfl, rfl, hind, hnone⟩
    have hne : img.nextbno ≠ bno := by
      have := h.below hbno
      omega
    have hfree₁ := h.unnamed_taken (t := BLOCK_INDEX) (v := .table (img.file f).isDir) hpos hfree
    have huse : Function.update use img.nextbno (some (.table (img.file f).isDir)) img.nextbno =
        some (.table (img.file f).isDir) := Function.update_self ..
    have hset := set_runs h₁ (x := setFile f fun F => { F with fIndirect := img.nextbno })
      (.table (hf.mono hg.uses)) hused (fun _ _ => h0) hind huse hnone rfl
    refine hset.bind ?_
    rintro _ img₂ use₂ h₂ - ⟨rfl, rfl⟩
    refine .pure h₂ ⟨?_, hind, huse, hfree₁.set hne, set_fields (img.taken BLOCK_INDEX) _ _,
      fun n hn => full_set hind (fun _ _ => h0) hn⟩
    exact (cell_set (img.taken BLOCK_INDEX) img.nextbno (.table f) (.table f)).trans (if_pos rfl)
  · rw [if_neg h0]
    have hu := (h.names (.table f) _ (.table hf)).resolve_left h0
    exact .pure h ⟨rfl, h0, hu, hfree, .refl img, fun _ hn => hn⟩

/-- `save_block_link` of a block that no cell names yet. -/
theorem saveBlockLink_runs (h : Tidy img use) (hf : IsFile use f) (hused : Used img f) (hpos : bno ≠ 0)
    (hbno : use bno = some (.content (img.file f).isDir)) (hfree : Unnamed img use bno) (nblk : Nat) :
    Runs tidyContract (saveBlockLink f nblk bno) img use fun _ img' _ =>
      nblk < NINDIRECT ∧ Saved f nblk img img' := by
  unfold saveBlockLink
  refine (assert_runs h _).bind ?_
  rintro _ _ _ - - ⟨hlt, rfl, rfl⟩
  by_cases hd : nblk < NDIRECT
  · rw [if_pos hd]
    refine (set_runs h (.direct hf hd) hused (fun _ hc => nomatch hc) hpos hbno hfree rfl).mono ?_
    rintro _ img₁ _ - - ⟨rfl, rfl⟩
    refine ⟨hlt, set_fields _ _ _, fun n hn => full_set hpos (fun _ hc => nomatch hc) hn,
      .direct f nblk, if_pos hd, ?_⟩
    rw [cell_set, if_pos rfl]
    exact hpos
  · rw [if_neg hd]
    refine (indexBlock_runs h hf hused hpos hbno hfree).bind ?_
    rintro ind img₁ use₁ h₁ hg ⟨hind, hne, huse, hfree₁, hfields, hfull⟩
    refine (useBlock_runs h₁ ind).bind ?_
    rintro _ _ _ - - ⟨rfl, rfl⟩
    refine (set_runs h₁ (.entry huse (Nat.not_lt.mp hd) hlt) trivial (fun _ hc => nomatch hc) hpos
      (hg.uses _ _ hbno) hfree₁ rfl).mono ?_
    rintro _ img₂ _ - - ⟨rfl, rfl⟩
    refine ⟨hlt, hfields.trans (set_fields _ _ _),
      fun n hn => full_set hpos (fun _ hc => nomatch hc) (hfull n hn), .entry ind nblk, ?_, ?_⟩
    · unfold Image.place
      have hsame : ((img₁.set bno (.entry ind nblk)).file f).fIndirect = ind := hind
      rw [if_neg hd, hsame, if_pos hne]
    · rw [cell_set, if_pos rfl]
      exact hpos

/-- `make_link_block`: the directory is a block longer. -/
theorem makeLinkBlock_runs (h : Tidy img use) (hf : IsFile use p) (hused : Used img p)
    (hdir : (img.file p).isDir = true) (hsize : (img.file p).fSize = BY2BLK * n) (hfull : img.Full p n) :
    Runs tidyContract (makeLinkBlock p n) img use fun bno img' use' =>
      use' bno = some .dir ∧ ∀ k, (img'.file (.slot bno k)).fName 0 = 0 := by
  unfold makeLinkBlock
  refine (nextBlock_runs h (t := BLOCK_FILE) (v := .dir) rfl).bind ?_
  rintro bno img₁ use₁ h₁ hg ⟨rfl, rfl, rfl, hpos, hfree⟩
  have hbno : Function.update use img.nextbno (some .dir) img.nextbno =
      some (Use.content (img.file p).isDir) := by
    rw [Function.update_self, hdir]
    rfl
  have hused₁ : Used (img.taken BLOCK_FILE) p := hused
  refine (saveBlockLink_runs h₁ (hf.mono hg.uses) hused₁ hpos hbno hfree n).bind ?_
  rintro _ img₂ use₂ h₂ hg₂ ⟨hlt, hsaved⟩
  have hf₂ := (hf.mono hg.uses).mono hg₂.uses
  obtain ⟨hname, hsize₂, -⟩ := hsaved.fields p
  have hused₂ := hsaved.fields.used hused₁
  -- the new size counts the new block
  have hgrown : (img₂.file p).grown.isDir = true → ∃ m ≤ NINDIRECT,
      (img₂.file p).grown.fSize = BY2BLK * m ∧ img₂.Full p m := by
    intro _
    refine ⟨n + 1, hlt, ?_, fun i hi => ?_⟩
    · have hold : (img₂.file p).fSize = BY2BLK * n := hsize₂.trans hsize
      simp only [NINDIRECT, BY2BLK, Mos.Kern.BY2PG] at hlt hold
      rw [File.grown_fSize, hold]
      simp only [BY2BLK, Mos.Kern.BY2PG]
      omega
    · rcases Nat.lt_succ_iff_lt_or_eq.mp hi with hlt' | rfl
      · exact hsaved.full n hfull i hlt'
      · exact hsaved.last
  have hlinks : SameLinks img₂ p (img₂.file p).grown :=
    ⟨File.grown_fDirect _, by simp only [File.grown]⟩
  have hkeep : (img₂.file p).grown.isDir = (img₂.file p).isDir :=
    decide_eq_decide.mpr (by simp only [File.grown])
  have hkind : (img₂.file p).grown.fType = FTYPE_REG ∨ (img₂.file p).grown.fType = FTYPE_DIR := by
    simp only [File.grown]
    exact h₂.kinds p
  have hname₂ : p = .root ∨ (img₂.file p).grown.fName 0 ≠ 0 := by
    rw [File.grown_fName]
    exact hused₂
  have hok : NameOk (img₂.file p).grown := by
    unfold NameOk
    rw [File.grown_fName]
    exact h₂.room.names p
  have htidy := h₂.put hf₂ hlinks hok hname₂ hkind (Or.inl hkeep) hgrown
  have hrun : setFile p File.grown img₂ = .ok ((), img₂.put p (img₂.file p).grown) := setFile_run ..
  refine Runs.bind (Q := fun _ img' use' => img' = img₂.put p (img₂.file p).grown ∧ use' = use₂) ?_ ?_
  · refine .of_ok (C := tidyContract) hrun htidy (Grows.put img₂ use₂ hname₂ fun _ => ?_) ⟨rfl, rfl⟩
    simp only [File.grown]
  · rintro _ img₃ use₃ h₃ - ⟨rfl, rfl⟩
    refine .pure h₃ ⟨hg₂.uses _ _ (Function.update_self ..), fun k => ?_⟩
    have hnew : (img₂.file (.slot img.nextbno k)).fName 0 = 0 := by
      rw [(hsaved.fields _).1]
      show (img.file (.slot img.nextbno k)).fName 0 = 0
      rw [h.room.fresh _ k (Nat.le_refl _)]
      rfl
    rw [put_file]
    split_ifs with hc
    · rw [File.grown_fName, ← hc]
      exact hnew
    · exact hnew

/-- The loop of `create_file`: a file that it finds has no name. -/
theorem findUnused_runs (h : Tidy img use) (hf : IsFile use p) (hdir : (img.file p).isDir = true)
    (hlen : i + n ≤ NINDIRECT) (hfull : img.Full p (i + n)) :
    Runs tidyContract (findUnused p n i) img use fun r img' use' =>
      img = img' ∧ use = use' ∧ ∀ f, r = some f → f ≠ .root ∧ IsFile use f ∧ (img.file f).fName 0 = 0 := by
  induction n generalizing i with
  | zero => exact .pure h ⟨rfl, rfl, fun _ hr => nomatch hr⟩
  | succ n ih =>
    obtain ⟨c, hplace, hne⟩ := hfull i (by omega)
    have hlink : Runs tidyContract (linkOf p i) img use fun bno img' use' =>
        img = img' ∧ use = use' ∧ bno = img.cell c := by
      unfold linkOf
      refine .get_bind ?_
      unfold Image.place at hplace
      dsimp only
      split_ifs at hplace ⊢ with hi htable
      · cases hplace
        exact .pure h ⟨rfl, rfl, rfl⟩
      · cases hplace
        refine (useBlock_runs h _).bind ?_
        rintro _ _ _ - - ⟨rfl, rfl⟩
        exact .get_bind (.pure h ⟨rfl, rfl, rfl⟩)
    have hpoints : ∃ u, Points img use c u ∧ u = .dir := by
      unfold Image.place at hplace
      split_ifs at hplace with hi htable
      · cases hplace
        refine ⟨_, .direct hf hi, ?_⟩
        rw [hdir]
        rfl
      · cases hplace
        have hu := (h.names (.table p) _ (.table hf)).resolve_left htable
        rw [hdir] at hu
        exact ⟨_, .entry hu (Nat.not_lt.mp hi) (by omega), rfl⟩
    obtain ⟨u, hc, rfl⟩ := hpoints
    have hblock := (h.names c _ hc).resolve_left hne
    unfold findUnused
    refine hlink.bind ?_
    rintro bno _ _ - - ⟨rfl, rfl, rfl⟩
    refine (useBlock_runs h _).bind ?_
    rintro _ _ _ - - ⟨rfl, rfl⟩
    refine .get_bind ?_
    split
    · rename_i k hk
      refine .pure h ⟨rfl, rfl, fun f hr => ?_⟩
      cases hr
      refine ⟨nofun, .slot hblock (List.mem_range.mp (List.mem_of_find?_eq_some hk)), ?_⟩
      simpa using List.find?_some hk
    · have hnext : i + 1 + n = i + (n + 1) := by omega
      exact ih (hnext ▸ hlen) (hnext ▸ hfull)

/-- `create_file`: a file of zeros, and `p` is still a directory. -/
theorem createFile_runs (h : Tidy img use) (hf : IsFile use p) (hused : Used img p)
    (hdir : (img.file p).isDir = true) :
    Runs tidyContract (createFile p) img use fun f img' use' =>
      f ≠ .root ∧ IsFile use' f ∧ img'.file f = .zero := by
  obtain ⟨n, hn, hsize, hfull⟩ := h.dirs p hf hdir
  have hzero : ∀ {img : Image} {use : Uses} {f : FilePtr}, Tidy img use → f ≠ .root → IsFile use f →
      (img.file f).fName 0 = 0 → img.file f = .zero := by
    intro img use f h hroot hf h0
    cases hf with
    | root => exact absurd rfl hroot
    | slot hb hk => exact h.unused _ _ hb hk h0
  have hdiv : (img.file p).fSize / BY2BLK = n := by
    rw [hsize]
    exact Nat.mul_div_cancel_left n (by decide)
  unfold createFile
  refine .get_bind ?_
  rw [hdiv]
  refine (findUnused_runs h hf hdir (i := 0) (by omega) (by rw [Nat.zero_add]; exact hfull)).bind ?_
  rintro r _ _ - - ⟨rfl, rfl, hfound⟩
  cases r with
  | some f =>
    obtain ⟨hroot, hfile, h0⟩ := hfound f rfl
    exact .pure h ⟨hroot, hfile, hzero h hroot hfile h0⟩
  | none =>
    refine (makeLinkBlock_runs h hf hused hdir hsize hfull).bind ?_
    rintro bno img₁ use₁ h₁ - ⟨hblock, hname⟩
    refine (useBlock_runs h₁ bno).bind ?_
    rintro _ _ _ - - ⟨rfl, rfl⟩
    have hfile : IsFile use₁ (.slot bno 0) := .slot hblock (by decide)
    exact .pure h₁ ⟨nofun, hfile, hzero h₁ nofun hfile (hname 0)⟩

-- ---------------------------------------------------------------------------
-- Files and directories of the host
-- ---------------------------------------------------------------------------

/-- The loop of `write_file`. -/
theorem readBlocks_runs (h : Tidy img use) (hf : IsFile use f) (hused : Used img f)
    (hdir : (img.file f).isDir = false) (n : Nat) :
    Runs tidyContract (readBlocks f n i) img use fun _ _ _ => True := by
  induction n generalizing img use i with
  | zero => exact .get_bind ((useBlock_runs h _).mono fun _ _ _ _ _ _ => trivial)
  | succ n ih =>
    unfold readBlocks
    refine .get_bind ((useBlock_runs h _).bind ?_)
    rintro _ _ _ - - ⟨rfl, rfl⟩
    refine (nextBlock_runs h (t := BLOCK_DATA) (v := .data) rfl).bind ?_
    rintro bno img₁ use₁ h₁ hg ⟨rfl, rfl, rfl, hpos, hfree⟩
    have hbno : Function.update use img.nextbno (some .data) img.nextbno =
        some (Use.content ((img.taken BLOCK_DATA).file f).isDir) := by
      have hreg : ((img.taken BLOCK_DATA).file f).isDir = false := hdir
      rw [Function.update_self, hreg]
      rfl
    refine (saveBlockLink_runs h₁ (hf.mono hg.uses) hused hpos hbno hfree i).bind ?_
    rintro _ img₂ use₂ h₂ hg₂ ⟨-, hsaved⟩
    refine ih h₂ ((hf.mono hg.uses).mono hg₂.uses) (hsaved.fields.used hused) ?_
    rw [hsaved.fields.isDir]
    exact hdir

/-- A file of zeros has no name. -/
theorem not_used (hroot : f ≠ .root) (hzero : img.file f = .zero) : ¬ Used img f := by
  rintro (hc | hc)
  · exact hroot hc
  · rw [hzero] at hc
    exact hc rfl

/-- Setting the fields of a file of zeros that gets a name. -/
theorem name_runs (h : Tidy img use) (hf : IsFile use f) (hroot : f ≠ .root) (hzero : img.file f = .zero)
    {x : Tool Unit} {F : File} (hlinks : SameLinks img f F) (hok : NameOk F) (h0 : F.fName 0 ≠ 0)
    (hkind : F.fType = FTYPE_REG ∨ F.fType = FTYPE_DIR)
    (hsize : F.isDir = true → F.fSize = 0) (hrun : x img = .ok ((), img.put f F)) :
    Runs tidyContract x img use fun _ img' use' => img' = img.put f F ∧ use = use' := by
  have hnone : (∀ k, F.fDirect k = 0) ∧ F.fIndirect = 0 := by
    obtain ⟨hdirect, hind⟩ := hlinks
    rw [hdirect, hind, hzero]
    exact ⟨fun _ => rfl, rfl⟩
  refine .of_ok (C := tidyContract) hrun (h.put hf hlinks hok (Or.inr h0) hkind (Or.inr hnone) fun hd => ?_)
    (Grows.put img use (Or.inr h0) fun hu => absurd hu (not_used hroot hzero)) ⟨rfl, rfl⟩
  exact ⟨0, Nat.zero_le _, hsize hd, fun i hi => absurd hi (Nat.not_lt_zero i)⟩

theorem writeFile_runs (h : Tidy img use) (hf : IsFile use p) (hused : Used img p)
    (hdir : (img.file p).isDir = true) (hnul : 0 ∉ path) (hname : afterSlash path ≠ []) (g : HostFile) :
    Runs tidyContract (writeFile p path g) img use fun _ _ _ => True := by
  unfold writeFile
  refine (createFile_runs h hf hused hdir).bind ?_
  rintro f img₁ use₁ h₁ - ⟨hroot, hf₁, hzero⟩
  have hnul' : 0 ∉ afterSlash path := fun h0 => hnul (mem_of_afterSlash h0)
  by_cases hlen : (afterSlash path).length < MAXNAMELEN
  · obtain ⟨F, hF⟩ : ∃ F, F = (img₁.file f).strcpy (afterSlash path) := ⟨_, rfl⟩
    have hrun : strcpyName f (afterSlash path) img₁ = .ok ((), img₁.put f F) := by
      unfold strcpyName
      rw [if_pos hlen, hF]
      rfl
    have hlinks : SameLinks img₁ f F := by
      rw [hF]
      exact ⟨rfl, rfl⟩
    have hok : NameOk F := hF ▸ strcpy_nameOk hlen _
    have h0 : F.fName 0 ≠ 0 := hF ▸ strcpy_first hname hnul' _
    have htype : F.fType = FTYPE_REG := by
      rw [hF, hzero]
      rfl
    have hreg : F.isDir = false := by
      unfold File.isDir
      rw [htype]
      decide
    refine (name_runs h₁ hf₁ hroot hzero hlinks hok h0 (Or.inl htype)
      (fun hd => by rw [hreg] at hd; cases hd) hrun).bind ?_
    rintro _ img₂ use₂ h₂ - ⟨rfl, rfl⟩
    -- the size and the type
    have hfile : (img₁.put f F).file f = F := Image.put_self ..
    have hlinks₂ : SameLinks (img₁.put f F) f (F.regular g.size) := by
      unfold SameLinks
      rw [hfile]
      exact ⟨rfl, rfl⟩
    have hkeep : (F.regular g.size).isDir = ((img₁.put f F).file f).isDir := by
      rw [hfile, hreg]
      rfl
    have htidy := h₂.put hf₁ hlinks₂ hok (Or.inr h0) (Or.inl rfl) (Or.inl hkeep) fun hd => by
      rw [hkeep, hfile, hreg] at hd
      cases hd
    have hset : setFile f (File.regular g.size) (img₁.put f F) =
        .ok ((), (img₁.put f F).put f (F.regular g.size)) := by
      rw [setFile_run, hfile]
    have hgrows : Grows (img₁.put f F) use₁ ((img₁.put f F).put f (F.regular g.size)) use₁ :=
      Grows.put _ _ (Or.inr h0) fun _ => by rw [hfile, htype]; rfl
    refine Runs.bind (Q := fun _ img' use' => img' = (img₁.put f F).put f (F.regular g.size) ∧ use₁ = use')
      (.of_ok (C := tidyContract) hset htidy hgrows ⟨rfl, rfl⟩) ?_
    rintro _ img₃ use₃ h₃ - ⟨rfl, rfl⟩
    refine readBlocks_runs h₃ hf₁ (Or.inr ?_) ?_ _
    · rw [Image.put_self]
      exact h0
    · rw [Image.put_self]
      rfl
  · have hrun : strcpyName f (afterSlash path) img₁ = .error .overrun := by
      unfold strcpyName
      rw [if_neg hlen]
      rfl
    exact .of_error (run_bind_error hrun _) trivial

/-- `write_directory` up to its loop: an empty directory. -/
theorem enterDirectory_runs (h : Tidy img use) (hf : IsFile use p) (hused : Used img p)
    (hdir : (img.file p).isDir = true) (hnul : 0 ∉ path) :
    Runs tidyContract (enterDirectory p path) img use fun f img' use' =>
      IsFile use' f ∧ Used img' f ∧ (img'.file f).isDir = true := by
  unfold enterDirectory
  refine (createFile_runs h hf hused hdir).bind ?_
  rintro f img₁ use₁ h₁ - ⟨hroot, hf₁, hzero⟩
  obtain ⟨F, hF⟩ : ∃ F, F = (img₁.file f).strncpy (basename path) (MAXNAMELEN - 1) := ⟨_, rfl⟩
  have hlast : F.fName (MAXNAMELEN - 1) = 0 := by
    rw [hF, strncpy_last, hzero]
    rfl
  have h0 : F.fName 0 ≠ 0 :=
    hF ▸ strncpy_first (basename_ne_nil path) (basename_noNul hnul) (show 0 < MAXNAMELEN - 1 by decide) _
  have hsize : F.fSize = 0 := by
    rw [hF, hzero]
    rfl
  have hlinks : SameLinks img₁ f F := by
    rw [hF]
    exact ⟨rfl, rfl⟩
  have hset : setFile f (File.strncpy (basename path) (MAXNAMELEN - 1)) img₁ = .ok ((), img₁.put f F) := by
    rw [setFile_run, hF]
  have hset₂ : setFile f File.directory (img₁.put f F) = .ok ((), img₁.put f F.directory) := by
    rw [setFile_run, img₁.put_self, img₁.put_put]
  have h0' : F.directory.fName 0 ≠ 0 := h0
  have hlinks' : SameLinks img₁ f F.directory := hlinks
  have hnone : (∀ k, F.directory.fDirect k = 0) ∧ F.directory.fIndirect = 0 := by
    rw [hlinks'.1, hlinks'.2, hzero]
    exact ⟨fun _ => rfl, rfl⟩
  have htidy : Tidy (img₁.put f F.directory) use₁ :=
    h₁.put hf₁ hlinks' ⟨_, by decide, hlast⟩ (Or.inr h0') (Or.inr rfl) (Or.inr hnone) fun _ =>
      ⟨0, Nat.zero_le _, hsize, fun i hi => absurd hi (Nat.not_lt_zero i)⟩
  have hgrows : Grows img₁ use₁ (img₁.put f F.directory) use₁ :=
    .put img₁ use₁ (Or.inr h0') fun hu => absurd hu (not_used hroot hzero)
  refine .of_ok (C := tidyContract) ?_ htidy hgrows ⟨hf₁, Or.inr ?_, ?_⟩
  · rw [run_bind hset, run_get, img₁.put_self, if_neg (not_not.mpr hlast)]
    exact run_bind hset₂ _
  · rw [img₁.put_self]
    exact h0'
  · rw [img₁.put_self]
    rfl

mutual
theorem writeNode_runs : ∀ (node : Node) {img : Image} {use : Uses} {p : FilePtr} {path : List Nat},
    Tidy img use → IsFile use p → Used img p → (img.file p).isDir = true → 0 ∉ path →
    (∀ g, node = .file g → afterSlash path ≠ []) →
    Runs tidyContract (writeNode p path node) img use fun _ _ _ => True
  | .file g, img, use, p, path, h, hf, hused, hdir, hnul, hname =>
    writeFile_runs h hf hused hdir hnul (hname g rfl) g
  | .locked, img, use, p, path, h, hf, hused, hdir, hnul, hname => .pure h trivial
  | .dir entries, img, use, p, path, h, hf, hused, hdir, hnul, hname => by
    refine (enterDirectory_runs h hf hused hdir hnul).bind ?_
    rintro f img₁ use₁ h₁ - ⟨hf₁, hused₁, hdir₁⟩
    exact writeEntries_runs entries h₁ hf₁ hused₁ hdir₁ hnul

theorem writeEntries_runs : ∀ (entries : Entries) {img : Image} {use : Uses} {p : FilePtr}
    {path : List Nat}, Tidy img use → IsFile use p → Used img p → (img.file p).isDir = true → 0 ∉ path →
    Runs tidyContract (writeEntries p path entries) img use fun _ _ _ => True
  | .nil, img, use, p, path, h, hf, hused, hdir, hnul => .pure h trivial
  | .cons name node rest, img, use, p, path, h, hf, hused, hdir, hnul => by
    unfold writeEntries
    dsimp only
    by_cases hdot : name.isDot = true
    · rw [if_neg (by rw [hdot]; decide)]
      exact writeEntries_runs rest h hf hused hdir hnul
    · have hpath : 0 ∉ path ++ slash :: name.bytes := by
        rw [List.mem_append, List.mem_cons]
        exact fun h => h.elim hnul fun h => h.elim (by decide) name.noNul
      have hafter := afterSlash_append name.noSlash path
      rw [if_pos (by rw [Bool.not_eq_true] at hdot; rw [hdot]; rfl)]
      refine (writeNode_runs node h hf hused hdir hpath fun _ _ => hafter.symm ▸ name.nonempty).bind ?_
      intro _ img₁ use₁ h₁ hg _
      -- `p` is the directory that it was
      obtain ⟨hused₁, htype⟩ := hg.files p hf hused
      refine writeEntries_runs rest h₁ (hf.mono hg.uses) hused₁ ?_ hnul
      unfold File.isDir at hdir ⊢
      rw [htype]
      exact hdir
end

theorem writeArgs_tidy (args : List Arg) {img : Image} {use : Uses} (h : Tidy img use)
    (hdir : (img.file .root).isDir = true) :
    Runs tidyContract (writeArgs args) img use fun _ _ _ => True := by
  induction args generalizing img use with
  | nil => exact .pure h trivial
  | cons arg args ih =>
    cases arg with
    | missing | special => exact .of_error rfl trivial
    | given g =>
      refine (writeNode_runs g.node h .root (Or.inl rfl) hdir g.noNul g.named).bind ?_
      intro _ img₁ use₁ h₁ hg _
      refine ih h₁ ?_
      unfold File.isDir at hdir ⊢
      rw [(hg.files .root .root (Or.inl rfl)).2]
      exact hdir

-- ---------------------------------------------------------------------------
-- The whole run
-- ---------------------------------------------------------------------------

/-- What the tool leaves to the file server: the super block, the bitmap, and the rest in order. -/
structure Finished (img : Image) (use : Uses) : Prop where
  tidy : Tidy img use
  super : img.block1 = ⟨FS_MAGIC, NBLOCK, img.file .root⟩
  root : (img.file .root).isDir = true
  bits : ∀ b < NBLOCK, (img.word 2 (b / 32)).testBit (b % 32) = decide (img.nextbno ≤ b)

/-- The super block and the bitmap block. -/
def firstUses : Uses := fun b => if b = 1 ∨ b = 2 then some .system else none

theorem initDisk_tidy : ∃ img, initDisk .zero = .ok ((), img) ∧ Tidy img firstUses ∧
    (img.sMagic = FS_MAGIC ∧ img.sNblocks = NBLOCK) ∧ (img.file .root).isDir = true ∧
    ∀ b < NBLOCK, (img.word 2 (b / 32)).testBit (b % 32) = true := by
  have hroot : ∀ f, IsFile firstUses f → f = .root := by
    intro f hf
    cases hf with
    | root => rfl
    | slot hb _ =>
      unfold firstUses at hb
      split_ifs at hb
      cases hb
  have hroom : ∃ img, initDisk .zero = .ok ((), img) ∧ img.nextbno = 3 ∧ Room img :=
    initDisk_run.imp fun _ h => ⟨h.1, h.2.1, h.2.2.1⟩
  obtain ⟨img, hrun, hnext, hr⟩ := hroom
  have htype : ∀ b, img.type b =
      if b = 1 then BLOCK_SUPER else if b = 2 then BLOCK_BMAP else if b = 0 then BLOCK_BOOT else 0 := by
    cases hrun
    intro b
    simp only [Function.update_apply]
    rfl
  have hword : ∀ b i, img.word b i = if b = 2 ∧ i * 4 < 128 then 0xffffffff else 0 := by
    cases hrun
    intro b i
    by_cases hb : b = 2
    · subst hb
      by_cases hi : i * 4 < 128
      · rw [if_pos ⟨rfl, hi⟩]
        exact if_pos hi
      · rw [if_neg fun hc => hi hc.2]
        exact if_neg hi
    · rw [if_neg fun hc => hb hc.1]
      show Function.update (Function.update Image.zero.word 2 _) 2 _ b i = 0
      rw [Function.update_of_ne hb, Function.update_of_ne hb]
      rfl
  have hfile : ∀ f, f ≠ .root → img.file f = .zero := by
    cases hrun
    intro f hf
    exact (Function.update_of_ne hf ..).trans (Function.update_of_ne hf ..)
  have hnumbers : img.sMagic = FS_MAGIC ∧ img.sNblocks = NBLOCK := by
    cases hrun
    exact ⟨rfl, rfl⟩
  have hfirst : (img.file .root).isDir = true ∧ (img.file .root).fSize = 0 ∧
      (∀ k, (img.file .root).fDirect k = 0) ∧ (img.file .root).fIndirect = 0 := by
    cases hrun
    exact ⟨rfl, rfl, fun _ => rfl, rfl⟩
  have hcell : ∀ c u, Points img firstUses c u → img.cell c = 0 := by
    intro c u hc
    cases hc with
    | direct hf _ =>
      rw [hroot _ hf]
      exact hfirst.2.2.1 _
    | table hf =>
      rw [hroot _ hf]
      exact hfirst.2.2.2
    | entry hb _ _ =>
      unfold firstUses at hb
      split_ifs at hb
      cases hb
  refine ⟨img, hrun, ⟨hr, Nat.le_of_eq hnext.symm, fun b => ?_, ⟨rfl, ?_⟩, ⟨rfl, ?_⟩, rfl,
    fun b hb => ⟨if_neg (by omega), fun i => ?_⟩, fun c u hc => Or.inl (hcell c u hc),
    fun c u c' u' hc _ hne _ => absurd (hcell c u hc) hne, fun b k hb hk _ => hfile _ nofun,
    fun f hf _ => ?_, fun f => ?_⟩, hnumbers, hfirst.1, fun b hb => ?_⟩
  · rw [htype]
    unfold firstUses
    by_cases h1 : b = 1
    · rw [if_pos h1, if_pos (Or.inl h1)]
      exact Or.inl rfl
    · by_cases h2 : b = 2
      · rw [if_neg h1, if_pos h2, if_pos (Or.inr h2)]
        exact Or.inr rfl
      · rw [if_neg h1, if_neg h2, if_neg (not_or.mpr ⟨h1, h2⟩)]
        split_ifs
        · exact Or.inr rfl
        · exact Or.inl rfl
  · rw [htype]
    rfl
  · rw [htype]
    rfl
  · rw [hword, if_neg (by omega)]
  · rw [hroot f hf]
    exact ⟨0, Nat.zero_le _, hfirst.2.1, fun i hi => absurd hi (Nat.not_lt_zero i)⟩
  · by_cases hf : f = .root
    · rw [hf]
      exact Or.inr (of_decide_eq_true hfirst.1)
    · rw [hfile f hf]
      exact Or.inl rfl
  · have hlt : b < 1024 := hb
    have hones : (0xffffffff : Nat) = 2 ^ 32 - 1 := by decide
    rw [hword, if_pos ⟨rfl, by omega⟩, hones, Nat.testBit_two_pow_sub_one]
    exact decide_eq_true (Nat.mod_lt b (by decide))

/-- A program that may stop if `bad`; what its loops do is said of each round. -/
def looseContract (bad : Prop) : Contract Image Unit Halt where
  inv _ _ := True
  moves _ _ _ _ := True
  allowed _ _ := bad
  refl _ _ := trivial
  trans _ _ := trivial
  back _ h := h

/-- The bits of the blocks below `n` are cleared, and nothing else is done. -/
structure Flushed (img img' : Image) (n : Nat) : Prop where
  rest : img' = { img with word := img'.word }
  other : ∀ b, b ≠ 2 → img'.word b = img.word b
  bits : ∀ b < NBLOCK, (img'.word 2 (b / 32)).testBit (b % 32) =
    ((img.word 2 (b / 32)).testBit (b % 32) && decide (n ≤ b))

theorem testBit_clear (w k j : Nat) (hk : k < 32) (hj : j < 32) :
    (w &&& (0xffffffff ^^^ 1 <<< k)).testBit j = (w.testBit j && decide (j ≠ k)) := by
  have hones : (0xffffffff : Nat) = 2 ^ 32 - 1 := by decide
  rw [Nat.testBit_and, Nat.testBit_xor, hones, Nat.testBit_two_pow_sub_one, Nat.one_shiftLeft,
    Nat.testBit_two_pow]
  by_cases hjk : j = k
  · subst hjk
    simp [hj]
  · simp [hj, hjk, Ne.symm hjk]

theorem flushBitmap_flushed (bad : Prop) (hn : img.nextbno ≤ NBLOCK) :
    Runs (looseContract bad) flushBitmap img () fun _ img' _ => Flushed img img' img.nextbno := by
  refine .get_bind (.forM_range (fun n img' _ => Flushed img img' n) _ trivial ?_ ?_)
  · exact ⟨rfl, fun _ _ => rfl, fun b _ => by simp⟩
  · intro i hi img₁ _ _ h
    have hlt : i < 1024 := Nat.lt_of_lt_of_le hi hn
    have hblock : 2 + i / BIT2BLK = 2 := by
      rw [Nat.div_eq_of_lt (Nat.lt_trans hlt (by decide))]
    have hmod : i % BIT2BLK = i := Nat.mod_eq_of_lt (Nat.lt_trans hlt (by decide))
    rw [hblock, hmod]
    refine .bind_same (useBlock_run (by decide) img₁) (.get_bind (.of_unit rfl trivial trivial ?_))
    refine ⟨?_, fun b hb => ?_, fun b hb => ?_⟩
    · rw [h.rest]
    · exact (Function.update_of_ne hb ..).trans (h.other b hb)
    · have hb' : b < 1024 := hb
      show (Function.update img₁.word 2 (Function.update (img₁.word 2) (i / 32) _) 2 (b / 32)).testBit _ = _
      rw [Function.update_self]
      by_cases hw : b / 32 = i / 32
      · rw [hw, Function.update_self, testBit_clear _ _ _ (Nat.mod_lt i (by decide)) (Nat.mod_lt b (by decide)),
          ← hw, h.bits b hb, Bool.and_assoc, ← Bool.decide_and]
        congr 1
        exact decide_eq_decide.mpr (by omega)
      · rw [Function.update_of_ne hw, h.bits b hb]
        congr 1
        exact decide_eq_decide.mpr (by omega)

/-- The loop of `finish_fs` only looks at the blocks. -/
theorem dumpBlocks_same {bad : Prop} {written : Nat → Bool} (hbad : ∀ b, written b = false → bad) (hn : n ≤ NBLOCK) :
    Runs (looseContract bad) (dumpBlocks written n) img () fun _ img' _ => img' = img := by
  unfold dumpBlocks
  refine .forM_range (fun _ img' _ => img' = img) n trivial rfl fun i hi img' _ _ h => ?_
  refine .bind_same (useBlock_run (Nat.lt_of_lt_of_le hi hn) img') ?_
  unfold assert
  exact .ite (fun _ => .pure trivial h) fun hnot => .of_error rfl (hbad i (Bool.eq_false_iff.mpr hnot))

theorem finishFs_run {written : Nat → Bool} (hrun : finishFs written img = .ok ((), img')) :
    img' = { img with block1 := ⟨img.sMagic, img.sNblocks, img.file .root⟩ } := by
  obtain ⟨img₁, hsuper⟩ : ∃ img₁ : Image,
      img₁ = { img with block1 := ⟨img.sMagic, img.sNblocks, img.file .root⟩ } := ⟨_, rfl⟩
  have hdump : dumpBlocks written 1024 img₁ = .ok ((), img') := by
    have hset : (modify fun img : Image =>
        { img with block1 := ⟨img.sMagic, img.sNblocks, img.file .root⟩ } : Tool PUnit) img =
        .ok ((), img₁) := by
      rw [hsuper]
      rfl
    unfold finishFs at hrun
    rw [run_bind (useBlock_run (by decide) img), run_bind hset] at hrun
    exact hrun
  obtain ⟨-, -, -, h⟩ := (dumpBlocks_same (fun _ _ => trivial) (Nat.le_refl NBLOCK)).ok hdump
  rw [h, hsuper]

/-- The arguments are written if they are there and fit. -/
theorem writeArgs_done : ∀ (args : List Arg) {img : Image} {j : Nat}, Room img →
    Directory img 3 .root (dirBlocks j) j → (∀ a ∈ args, ∃ g, a = .given g) → Fits (accepted args) img.nextbno j →
    ∃ img', writeArgs args img = .ok ((), img') ∧ Room img'
  | [], img, j, hr, _, _, _ => ⟨img, rfl, hr⟩
  | a :: args, img, j, hr, hd, hgiven, hfits => by
    obtain ⟨g, rfl⟩ := hgiven a List.mem_cons_self
    obtain ⟨hnode, hrest⟩ := fits_cons.mp hfits
    obtain ⟨_, img₁, hrun, hw⟩ := (writeNode_exactly g.node hr hd g.noNul g.named).run hnode
    rw [← hw.next] at hrest
    obtain ⟨img', hrun', hr'⟩ := writeArgs_done args hw.room hw.dir
      (fun a ha => hgiven a (List.mem_cons_of_mem _ ha)) hrest
    refine ⟨img', ?_, hr'⟩
    unfold writeArgs
    exact (run_bind hrun _).trans hrun'

/-- **The tool writes an image** of what fits, if the host takes all of it. -/
theorem fsformat_done {args : List Arg} (hne : args ≠ []) (hgiven : ∀ a ∈ args, ∃ g, a = .given g)
    (hfits : Fits (accepted args) 3 0) : ∃ img, fsformat args (fun _ => true) .zero = .ok ((), img) := by
  obtain ⟨img, hinit, hnext, hr, hd⟩ := initDisk_run
  obtain ⟨img₁, hwrite, hr₁⟩ := writeArgs_done args hr hd hgiven (hnext ▸ hfits)
  have hflush := flushBitmap_flushed False hr₁.high
  cases hrun : flushBitmap img₁ with
  | error e => exact (hflush.error hrun).elim
  | ok p =>
    obtain ⟨_, img₂⟩ := p
    obtain ⟨img₃, hsuper⟩ : ∃ img₃ : Image,
        img₃ = { img₂ with block1 := ⟨img₂.sMagic, img₂.sNblocks, img₂.file .root⟩ } := ⟨_, rfl⟩
    have hdump : Runs (looseContract False) (dumpBlocks (fun _ => true) NBLOCK) img₃ () fun _ img' _ => img' = img₃ :=
      dumpBlocks_same (fun _ h => nomatch h) (Nat.le_refl NBLOCK)
    cases hlast : dumpBlocks (fun _ => true) NBLOCK img₃ with
    | error e => exact (hdump.error hlast).elim
    | ok q =>
      obtain ⟨_, img'⟩ := q
      refine ⟨img', ?_⟩
      unfold fsformat
      rw [run_bind hinit, if_neg hne]
      show (writeArgs args >>= fun _ => flushBitmap >>= fun _ => finishFs fun _ => true) img = _
      rw [run_bind hwrite, run_bind hrun]
      unfold finishFs
      rw [run_bind (useBlock_run (by decide) img₂)]
      rw [hsuper] at hlast
      exact hlast

/-- The bitmap and the copy of the super block are no part of it. -/
theorem Tidy.congr (h : Tidy img use) (hnext : img'.nextbno = img.nextbno) (htype : img'.type = img.type)
    (hfile : img'.file = img.file) (hword : ∀ b, b ≠ 2 → img'.word b = img.word b) : Tidy img' use := by
  have hpoints : ∀ {c u}, Points img' use c u → Points img use c u := by
    intro c u hc
    cases hc with
    | direct hf hk =>
      rw [hfile]
      exact .direct hf hk
    | table hf =>
      rw [hfile]
      exact .table hf
    | entry hb hlo hhi => exact .entry hb hlo hhi
  have htable : ∀ {b d}, use b = some (.table d) → b ≠ 2 := by
    rintro b d hb rfl
    rw [h.bitmap.1] at hb
    cases hb
  have hcell : ∀ {c u}, Points img use c u → img'.cell c = img.cell c := by
    intro c u hc
    cases hc with
    | direct | table =>
      unfold Image.cell
      rw [hfile]
    | entry hb => exact congrFun (hword _ (htable hb)) _
  refine ⟨⟨hnext ▸ h.room.high, ?_, ?_⟩, hnext ▸ h.start, htype ▸ h.types, htype ▸ h.super,
    htype ▸ h.bitmap, h.boot, fun b hb => ?_, fun c u hc => ?_, fun c u c' u' hc hc' hne heq => ?_, ?_,
    fun f hf hdir => ?_, hfile ▸ h.kinds⟩
  · rw [hnext, hfile]
    exact h.room.fresh
  · rw [hfile]
    exact h.room.names
  · rw [hnext] at hb
    have hb2 : b ≠ 2 := by
      have := h.start
      omega
    rw [hword b hb2]
    exact h.new b hb
  · rw [hcell (hpoints hc)]
    exact h.names c u (hpoints hc)
  · rw [hcell (hpoints hc)] at hne heq
    rw [hcell (hpoints hc')] at heq
    exact h.once c u c' u' (hpoints hc) (hpoints hc') hne heq
  · rw [hfile]
    exact h.unused
  · rw [hfile] at hdir
    obtain ⟨n, hn, hsize, hfull⟩ := h.dirs f hf hdir
    refine ⟨n, hn, hfile ▸ hsize, fun i hi => ?_⟩
    obtain ⟨c, hplace, hne⟩ := hfull i hi
    have hplace' : img'.place f i = some c := by
      unfold Image.place at hplace ⊢
      rw [hfile]
      exact hplace
    have hc : ∃ u, Points img use c u := by
      unfold Image.place at hplace
      split_ifs at hplace with hdirect htab
      · cases hplace
        exact ⟨_, .direct hf hdirect⟩
      · cases hplace
        have hu := (h.names (.table f) _ (.table hf)).resolve_left htab
        exact ⟨_, .entry hu (Nat.not_lt.mp hdirect) (Nat.lt_of_lt_of_le hi hn)⟩
    obtain ⟨u, hc⟩ := hc
    exact ⟨c, hplace', (hcell hc).symm ▸ hne⟩

/-- **The run of the tool.** Whatever the arguments are, an image that is written is in order. -/
theorem fsformat_tidy {args : List Arg} {written : Nat → Bool}
    (hrun : fsformat args written .zero = .ok ((), img)) : ∃ use, Finished img use := by
  obtain ⟨img₀, hinit, h₀, hnumbers, hdir, hbits⟩ := initDisk_tidy
  unfold fsformat at hrun
  rw [run_bind hinit] at hrun
  by_cases hargs : args = []
  · rw [if_pos hargs] at hrun
    cases hrun
  rw [if_neg hargs] at hrun
  obtain ⟨_, img₁, hwrite, hrun⟩ := run_bind_eq_ok.mp hrun
  obtain ⟨_, img₂, hflush, hfinish⟩ := run_bind_eq_ok.mp hrun
  obtain ⟨use, h₁, hg, -⟩ := (writeArgs_tidy args h₀ hdir).ok hwrite
  obtain ⟨-, -, -, hf⟩ := (flushBitmap_flushed True h₁.room.high).ok hflush
  have himg := finishFs_run hfinish
  have hrest := hf.rest
  have hfile : img.file = img₁.file := by rw [himg, hrest]
  have hnext : img.nextbno = img₁.nextbno := by rw [himg, hrest]
  have hword : img.word = img₂.word := by rw [himg]
  refine ⟨use, h₁.congr hnext (by rw [himg, hrest]) hfile fun b hb => ?_, ?_, ?_, fun b hb => ?_⟩
  · rw [hword]
    exact hf.other b hb
  · rw [hfile, himg, hrest]
    exact congrArg₂ (fun a b => Super.mk a b (img₁.file .root)) (hg.numbers.1.trans hnumbers.1)
      (hg.numbers.2.trans hnumbers.2)
  · unfold File.isDir at hdir ⊢
    rw [hfile, (hg.files .root .root (Or.inl rfl)).2]
    exact hdir
  · rw [hword, hnext, hf.bits b hb, hg.bits, hbits b hb, Bool.true_and]

end Mos.Tools
