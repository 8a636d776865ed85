import Mos.Tools.FormatFits

/-!
# MOS on RISC-V — the tree in the image

What `fsformat` makes of the files and directories of the host: `listed` and `Entries.files` are the
files that a directory of the image gets, in order. `Stored` says that a file of the image is a
node of the host, down to the last file in it, with all of its blocks in a range.

The blocks of a directory are handed out one by one, between those of the trees that are written
into it. `Frame` says what such a tree costs the rest of the image: the directory that it goes into,
the files of it that are still to be used, the block with its numbers, and blocks that are new.

* `writeArgs_builds` — after the arguments have been written, the root has all of them, in order.
-/

namespace Mos.Tools

open Mos.Lib
open Mos.Fs (BY2BLK BIT2BLK NDIRECT NINDIRECT FILE2BLK MAXNAMELEN slash)

variable {img img' img'' : Image} {f g p : FilePtr} {b e i j j' j'' lo hi n B bno : Nat} {path name : List Nat}

-- ---------------------------------------------------------------------------
-- What one function changes
-- ---------------------------------------------------------------------------

/-- The file `p` may get blocks, from block `lo` on, and the block with its numbers may be written. -/
structure Only (lo : Nat) (p : FilePtr) (img img' : Image) : Prop where
  next : img.nextbno ≤ img'.nextbno
  file : ∀ g, g ≠ p → img'.file g = img.file g
  name : (img'.file p).fName = (img.file p).fName
  type : (img'.file p).fType = (img.file p).fType
  word : ∀ b, 0 < b → b ≠ (img'.file p).fIndirect → img'.word b = img.word b
  table : (img'.file p).fIndirect = (img.file p).fIndirect ∨
    (img.file p).fIndirect = 0 ∧ lo ≤ (img'.file p).fIndirect

namespace Only

theorem refl (lo : Nat) (p : FilePtr) (img : Image) : Only lo p img img :=
  ⟨Nat.le_refl _, fun _ _ => rfl, rfl, rfl, fun _ _ _ => rfl, Or.inl rfl⟩

theorem trans (h : Only lo p img img') (h' : Only lo p img' img'') : Only lo p img img'' where
  next := h.next.trans h'.next
  file g hg := (h'.file g hg).trans (h.file g hg)
  name := h'.name.trans h.name
  type := h'.type.trans h.type
  word b hpos hb := by
    refine (h'.word b hpos hb).trans (h.word b hpos ?_)
    rcases h'.table with ht | ⟨ht, -⟩
    · rw [← ht]
      exact hb
    · rw [ht]
      exact Nat.ne_of_gt hpos
  table := by
    have ht := h.table
    have ht' := h'.table
    omega

theorem taken (lo : Nat) (p : FilePtr) (img : Image) (type : Nat) : Only lo p img (img.taken type) :=
  ⟨Nat.le_succ _, fun _ _ => rfl, rfl, rfl, fun _ _ _ => rfl, Or.inl rfl⟩

/-- New fields of the file, other than its name and its type. -/
theorem put (img : Image) {F : File} (hname : F.fName = (img.file p).fName)
    (htype : F.fType = (img.file p).fType)
    (htable : F.fIndirect = (img.file p).fIndirect ∨ (img.file p).fIndirect = 0 ∧ lo ≤ F.fIndirect) :
    Only lo p img (img.put p F) := by
  have hself : (img.put p F).file p = F := img.put_self p F
  refine ⟨Nat.le_refl _, fun g hg => img.put_of_ne hg F, ?_, ?_, fun _ _ _ => rfl, ?_⟩
  · rw [hself, hname]
  · rw [hself, htype]
  · rw [hself]
    exact htable

end Only

def onlyContract (lo : Nat) (p : FilePtr) : Contract Image Unit Halt where
  inv img _ := lo ≤ img.nextbno
  moves img _ img' _ := Only lo p img img'
  allowed _ _ := True
  refl img _ := .refl lo p img
  trans h h' := h.trans h'
  back _ h := h

section

variable (hlo : lo ≤ img.nextbno)
include hlo

theorem nextBlock_only (p : FilePtr) (type : Nat) :
    Runs (onlyContract lo p) (nextBlock type) img () fun bno img' _ => bno = img.nextbno ∧ img' = img.taken type := by
  by_cases hn : img.nextbno < NBLOCK
  · obtain ⟨bno, img', hrun, rfl, rfl⟩ := (nextBlock_exactly type img).run hn
    exact .of_unit (C := onlyContract lo p) hrun (Nat.le_succ_of_le hlo) (.taken lo p img type) ⟨rfl, rfl⟩
  · obtain ⟨e, hrun, -⟩ := (nextBlock_exactly type img).stop hn
    exact .of_error hrun trivial

theorem useBlock_only (p : FilePtr) (n : Nat) :
    Runs (onlyContract lo p) (useBlock n) img () fun _ img' _ => img' = img := by
  unfold useBlock
  exact .ite (fun _ => .pure hlo rfl) fun _ => .of_error rfl trivial

theorem indexBlock_only (p : FilePtr) :
    Runs (onlyContract lo p) (indexBlock p) img () fun ind img' _ =>
      (img'.file p).fIndirect = ind ∧ (img'.file p).fSize = (img.file p).fSize := by
  unfold indexBlock
  refine .get_bind ?_
  by_cases h0 : (img.file p).fIndirect = 0
  · rw [if_pos h0]
    refine (nextBlock_only hlo p BLOCK_INDEX).bind ?_
    rintro bno img₁ _ hlo₁ - ⟨rfl, rfl⟩
    refine .of_unit (C := onlyContract lo p) rfl hlo₁
      (.put (img.taken BLOCK_INDEX) rfl rfl (Or.inr ⟨h0, hlo⟩)) ?_
    show (Function.update img.file p _ p).fIndirect = _ ∧ (Function.update img.file p _ p).fSize = _
    rw [Function.update_self]
    exact ⟨rfl, rfl⟩
  · rw [if_neg h0]
    exact .pure hlo ⟨rfl, rfl⟩

theorem saveBlockLink_only (p : FilePtr) (nblk bno : Nat) :
    Runs (onlyContract lo p) (saveBlockLink p nblk bno) img () fun _ img' _ =>
      (img'.file p).fSize = (img.file p).fSize := by
  unfold saveBlockLink assert
  refine Runs.bind (Q := fun _ img' _ => img' = img)
    (.ite (fun _ => .pure hlo rfl) fun _ => .of_error rfl trivial) ?_
  rintro - img₁ - - - rfl
  by_cases hd : nblk < NDIRECT
  · rw [if_pos hd]
    refine .of_unit (C := onlyContract lo p) rfl hlo (.put img₁ rfl rfl (Or.inl rfl)) ?_
    show (Function.update img₁.file p _ p).fSize = _
    rw [Function.update_self]
  · rw [if_neg hd]
    refine (indexBlock_only hlo p).bind ?_
    rintro ind img₂ _ hlo₂ - ⟨hind, hsize⟩
    refine (useBlock_only hlo₂ p ind).bind ?_
    rintro - _ - - - rfl
    refine .of_unit (C := onlyContract lo p) rfl hlo₂
      ⟨Nat.le_refl _, fun _ _ => rfl, rfl, rfl, fun b _ hb => Function.update_of_ne ?_ .., Or.inl rfl⟩ hsize
    rintro rfl
    exact hb hind.symm

theorem readBlocks_only (p : FilePtr) (n iblk : Nat) :
    Runs (onlyContract lo p) (readBlocks p n iblk) img () fun _ img' _ =>
      (img'.file p).fSize = (img.file p).fSize := by
  induction n generalizing img iblk with
  | zero =>
    refine .get_bind ((useBlock_only hlo p _).mono ?_)
    rintro - _ - - - rfl
    rfl
  | succ n ih =>
    unfold readBlocks
    refine .get_bind ((useBlock_only hlo p _).bind ?_)
    rintro - _ - - - rfl
    refine (nextBlock_only hlo p BLOCK_DATA).bind ?_
    rintro _ _ _ hlo₁ - ⟨rfl, rfl⟩
    refine (saveBlockLink_only hlo₁ p iblk _).bind ?_
    intro _ img₂ _ hlo₂ _ hsize
    exact (ih hlo₂ (iblk + 1)).mono fun _ _ _ _ _ h => h.trans hsize

theorem makeLinkBlock_only (p : FilePtr) (nblk : Nat) :
    Runs (onlyContract lo p) (makeLinkBlock p nblk) img () fun _ _ _ => True := by
  unfold makeLinkBlock
  refine (nextBlock_only hlo p BLOCK_FILE).bind ?_
  rintro _ _ _ hlo₁ - ⟨rfl, rfl⟩
  refine (saveBlockLink_only hlo₁ p nblk _).bind ?_
  intro _ img₂ _ hlo₂ _ _
  exact .of_unit (C := onlyContract lo p) rfl hlo₂
    (.put img₂ (File.grown_fName _) (by simp only [File.grown]) (Or.inl (File.grown_fIndirect _))) trivial

end

/-- `make_link_block` keeps the blocks of the directory and gives it a new one. -/
theorem makeLinkBlock_links (h : Directory img B p n j) (hr : Room img)
    (hrun : makeLinkBlock p n img = .ok (bno, img')) :
    (∀ i < n, img'.link p i = img.link p i) ∧ img'.link p n = img.nextbno := by
  have hB : B ≤ img.nextbno := Nat.le_trans (Nat.le_add_right ..) h.count
  have hbig : NINDIRECT = NBLOCK := rfl
  have hcount := h.count
  have hpos := h.start
  unfold makeLinkBlock at hrun
  obtain ⟨_, img₁, hnext, hrun⟩ := run_bind_eq_ok.mp hrun
  obtain ⟨_, img₂, hsave, hrun⟩ := run_bind_eq_ok.mp hrun
  obtain ⟨_, img₃, hgrow, hrun⟩ := run_bind_eq_ok.mp hrun
  obtain ⟨-, rfl⟩ := run_pure_eq_ok.mp hrun
  have htaken := (nextBlock_exactly BLOCK_FILE img).ok hnext
  obtain ⟨rfl, rfl⟩ := htaken
  have hlt : img.nextbno < NBLOCK := by
    by_contra hn
    obtain ⟨e, hstop, -⟩ := (nextBlock_exactly BLOCK_FILE img).stop hn
    cases hstop.symm.trans hnext
  have hl := (saveBlockLink_exactly (hr.taken hlt BLOCK_FILE) h.start (Nat.le_succ_of_le hB) (h.table.taken _)
    (by omega) img.nextbno).ok hsave
  obtain ⟨-, rfl⟩ := Prod.mk.inj (Except.ok.inj ((setFile_run p File.grown img₂).symm.trans hgrow))
  have hput : ∀ i, (img₂.put p (img₂.file p).grown).link p i = img₂.link p i :=
    Image.put_link (File.grown_fDirect _) (File.grown_fIndirect _)
  refine ⟨fun i hi => (hput i).trans (hl.link i hi), (hput n).trans hl.last⟩

/-- What `create_file` leaves: the blocks of the directory are kept, and a new one is past the others. -/
structure Created (p : FilePtr) (j : Nat) (f : FilePtr) (img img' : Image) : Prop where
  entry : f = img'.entry p j
  only : Only img.nextbno p img img'
  link : ∀ i < dirBlocks j, img'.link p i = img.link p i
  fresh : ∀ i, dirBlocks j ≤ i → i < dirBlocks (j + 1) → img.nextbno ≤ img'.link p i

theorem createFile_created (h : Directory img B p (dirBlocks j) j) (hr : Room img)
    (hrun : createFile p img = .ok (f, img')) : Created p j f img img' := by
  have hentry := ((createFile_exactly h hr).ok hrun).1
  have hnblk : (img.file p).fSize / BY2BLK = dirBlocks j := by
    rw [h.size, Nat.mul_div_cancel_left _ (by decide)]
  have hle := le_dirBlocks j
  have hfind := h.findUnused_run hr hle (dirBlocks j) 0 (Nat.zero_add _) (Nat.zero_le _)
  unfold createFile at hrun
  rw [run_get, hnblk, run_bind hfind] at hrun
  by_cases hlt : j < FILE2BLK * dirBlocks j
  · rw [if_pos hlt] at hrun
    obtain ⟨-, rfl⟩ := run_pure_eq_ok.mp hrun
    refine ⟨hentry, .refl _ p img, fun _ _ => rfl, fun i hi hi' => ?_⟩
    rw [(dirBlocks_of_lt hlt).2] at hi'
    omega
  · rw [if_neg hlt] at hrun
    obtain ⟨bno, img₁, hmake, hrun⟩ := run_bind_eq_ok.mp hrun
    obtain ⟨_, img₂, huse, hrun⟩ := run_bind_eq_ok.mp hrun
    obtain rfl := (useBlock_exactly bno img₁).ok huse
    obtain ⟨-, rfl⟩ := run_pure_eq_ok.mp hrun
    obtain ⟨_, -, honly, -⟩ := (makeLinkBlock_only (Nat.le_refl img.nextbno) p (dirBlocks j)).ok hmake
    obtain ⟨hlink, hlast⟩ := makeLinkBlock_links h hr hmake
    refine ⟨hentry, honly, hlink, fun i hi hi' => ?_⟩
    rw [(dirBlocks_of_full hlt).2.2] at hi'
    obtain rfl : i = dirBlocks j := by omega
    exact Nat.le_of_eq hlast.symm

-- ---------------------------------------------------------------------------
-- What a tree costs the rest of the image
-- ---------------------------------------------------------------------------

theorem dirBlocks_mono (h : j ≤ j') : dirBlocks j ≤ dirBlocks j' :=
  Nat.div_le_div_right (by omega)

theorem div_lt_dirBlocks (h : e < j) : e / FILE2BLK < dirBlocks j :=
  Nat.div_lt_of_lt_mul (Nat.lt_of_lt_of_le h (le_dirBlocks j))

/-- From file `j` of the directory `p` on, files have been written, the last before `j'`. -/
structure Frame (p : FilePtr) (j j' : Nat) (img img' : Image) : Prop where
  next : img.nextbno ≤ img'.nextbno
  file : ∀ g, g.below img.nextbno → g ≠ p → (∀ e, j ≤ e → e < j' → g ≠ img'.entry p e) →
    img'.file g = img.file g
  name : (img'.file p).fName = (img.file p).fName
  type : (img'.file p).fType = (img.file p).fType
  word : ∀ b, 0 < b → b < img.nextbno → b ≠ (img'.file p).fIndirect → img'.word b = img.word b
  table : (img'.file p).fIndirect = (img.file p).fIndirect ∨
    (img.file p).fIndirect = 0 ∧ img.nextbno ≤ (img'.file p).fIndirect
  link : ∀ i < dirBlocks j, img'.link p i = img.link p i
  fresh : ∀ i, dirBlocks j ≤ i → i < dirBlocks j' → img.nextbno ≤ img'.link p i

namespace Frame

theorem refl (p : FilePtr) (j : Nat) (img : Image) : Frame p j j img img where
  next := Nat.le_refl _
  file _ _ _ _ := rfl
  name := rfl
  type := rfl
  word _ _ _ _ := rfl
  table := Or.inl rfl
  link _ _ := rfl
  fresh _ hi hi' := absurd hi' (Nat.not_lt.mpr hi)

/-- The files written before are where they were. -/
theorem entry (h : Frame p j j' img img') (he : e < j) : img'.entry p e = img.entry p e := by
  unfold Image.entry
  rw [h.link _ (div_lt_dirBlocks he)]

theorem trans (h : Frame p j j' img img') (h' : Frame p j' j'' img' img'') (hj : j ≤ j') (hj' : j' ≤ j'') :
    Frame p j j'' img img'' where
  next := h.next.trans h'.next
  file g hg hgp hne := by
    refine (h'.file g (hg.mono h.next) hgp fun e hlo hhi => hne e (hj.trans hlo) hhi).trans
      (h.file g hg hgp fun e hlo hhi => ?_)
    rw [← h'.entry hhi]
    exact hne e hlo (Nat.lt_of_lt_of_le hhi hj')
  name := h'.name.trans h.name
  type := h'.type.trans h.type
  word b hpos hb hne := by
    refine (h'.word b hpos (Nat.lt_of_lt_of_le hb h.next) hne).trans (h.word b hpos hb ?_)
    rcases h'.table with ht | ⟨ht, -⟩
    · rw [← ht]
      exact hne
    · rw [ht]
      exact Nat.ne_of_gt hpos
  table := by
    have hnext := h.next
    have ht := h.table
    have ht' := h'.table
    omega
  link i hi := (h'.link i (Nat.lt_of_lt_of_le hi (dirBlocks_mono hj))).trans (h.link i hi)
  fresh i hi hi' := by
    by_cases hlt : i < dirBlocks j'
    · rw [h'.link i hlt]
      exact h.fresh i hi hlt
    · exact h.next.trans (h'.fresh i (Nat.not_lt.mp hlt) hi')

/-- A file that only gets blocks. -/
theorem of_only (h : Only img.nextbno f img img') : Frame f 0 0 img img' where
  next := h.next
  file g _ hg _ := h.file g hg
  name := h.name
  type := h.type
  word b hpos _ hb := h.word b hpos hb
  table := h.table
  link i hi := absurd hi (Nat.not_lt_zero i)
  fresh i _ hi := absurd hi (Nat.not_lt_zero i)

/-- The files of a new directory are in new blocks. -/
theorem new_entry (h : Frame f 0 n img img') (he : e < n) : ¬ (img'.entry f e).below img.nextbno :=
  Nat.not_lt.mpr (h.fresh _ (Nat.zero_le _) (div_lt_dirBlocks he))

end Frame

/-- File `j` of a directory is put to use. -/
theorem Created.frame (h : Created p j f img img') (hd : Directory img' B p (dirBlocks (j + 1)) j) (F : File) :
    Frame p j (j + 1) img (img'.put f F) := by
  have hne : f ≠ p := h.entry ▸ hd.entry_ne (le_dirBlocks (j + 1))
  have hp : (img'.put f F).file p = img'.file p := img'.put_of_ne (Ne.symm hne) F
  have hlink := img'.put_link_of_ne hne F
  refine ⟨h.only.next, fun g _ hgp hg => ?_, ?_, ?_, fun b hpos _ hb => ?_, ?_, fun i hi => ?_, fun i hi hi' => ?_⟩
  · have hgf : g ≠ f := by
      have hlast := hg j (Nat.le_refl j) (Nat.lt_succ_self j)
      rw [img'.put_entry_of_ne hne, ← h.entry] at hlast
      exact hlast
    exact (img'.put_of_ne hgf F).trans (h.only.file g hgp)
  · rw [hp, h.only.name]
  · rw [hp, h.only.type]
  · rw [hp] at hb
    exact h.only.word b hpos hb
  · rw [hp]
    exact h.only.table
  · rw [hlink, h.link i hi]
  · rw [hlink]
    exact h.fresh i hi hi'

section

variable {img₁ : Image} (h : Frame p j (j + 1) img img₁) (hd : Directory img₁ B p (dirBlocks (j + 1)) (j + 1))
  (hB : B ≤ img.nextbno) (hind : (img₁.file (img₁.entry p j)).fIndirect = 0)
  (h' : Frame (img₁.entry p j) 0 n img₁ img')
include h hd hB hind h'

/-- What is written into a new file or directory is nothing to the one that it is in. -/
theorem Frame.outer : img'.file p = img₁.file p ∧ ∀ i < dirBlocks (j + 1), img'.link p i = img₁.link p i := by
  have hne : img₁.entry p j ≠ p := hd.entry_ne (le_dirBlocks (j + 1))
  have hplace : p.below img₁.nextbno := hd.place.mono (hB.trans h.next)
  have hp : img'.file p = img₁.file p :=
    h'.file p hplace (Ne.symm hne) fun e _ he heq => h'.new_entry he (heq ▸ hplace)
  refine ⟨hp, fun i hi => ?_⟩
  unfold Image.link
  rw [hp]
  split_ifs with hd'
  · rfl
  · have ht := hd.table
    unfold HasTable at ht
    rw [if_neg (by omega)] at ht
    have htable := h'.table
    have hpos := hd.start
    rw [h'.word _ (by omega) ht.2 (by omega)]

theorem Frame.inner : Frame p j (j + 1) img img' := by
  obtain ⟨hp, hlink⟩ := h.outer hd hB hind h'
  have hentry : img'.entry p j = img₁.entry p j :=
    congrArg (FilePtr.slot · _) (hlink _ (div_lt_dirBlocks (Nat.lt_succ_self j)))
  refine ⟨h.next.trans h'.next, fun g hg hgp hne => ?_, ?_, ?_, fun b hpos hb hne => ?_, ?_, fun i hi => ?_,
    fun i hi hi' => ?_⟩
  · have hlast := hne j (Nat.le_refl j) (Nat.lt_succ_self j)
    rw [hentry] at hlast
    refine (h'.file g (hg.mono h.next) hlast fun e _ he heq => ?_).trans (h.file g hg hgp fun e hlo hhi => ?_)
    · exact h'.new_entry he (heq ▸ hg.mono h.next)
    · obtain rfl : e = j := by omega
      exact hlast
  · rw [hp, h.name]
  · rw [hp, h.type]
  · rw [hp] at hne
    have htable := h'.table
    have hnext := h.next
    rw [h'.word b hpos (Nat.lt_of_lt_of_le hb h.next) (by omega), h.word b hpos hb hne]
  · rw [hp]
    exact h.table
  · rw [hlink i (Nat.lt_of_lt_of_le hi (dirBlocks_mono (Nat.le_succ j))), h.link i hi]
  · rw [hlink i hi']
    exact h.fresh i hi hi'

end

-- ---------------------------------------------------------------------------
-- The files of a directory
-- ---------------------------------------------------------------------------

/-- The file that a node becomes, with its name: a directory's is cut to length. -/
def Node.listed (path : List Nat) : Node → List (List Nat × Node)
  | .file g => [(afterSlash path, .file g)]
  | .locked => []
  | .dir entries => [((basename path).take (MAXNAMELEN - 1), .dir entries)]

/-- The files of a directory of the host. -/
def Entries.files : Entries → List (List Nat × Node)
  | .nil => []
  | .cons name node rest => if name.isDot then rest.files else node.listed name.bytes ++ rest.files

theorem listed_length (path : List Nat) (node : Node) : (node.listed path).length = node.slots := by
  cases node <;> rfl

theorem afterSlash_self (h : slash ∉ name) : afterSlash name = name := by
  unfold afterSlash
  rw [List.rtakeWhile_eq_self_iff]
  intro b hb
  rw [decide_eq_true_eq]
  rintro rfl
  exact h hb

theorem basename_append (hs : slash ∉ name) (hne : name ≠ []) (path : List Nat) :
    basename (path ++ slash :: name) = name := by
  have hcut : (path ++ slash :: name).rdropWhile (· = slash) = path ++ slash :: name := by
    rw [List.rdropWhile_eq_self_iff]
    intro hp hlast
    rw [decide_eq_true_eq] at hlast
    have hmem : (path ++ slash :: name).getLast hp = name.getLast hne := by
      rw [List.getLast_append_of_ne_nil _ (List.cons_ne_nil _ _), List.getLast_cons hne]
    exact hs (hlast ▸ hmem ▸ List.getLast_mem hne)
  have hnil : path ++ slash :: name ≠ [] := by simp
  unfold basename
  rw [if_neg hnil]
  dsimp only
  rw [hcut, if_neg hnil, afterSlash_append hs]

theorem basename_self (hs : slash ∉ name) (hne : name ≠ []) : basename name = name := by
  have hcut : name.rdropWhile (· = slash) = name := by
    rw [List.rdropWhile_eq_self_iff]
    intro hp hlast
    rw [decide_eq_true_eq] at hlast
    exact hs (hlast ▸ List.getLast_mem hp)
  unfold basename
  rw [if_neg hne]
  dsimp only
  rw [hcut, if_neg hne, afterSlash_self hs]

/-- The path to a name is no part of it. -/
theorem listed_append (name : Name) (path : List Nat) (node : Node) :
    node.listed (path ++ slash :: name.bytes) = node.listed name.bytes := by
  cases node with
  | locked => rfl
  | file g =>
    unfold Node.listed
    rw [afterSlash_append name.noSlash, afterSlash_self name.noSlash]
  | dir entries =>
    unfold Node.listed
    rw [basename_append name.noSlash name.nonempty, basename_self name.noSlash name.nonempty]

/-- `f_name`, with zeros to its end. -/
def HasName (F : File) (name : List Nat) : Prop := ∀ m, F.fName m = name.getD m 0

theorem strcpy_hasName {F : File} (hzero : F = .zero) (name : List Nat) : HasName (F.strcpy name) name := by
  intro m
  rw [hzero]
  simp only [File.strcpy]
  split_ifs with hm
  · rfl
  · rw [List.getD_eq_default _ _ (by omega)]
    rfl

theorem strncpy_hasName {F : File} (hzero : F = .zero) (name : List Nat) (n : Nat) :
    HasName (F.strncpy name n) (name.take n) := by
  intro m
  rw [hzero]
  simp only [File.strncpy]
  split_ifs with hm
  · rw [List.getD_eq_getElem?_getD, List.getD_eq_getElem?_getD, List.getElem?_take_of_lt hm]
  · rw [List.getD_eq_default _ _ ((List.length_take_le n name).trans (Nat.not_lt.mp hm))]
    rfl

-- ---------------------------------------------------------------------------
-- A node in the image
-- ---------------------------------------------------------------------------

/-- The first `n` blocks of a file, and the block with their numbers, are in a range. -/
structure Extent (img : Image) (lo hi : Nat) (f : FilePtr) (n : Nat) : Prop where
  few : n ≤ NINDIRECT
  link : ∀ i < n, lo ≤ img.link f i ∧ img.link f i < hi
  table : NDIRECT < n → lo ≤ (img.file f).fIndirect ∧ (img.file f).fIndirect < hi

/-- The file is the node of the host, and what is in it is in the blocks of a range. -/
inductive Stored (img : Image) (lo hi : Nat) : Node → FilePtr → Prop where
  | file {g : HostFile} {f : FilePtr} (htype : (img.file f).fType = FTYPE_REG)
      (hsize : (img.file f).fSize = g.size % 2 ^ 32) (hblocks : Extent img lo hi f g.reads) : Stored img lo hi (.file g) f
  | dir {entries : Entries} {f : FilePtr} (htype : (img.file f).fType = FTYPE_DIR)
      (hsize : (img.file f).fSize = BY2BLK * dirBlocks entries.files.length)
      (hblocks : Extent img lo hi f (dirBlocks entries.files.length))
      (hfree : ∀ e, entries.files.length ≤ e → e < FILE2BLK * dirBlocks entries.files.length →
        img.file (img.entry f e) = .zero)
      (hnames : ∀ (e : Nat) (x : List Nat × Node), entries.files[e]? = some x → HasName (img.file (img.entry f e)) x.1)
      (hfiles : ∀ (e : Nat) (x : List Nat × Node), entries.files[e]? = some x → Stored img lo hi x.2 (img.entry f e)) :
      Stored img lo hi (.dir entries) f

/-- The files and the words of a range of blocks are the same. -/
structure SameBlocks (lo hi : Nat) (img img' : Image) : Prop where
  word : ∀ b, lo ≤ b → b < hi → img'.word b = img.word b
  file : ∀ b k, lo ≤ b → b < hi → img'.file (.slot b k) = img.file (.slot b k)

section

variable (h : SameBlocks lo hi img img') (hf : img'.file f = img.file f)
include h hf

theorem Extent.link_congr (he : Extent img lo hi f n) (hi : i < n) : img'.link f i = img.link f i := by
  unfold Image.link
  rw [hf]
  split_ifs with hd
  · rfl
  · obtain ⟨hlo, hhi⟩ := he.table (by omega)
    rw [h.word _ hlo hhi]

theorem Extent.congr (he : Extent img lo hi f n) : Extent img' lo hi f n := by
  refine ⟨he.few, fun i hi => ?_, ?_⟩
  · rw [he.link_congr h hf hi]
    exact he.link i hi
  · rw [hf]
    exact he.table

end

/-- **A node stays where it is** as long as its blocks stay. -/
theorem Stored.congr {node : Node} (hs : Stored img lo hi node f) (h : SameBlocks lo hi img img')
    (hf : img'.file f = img.file f) : Stored img' lo hi node f := by
  induction hs with
  | file htype hsize hblocks =>
    refine .file ?_ ?_ (hblocks.congr h hf)
    · rw [hf, htype]
    · rw [hf, hsize]
  | @dir entries f htype hsize hblocks hfree hnames hfiles ih =>
    have hentry : ∀ e, e < FILE2BLK * dirBlocks entries.files.length → img'.entry f e = img.entry f e ∧
        img'.file (img.entry f e) = img.file (img.entry f e) := by
      intro e he
      have hdiv := Nat.div_lt_of_lt_mul he
      refine ⟨congrArg (FilePtr.slot · _) (hblocks.link_congr h hf hdiv), ?_⟩
      exact h.file _ _ (hblocks.link _ hdiv).1 (hblocks.link _ hdiv).2
    have hlt : ∀ (e : Nat) (x : List Nat × Node), entries.files[e]? = some x →
        e < FILE2BLK * dirBlocks entries.files.length := fun e x hx =>
      Nat.lt_of_lt_of_le (List.getElem?_eq_some_iff.mp hx).1 (le_dirBlocks _)
    refine .dir ?_ ?_ (hblocks.congr h hf) (fun e hlo he => ?_) (fun e x hx => ?_) fun e x hx => ?_
    · rw [hf, htype]
    · rw [hf, hsize]
    · obtain ⟨hsame, hfile⟩ := hentry e he
      rw [hsame, hfile, hfree e hlo he]
    · obtain ⟨hsame, hfile⟩ := hentry e (hlt e x hx)
      rw [hsame, hfile]
      exact hnames e x hx
    · obtain ⟨hsame, hfile⟩ := hentry e (hlt e x hx)
      rw [hsame]
      exact ih e x hx hfile

theorem Stored.mono {lo' hi' : Nat} {node : Node} (hs : Stored img lo' hi' node f) (hlo : lo ≤ lo') (hhi : hi' ≤ hi) :
    Stored img lo hi node f := by
  have hext : ∀ {f n}, Extent img lo' hi' f n → Extent img lo hi f n := fun he =>
    ⟨he.few, fun i hi => ⟨hlo.trans (he.link i hi).1, Nat.lt_of_lt_of_le (he.link i hi).2 hhi⟩,
      fun hn => ⟨hlo.trans (he.table hn).1, Nat.lt_of_lt_of_le (he.table hn).2 hhi⟩⟩
  induction hs with
  | file htype hsize hblocks => exact .file htype hsize (hext hblocks)
  | dir htype hsize hblocks hfree hnames hfiles ih => exact .dir htype hsize (hext hblocks) hfree hnames ih

-- ---------------------------------------------------------------------------
-- A directory that is being written
-- ---------------------------------------------------------------------------

/-- The blocks of a directory are not in the range. -/
structure Outside (img : Image) (p : FilePtr) (n lo hi : Nat) : Prop where
  link : ∀ i < n, img.link p i < lo ∨ hi ≤ img.link p i
  table : (img.file p).fIndirect < lo ∨ hi ≤ (img.file p).fIndirect

/-- File `e` of the directory `p` has the name of the node, and is the node, in blocks from `B` on that are
none of the directory. -/
def Holds (img : Image) (B : Nat) (p : FilePtr) (n e : Nat) (x : List Nat × Node) : Prop :=
  HasName (img.file (img.entry p e)) x.1 ∧
    ∃ lo hi, B ≤ lo ∧ hi ≤ img.nextbno ∧ Stored img lo hi x.2 (img.entry p e) ∧ Outside img p n lo hi

/-- A directory with its files so far. -/
structure Building (img : Image) (B : Nat) (p : FilePtr) (files : List (List Nat × Node)) : Prop where
  room : Room img
  dir : Directory img B p (dirBlocks files.length) files.length
  files : ∀ (e : Nat) (x : List Nat × Node), files[e]? = some x → Holds img B p (dirBlocks files.length) e x

theorem Outside.step (h : Outside img p (dirBlocks j) lo hi) (hhi : hi ≤ img.nextbno) (hf : Frame p j j' img img') :
    Outside img' p (dirBlocks j') lo hi := by
  refine ⟨fun i hlt => ?_, ?_⟩
  · by_cases hold : i < dirBlocks j
    · rw [hf.link i hold]
      exact h.link i hold
    · exact Or.inr (hhi.trans (hf.fresh i (Nat.not_lt.mp hold) hlt))
  · have htable := h.table
    have hstep := hf.table
    omega

/-- **What is in a directory stays in it** while more is written. -/
theorem Building.keep {files : List (List Nat × Node)} (h : Building img B p files)
    (hf : Frame p files.length j' img img') (hd : Directory img' B p (dirBlocks j') j') (hj : files.length ≤ j')
    {x : List Nat × Node} (hx : files[e]? = some x) : Holds img' B p (dirBlocks j') e x := by
  have he : e < files.length := (List.getElem?_eq_some_iff.mp hx).1
  have hentry : img'.entry p e = img.entry p e := hf.entry he
  have hlt : e < FILE2BLK * dirBlocks j' := Nat.lt_of_lt_of_le (Nat.lt_of_lt_of_le he hj) (le_dirBlocks j')
  have hfile : img'.file (img.entry p e) = img.file (img.entry p e) := by
    refine hf.file _ (h.dir.entry_below (Nat.lt_of_lt_of_le he (le_dirBlocks _)))
      (h.dir.entry_ne (Nat.lt_of_lt_of_le he (le_dirBlocks _))) fun e' hlo hhi heq => ?_
    rw [← hentry] at heq
    have hsame := hd.entry_inj hlt (Nat.lt_of_lt_of_le hhi (le_dirBlocks j')) heq
    omega
  obtain ⟨hname, lo, hi, hlo, hhi, hstored, hout⟩ := h.files e x hx
  unfold Holds
  rw [hentry]
  have hout' := hout.step hhi hf
  refine ⟨hfile ▸ hname, lo, hi, hlo, hhi.trans hf.next, hstored.congr ⟨fun b hb hb' => ?_, fun b k hb hb' => ?_⟩ hfile,
    hout'⟩
  · refine hf.word b (by have := h.dir.start; omega) (Nat.lt_of_lt_of_le hb' hhi) ?_
    rintro rfl
    have htable := hout'.table
    omega
  · refine hf.file _ (Nat.lt_of_lt_of_le hb' hhi) ?_ fun e' _ he' heq => ?_
    · rintro rfl
      have hplace : b < B := h.dir.place
      omega
    · have hblock : b = img'.link p (e' / FILE2BLK) := (FilePtr.slot.inj heq).1
      have hlink := hout'.link _ (div_lt_dirBlocks he')
      omega

/-- The next file has been written. -/
theorem Building.snoc {files : List (List Nat × Node)} {x : List Nat × Node} (h : Building img B p files)
    (hf : Frame p files.length (files.length + 1) img img') (hr : Room img')
    (hd : Directory img' B p (dirBlocks (files.length + 1)) (files.length + 1))
    (hx : Holds img' B p (dirBlocks (files.length + 1)) files.length x) : Building img' B p (files ++ [x]) := by
  have hlen : (files ++ [x]).length = files.length + 1 := by simp
  refine ⟨hr, ?_, fun e y hy => ?_⟩
  · rw [hlen]
    exact hd
  · rw [hlen]
    by_cases he : e < files.length
    · rw [List.getElem?_append_left he] at hy
      exact h.keep hf hd (Nat.le_succ _) hy
    · rw [List.getElem?_append_right (Nat.not_lt.mp he)] at hy
      obtain ⟨hlt, rfl⟩ := List.getElem?_eq_some_iff.mp hy
      obtain rfl : e = files.length := by
        have h1 : e - files.length < 1 := hlt
        omega
      simpa using hx

theorem Building.extent {files : List (List Nat × Node)} (h : Building img B f files) :
    Extent img B img.nextbno f (dirBlocks files.length) := by
  refine ⟨?_, h.dir.link, fun hn => ?_⟩
  · have hbig : NINDIRECT = NBLOCK := rfl
    have hcount := h.dir.count
    have hhigh := h.room.high
    omega
  · have htable := h.dir.table
    unfold HasTable at htable
    rw [if_neg (by omega)] at htable
    exact htable

/-- A directory that has been written is a node of the host. -/
theorem Building.stored {entries : Entries} (h : Building img B f entries.files) (htype : (img.file f).fType = FTYPE_DIR) :
    Stored img B img.nextbno (.dir entries) f := by
  refine .dir htype h.dir.size h.extent h.dir.free (fun e x hx => (h.files e x hx).1) fun e x hx => ?_
  obtain ⟨-, lo, hi, hlo, hhi, hstored, -⟩ := h.files e x hx
  exact hstored.mono hlo hhi

/-- The loop of `write_file` gives the file its blocks, one after the other. -/
theorem readBlocks_extent (hr : Room img) (hpos : 0 < B) (hf : f.below B) (hB : B + i ≤ img.nextbno)
    (ht : HasTable img B f i) (hlink : ∀ k < i, B ≤ img.link f k ∧ img.link f k < img.nextbno)
    (hrun : readBlocks f n i img = .ok ((), img')) : Extent img' B img'.nextbno f (i + n) := by
  induction n generalizing img i with
  | zero =>
    obtain rfl : img = img' := by
      unfold readBlocks at hrun
      rw [run_get] at hrun
      exact (useBlock_exactly img.nextbno img).ok hrun
    have hbig : NINDIRECT = NBLOCK := rfl
    have hhigh := hr.high
    unfold HasTable at ht
    refine ⟨by omega, hlink, fun hn => ?_⟩
    rw [if_neg (by omega)] at ht
    exact ht
  | succ n ih =>
    unfold readBlocks at hrun
    rw [run_get] at hrun
    obtain ⟨_, img₁, huse, hrun⟩ := run_bind_eq_ok.mp hrun
    obtain rfl := (useBlock_exactly img.nextbno img).ok huse
    obtain ⟨bno, img₁, hnext, hrun⟩ := run_bind_eq_ok.mp hrun
    obtain ⟨_, img₂, hsave, hrest⟩ := run_bind_eq_ok.mp hrun
    have hlt : img.nextbno < NBLOCK := by
      by_contra hn
      obtain ⟨e, hstop, -⟩ := (nextBlock_exactly BLOCK_DATA img).stop hn
      cases hstop.symm.trans hnext
    obtain ⟨rfl, rfl⟩ := (nextBlock_exactly BLOCK_DATA img).ok hnext
    have hr₁ := hr.taken hlt BLOCK_DATA
    have hB₁ : B ≤ (img.taken BLOCK_DATA).nextbno := Nat.le_succ_of_le (Nat.le_trans (Nat.le_add_right ..) hB)
    have hi : i < NINDIRECT := by
      have hbig : NINDIRECT = NBLOCK := rfl
      omega
    have hl := (saveBlockLink_exactly hr₁ hpos hB₁ (ht.taken _) hi img.nextbno).ok hsave
    have hgrow : img.nextbno + 1 ≤ img₂.nextbno := hl.next ▸ Nat.le_add_right ..
    have hsum : i + (n + 1) = i + 1 + n := by omega
    rw [hsum]
    refine ih (hr₁.linked hl (hf.mono hB₁)) (by omega) hl.table (fun k hk => ?_) hrest
    rcases Nat.lt_succ_iff_lt_or_eq.mp hk with hk | rfl
    · have hold : (img.taken BLOCK_DATA).link f k = img.link f k := rfl
      have hrange := hlink k hk
      rw [hl.link k hk, hold]
      omega
    · rw [hl.last]
      omega

-- ---------------------------------------------------------------------------
-- Files and directories
-- ---------------------------------------------------------------------------

/-- A file or directory with its name, and with what has been written into it. -/
theorem Building.add {files : List (List Nat × Node)} {img₁ : Image} {node : Node} (h : Building img B p files)
    (hframe : Frame p files.length (files.length + 1) img img₁)
    (hd : Directory img₁ B p (dirBlocks (files.length + 1)) (files.length + 1)) (hf : f = img₁.entry p files.length)
    (hind : (img₁.file f).fIndirect = 0) (hname : HasName (img₁.file f) name) (hinner : Frame f 0 n img₁ img')
    (hr : Room img') (hd' : Directory img' B p (dirBlocks (files.length + 1)) (files.length + 1))
    (hstored : Stored img' img₁.nextbno img'.nextbno node f) :
    Building img' B p (files ++ [(name, node)]) ∧ Frame p files.length (files.length + 1) img img' := by
  have hB : B ≤ img.nextbno := Nat.le_trans (Nat.le_add_right ..) h.dir.count
  rw [hf] at hind hinner
  obtain ⟨hp, hlink⟩ := hframe.outer hd hB hind hinner
  have hall := hframe.inner hd hB hind hinner
  have hentry : img'.entry p files.length = f := by
    rw [hf]
    exact congrArg (FilePtr.slot · _) (hlink _ (div_lt_dirBlocks (Nat.lt_succ_self _)))
  rw [← hf] at hinner
  refine ⟨h.snoc hall hr hd' ⟨?_, img₁.nextbno, img'.nextbno, hB.trans hframe.next, Nat.le_refl _, ?_, ?_⟩, hall⟩
  · rw [hentry]
    unfold HasName
    rw [hinner.name]
    exact hname
  · rw [hentry]
    exact hstored
  · refine ⟨fun i hi => ?_, ?_⟩
    · rw [hlink i hi]
      exact Or.inl (hd.link i hi).2
    · have htable := hd.table
      have hstart := hd.start
      have hcount := hd.count
      unfold HasTable at htable
      rw [hp]
      split_ifs at htable <;> omega

theorem writeFile_builds {files : List (List Nat × Node)} {g : HostFile} (h : Building img B p files) (hnul : 0 ∉ path)
    (hname : afterSlash path ≠ []) (hrun : writeFile p path g img = .ok ((), img')) :
    Building img' B p (files ++ [(afterSlash path, .file g)]) ∧ Frame p files.length (files.length + 1) img img' := by
  have hw := (writeFile_exactly h.room h.dir hnul hname g).ok hrun
  unfold writeFile at hrun
  obtain ⟨f, img₁, hcreate, hrun₁⟩ := run_bind_eq_ok.mp hrun
  obtain ⟨_, img₂, hcopy, hrun₂⟩ := run_bind_eq_ok.mp hrun₁
  obtain ⟨_, img₃, hset, hread⟩ := run_bind_eq_ok.mp hrun₂
  obtain ⟨hf, -, hr₁, -, hd₁⟩ := (createFile_exactly h.dir h.room).ok hcreate
  have hcreated := createFile_created h.dir h.room hcreate
  have hzero := createFile_zero hf hd₁
  have hlen : (afterSlash path).length < MAXNAMELEN := by
    by_contra hn
    unfold strcpyName at hcopy
    rw [if_neg hn] at hcopy
    cases hcopy
  have hput : img₂ = img₁.put f ((img₁.file f).strcpy (afterSlash path)) := by
    unfold strcpyName at hcopy
    rw [if_pos hlen, setFile_run] at hcopy
    exact (Prod.mk.inj (Except.ok.inj hcopy)).2.symm
  obtain ⟨F, hF⟩ : ∃ F, F = ((img₁.file f).strcpy (afterSlash path)).regular g.size := ⟨_, rfl⟩
  have himg : img₃ = img₁.put f F := by
    rw [setFile_run, hput, img₁.put_self, img₁.put_put, ← hF] at hset
    exact (Prod.mk.inj (Except.ok.inj hset)).2.symm
  have hfirst : F.fName 0 ≠ 0 := by
    rw [hF]
    exact strcpy_first hname (fun h0 => hnul (mem_of_afterSlash h0)) (img₁.file f)
  have hok : NameOk F := by
    rw [hF]
    exact strcpy_nameOk hlen (img₁.file f)
  have hlt := le_dirBlocks (files.length + 1)
  have hbelow : f.below img₁.nextbno := hf ▸ hd₁.entry_below hlt
  have hd₃ : Directory img₃ B p (dirBlocks (files.length + 1)) (files.length + 1) := by
    rw [himg, hf]
    exact hd₁.name hlt hfirst
  have hself : img₃.file f = F := by rw [himg, img₁.put_self]
  have hnext : img₃.nextbno = img₁.nextbno := by rw [himg]; rfl
  have hne : f ≠ p := hf ▸ hd₁.entry_ne hlt
  have hentry : f = img₃.entry p files.length := by rw [himg, img₁.put_entry_of_ne hne, hf]
  have hind : (img₃.file f).fIndirect = 0 := by
    rw [hself, hF, hzero]
    rfl
  obtain ⟨_, -, honly, hsize⟩ := (readBlocks_only (Nat.le_refl img₃.nextbno) f g.reads 0).ok hread
  have hframe : Frame p files.length (files.length + 1) img img₃ := himg ▸ hcreated.frame hd₁ F
  have hpos : 0 < img₃.nextbno :=
    Nat.lt_of_lt_of_le hd₃.start (Nat.le_trans (Nat.le_add_right ..) hd₃.count)
  have htable : HasTable img₃ img₃.nextbno f 0 := by
    unfold HasTable
    rw [if_pos (Nat.zero_le _)]
    exact hind
  have hext := readBlocks_extent (himg ▸ hr₁.put hbelow hok) hpos (hnext ▸ hbelow) (Nat.le_refl _) htable
    (fun k hk => absurd hk (Nat.not_lt_zero k)) hread
  rw [Nat.zero_add] at hext
  refine h.add hframe hd₃ hentry hind ?_ (.of_only honly) hw.room hw.dir (.file ?_ ?_ hext)
  · rw [hself, hF]
    exact strcpy_hasName hzero _
  · rw [honly.type, hself, hF]
    rfl
  · rw [hsize, hself, hF]
    rfl

/-- A directory that is entered is empty. -/
theorem enterDirectory_builds {files : List (List Nat × Node)} (h : Building img B p files) (hnul : 0 ∉ path)
    (hrun : enterDirectory p path img = .ok (f, img')) :
    Named B p files.length f img img' ∧ Frame p files.length (files.length + 1) img img' ∧
      HasName (img'.file f) ((basename path).take (MAXNAMELEN - 1)) ∧ (img'.file f).fType = FTYPE_DIR ∧
      Building img' img'.nextbno f [] := by
  have hnamed := (enterDirectory_exactly h.room h.dir hnul).ok hrun
  unfold enterDirectory at hrun
  obtain ⟨f₁, img₁, hcreate, hrun₁⟩ := run_bind_eq_ok.mp hrun
  obtain ⟨hf, -, hr₁, -, hd₁⟩ := (createFile_exactly h.dir h.room).ok hcreate
  have hcreated := createFile_created h.dir h.room hcreate
  have hzero := createFile_zero hf hd₁
  have hlast : ((img₁.file f₁).strncpy (basename path) (MAXNAMELEN - 1)).fName (MAXNAMELEN - 1) = 0 := by
    rw [strncpy_last, hzero]
    rfl
  rw [run_bind (setFile_run f₁ (File.strncpy (basename path) (MAXNAMELEN - 1)) img₁), run_get, img₁.put_self,
    if_neg (not_not.mpr hlast)] at hrun₁
  have hset := setFile_run f₁ File.directory
    (img₁.put f₁ ((img₁.file f₁).strncpy (basename path) (MAXNAMELEN - 1)))
  dsimp only at hrun₁
  rw [run_bind hset, img₁.put_put, img₁.put_self] at hrun₁
  obtain ⟨rfl, rfl⟩ := run_pure_eq_ok.mp hrun₁
  refine ⟨hnamed, hcreated.frame hd₁ _, ?_, ?_, hnamed.room, hnamed.empty, fun e x hx => ?_⟩
  · rw [img₁.put_self]
    exact strncpy_hasName hzero _ _
  · rw [img₁.put_self]
    rfl
  · cases hx

-- ---------------------------------------------------------------------------
-- Trees
-- ---------------------------------------------------------------------------

mutual
/-- **A node is written into its directory.** -/
theorem writeNode_builds : ∀ (node : Node) {img img' : Image} {p : FilePtr} {B : Nat} {path : List Nat}
    {files : List (List Nat × Node)}, Building img B p files → 0 ∉ path →
    (∀ g, node = .file g → afterSlash path ≠ []) → writeNode p path node img = .ok ((), img') →
    Building img' B p (files ++ node.listed path) ∧
      Frame p files.length (files ++ node.listed path).length img img'
  | .file g, img, img', p, B, path, files, h, hnul, hname, hrun => by
    rw [List.length_append, listed_length]
    exact writeFile_builds h hnul (hname g rfl) hrun
  | .locked, img, img', p, B, path, files, h, hnul, hname, hrun => by
    obtain ⟨-, rfl⟩ := run_pure_eq_ok.mp hrun
    unfold Node.listed
    rw [List.append_nil]
    exact ⟨h, .refl p _ img⟩
  | .dir entries, img, img', p, B, path, files, h, hnul, hname, hrun => by
    have hw := (writeNode_exactly (.dir entries) h.room h.dir hnul hname).ok hrun
    unfold writeNode at hrun
    obtain ⟨f, img₁, henter, hrun₁⟩ := run_bind_eq_ok.mp hrun
    obtain ⟨hnamed, hframe, hcut, htype, hempty⟩ := enterDirectory_builds h hnul henter
    obtain ⟨hbuilt, hinner⟩ := writeEntries_builds entries hempty hnul hrun₁
    rw [List.nil_append] at hbuilt hinner
    rw [List.length_append, listed_length]
    exact h.add hframe hnamed.dir hnamed.entry hnamed.indirect hcut hinner hw.room hw.dir
      (hbuilt.stored (hinner.type.trans htype))

theorem writeEntries_builds : ∀ (entries : Entries) {img img' : Image} {p : FilePtr} {B : Nat} {path : List Nat}
    {files : List (List Nat × Node)}, Building img B p files → 0 ∉ path →
    writeEntries p path entries img = .ok ((), img') →
    Building img' B p (files ++ entries.files) ∧ Frame p files.length (files ++ entries.files).length img img'
  | .nil, img, img', p, B, path, files, h, hnul, hrun => by
    obtain ⟨-, rfl⟩ := run_pure_eq_ok.mp hrun
    unfold Entries.files
    rw [List.append_nil]
    exact ⟨h, .refl p _ img⟩
  | .cons name node rest, img, img', p, B, path, files, h, hnul, hrun => by
    unfold writeEntries at hrun
    unfold Entries.files
    by_cases hdot : name.isDot = true
    · rw [hdot] at hrun
      rw [if_pos hdot]
      exact writeEntries_builds rest h hnul hrun
    · have hpath : 0 ∉ path ++ slash :: name.bytes := by
        rw [List.mem_append, List.mem_cons]
        exact fun h => h.elim hnul fun h => h.elim (by decide) name.noNul
      have hafter := afterSlash_append name.noSlash path
      rw [if_pos (by rw [Bool.not_eq_true] at hdot; rw [hdot]; rfl)] at hrun
      rw [if_neg hdot]
      obtain ⟨_, img₁, hnode, hrest⟩ := run_bind_eq_ok.mp hrun
      obtain ⟨h₁, hf₁⟩ := writeNode_builds node h hpath (fun _ _ => hafter.symm ▸ name.nonempty) hnode
      obtain ⟨h₂, hf₂⟩ := writeEntries_builds rest h₁ hnul hrest
      rw [listed_append, List.append_assoc] at h₂
      rw [listed_append] at hf₁ hf₂
      rw [List.append_assoc] at hf₂
      exact ⟨h₂, hf₁.trans hf₂ (by simp) (by simp)⟩
end

/-- The files of the root. -/
def rootFiles (gs : List Given) : List (List Nat × Node) := gs.flatMap fun g => g.node.listed g.path

/-- Only arguments that are there are written. -/
theorem writeArgs_builds : ∀ (args : List Arg) {img img' : Image} {files : List (List Nat × Node)},
    Building img 3 .root files → writeArgs args img = .ok ((), img') →
    Building img' 3 .root (files ++ rootFiles (accepted args)) ∧ (img'.file .root).fType = (img.file .root).fType
  | [], img, img', files, h, hrun => by
    obtain ⟨-, rfl⟩ := run_pure_eq_ok.mp hrun
    unfold accepted rootFiles
    rw [List.flatMap_nil, List.append_nil]
    exact ⟨h, rfl⟩
  | .missing :: args, img, img', files, h, hrun => by cases hrun
  | .special :: args, img, img', files, h, hrun => by cases hrun
  | .given g :: args, img, img', files, h, hrun => by
    unfold writeArgs at hrun
    obtain ⟨_, img₁, hnode, hrest⟩ := run_bind_eq_ok.mp hrun
    obtain ⟨h₁, hf₁⟩ := writeNode_builds g.node h g.noNul g.named hnode
    obtain ⟨h₂, htype⟩ := writeArgs_builds args h₁ hrest
    rw [List.append_assoc] at h₂
    exact ⟨h₂, htype.trans hf₁.type⟩

-- ---------------------------------------------------------------------------
-- The whole run
-- ---------------------------------------------------------------------------

/-- A directory of the image with its files. -/
structure Holding (img : Image) (lo hi : Nat) (f : FilePtr) (files : List (List Nat × Node)) : Prop where
  type : (img.file f).fType = FTYPE_DIR
  size : (img.file f).fSize = BY2BLK * dirBlocks files.length
  blocks : Extent img lo hi f (dirBlocks files.length)
  free : ∀ e, files.length ≤ e → e < FILE2BLK * dirBlocks files.length → img.file (img.entry f e) = .zero
  names : ∀ (e : Nat) (x : List Nat × Node), files[e]? = some x → HasName (img.file (img.entry f e)) x.1
  files : ∀ (e : Nat) (x : List Nat × Node), files[e]? = some x → Stored img lo hi x.2 (img.entry f e)

theorem Stored.holding {entries : Entries} (h : Stored img lo hi (.dir entries) f) : Holding img lo hi f entries.files := by
  cases h with
  | dir htype hsize hblocks hfree hnames hfiles => exact ⟨htype, hsize, hblocks, hfree, hnames, hfiles⟩

/-- The bitmap is no part of a directory that has been written. -/
theorem Building.holding {files : List (List Nat × Node)} (h : Building img B f files)
    (htype : (img.file f).fType = FTYPE_DIR) (hfile : img'.file = img.file) (hnext : img'.nextbno = img.nextbno)
    (hword : ∀ b, B ≤ b → img'.word b = img.word b) : Holding img' B img'.nextbno f files := by
  have hsame : SameBlocks B img.nextbno img img' :=
    ⟨fun b hb _ => hword b hb, fun b k _ _ => by rw [hfile]⟩
  have hext := h.extent
  have hentry : ∀ e < FILE2BLK * dirBlocks files.length, img'.entry f e = img.entry f e := fun e he =>
    congrArg (FilePtr.slot · _) (hext.link_congr hsame (congrFun hfile f) (Nat.div_lt_of_lt_mul he))
  have hlt : ∀ (e : Nat) (x : List Nat × Node), files[e]? = some x → e < FILE2BLK * dirBlocks files.length :=
    fun e x hx => Nat.lt_of_lt_of_le (List.getElem?_eq_some_iff.mp hx).1 (le_dirBlocks _)
  rw [hnext]
  refine ⟨?_, ?_, hext.congr hsame (congrFun hfile f), fun e hlo he => ?_, fun e x hx => ?_, fun e x hx => ?_⟩
  · rw [hfile, htype]
  · rw [hfile]
    exact h.dir.size
  · rw [hfile, hentry e he]
    exact h.dir.free e hlo he
  · rw [hfile, hentry e (hlt e x hx)]
    exact (h.files e x hx).1
  · obtain ⟨-, lo, hi, hlo, hhi, hstored, -⟩ := h.files e x hx
    rw [hentry e (hlt e x hx)]
    exact (hstored.mono hlo hhi).congr hsame (congrFun hfile _)

end Mos.Tools
