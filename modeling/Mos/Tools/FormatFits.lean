import Mos.Lib.Contract
import Mos.Tools.FormatInv

/-!
# MOS on RISC-V — what fits into the image

`fsformat` has no check of the number of blocks, nor of the length of a name. `Node.blocks` counts the
blocks that a file or directory takes, and `Node.peak` the ones that must be there while it is
written, which is one more than it takes where a file comes last: its last `read`, which gives
nothing, is into the block after it.

* `fsformat_sound_iff` — the tool keeps to its array and its name fields exactly when the names of all
  files are short and the blocks fit, up to the first argument it refuses;
* `fsformat_overruns` — a name of 128 bytes, and a file of 1021 blocks.
-/

namespace Mos.Tools

open Mos.Lib
open Mos.Fs (BY2BLK BIT2BLK NDIRECT NINDIRECT FILE2BLK MAXNAMELEN slash)

variable {img img' : Image} {p f : FilePtr} {B i j n : Nat} {path : List Nat} {args : List Arg}

-- ---------------------------------------------------------------------------
-- Blocks and names
-- ---------------------------------------------------------------------------

/-- The files of its directory that a node takes. -/
def Node.slots : Node → Nat
  | .locked => 0
  | _ => 1

mutual
/-- The blocks that a node takes as file `j` of its directory. -/
def Node.blocks : Node → Nat → Nat
  | .file f, j => entryBlocks j + readCost f.reads 0
  | .locked, _ => 0
  | .dir entries, j => entryBlocks j + entries.blocks 0

def Entries.blocks : Entries → Nat → Nat
  | .nil, _ => 0
  | .cons name node rest, j =>
    if name.isDot then rest.blocks j else node.blocks j + rest.blocks (j + node.slots)
end

mutual
/-- The blocks that have to be there while it is written. -/
def Node.peak : Node → Nat → Nat
  | .file f, j => entryBlocks j + readCost f.reads 0 + 1
  | .locked, _ => 0
  | .dir entries, j => entryBlocks j + entries.peak 0

def Entries.peak : Entries → Nat → Nat
  | .nil, _ => 0
  | .cons name node rest, j =>
    if name.isDot then rest.peak j else max (node.peak j) (node.blocks j + rest.peak (j + node.slots))
end

mutual
/-- The names of the files fit into their fields; the node itself is called `name`. -/
def Node.Short (name : List Nat) : Node → Prop
  | .file _ => name.length < MAXNAMELEN
  | .locked => True
  | .dir entries => entries.Short

def Entries.Short : Entries → Prop
  | .nil => True
  | .cons name node rest => (name.isDot = true ∨ node.Short name.bytes) ∧ rest.Short
end

/-- The arguments before the first one that ends the run. -/
def accepted : List Arg → List Given
  | .given g :: args => g :: accepted args
  | _ => []

/-- The blocks that have to be there for these, as the files of the root from the `j`-th on. -/
def peakOf : List Given → Nat → Nat
  | [], _ => 0
  | g :: gs, j => max (g.node.peak j) (g.node.blocks j + peakOf gs (j + g.node.slots))

/-- As the files of the root from the `j`-th on, all have short names, and the blocks from block `n` on are
enough for them. -/
structure Fits (gs : List Given) (n j : Nat) : Prop where
  short : ∀ g ∈ gs, g.node.Short (afterSlash g.path)
  room : n + peakOf gs j ≤ NBLOCK

/-- The tool ends by itself, or leaves an image whose names end within their fields. -/
def Sound : Except Halt (Unit × Image) → Prop
  | .error h => ¬ h.Undefined
  | .ok (_, img) => ∀ f, NameOk (img.file f)

-- ---------------------------------------------------------------------------
-- Names
-- ---------------------------------------------------------------------------

theorem afterSlash_append {name : List Nat} (h : slash ∉ name) (path : List Nat) :
    afterSlash (path ++ slash :: name) = name := by
  unfold afterSlash List.rtakeWhile
  rw [List.reverse_append, List.reverse_cons, List.append_assoc, List.takeWhile_append_of_pos]
  · rw [List.singleton_append, List.takeWhile_cons_of_neg (by simp), List.append_nil, List.reverse_reverse]
  · intro b hb
    rw [List.mem_reverse] at hb
    rw [decide_eq_true_eq]
    rintro rfl
    exact h hb

theorem mem_of_afterSlash {b : Nat} (h : b ∈ afterSlash path) : b ∈ path :=
  (List.rtakeWhile_suffix _ _).subset h

theorem basename_ne_nil (path : List Nat) : basename path ≠ [] := by
  unfold basename
  split_ifs with hp
  · exact List.cons_ne_nil _ _
  · dsimp only
    split_ifs with hc
    · exact List.cons_ne_nil _ _
    · -- What is cut does not end with a slash.
      unfold afterSlash
      rw [Ne, List.rtakeWhile_eq_nil_iff]
      intro h
      have hlast := List.rdropWhile_last_not (· = slash) path hc
      have hslash := h hc
      rw [decide_eq_true_eq] at hlast hslash
      exact hslash hlast

theorem basename_noNul (h : 0 ∉ path) : 0 ∉ basename path := by
  unfold basename
  split_ifs with hp
  · decide
  · dsimp only
    split_ifs with hc
    · decide
    · intro h0
      exact h ((List.rdropWhile_prefix _ _).subset (mem_of_afterSlash h0))

/-- The first byte of a name that is not empty. -/
theorem getD_ne_zero {s : List Nat} (hs : s ≠ []) (h0 : 0 ∉ s) : s.getD 0 0 ≠ 0 := by
  cases s with
  | nil => exact absurd rfl hs
  | cons b s =>
    intro hb
    exact h0 (hb ▸ List.mem_cons_self)

theorem strcpy_first {s : List Nat} (hs : s ≠ []) (h0 : 0 ∉ s) (F : File) : (F.strcpy s).fName 0 ≠ 0 := by
  simp only [File.strcpy, Nat.zero_le, if_true]
  exact getD_ne_zero hs h0

theorem strcpy_nameOk {s : List Nat} (h : s.length < MAXNAMELEN) (F : File) : NameOk (F.strcpy s) := by
  refine ⟨s.length, h, ?_⟩
  simp only [File.strcpy, Nat.le_refl, if_true]
  exact List.getD_eq_default _ _ (Nat.le_refl _)

theorem strncpy_first {s : List Nat} (hs : s ≠ []) (h0 : 0 ∉ s) (hn : 0 < n) (F : File) :
    (F.strncpy s n).fName 0 ≠ 0 := by
  simp only [File.strncpy, if_pos hn]
  exact getD_ne_zero hs h0

/-- What `strncpy` does not reach is as it was. -/
theorem strncpy_last (s : List Nat) (n : Nat) (F : File) : (F.strncpy s n).fName n = F.fName n := by
  simp only [File.strncpy, if_neg (Nat.lt_irrefl n)]

-- ---------------------------------------------------------------------------
-- One file or directory
-- ---------------------------------------------------------------------------

/-- What is left after the files `j`, ..., `j + slots - 1` of a directory have been written. -/
structure Written (B : Nat) (p : FilePtr) (j blocks slots : Nat) (img img' : Image) : Prop where
  next : img'.nextbno = img.nextbno + blocks
  room : Room img'
  dir : Directory img' B p (dirBlocks (j + slots)) (j + slots)
  touch : Touch B p img img'

/-- A new file of a directory with its name. -/
structure Named (B : Nat) (p : FilePtr) (j : Nat) (f : FilePtr) (img img' : Image) : Prop extends
    Written B p j (entryBlocks j) 1 img img' where
  entry : f = img'.entry p j
  below : f.below img'.nextbno
  size : (img'.file f).fSize = 0
  indirect : (img'.file f).fIndirect = 0

/-- The file that `create_file` has found gets a name. -/
theorem Named.of_create {F : File} (hf : f = img'.entry p j) (hnext : img'.nextbno = img.nextbno + entryBlocks j)
    (hr : Room img') (ht : Touch B p img img') (hd : Directory img' B p (dirBlocks (j + 1)) j)
    (h0 : F.fName 0 ≠ 0) (hok : NameOk F) (hsize : F.fSize = 0) (hind : F.fIndirect = 0) :
    Named B p j f img (img'.put f F) := by
  have hlt : j < FILE2BLK * dirBlocks (j + 1) := le_dirBlocks (j + 1)
  have hbelow := hd.entry_below hlt
  have hname := hd.name hlt h0
  rw [← hf] at hbelow hname
  have hne : f ≠ p := hf ▸ hd.entry_ne hlt
  refine ⟨⟨hnext, hr.put hbelow hok, hname, ht.trans (.put img' (Or.inr ?_) fun hc => absurd hc hne)⟩, ?_, hbelow, ?_, ?_⟩
  · rw [hf]
    exact hd.entry_not_below hlt
  · rw [img'.put_entry_of_ne hne]
    exact hf
  · rw [img'.put_self, hsize]
  · rw [img'.put_self, hind]

namespace Named

variable {img₁ img₂ : Image} {c : Nat} (h : Named B p j f img img₁)
include h

theorem not_below : ¬ f.below B := by
  rw [h.entry]
  exact h.dir.entry_not_below (le_dirBlocks (j + 1))

/-- What becomes of the file itself is nothing to its directory. -/
theorem written (hnext : img₂.nextbno = img₁.nextbno + c) (hr : Room img₂) (ht : Touch img₁.nextbno f img₁ img₂) :
    Written B p j (entryBlocks j + c) 1 img img₂ := by
  have hB : B ≤ img₁.nextbno := Nat.le_trans (Nat.le_add_right ..) h.dir.count
  refine ⟨?_, hr, ?_, h.touch.trans (ht.inner hB h.not_below h.dir.place)⟩
  · rw [hnext, h.next, Nat.add_assoc]
  · rw [h.entry] at ht
    exact h.dir.keep (le_dirBlocks (j + 1)) (Nat.lt_succ_self j) hB ht

theorem pos : 0 < img₁.nextbno :=
  Nat.lt_of_lt_of_le h.dir.start (Nat.le_trans (Nat.le_add_right ..) h.dir.count)

theorem hasTable : HasTable img₁ img₁.nextbno f 0 := by
  unfold HasTable
  rw [if_pos (Nat.zero_le _)]
  exact h.indirect

/-- A new directory is empty, and its blocks are still to come. -/
theorem empty : Directory img₁ img₁.nextbno f (dirBlocks 0) 0 where
  start := h.pos
  place := h.below
  size := h.size
  count := Nat.le_refl _
  link := fun _ hi => absurd hi (Nat.not_lt_zero _)
  once := fun _ hi => absurd hi (Nat.not_lt_zero _)
  table := h.hasTable
  used := fun _ he => absurd he (Nat.not_lt_zero _)
  free := fun _ _ he => absurd he (Nat.not_lt_zero _)

end Named

/-- A file that `create_file` finds is unused. -/
theorem createFile_zero (hf : f = img'.entry p j) (hd : Directory img' B p (dirBlocks (j + 1)) j) :
    img'.file f = .zero :=
  hf ▸ hd.free j (Nat.le_refl _) (le_dirBlocks (j + 1))

/-- **A file is written exactly when its name is short and its blocks are there.** -/
theorem writeFile_exactly (hr : Room img) (hd : Directory img B p (dirBlocks j) j) (hnul : 0 ∉ path)
    (hname : afterSlash path ≠ []) (g : HostFile) :
    Exactly Halt.Undefined (writeFile p path g) img
      ((afterSlash path).length < MAXNAMELEN ∧ img.nextbno + (entryBlocks j + readCost g.reads 0 + 1) ≤ NBLOCK)
      fun _ img' => Written B p j (entryBlocks j + readCost g.reads 0) 1 img img' := by
  refine Exactly.congr (P := img.nextbno + entryBlocks j ≤ NBLOCK ∧ (afterSlash path).length < MAXNAMELEN ∧
    img.nextbno + entryBlocks j + readCost g.reads 0 < NBLOCK) ?_ (by omega)
  refine (createFile_exactly hd hr).bind ?_
  rintro - f img₁ ⟨hf, hnext, hr₁, ht, hd₁⟩
  refine Exactly.bind (Q := fun _ img₂ => Named B p j f img img₂) ?_ ?_
  · refine .of_cases (fun hlen => ?_) fun hlen => ?_
    · have hrun : strcpyName f (afterSlash path) img₁ =
          .ok ((), img₁.put f ((img₁.file f).strcpy (afterSlash path))) := by
        unfold strcpyName
        rw [if_pos hlen]
        rfl
      have hzero := createFile_zero hf hd₁
      exact .of_ok hrun (.of_create hf hnext hr₁ ht hd₁ (strcpy_first hname (fun h0 => hnul (mem_of_afterSlash h0)) _)
        (strcpy_nameOk hlen _) (congrArg File.fSize hzero) (congrArg File.fIndirect hzero))
    · have hrun : strcpyName f (afterSlash path) img₁ = .error .overrun := by
        unfold strcpyName
        rw [if_neg hlen]
        rfl
      exact .of_error hrun trivial
  · intro _ _ img₂ h
    refine .bind_ok (setFile_run f (File.regular g.size) img₂) ?_
    have hr₂ := h.room.put (F := (img₂.file f).regular g.size) h.below (h.room.names f)
    have ht₂ := Touch.put (B := img₂.nextbno) (F := (img₂.file f).regular g.size) img₂ (Or.inl (Eq.refl f)) fun _ => rfl
    have htab : HasTable (img₂.put f ((img₂.file f).regular g.size)) img₂.nextbno f 0 := by
      unfold HasTable
      rw [if_pos (Nat.zero_le _), img₂.put_self]
      exact h.indirect
    have hread := readBlocks_exactly hr₂ h.pos h.below (Nat.le_refl _) htab g.reads
    refine (hread.mono fun _ img₃ h₃ => h.written h₃.1 h₃.2.1 (ht₂.trans h₃.2.2)).congr ?_
    show _ ↔ img₂.nextbno + _ < _
    rw [h.next]

/-- **A directory is entered exactly when there is a file for it**: its name is cut to length. -/
theorem enterDirectory_exactly (hr : Room img) (hd : Directory img B p (dirBlocks j) j) (hnul : 0 ∉ path) :
    Exactly Halt.Undefined (enterDirectory p path) img (img.nextbno + entryBlocks j ≤ NBLOCK)
      fun f img' => Named B p j f img img' := by
  refine (createFile_exactly hd hr).bind_run ?_
  rintro - f img₁ ⟨hf, hnext, hr₁, ht, hd₁⟩
  have hzero := createFile_zero hf hd₁
  have hlast : ((img₁.file f).strncpy (basename path) (MAXNAMELEN - 1)).fName (MAXNAMELEN - 1) = 0 := by
    rw [strncpy_last, hzero]
    rfl
  refine .bind_ok (setFile_run f (File.strncpy (basename path) (MAXNAMELEN - 1)) img₁) (.get ?_)
  rw [img₁.put_self, if_neg (not_not.mpr hlast)]
  refine .bind_ok (setFile_run f File.directory _) ?_
  rw [img₁.put_put, img₁.put_self]
  have hfirst := strncpy_first (basename_ne_nil path) (basename_noNul hnul) (show 0 < MAXNAMELEN - 1 by decide) (img₁.file f)
  exact .of_ok rfl (.of_create hf hnext hr₁ ht hd₁ hfirst ⟨MAXNAMELEN - 1, by decide, hlast⟩
    (congrArg File.fSize hzero) (congrArg File.fIndirect hzero))

-- ---------------------------------------------------------------------------
-- Trees
-- ---------------------------------------------------------------------------

mutual
/-- **A file or directory is written exactly when its names are short and its blocks are there.** -/
theorem writeNode_exactly : ∀ (node : Node) {img : Image} {p : FilePtr} {B j : Nat} {path : List Nat}, Room img →
    Directory img B p (dirBlocks j) j → 0 ∉ path → (∀ g, node = .file g → afterSlash path ≠ []) →
    Exactly Halt.Undefined (writeNode p path node) img
      (node.Short (afterSlash path) ∧ img.nextbno + node.peak j ≤ NBLOCK)
      fun _ img' => Written B p j (node.blocks j) node.slots img img'
  | .file g, img, p, B, j, path, hr, hd, hnul, hname => writeFile_exactly hr hd hnul (hname g rfl) g
  | .locked, img, p, B, j, path, hr, hd, hnul, hname => by
    refine (Exactly.of_ok rfl ⟨rfl, hr, hd, Touch.refl B p img⟩).congr ?_
    exact ⟨fun _ => trivial, fun _ => ⟨trivial, hr.high⟩⟩
  | .dir entries, img, p, B, j, path, hr, hd, hnul, hname => by
    refine Exactly.congr (P := img.nextbno + entryBlocks j ≤ NBLOCK ∧ entries.Short ∧
      img.nextbno + entryBlocks j + entries.peak 0 ≤ NBLOCK) ?_ ?_
    · refine (enterDirectory_exactly hr hd hnul).bind ?_
      intro _ f img₁ h
      have hall := writeEntries_exactly entries h.room h.empty hnul
      refine (hall.mono fun _ img₂ h₂ => h.written h₂.1 h₂.2.1 h₂.2.2).congr ?_
      rw [h.next]
    · show entries.Short ∧ img.nextbno + (entryBlocks j + entries.peak 0) ≤ NBLOCK ↔ _
      constructor
      · intro ⟨hs, hp⟩
        exact ⟨by omega, hs, by omega⟩
      · intro ⟨_, hs, hp⟩
        exact ⟨hs, by omega⟩

theorem writeEntries_exactly : ∀ (entries : Entries) {img : Image} {p : FilePtr} {B j : Nat} {path : List Nat},
    Room img → Directory img B p (dirBlocks j) j → 0 ∉ path →
    Exactly Halt.Undefined (writeEntries p path entries) img
      (entries.Short ∧ img.nextbno + entries.peak j ≤ NBLOCK)
      fun _ img' => img'.nextbno = img.nextbno + entries.blocks j ∧ Room img' ∧ Touch B p img img'
  | .nil, img, p, B, j, path, hr, hd, hnul => by
    refine (Exactly.of_ok rfl ⟨rfl, hr, Touch.refl B p img⟩).congr ?_
    exact ⟨fun _ => trivial, fun _ => ⟨trivial, hr.high⟩⟩
  | .cons name node rest, img, p, B, j, path, hr, hd, hnul => by
    unfold writeEntries Entries.Short Entries.peak Entries.blocks
    dsimp only
    by_cases hdot : name.isDot = true
    · rw [if_neg (by rw [hdot]; decide), if_pos hdot, if_pos hdot]
      refine (writeEntries_exactly rest hr hd hnul).congr ?_
      exact ⟨fun h => ⟨h.1.2, h.2⟩, fun h => ⟨⟨Or.inl hdot, h.1⟩, h.2⟩⟩
    · have hpath : 0 ∉ path ++ slash :: name.bytes := by
        rw [List.mem_append, List.mem_cons]
        exact fun h => h.elim hnul fun h => h.elim (by decide) name.noNul
      have hafter := afterSlash_append name.noSlash path
      rw [if_pos (by rw [Bool.not_eq_true] at hdot; rw [hdot]; rfl), if_neg hdot, if_neg hdot]
      refine Exactly.congr (P := (node.Short (afterSlash (path ++ slash :: name.bytes)) ∧
        img.nextbno + node.peak j ≤ NBLOCK) ∧ rest.Short ∧
        img.nextbno + node.blocks j + rest.peak (j + node.slots) ≤ NBLOCK) ?_ ?_
      · refine (writeNode_exactly node hr hd hpath fun _ _ => hafter.symm ▸ name.nonempty).bind ?_
        intro _ _ img₁ h
        refine ((writeEntries_exactly rest h.room h.dir hnul).mono fun _ img₂ h₂ => ?_).congr ?_
        · refine ⟨?_, h₂.2.1, h.touch.trans h₂.2.2⟩
          rw [h₂.1, h.next, Nat.add_assoc]
        · rw [h.next]
      · rw [hafter, or_iff_right hdot]
        constructor
        · intro ⟨⟨hs, hrest⟩, hp⟩
          exact ⟨⟨hs, by omega⟩, hrest, by omega⟩
        · intro ⟨⟨hs, hp⟩, hrest, hp'⟩
          exact ⟨⟨hs, hrest⟩, by omega⟩
end

-- ---------------------------------------------------------------------------
-- The whole run
-- ---------------------------------------------------------------------------

/-- The image when the first argument is looked at. -/
theorem initDisk_run : ∃ img, initDisk .zero = .ok ((), img) ∧ img.nextbno = 3 ∧ Room img ∧
    Directory img 3 .root (dirBlocks 0) 0 := by
  refine ⟨_, rfl, rfl, ⟨by decide, fun b k _ => rfl, fun f => ?_⟩, ?_⟩
  · cases f with
    | root => exact ⟨1, by decide, rfl⟩
    | slot b k => exact ⟨0, by decide, rfl⟩
  · exact ⟨by decide, trivial, rfl, Nat.le_refl _, fun _ hi => absurd hi (Nat.not_lt_zero _),
      fun _ hi => absurd hi (Nat.not_lt_zero _), rfl, fun _ he => absurd he (Nat.not_lt_zero _),
      fun _ _ he => absurd he (Nat.not_lt_zero _)⟩

theorem fits_nil (h : n ≤ NBLOCK) : Fits [] n j :=
  ⟨fun _ hg => absurd hg List.not_mem_nil, h⟩

theorem fits_cons {g : Given} {gs : List Given} : Fits (g :: gs) n j ↔
    (g.node.Short (afterSlash g.path) ∧ n + g.node.peak j ≤ NBLOCK) ∧
      Fits gs (n + g.node.blocks j) (j + g.node.slots) := by
  have hpeak : peakOf (g :: gs) j = max (g.node.peak j) (g.node.blocks j + peakOf gs (j + g.node.slots)) := rfl
  constructor
  · intro ⟨hs, hr⟩
    rw [List.forall_mem_cons] at hs
    rw [hpeak] at hr
    exact ⟨⟨hs.1, by omega⟩, hs.2, by omega⟩
  · intro ⟨⟨hs, hp⟩, hrest, hr⟩
    refine ⟨List.forall_mem_cons.mpr ⟨hs, hrest⟩, ?_⟩
    rw [hpeak]
    omega

/-- The image stays in order, and the tool stops by itself if it stops. -/
def imageContract : Contract Image Unit Halt where
  inv img _ := Room img
  moves _ _ _ _ := True
  allowed _ e := ¬ e.Undefined
  refl _ _ := trivial
  trans _ _ := trivial
  back _ h := h

theorem Room.runs {α : Type} {x : Tool α} {a : α} (hr : Room img') (hrun : x img = .ok (a, img')) :
    Runs imageContract x img () fun _ _ _ => True := by
  unfold Runs
  rw [hrun]
  exact ⟨(), hr, trivial, trivial⟩

/-- The arguments are written up to the first that ends the run, or the language has no word for what is done. -/
theorem writeArgs_runs : ∀ (args : List Arg) {img : Image} {j : Nat}, Room img →
    Directory img 3 .root (dirBlocks j) j →
    (Fits (accepted args) img.nextbno j → Runs imageContract (writeArgs args) img () fun _ _ _ => True) ∧
      (¬ Fits (accepted args) img.nextbno j → ∃ e, writeArgs args img = .error e ∧ e.Undefined)
  | [], img, j, hr, hd => ⟨fun _ => .pure hr trivial, fun hn => absurd (fits_nil hr.high) hn⟩
  | .missing :: args, img, j, hr, hd => ⟨fun _ => .of_error rfl id, fun hn => absurd (fits_nil hr.high) hn⟩
  | .special :: args, img, j, hr, hd => ⟨fun _ => .of_error rfl id, fun hn => absurd (fits_nil hr.high) hn⟩
  | .given g :: args, img, j, hr, hd => by
    have hnode := writeNode_exactly g.node hr hd g.noNul g.named
    show (Fits (g :: accepted args) _ _ → _) ∧ (¬ Fits (g :: accepted args) _ _ → _)
    rw [fits_cons]
    unfold writeArgs
    by_cases hg : g.node.Short (afterSlash g.path) ∧ img.nextbno + g.node.peak j ≤ NBLOCK
    · obtain ⟨_, img₁, hrun, hw⟩ := hnode.run hg
      obtain ⟨hfits, hstop⟩ := writeArgs_runs args hw.room hw.dir
      rw [hw.next] at hfits hstop
      constructor
      · intro h
        unfold Runs
        rw [run_bind hrun]
        exact hfits h.2
      · intro h
        rw [run_bind hrun]
        exact hstop fun h' => h ⟨hg, h'⟩
    · obtain ⟨e, hrun, he⟩ := hnode.stop hg
      exact ⟨fun h => absurd h.1 hg, fun _ => ⟨e, run_bind_error hrun _, he⟩⟩

/-- The bits of the blocks in use are in the bitmap block. -/
theorem flushBitmap_runs (hr : Room img) : Runs imageContract flushBitmap img () fun _ _ _ => True := by
  refine .get_bind (.forM_range (fun _ _ _ => True) _ hr trivial fun i hi img₁ _ hr₁ _ => ?_)
  have huse : 2 + i / BIT2BLK < NBLOCK := by
    have hlt : i < 1024 := Nat.lt_of_lt_of_le hi hr.high
    have hdiv : i / BIT2BLK = 0 := Nat.div_eq_of_lt (Nat.lt_trans hlt (by decide))
    rw [hdiv]
    decide
  refine .bind_same (useBlock_run huse img₁) (.get_bind ?_)
  refine Room.runs ?_ rfl
  exact ⟨hr₁.high, hr₁.fresh, hr₁.names⟩

theorem dumpBlocks_runs (hr : Room img) (written : Nat → Bool) (hn : n ≤ NBLOCK) :
    Runs imageContract (dumpBlocks written n) img () fun _ _ _ => True := by
  unfold dumpBlocks
  refine .forM_range (fun _ _ _ => True) n hr trivial fun i hi img₂ _ hr₂ _ => ?_
  refine .bind_same (useBlock_run (Nat.lt_of_lt_of_le hi hn) img₂) ?_
  unfold assert
  exact .ite (fun _ => .pure hr₂ trivial) fun _ => .of_error rfl id

theorem finishFs_runs (hr : Room img) (written : Nat → Bool) :
    Runs imageContract (finishFs written) img () fun _ _ _ => True := by
  refine .bind_same (useBlock_run (show 1 < NBLOCK by decide) img) ?_
  refine Runs.bind (Room.runs (a := ()) ?_ rfl) fun _ _ _ hr₁ _ _ => ?_
  · exact ⟨hr.high, hr.fresh, hr.names⟩
  · exact dumpBlocks_runs hr₁ written (Nat.le_refl NBLOCK)

theorem fsformat_fits (h : Fits (accepted args) 3 0) (written : Nat → Bool) :
    Sound (fsformat args written .zero) := by
  obtain ⟨img, hinit, hnext, hr, hd⟩ := initDisk_run
  rw [← hnext] at h
  have hall : Runs imageContract (writeArgs args >>= fun _ => flushBitmap >>= fun _ => finishFs written) img ()
      fun _ _ _ => True :=
    ((writeArgs_runs args hr hd).1 h).bind fun _ _ _ hr₁ _ _ =>
      (flushBitmap_runs hr₁).bind fun _ _ _ hr₂ _ _ => finishFs_runs hr₂ written
  unfold fsformat
  rw [run_bind hinit]
  split_ifs with hargs
  · exact id
  · show Sound ((writeArgs args >>= fun _ => flushBitmap >>= fun _ => finishFs written) img)
    cases hrun : (writeArgs args >>= fun _ => flushBitmap >>= fun _ => finishFs written) img with
    | error e => exact hall.error hrun
    | ok q =>
      obtain ⟨_, hr', -, -⟩ := hall.ok hrun
      exact hr'.names

theorem fsformat_not_fits (h : ¬ Fits (accepted args) 3 0) (written : Nat → Bool) :
    ∃ e, fsformat args written .zero = .error e ∧ e.Undefined := by
  obtain ⟨img, hinit, hnext, hr, hd⟩ := initDisk_run
  have hne : args ≠ [] := by
    rintro rfl
    exact h (fits_nil (by decide))
  rw [← hnext] at h
  obtain ⟨e, hrun, he⟩ := (writeArgs_runs args hr hd).2 h
  refine ⟨e, ?_, he⟩
  unfold fsformat
  rw [run_bind hinit, if_neg hne]
  exact run_bind_error hrun _

/-- **The tool keeps to `disk[]` and to the name fields exactly when the names of the files are short and the
blocks are enough**, up to the first argument that it refuses. -/
theorem fsformat_sound_iff (args : List Arg) (written : Nat → Bool) :
    Sound (fsformat args written .zero) ↔ Fits (accepted args) 3 0 := by
  constructor
  · intro hs
    by_contra hn
    obtain ⟨e, hrun, he⟩ := fsformat_not_fits hn written
    rw [hrun] at hs
    exact hs he
  · intro h
    exact fsformat_fits h written

/-- An empty file with a name of 128 bytes. -/
def longName : Given where
  path := List.replicate 128 97
  node := .file (.ofBytes 0)
  noNul := by decide
  named := fun _ _ => by decide

/-- A file `a` of 1020 blocks, for which `save_block_link` has room. -/
def longFile : Given where
  path := [97]
  node := .file (.ofBytes (1020 * BY2BLK))
  noNul := by decide
  named := fun _ _ => by decide

/-- The name goes over `f_size`, and the index of the file is in no block of the disk. -/
theorem fsformat_overruns :
    ¬ Sound (fsformat [.given longName] (fun _ => true) .zero) ∧
      ¬ Sound (fsformat [.given longFile] (fun _ => true) .zero) := by
  have hbad : ∀ args : List Arg, ¬ Fits (accepted args) 3 0 → ¬ Sound (fsformat args (fun _ => true) .zero) := by
    intro args hn hs
    obtain ⟨e, hrun, he⟩ := fsformat_not_fits hn fun _ => true
    rw [hrun] at hs
    exact hs he
  constructor
  · refine hbad _ fun h => ?_
    have hshort : (afterSlash longName.path).length < MAXNAMELEN := h.short longName List.mem_cons_self
    have hself : afterSlash longName.path = longName.path := by
      unfold afterSlash
      rw [List.rtakeWhile_eq_self_iff]
      intro b hb
      rw [List.eq_of_mem_replicate hb]
      decide
    have hlen : longName.path.length = MAXNAMELEN := List.length_replicate
    rw [hself, hlen] at hshort
    exact Nat.lt_irrefl _ hshort
  · refine hbad _ fun h => ?_
    have hpeak : longFile.node.peak 0 = 1023 := by decide
    have hroom := h.room
    have hle : longFile.node.peak 0 ≤ peakOf [longFile] 0 := Nat.le_max_left ..
    have hblocks : NBLOCK = 1024 := rfl
    have hsame : peakOf (accepted [.given longFile]) 0 = peakOf [longFile] 0 := rfl
    omega

end Mos.Tools
