import Mathlib.Data.List.Find
import Mos.Fs.LayoutPath
import Mos.Lib.Parts

/-!
# MOS on RISC-V — what a path means

`resolve` follows the names of a path through the directories, one by one: it is a function
of the contents of the blocks and of the parts of the path between slashes. `DirTree` says
what it needs of the directories: their blocks are attached and in use, hold no tables and
are not of the system, and the names in them end.

* `walkPath_resolves` — `walk_path`, which scans the path with two cursors and compares names
  in the cache, comes to what `resolve` says.
-/

namespace Mos.Fs

open Mos.Lib Mos.Kern

variable {st st' : FsState} {b c d i j k n m : Nat}

-- ---------------------------------------------------------------------------
-- Names and directories
-- ---------------------------------------------------------------------------

/-- Byte `m` of the file at word `i` of block `b`. -/
def FsState.byte (st : FsState) (b i m : Nat) : Nat := getByte (st.word b (i + m / 4)).toNat (m % 4)

/-- `f_name`, up to the NUL. -/
def FsState.fileName (st : FsState) (b i : Nat) : List Nat :=
  ((List.range MAXNAMELEN).map (st.byte b i)).takeWhile (· ≠ 0)

/-- Block `n` of a file. -/
def FsState.blockOf (st : FsState) (b i n : Nat) : Nat :=
  match st.slot b i n with
  | some (b', j) => (st.word b' j).toNat
  | none => 0

/-- The files of a directory from block `n` on, in `m` blocks. -/
def FsState.filesFrom (st : FsState) (b i n m : Nat) : List (Nat × Nat) :=
  (List.range' n m).flatMap fun n => (List.range FILE2BLK).map fun k => (st.blockOf b i n, 64 * k)

/-- The files of a directory. -/
def FsState.files (st : FsState) (b i : Nat) : List (Nat × Nat) := st.filesFrom b i 0 (st.dirBlocks b i)

def FsState.named (st : FsState) (name : List Nat) (f : Nat × Nat) : Bool := decide (st.fileName f.1 f.2 = name)

/-- The first file of a directory with the name. -/
def FsState.lookup (st : FsState) (b i : Nat) (name : List Nat) : Option (Nat × Nat) :=
  (st.files b i).find? (st.named name)

/-- What the names lead to, from a file on. -/
def FsState.resolve (st : FsState) (dir : Option Nat) (b i : Nat) : List (List Nat) → Walk
  | [] => ⟨0, dir, some (addr b i), []⟩
  | name :: names =>
    if MAXNAMELEN ≤ name.length then ⟨-E_BAD_PATH, none, none, []⟩
    else if st.isDir b i = true then
      match st.lookup b i name with
      | some f => st.resolve (some (addr b i)) f.1 f.2 names
      | none => if names = [] then ⟨-E_NOT_FOUND, some (addr b i), none, name⟩ else ⟨-E_NOT_FOUND, none, none, []⟩
    else ⟨-E_NOT_FOUND, none, none, []⟩

/-- A file that a path may lead to. -/
inductive InTree (st : FsState) : Nat → Nat → Prop where
  | root : InTree st 1 2
  | entry {b i n d k : Nat} (h : InTree st b i) (hdir : st.isDir b i = true) (hn : n < st.dirBlocks b i)
      (hd : st.Names b i n d) (hk : k < FILE2BLK) (hname : st.fileName d (64 * k) ≠ []) : InTree st d (64 * k)

/-- A block of a directory, as far as its size goes. -/
def DirBlock (st : FsState) (d : Nat) : Prop :=
  ∃ b i n, InTree st b i ∧ st.isDir b i = true ∧ n < st.dirBlocks b i ∧ st.Names b i n d

/-- The table of a directory that has more blocks than direct slots. -/
def DirTable (st : FsState) (t : Nat) : Prop :=
  ∃ b i, InTree st b i ∧ st.isDir b i = true ∧ NDIRECT < st.dirBlocks b i ∧ (st.word b (i + W_INDIRECT)).toNat = t

structure DirTree (st : FsState) : Prop where
  ready : Ready st
  size : st.nblocks ≤ DISKMAX / BY2BLK
  attached : ∀ b i n, InTree st b i → st.isDir b i = true → n < st.dirBlocks b i → ∃ d, st.Names b i n d
  used : ∀ d, DirBlock st d ∨ DirTable st d → d < st.nblocks ∧ ¬ st.isFree d
  apart : ∀ d, DirBlock st d → ¬ st.isMeta d ∧ ¬ DirTable st d
  ends : ∀ d k, DirBlock st d → k < FILE2BLK → ∃ m < MAXNAMELEN, st.byte d (64 * k) m = 0

-- ---------------------------------------------------------------------------
-- Sets of files
-- ---------------------------------------------------------------------------

/-- A block of a directory among the files `T`. -/
def DirBlockIn (T : Nat → Nat → Prop) (st : FsState) (d : Nat) : Prop :=
  ∃ b i n, T b i ∧ st.isDir b i = true ∧ n < st.dirBlocks b i ∧ st.Names b i n d

/-- A table of one of them. -/
def DirTableIn (T : Nat → Nat → Prop) (st : FsState) (t : Nat) : Prop :=
  ∃ b i, T b i ∧ st.isDir b i = true ∧ NDIRECT < st.dirBlocks b i ∧ (st.word b (i + W_INDIRECT)).toNat = t

/-- A `struct File` that a walk through them may look at. -/
def PlaceIn (T : Nat → Nat → Prop) (st : FsState) (b i : Nat) : Prop :=
  (b = 1 ∧ i = 2) ∨ (DirBlockIn T st b ∧ ∃ k < FILE2BLK, i = 64 * k)

/-- The files `T` are closed under lookups, and their directories can be walked through. -/
structure WalkTree (T : Nat → Nat → Prop) (st : FsState) : Prop where
  ready : Ready st
  size : st.nblocks ≤ DISKMAX / BY2BLK
  root : T 1 2
  place : ∀ b i, T b i → PlaceIn T st b i
  closed : ∀ b i name f, T b i → st.isDir b i = true → name ≠ [] → name.length < MAXNAMELEN →
    st.lookup b i name = some f → T f.1 f.2
  attached : ∀ b i n, T b i → st.isDir b i = true → n < st.dirBlocks b i → ∃ d, st.Names b i n d
  used : ∀ d, DirBlockIn T st d ∨ DirTableIn T st d → d < st.nblocks ∧ ¬ st.isFree d
  apart : ∀ d, DirBlockIn T st d → ¬ st.isMeta d ∧ ¬ DirTableIn T st d

/-- What a walk through the files `T` reads is the same in both. -/
structure SameFields (T : Nat → Nat → Prop) (st st' : FsState) : Prop where
  place : ∀ b i, T b i → PlaceIn T st b i
  field : ∀ b i k, PlaceIn T st b i → k < 64 → k ≠ W_DIR → st'.word b (i + k) = st.word b (i + k)
  table : ∀ t j, DirTableIn T st t → j < 1024 → st'.word t j = st.word t j

variable {T : Nat → Nat → Prop}

theorem fileName_congr (h : ∀ m < MAXNAMELEN, st'.byte b i m = st.byte b i m) : st'.fileName b i = st.fileName b i := by
  unfold FsState.fileName
  rw [List.map_congr_left fun m hm => h m (List.mem_range.mp hm)]

namespace SameFields

variable (hs : SameFields T st st')
include hs

theorem isDir (hf : T b i) : st'.isDir b i = st.isDir b i := by
  unfold FsState.isDir
  rw [hs.field b i W_TYPE (hs.place b i hf) (by decide) (by decide)]

theorem dirBlocks (hf : T b i) : st'.dirBlocks b i = st.dirBlocks b i := by
  unfold FsState.dirBlocks
  rw [hs.field b i W_SIZE (hs.place b i hf) (by decide) (by decide)]

theorem indirect (hf : T b i) : st'.word b (i + W_INDIRECT) = st.word b (i + W_INDIRECT) :=
  hs.field b i W_INDIRECT (hs.place b i hf) (by decide) (by decide)

theorem slot (hf : T b i) (n : Nat) : st'.slot b i n = st.slot b i n := by
  unfold FsState.slot
  rw [hs.indirect hf]

/-- The block numbers of a directory. -/
theorem slotWord (hf : T b i) (hdir : st.isDir b i = true) (hn : n < st.dirBlocks b i)
    (hslot : st.slot b i n = some (c, j)) : st'.word c j = st.word c j := by
  unfold FsState.slot at hslot
  split_ifs at hslot with hn₁ hn₂
  · cases hslot
    rw [Nat.add_assoc]
    simp only [NDIRECT] at hn₁
    exact hs.field b i _ (hs.place b i hf) (by simp only [W_DIRECT]; omega) (by simp only [W_DIRECT, W_DIR]; omega)
  · cases hslot
    exact hs.table _ _ ⟨b, i, hf, hdir, by omega, rfl⟩ hn₂.1

theorem blockOf (hf : T b i) (hdir : st.isDir b i = true) (hn : n < st.dirBlocks b i) :
    st'.blockOf b i n = st.blockOf b i n := by
  unfold FsState.blockOf
  rw [hs.slot hf]
  cases hslot : st.slot b i n with
  | none => rfl
  | some p => exact congrArg BitVec.toNat (hs.slotWord hf hdir hn hslot)

theorem names (hf : T b i) (hdir : st.isDir b i = true) (hn : n < st.dirBlocks b i) (d : Nat) :
    st'.Names b i n d ↔ st.Names b i n d := by
  unfold FsState.Names
  rw [hs.slot hf]
  refine exists_congr fun c => exists_congr fun j => and_congr_right fun hslot => ?_
  rw [hs.slotWord hf hdir hn hslot]

theorem byte (hd : DirBlockIn T st d) (hk : k < FILE2BLK) (hm : m < MAXNAMELEN) :
    st'.byte d (64 * k) m = st.byte d (64 * k) m := by
  simp only [MAXNAMELEN] at hm
  unfold FsState.byte
  rw [hs.field d (64 * k) (m / 4) (Or.inr ⟨hd, k, hk, rfl⟩) (by omega) (by simp only [W_DIR]; omega)]

theorem fileName (hd : DirBlockIn T st d) (hk : k < FILE2BLK) :
    st'.fileName d (64 * k) = st.fileName d (64 * k) :=
  fileName_congr fun _ hm => hs.byte hd hk hm

theorem dirBlock (d : Nat) : DirBlockIn T st' d ↔ DirBlockIn T st d := by
  refine exists_congr fun b => exists_congr fun i => exists_congr fun n => and_congr_right fun hf => ?_
  rw [hs.isDir hf, hs.dirBlocks hf]
  exact and_congr_right fun hdir => and_congr_right fun hn => hs.names hf hdir hn d

theorem dirTable (t : Nat) : DirTableIn T st' t ↔ DirTableIn T st t := by
  refine exists_congr fun b => exists_congr fun i => and_congr_right fun hf => ?_
  rw [hs.isDir hf, hs.dirBlocks hf, hs.indirect hf]

theorem placeIn : PlaceIn T st' b i ↔ PlaceIn T st b i :=
  or_congr_right (and_congr_left' (hs.dirBlock b))

end SameFields

-- ---------------------------------------------------------------------------
-- Lookups
-- ---------------------------------------------------------------------------

/-- The files that are looked at are files of the directories. -/
theorem mem_filesFrom (hle : n + m ≤ st.dirBlocks b i) {f : Nat × Nat} (hmem : f ∈ st.filesFrom b i n m) :
    ∃ n' k, n' < st.dirBlocks b i ∧ k < FILE2BLK ∧ f = (st.blockOf b i n', 64 * k) := by
  obtain ⟨n', hn', hmem⟩ := List.mem_flatMap.mp hmem
  obtain ⟨k, hk, rfl⟩ := List.mem_map.mp hmem
  have hrange := List.mem_range'_1.mp hn'
  exact ⟨n', k, by omega, List.mem_range.mp hk, rfl⟩

namespace WalkTree

variable (h : WalkTree T st)
include h

theorem block (hf : T b i) (hdir : st.isDir b i = true) (hn : n < st.dirBlocks b i) :
    st.Names b i n (st.blockOf b i n) := by
  obtain ⟨d, b', j, hs, hne, rfl⟩ := h.attached b i n hf hdir hn
  have hblock : st.blockOf b i n = (st.word b' j).toNat := by
    unfold FsState.blockOf
    rw [hs]
  rw [hblock]
  exact ⟨b', j, hs, hne, rfl⟩

theorem dirBlock (hf : T b i) (hdir : st.isDir b i = true) (hn : n < st.dirBlocks b i) :
    DirBlockIn T st (st.blockOf b i n) :=
  ⟨b, i, n, hf, hdir, hn, h.block hf hdir hn⟩

end WalkTree

namespace SameFields

variable (h : WalkTree T st) (hs : SameFields T st st')
include hs

theorem filesFrom (hf : T b i) (hdir : st.isDir b i = true) (hle : n + m ≤ st.dirBlocks b i) :
    st'.filesFrom b i n m = st.filesFrom b i n m := by
  unfold FsState.filesFrom
  refine List.flatMap_congr fun n' hn' => ?_
  have hrange := List.mem_range'_1.mp hn'
  rw [hs.blockOf hf hdir (by omega)]

include h

theorem find (hf : T b i) (hdir : st.isDir b i = true) (hle : n + m ≤ st.dirBlocks b i) (name : List Nat) :
    (st'.filesFrom b i n m).find? (st'.named name) = (st.filesFrom b i n m).find? (st.named name) := by
  rw [hs.filesFrom hf hdir hle]
  refine List.find?_congr fun f hmem => ?_
  obtain ⟨n', k, hn', hk, rfl⟩ := mem_filesFrom hle hmem
  unfold FsState.named
  rw [hs.fileName (h.dirBlock hf hdir hn') hk]

theorem lookup (hf : T b i) (hdir : st.isDir b i = true) (name : List Nat) :
    st'.lookup b i name = st.lookup b i name := by
  unfold FsState.lookup FsState.files
  rw [hs.dirBlocks hf]
  exact hs.find h hf hdir (Nat.le_of_eq (Nat.zero_add _)) name

/-- Paths mean the same. -/
theorem resolve (hf : T b i) (dir : Option Nat) {names : List (List Nat)} (hne : ∀ name ∈ names, name ≠ []) :
    st'.resolve dir b i names = st.resolve dir b i names := by
  induction names generalizing dir b i with
  | nil => rfl
  | cons name names ih =>
    unfold FsState.resolve
    rw [hs.isDir hf]
    by_cases hlong : MAXNAMELEN ≤ name.length
    · rw [if_pos hlong, if_pos hlong]
    rw [if_neg hlong, if_neg hlong]
    by_cases hdir : st.isDir b i = true
    · rw [if_pos hdir, if_pos hdir, hs.lookup h hf hdir name]
      cases hlook : st.lookup b i name with
      | none => rfl
      | some f =>
        exact ih (h.closed b i name f hf hdir (hne name List.mem_cons_self) (Nat.not_le.mp hlong) hlook) _
          fun name' hmem => hne name' (List.mem_cons_of_mem name hmem)
    · rw [if_neg hdir, if_neg hdir]

theorem tree (hready : Ready st') (hn : st'.nblocks = st.nblocks) (hfree : ∀ c, st'.isFree c ↔ st.isFree c) :
    WalkTree T st' where
  ready := hready
  size := by rw [hn]; exact h.size
  root := h.root
  place b i hf := hs.placeIn.mpr (h.place b i hf)
  closed b i name f hf hdir hne hlong hlook := by
    rw [hs.isDir hf] at hdir
    rw [hs.lookup h hf hdir] at hlook
    exact h.closed b i name f hf hdir hne hlong hlook
  attached b i n hf hdir hlt := by
    rw [hs.isDir hf] at hdir
    rw [hs.dirBlocks hf] at hlt
    obtain ⟨d, hd⟩ := h.attached b i n hf hdir hlt
    exact ⟨d, (hs.names hf hdir hlt d).mpr hd⟩
  used d hd := by
    rw [hs.dirBlock, hs.dirTable] at hd
    rw [hn, hfree]
    exact h.used d hd
  apart d hd := by
    rw [hs.dirTable]
    unfold FsState.isMeta
    rw [hn]
    exact h.apart d ((hs.dirBlock d).mp hd)

end SameFields

-- ---------------------------------------------------------------------------
-- States with the same directories
-- ---------------------------------------------------------------------------

/-- A `struct File` that the walk may look at. -/
def FilePlace (st : FsState) (b i : Nat) : Prop := (b = 1 ∧ i = 2) ∨ (DirBlock st b ∧ ∃ k < FILE2BLK, i = 64 * k)

theorem InTree.place (h : InTree st b i) : FilePlace st b i := by
  cases h with
  | root => exact Or.inl ⟨rfl, rfl⟩
  | @entry b' i' n _ k hf hdir hn hd hk => exact Or.inr ⟨⟨b', i', n, hf, hdir, hn, hd⟩, k, hk, rfl⟩

/-- What any walk reads is the same in both. -/
structure SameTree (st st' : FsState) : Prop where
  asked : Asked st st'
  mapped : ∀ c, (st.cache c).isSome → (st'.cache c).isSome
  inTree : ∀ b i, InTree st' b i ↔ InTree st b i
  isDir : ∀ b i, InTree st b i → st'.isDir b i = st.isDir b i
  dirBlocks : ∀ b i, InTree st b i → st'.dirBlocks b i = st.dirBlocks b i
  table : ∀ b i, InTree st b i → st'.word b (i + W_INDIRECT) = st.word b (i + W_INDIRECT)
  blocks : ∀ b i n, InTree st b i → st.isDir b i = true → n < st.dirBlocks b i →
    st'.blockOf b i n = st.blockOf b i n ∧ ∀ d, st'.Names b i n d ↔ st.Names b i n d
  byte : ∀ d k m, DirBlock st d → k < FILE2BLK → m < MAXNAMELEN → st'.byte d (64 * k) m = st.byte d (64 * k) m

namespace SameTree

theorem dirBlock (hs : SameTree st st') (d : Nat) : DirBlock st' d ↔ DirBlock st d := by
  constructor
  · rintro ⟨b, i, n, hf, hdir, hn, hd⟩
    have hf := (hs.inTree b i).mp hf
    rw [hs.isDir b i hf] at hdir
    rw [hs.dirBlocks b i hf] at hn
    exact ⟨b, i, n, hf, hdir, hn, ((hs.blocks b i n hf hdir hn).2 d).mp hd⟩
  · rintro ⟨b, i, n, hf, hdir, hn, hd⟩
    refine ⟨b, i, n, (hs.inTree b i).mpr hf, ?_, ?_, ((hs.blocks b i n hf hdir hn).2 d).mpr hd⟩
    · rw [hs.isDir b i hf]
      exact hdir
    · rw [hs.dirBlocks b i hf]
      exact hn

theorem dirTable (hs : SameTree st st') (t : Nat) : DirTable st' t ↔ DirTable st t := by
  refine exists_congr fun b => exists_congr fun i => ?_
  rw [hs.inTree b i]
  refine and_congr_right fun hf => ?_
  rw [hs.isDir b i hf, hs.dirBlocks b i hf, hs.table b i hf]

theorem refl (st : FsState) : SameTree st st where
  asked := .refl st
  mapped _ hc := hc
  inTree _ _ := Iff.rfl
  isDir _ _ _ := rfl
  dirBlocks _ _ _ := rfl
  table _ _ _ := rfl
  blocks _ _ _ _ _ _ := ⟨rfl, fun _ => Iff.rfl⟩
  byte _ _ _ _ _ _ := rfl

theorem trans {st₁ st₂ : FsState} (h : SameTree st st₁) (h' : SameTree st₁ st₂) : SameTree st st₂ where
  asked := h.asked.trans h'.asked
  mapped c hc := h'.mapped c (h.mapped c hc)
  inTree b i := (h'.inTree b i).trans (h.inTree b i)
  isDir b i hf := (h'.isDir b i ((h.inTree b i).mpr hf)).trans (h.isDir b i hf)
  dirBlocks b i hf := (h'.dirBlocks b i ((h.inTree b i).mpr hf)).trans (h.dirBlocks b i hf)
  table b i hf := (h'.table b i ((h.inTree b i).mpr hf)).trans (h.table b i hf)
  blocks b i n hf hdir hn := by
    obtain ⟨hblock, hnames⟩ := h.blocks b i n hf hdir hn
    rw [← h.isDir b i hf] at hdir
    rw [← h.dirBlocks b i hf] at hn
    obtain ⟨hblock', hnames'⟩ := h'.blocks b i n ((h.inTree b i).mpr hf) hdir hn
    exact ⟨hblock'.trans hblock, fun d => (hnames' d).trans (hnames d)⟩
  byte d k m hd hk hm := (h'.byte d k m ((h.dirBlock d).mpr hd) hk hm).trans (h.byte d k m hd hk hm)

/-- Only `f_dir` and words outside of the directories may differ. -/
theorem of_words (hasked : Asked st st') (hmapped : ∀ c, (st.cache c).isSome → (st'.cache c).isSome)
    (hs : SameFields (InTree st) st st') : SameTree st st' := by
  refine ⟨hasked, hmapped, fun b i => ⟨fun hf => ?_, fun hf => ?_⟩, fun _ _ => hs.isDir, fun _ _ => hs.dirBlocks,
    fun _ _ => hs.indirect, fun _ _ _ hf hdir hn => ⟨hs.blockOf hf hdir hn, hs.names hf hdir hn⟩,
    fun _ _ _ hd hk hm => hs.byte hd hk hm⟩
  · induction hf with
    | root => exact .root
    | @entry b i n d k _ hd hn hnames hk hne ih =>
      rw [hs.isDir ih] at hd
      rw [hs.dirBlocks ih] at hn
      have hnames := (hs.names ih hd hn d).mp hnames
      rw [hs.fileName ⟨b, i, n, ih, hd, hn, hnames⟩ hk] at hne
      exact .entry ih hd hn hnames hk hne
  · induction hf with
    | root => exact .root
    | @entry b i n d k hf hd hn hnames hk hne ih =>
      rw [← hs.fileName ⟨b, i, n, hf, hd, hn, hnames⟩ hk] at hne
      have hnames := (hs.names hf hd hn d).mpr hnames
      rw [← hs.isDir hf] at hd
      rw [← hs.dirBlocks hf] at hn
      exact .entry ih hd hn hnames hk hne

end SameTree

theorem DirTree.same (h : DirTree st) (hs : SameTree st st') (hready : Ready st') (hn : st'.nblocks = st.nblocks)
    (hfree : ∀ c, st'.isFree c ↔ st.isFree c) : DirTree st' where
  ready := hready
  size := by rw [hn]; exact h.size
  attached b i n hf hdir hlt := by
    have hf := (hs.inTree b i).mp hf
    rw [hs.isDir b i hf] at hdir
    rw [hs.dirBlocks b i hf] at hlt
    obtain ⟨d, hd⟩ := h.attached b i n hf hdir hlt
    exact ⟨d, ((hs.blocks b i n hf hdir hlt).2 d).mpr hd⟩
  used d hd := by
    rw [hs.dirBlock, hs.dirTable] at hd
    rw [hn, hfree]
    exact h.used d hd
  apart d hd := by
    rw [hs.dirTable]
    unfold FsState.isMeta
    rw [hn]
    exact h.apart d ((hs.dirBlock d).mp hd)
  ends d k hd hk := by
    obtain ⟨m, hm, hzero⟩ := h.ends d k ((hs.dirBlock d).mp hd) hk
    exact ⟨m, hm, (hs.byte d k m ((hs.dirBlock d).mp hd) hk hm).trans hzero⟩

/-- The files of the tree. -/
theorem DirTree.walkTree (h : DirTree st) : WalkTree (InTree st) st where
  ready := h.ready
  size := h.size
  root := .root
  place _ _ := InTree.place
  attached := h.attached
  used := h.used
  apart := h.apart
  closed b i name f hf hdir hne hlong hlook := by
    obtain ⟨n, k, hn, hk, rfl⟩ := mem_filesFrom (Nat.le_of_eq (Nat.zero_add _)) (List.mem_of_find?_eq_some hlook)
    have hnamed : st.fileName (st.blockOf b i n) (64 * k) = name := by
      have hsome := List.find?_some hlook
      exact of_decide_eq_true hsome
    obtain ⟨d, b', j, hslot, hword, rfl⟩ := h.attached b i n hf hdir hn
    have hblock : st.blockOf b i n = (st.word b' j).toNat := by
      unfold FsState.blockOf
      rw [hslot]
    exact .entry hf hdir hn ⟨b', j, hslot, hword, hblock⟩ hk (hnamed ▸ hne)

-- ---------------------------------------------------------------------------
-- The blocks of a directory
-- ---------------------------------------------------------------------------

/-- A walk through the files `T` caches blocks that are in use, and sets `f_dir` of files. -/
structure Walked (T : Nat → Nat → Prop) (st st' : FsState) : Prop where
  asked : Asked st st'
  mapped : ∀ c, (st.cache c).isSome → (st'.cache c).isSome
  nblocks : st'.nblocks = st.nblocks
  free : ∀ c, st'.isFree c ↔ st.isFree c
  cached : ∀ c, st.isFree c → st'.cache c = st.cache c
  blocks : ∀ d, DirBlockIn T st' d ↔ DirBlockIn T st d
  word : ∀ c j, j < 1024 → (DirBlockIn T st c → ∀ k < FILE2BLK, j ≠ 64 * k + W_DIR) → st'.word c j = st.word c j

theorem Walked.refl (T : Nat → Nat → Prop) (st : FsState) : Walked T st st :=
  ⟨.refl st, fun _ hc => hc, rfl, fun _ => Iff.rfl, fun _ _ => rfl, fun _ => Iff.rfl, fun _ _ _ _ => rfl⟩

theorem Walked.trans {st₁ st₂ : FsState} (h : Walked T st st₁) (h' : Walked T st₁ st₂) : Walked T st st₂ where
  asked := h.asked.trans h'.asked
  mapped c hc := h'.mapped c (h.mapped c hc)
  nblocks := h'.nblocks.trans h.nblocks
  free c := (h'.free c).trans (h.free c)
  cached c hc := (h'.cached c ((h.free c).mpr hc)).trans (h.cached c hc)
  blocks d := (h'.blocks d).trans (h.blocks d)
  word c j hj hne := (h'.word c j hj fun hd => hne ((h.blocks c).mp hd)).trans (h.word c j hj hne)

/-- It stops only when the kernel has no page. -/
def walkContract (T : Nat → Nat → Prop) : Contract FsState Unit Stop where
  inv st _ := WalkTree T st
  moves st _ st' _ := Walked T st st'
  allowed st e := e = .kernelPanic ∧ ∃ n, st.mem n = false
  refl st _ := .refl T st
  trans h h' := h.trans h'
  back h h' := ⟨h'.1, h.asked.back h'.2⟩

/-- A walk keeps the tree. It stops only when the kernel has no page. -/
def treeContract : Contract FsState Unit Stop where
  inv st _ := DirTree st
  moves st _ st' _ := SameTree st st'
  allowed st e := e = .kernelPanic ∧ ∃ n, st.mem n = false
  refl st _ := .refl st
  trans h h' := h.trans h'
  back h h' := ⟨h'.1, h.asked.back h'.2⟩

theorem loadWord_run (hb : b < DISKMAX / BY2BLK) (hc : (st.cache b).isSome) (hj : j < 1024) :
    loadAt (addr b j) st = .ok (st.word b j, st) := by
  rw [word_mapped hc]
  exact loadAt_located (locate_addr hb hj) hc

theorem Walked.runs {α : Type} {x : FsM α} {a : α} {Q : α → FsState → Unit → Prop} (hw : Walked T st st')
    (h' : WalkTree T st') (hrun : x st = .ok (a, st')) (hQ : Q a st' ()) : Runs (walkContract T) x st () Q := by
  unfold Runs
  rw [hrun]
  exact ⟨(), h', hw, hQ⟩

namespace WalkTree

variable (h : WalkTree T st)
include h

theorem place_lt (hp : PlaceIn T st b i) : b < DISKMAX / BY2BLK ∧ i + 64 ≤ 1024 := by
  rcases hp with ⟨rfl, rfl⟩ | ⟨hb, k, hk, rfl⟩
  · decide
  · have hlt := (h.used b (Or.inl hb)).1
    simp only [FILE2BLK, BY2BLK, BY2PG, BY2FILE] at hk
    exact ⟨Nat.lt_of_lt_of_le hlt h.size, by omega⟩

/-- Words other than `f_dir` are enough. -/
theorem sameFields (hword : ∀ c j, j < 1024 → (DirBlockIn T st c → ∀ k < FILE2BLK, j ≠ 64 * k + W_DIR) →
    st'.word c j = st.word c j) : SameFields T st st' := by
  refine ⟨h.place, fun b i k hp hk hne => ?_, fun t j ht hj => hword t j hj fun hd => absurd ht (h.apart t hd).2⟩
  have hi := (h.place_lt hp).2
  refine hword b (i + k) (by omega) fun hd k' hk' heq => ?_
  rcases hp with ⟨rfl, rfl⟩ | ⟨-, k₀, -, rfl⟩
  · exact (h.apart 1 hd).1 (Or.inl rfl)
  · simp only [W_DIR] at heq hne
    omega

theorem walked (hready : Ready st') (hasked : Asked st st') (hmapped : ∀ c, (st.cache c).isSome → (st'.cache c).isSome)
    (hn : st'.nblocks = st.nblocks) (hfree : ∀ c, st'.isFree c ↔ st.isFree c)
    (hcached : ∀ c, st.isFree c → st'.cache c = st.cache c)
    (hword : ∀ c j, j < 1024 → (DirBlockIn T st c → ∀ k < FILE2BLK, j ≠ 64 * k + W_DIR) →
      st'.word c j = st.word c j) : WalkTree T st' ∧ Walked T st st' :=
  ⟨(h.sameFields hword).tree h hready hn hfree,
    hasked, hmapped, hn, hfree, hcached, (h.sameFields hword).dirBlock, hword⟩

theorem loadField (hp : PlaceIn T st b i) (hc : (st.cache b).isSome) (hk : k < 64) :
    loadAt (addr b (i + k)) st = .ok (st.word b (i + k), st) := by
  obtain ⟨hb, hi⟩ := h.place_lt hp
  exact loadWord_run hb hc (by omega)

/-- `read_block` of a block in use leaves the contents alone. -/
theorem readUsed_runs (hlt : d < st.nblocks) (hused : ¬ st.isFree d) :
    Runs (walkContract T) (readBlock d) st () fun _ st' _ => (st'.cache d).isSome ∧ st'.contents = st.contents := by
  rcases readBlock_run h.ready hlt hused with ⟨isnew, st', hrun, hasked⟩ | ⟨hrun, hmem⟩
  · obtain ⟨hready, hc, hcontents⟩ := readBlock_contents h.ready hrun
    have hpages : (∀ c, (st.cache c).isSome → (st'.cache c).isSome) ∧ ∀ c, st.isFree c → st'.cache c = st.cache c := by
      obtain ⟨-, -, ⟨-, rfl⟩ | ⟨-, mem, rfl⟩⟩ := readBlock_ok h.ready hrun
      · exact ⟨fun _ hsome => hsome, fun _ _ => rfl⟩
      · refine ⟨setPage_isSome _ d _, fun c hfree => FsState.setPage_of_ne _ ?_ _⟩
        rintro rfl
        exact hused hfree
    have hwords : ∀ c, (st.cache c).isSome → st'.words c = st.words c := by
      intro c hc
      rw [← contents_mapped hc, ← contents_mapped (hpages.1 c hc), hcontents]
    have hn : st'.nblocks = st.nblocks := by
      unfold FsState.nblocks
      rw [hwords 1 h.ready.superPage]
    have hfree : ∀ c, st'.isFree c ↔ st.isFree c := by
      intro c
      unfold FsState.isFree
      rw [hn]
      refine and_congr_right fun hc => ?_
      unfold Bitmap.isSet FsState.bits
      rw [hwords _ (h.ready.page hc)]
    obtain ⟨htree, hw⟩ := h.walked hready hasked hpages.1 hn hfree hpages.2 fun c j _ _ => by
      unfold FsState.word
      rw [hcontents]
    exact hw.runs htree hrun ⟨hc, hcontents⟩
  · exact .of_error hrun ⟨rfl, hmem⟩

/-- `read_block` of a block or a table of a directory. -/
theorem readBlock_runs (hd : DirBlockIn T st d ∨ DirTableIn T st d) :
    Runs (walkContract T) (readBlock d) st () fun _ st' _ => (st'.cache d).isSome ∧ st'.contents = st.contents :=
  h.readUsed_runs (h.used d hd).1 (h.used d hd).2

end WalkTree

theorem needBlock_named {va : Nat} {w : BitVec 32} (hload : loadAt va st = .ok (w, st)) (hw : w ≠ 0) (alloc : Bool) :
    needBlock va alloc st = .ok (0, st) := by
  unfold needBlock
  rw [run_bind hload, if_neg hw]
  rfl

namespace WalkTree

variable (h : WalkTree T st)
include h

/-- `file_block_walk` finds the slot of a block that is attached. -/
theorem fileBlockWalk_runs (hf : T b i) (hdir : st.isDir b i = true)
    (hc : (st.cache b).isSome) (hn : n < st.dirBlocks b i) :
    Runs (walkContract T) (fileBlockWalk (addr b i) n true) st () fun r st' _ => ∃ b' j, st.slot b i n = some (b', j) ∧
      r = .ok (addr b' j) ∧ (st'.cache b').isSome ∧ b' < DISKMAX / BY2BLK ∧ j < 1024 ∧
      st'.word b' j = st.word b' j := by
  obtain ⟨b', j, hs, hne, -⟩ := h.block hf hdir hn
  obtain ⟨hb, hi⟩ := h.place_lt (h.place b i hf)
  unfold fileBlockWalk
  unfold FsState.slot at hs ⊢
  refine .ite (fun hn' => ?_) fun hn' => ?_
  · rw [if_pos hn'] at hs ⊢
    have hlt : i + W_DIRECT + n < 1024 := by
      simp only [W_DIRECT, NDIRECT] at hn' ⊢
      omega
    exact .of_same rfl h ⟨b, _, rfl, congrArg Except.ok (addr_direct b i n), hc, hb, hlt, rfl⟩
  · rw [if_neg hn'] at hs ⊢
    split_ifs at hs with hn₂
    cases hs
    have htable : DirTableIn T st (st.word b (i + W_INDIRECT)).toNat := ⟨b, i, hf, hdir, by omega, rfl⟩
    have hload := h.loadField (h.place b i hf) hc (k := W_INDIRECT) (by decide)
    rw [if_pos hn₂.1, if_pos hn₂, addr_indirect]
    refine .bind_same (needBlock_named hload hn₂.2 true) (.bind_same hload ?_)
    refine (h.readBlock_runs (Or.inr htable)).bind ?_
    rintro _ st₁ _ h₁ hs₁ ⟨hc₁, hcontents⟩
    have hlt : (st.word b (i + W_INDIRECT)).toNat < DISKMAX / BY2BLK :=
      Nat.lt_of_lt_of_le (h.used _ (Or.inr htable)).1 h.size
    refine .of_same rfl h₁ ⟨_, n, rfl, rfl, hc₁, hlt, hn₂.1, ?_⟩
    unfold FsState.word
    rw [hcontents]

/-- `file_get_block` caches a block of a directory. -/
theorem fileGetBlock_runs (hf : T b i) (hdir : st.isDir b i = true)
    (hc : (st.cache b).isSome) (hn : n < st.dirBlocks b i) :
    Runs (walkContract T) (fileGetBlock (addr b i) n) st () fun r st' _ =>
      r = .ok (st.blockOf b i n) ∧ (st'.cache (st.blockOf b i n)).isSome := by
  obtain ⟨b', j, hs, hne, hblock⟩ := h.block hf hdir hn
  have hmap : Runs (walkContract T) (fileMapBlock (addr b i) n true) st () fun r _ _ => r = .ok (st.blockOf b i n) := by
    unfold fileMapBlock
    refine (h.fileBlockWalk_runs hf hdir hc hn).bind ?_
    rintro r st₁ _ h₁ hs₁ ⟨b'', j, hs', rfl, hc₁, hb₁, hj₁, hword⟩
    rw [hs] at hs'
    cases hs'
    have hload := loadWord_run hb₁ hc₁ hj₁
    rw [hword] at hload
    refine .bind_same (needBlock_named hload hne true) (.bind_same hload (.of_same rfl h₁ ?_))
    rw [hblock]
  unfold fileGetBlock
  refine hmap.bind ?_
  rintro r st₁ _ h₁ hs₁ rfl
  refine (WalkTree.readBlock_runs h₁ (Or.inl ((hs₁.blocks _).mpr (h.dirBlock hf hdir hn)))).bind ?_
  rintro _ st₂ _ h₂ _ ⟨hc₂, -⟩
  exact .of_same rfl h₂ ⟨rfl, hc₂⟩

-- ---------------------------------------------------------------------------
-- The files of a block
-- ---------------------------------------------------------------------------

theorem loadByte_run (hp : PlaceIn T st b i) (hc : (st.cache b).isSome) (hm : m < MAXNAMELEN) :
    loadByte (addr b i) m st = .ok (st.byte b i m, st) := by
  have hva : addr b i + m / 4 * 4 = addr b (i + m / 4) := by
    rw [Nat.mul_comm]
    exact addr_add b i (m / 4)
  simp only [MAXNAMELEN] at hm
  unfold loadByte
  rw [hva, run_bind (h.loadField hp hc (by omega))]
  rfl

/-- `strcmp` from byte `m` on: it ends within the field, as the name does. -/
theorem strcmpEq_run (hp : PlaceIn T st b i) (hc : (st.cache b).isSome) {name : List Nat}
    (hname : ∀ c ∈ name, c ≠ 0) (hlen : m + name.length < MAXNAMELEN) :
    strcmpEq (addr b i) m name st =
      .ok (decide (((List.range' m (MAXNAMELEN - m)).map (st.byte b i)).takeWhile (· ≠ 0) = name), st) := by
  induction name generalizing m with
  | nil =>
    rw [List.length_nil] at hlen
    have hsucc : MAXNAMELEN - m = (MAXNAMELEN - (m + 1)) + 1 := by omega
    unfold strcmpEq
    rw [run_bind (h.loadByte_run hp hc (by omega)), hsucc, List.range'_succ, List.map_cons]
    by_cases hm : st.byte b i m = 0
    · rw [List.takeWhile_cons_of_neg (by simpa using hm), decide_eq_true hm, decide_eq_true rfl]
      rfl
    · rw [List.takeWhile_cons_of_pos (by simpa using hm), decide_eq_false hm, decide_eq_false (List.cons_ne_nil _ _)]
      rfl
  | cons c cs ih =>
    rw [List.length_cons] at hlen
    have hsucc : MAXNAMELEN - m = (MAXNAMELEN - (m + 1)) + 1 := by omega
    have hc0 := hname c List.mem_cons_self
    unfold strcmpEq
    rw [run_bind (h.loadByte_run hp hc (by omega)), hsucc, List.range'_succ, List.map_cons]
    by_cases hm : st.byte b i m = c
    · have hne : st.byte b i m ≠ 0 := by rw [hm]; exact hc0
      rw [if_pos hm, List.takeWhile_cons_of_pos (by simpa using hne),
        ih (fun c' hmem => hname c' (List.mem_cons_of_mem c hmem)) (by omega), hm]
      simp only [List.cons.injEq, true_and]
    · rw [if_neg hm, decide_eq_false]
      · rfl
      · by_cases h0 : st.byte b i m = 0
        · rw [List.takeWhile_cons_of_neg (by simpa using h0)]
          exact (List.cons_ne_nil c cs).symm
        · rw [List.takeWhile_cons_of_pos (by simpa using h0)]
          exact fun heq => hm (List.cons.inj heq).1

/-- The files of a block from the `k`-th on. -/
theorem findName_run (hd : DirBlockIn T st d) (hc : (st.cache d).isSome) {name : List Nat} (hname : ∀ c ∈ name, c ≠ 0)
    (hlen : name.length < MAXNAMELEN) (hk : k + n ≤ FILE2BLK) : findName name n (addr d (64 * k)) st =
      .ok ((((List.range' k n).map fun k => (d, 64 * k)).find? (st.named name)).map fun f => addr f.1 f.2, st) := by
  induction n generalizing k with
  | zero => rfl
  | succ n ih =>
    have hlt : k < FILE2BLK := by omega
    have hcmp : strcmpEq (addr d (64 * k)) 0 name st = .ok (decide (st.fileName d (64 * k) = name), st) := by
      unfold FsState.fileName
      rw [List.range_eq_range']
      exact h.strcmpEq_run (m := 0) (Or.inr ⟨hd, k, hlt, rfl⟩) hc hname (by omega)
    have hnext : addr d (64 * k) + BY2FILE = addr d (64 * (k + 1)) := addr_add d (64 * k) 64
    unfold findName
    rw [run_bind hcmp, List.range'_succ, List.map_cons]
    by_cases hnamed : st.fileName d (64 * k) = name
    · rw [List.find?_cons_of_pos (by exact decide_eq_true hnamed), if_pos (by exact decide_eq_true hnamed)]
      rfl
    · rw [List.find?_cons_of_neg (by unfold FsState.named; simpa using hnamed),
        if_neg fun heq => hnamed (of_decide_eq_true heq), hnext]
      exact ih (by omega)

/-- `dir_lookup` sets `f_dir` of the file it found: no walk looks there. -/
theorem setDir_runs (hd : DirBlockIn T st d) (hc : (st.cache d).isSome) (hk : k < FILE2BLK) (w : BitVec 32) :
    Runs (walkContract T) (storeAt (addr d (64 * k) + F_DIR) w) st () fun _ st' _ => ∀ c, (st.cache c).isSome →
      (st'.cache c).isSome := by
  obtain ⟨hlt, hi⟩ := h.place_lt (Or.inr ⟨hd, k, hk, rfl⟩)
  obtain ⟨hmeta, -⟩ := h.apart d hd
  have hj : 64 * k + W_DIR < 1024 := by
    simp only [W_DIR]
    omega
  have hplain : Plain st d (Fin.ofNat 1024 (64 * k + W_DIR)) :=
    ⟨hc, fun heq => absurd (Or.inl heq) hmeta, fun c hlt heq => hmeta (Or.inr ⟨c, hlt, heq⟩)⟩
  have hmapped : ∀ c, (st.cache c).isSome →
      ((st.storeWord d (Fin.ofNat 1024 (64 * k + W_DIR)) w).cache c).isSome := fun c hsome => by
    rw [st.storeWord_isSome hc]
    exact hsome
  have hcached : ∀ c, st.isFree c → (st.storeWord d (Fin.ofNat 1024 (64 * k + W_DIR)) w).cache c = st.cache c := by
    intro c hfree
    refine FsState.setPage_of_ne _ ?_ _
    rintro rfl
    exact (h.used c (Or.inl hd)).2 hfree
  obtain ⟨htree, hw⟩ := h.walked (hplain.ready h.ready w) (storeWord_asked ..) hmapped (hplain.nblocks w)
    (fun c => hplain.isFree w c) hcached fun c j hj' hne => by
      rw [word_storeWord hc hj hj', if_neg]
      rintro ⟨rfl, rfl⟩
      exact hne hd k hk rfl
  rw [addr_dir]
  exact hw.runs htree (storeAt_located (locate_addr hlt hj) hc w) hmapped

end WalkTree

-- ---------------------------------------------------------------------------
-- dir_lookup and walk_path
-- ---------------------------------------------------------------------------

/-- What `dir_lookup` returns for the file it found. -/
def lookupResult (f : Option (Nat × Nat)) : Except Int Nat :=
  match f with
  | some f => .ok (addr f.1 f.2)
  | none => .error (-E_NOT_FOUND)

theorem WalkTree.dirLookupFrom_runs (h : WalkTree T st) (hf : T b i) (hdir : st.isDir b i = true)
    (hc : (st.cache b).isSome) {name : List Nat} (hname : ∀ c ∈ name, c ≠ 0) (hlen : name.length < MAXNAMELEN)
    (hle : n + m = st.dirBlocks b i) :
    Runs (walkContract T) (dirLookupFrom (addr b i) name m n) st () fun r st' _ =>
      r = lookupResult ((st.filesFrom b i n m).find? (st.named name)) ∧
        ∀ f, (st.filesFrom b i n m).find? (st.named name) = some f → (st'.cache f.1).isSome := by
  induction m generalizing n st with
  | zero => exact .of_same rfl h ⟨rfl, nofun⟩
  | succ m ih =>
    have hn : n < st.dirBlocks b i := by omega
    have hd := h.dirBlock hf hdir hn
    have hfiles : st.filesFrom b i n (m + 1) =
        ((List.range' 0 FILE2BLK).map fun k => (st.blockOf b i n, 64 * k)) ++ st.filesFrom b i (n + 1) m := by
      unfold FsState.filesFrom
      rw [List.range'_succ, List.flatMap_cons, List.range_eq_range']
    unfold dirLookupFrom
    refine (h.fileGetBlock_runs hf hdir hc hn).bind ?_
    rintro r st₁ _ h₁ hw₁ ⟨rfl, hc₁⟩
    have hs₁ := h.sameFields hw₁.word
    have hd₁ : DirBlockIn T st₁ (st.blockOf b i n) := (hw₁.blocks _).mpr hd
    -- the names are those of the start
    have hnamed : ∀ f ∈ (List.range' 0 FILE2BLK).map fun k => (st.blockOf b i n, 64 * k),
        st₁.named name f = st.named name f := by
      intro f hmem
      obtain ⟨k, hk, rfl⟩ := List.mem_map.mp hmem
      have hrange := List.mem_range'_1.mp hk
      unfold FsState.named
      rw [hs₁.fileName hd (by omega)]
    have hfind := WalkTree.findName_run h₁ hd₁ hc₁ hname hlen (k := 0) (n := FILE2BLK) (by decide)
    rw [List.find?_congr hnamed] at hfind
    refine .bind_same (show findName name FILE2BLK (diskaddr (st.blockOf b i n)) st₁ = _ from hfind) ?_
    rw [hfiles, List.find?_append]
    cases hlook : ((List.range' 0 FILE2BLK).map fun k => (st.blockOf b i n, 64 * k)).find? (st.named name) with
    | some f =>
      obtain ⟨k, hk, rfl⟩ := List.mem_map.mp (List.mem_of_find?_eq_some hlook)
      have hrange := List.mem_range'_1.mp hk
      refine (WalkTree.setDir_runs h₁ hd₁ hc₁ (show k < FILE2BLK by omega) _).bind ?_
      intro _ st₂ _ h₂ _ hmapped
      refine .of_same rfl h₂ ⟨rfl, fun f hf => ?_⟩
      cases hf
      exact hmapped _ hc₁
    | none =>
      rw [Option.none_or, ← hs₁.find h hf hdir (by omega)]
      exact ih h₁ ((hs₁.isDir hf).trans hdir) (hw₁.mapped b hc) (by rw [hs₁.dirBlocks hf]; omega)

/-- `dir_lookup` finds the first file with the name. -/
theorem WalkTree.dirLookup_runs (h : WalkTree T st) (hf : T b i) (hdir : st.isDir b i = true)
    (hc : (st.cache b).isSome) {name : List Nat} (hname : ∀ c ∈ name, c ≠ 0) (hlen : name.length < MAXNAMELEN) :
    Runs (walkContract T) (dirLookup (addr b i) name) st () fun r st' _ => r = lookupResult (st.lookup b i name) ∧
      ∀ f, st.lookup b i name = some f → (st'.cache f.1).isSome := by
  unfold dirLookup
  rw [addr_size]
  exact .bind_same (h.loadField (h.place b i hf) hc (by decide))
    (h.dirLookupFrom_runs hf hdir hc hname hlen (Nat.zero_add _))

/-- The loop of `walk_path`, with a round for each part. -/
theorem WalkTree.walkFrom_runs (h : WalkTree T st) (hf : T b i) (hc : (st.cache b).isSome) (dir : Option Nat)
    {path : List Nat} (hpath : ∀ c ∈ path, c ≠ 0) (hhead : path.head? ≠ some slash) (hn : path.length ≤ n) :
    Runs (walkContract T) (walkFrom n dir (addr b i) path) st () fun w _ _ =>
      w = st.resolve dir b i (parts slash path) := by
  induction n generalizing st b i dir path with
  | zero =>
    obtain rfl := List.length_eq_zero_iff.mp (Nat.le_zero.mp hn)
    exact .of_same rfl h (by rw [parts_nil]; rfl)
  | succ n ih =>
    unfold walkFrom
    refine .ite (fun hnil => .of_same rfl h ?_) fun hne => ?_
    · rw [hnil, parts_nil]
      rfl
    -- the part in front, and what follows the slashes behind it
    obtain ⟨c, cs, rfl⟩ := List.exists_cons_of_ne_nil hne
    have hcs : c ≠ slash := fun heq => hhead (by rw [heq]; rfl)
    have htake : (c :: cs).takeWhile (· ≠ slash) = c :: cs.takeWhile (· ≠ slash) :=
      List.takeWhile_cons_of_pos (by simpa using hcs)
    have hfirst : (c :: cs).takeWhile (· ≠ slash) ≠ [] := by
      rw [htake]
      exact List.cons_ne_nil _ _
    rw [parts_scan hfirst]
    show Runs (walkContract T) _ st () fun w _ _ => w = st.resolve dir b i (_ :: parts slash (skipSlash _))
    generalize hrest : skipSlash ((c :: cs).dropWhile (· ≠ slash)) = rest
    have hsuffix : rest <:+ cs := by
      rw [← hrest, List.dropWhile_cons_of_pos (by simpa using hcs)]
      exact (List.dropWhile_suffix _).trans (List.dropWhile_suffix _)
    generalize hname : (c :: cs).takeWhile (· ≠ slash) = name at hfirst
    have hzero : ∀ c' ∈ name, c' ≠ 0 := fun c' hmem => by
      rw [← hname] at hmem
      exact hpath c' (List.takeWhile_subset _ hmem)
    have hparts : ∀ p ∈ parts slash rest, p ≠ [] := fun p hp => ne_nil_of_mem_parts hp
    unfold FsState.resolve
    refine .ite (fun hlong => .of_same rfl h (by rw [if_pos hlong])) fun hshort => ?_
    have hplace := h.place b i hf
    rw [if_neg hshort, addr_type]
    refine .bind_same (h.loadField hplace hc (by decide)) (.ite (fun htype => .of_same rfl h ?_) fun htype => ?_)
    · rw [if_neg]
      intro hdir
      exact htype (of_decide_eq_true hdir)
    have hdir : st.isDir b i = true := decide_eq_true (not_not.mp htype)
    rw [if_pos hdir]
    have hrest_head : rest.head? ≠ some slash := by
      rw [← hrest]
      exact head?_skip _
    refine (h.dirLookup_runs hf hdir hc hzero (Nat.not_le.mp hshort)).bind ?_
    rintro r st₁ _ h₁ hw₁ ⟨rfl, hcached⟩
    cases hlook : st.lookup b i name with
    | none =>
      refine .ite (fun hlast => .of_same rfl h₁ ?_) fun hmore => .of_same rfl h₁ ?_
      · rw [if_pos ((parts_eq_nil hrest_head).mpr hlast.2)]
      · rw [if_neg fun hnil => hmore ⟨rfl, (parts_eq_nil hrest_head).mp hnil⟩]
    | some f =>
      have hin := h.closed b i name f hf hdir hfirst (Nat.not_le.mp hshort) hlook
      have hlen : rest.length ≤ n := by
        have hle := hsuffix.length_le
        rw [List.length_cons] at hn
        omega
      refine (ih h₁ hin (hcached f hlook) (some (addr b i))
        (fun c' hmem => hpath c' (List.mem_cons_of_mem c (hsuffix.subset hmem))) hrest_head hlen).mono ?_
      rintro w st₂ _ h₂ _ rfl
      exact (h.sameFields hw₁.word).resolve h hin (some (addr b i)) hparts

/-- `walk_path` from the root. -/
theorem WalkTree.walkPath_runs (h : WalkTree T st) {path : List Nat} (hpath : ∀ c ∈ path, c ≠ 0) :
    Runs (walkContract T) (walkPath path) st () fun w _ _ => w = st.resolve none 1 2 (parts slash path) := by
  have hskip : parts slash (skipSlash path) = parts slash path := parts_skip path
  have hlen : (skipSlash path).length ≤ path.length := (List.dropWhile_suffix _).length_le
  have hzero : ∀ c ∈ skipSlash path, c ≠ 0 := fun c hmem => hpath c ((List.dropWhile_suffix _).subset hmem)
  have hruns := h.walkFrom_runs h.root h.ready.superPage none hzero (head?_skip path) hlen
  rw [hskip] at hruns
  exact hruns

/-- A walk through the whole tree. -/
theorem DirTree.of_walk {α : Type} {x : FsM α} {Q : α → FsState → Unit → Prop} (h : DirTree st)
    (hx : Runs (walkContract (InTree st)) x st () Q) : Runs treeContract x st () Q := by
  cases hrun : x st with
  | error e => exact .of_error hrun (hx.error hrun)
  | ok p =>
    obtain ⟨a, st'⟩ := p
    obtain ⟨_, htree, hw, hq⟩ := hx.ok hrun
    have hs := SameTree.of_words hw.asked hw.mapped (h.walkTree.sameFields hw.word)
    exact .of_ok (C := treeContract) hrun (h.same hs htree.ready hw.nblocks hw.free) hs hq

end Mos.Fs
