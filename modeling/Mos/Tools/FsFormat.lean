import Mathlib.Data.List.DropRight
import Mos.Lib.Except
import Mos.Fs.File

/-!
# MOS on RISC-V — the image of a file system

`tools/fsformat.c`, which runs on the host and fills `disk[]`, the blocks of the image, from
files and directories of the host. Blocks are handed out from `nextbno` on and are never given
back.

A block is of use as the files of a directory, as words (an index block, the bitmap) or as the
data of a file; a block gets its type when it is handed out and is used as that alone, so the
image keeps its files and its words apart, and the data of files is left out. A file is found
through a `FilePtr`; what `disk[n]` is used for is preceded by `useBlock n`, and a run stops
at the first `n` that the array does not have, or the first name that runs past `f_name`: the
language says nothing of what comes next.

The host is an argument: what `stat`, `opendir`, `readdir`, `lseek` and `read` answer. A path and
a name are the bytes before the NUL.
-/

namespace Mos.Tools

open Mos.Lib
open Mos.Fs (BY2BLK BIT2BLK NDIRECT NINDIRECT FILE2BLK MAXNAMELEN slash)

def NBLOCK : Nat := 1024

def BLOCK_BOOT : Nat := 1
def BLOCK_BMAP : Nat := 2
def BLOCK_SUPER : Nat := 3
def BLOCK_DATA : Nat := 4
def BLOCK_FILE : Nat := 5
def BLOCK_INDEX : Nat := 6

def FTYPE_REG : Nat := 0
def FTYPE_DIR : Nat := 1
def FS_MAGIC : Nat := 0x68286097

-- ---------------------------------------------------------------------------
-- The image
-- ---------------------------------------------------------------------------

/-- `struct File`, less the fields of memory. -/
structure File where
  fName : Nat → Nat
  fSize : Nat
  fType : Nat
  fDirect : Nat → Nat
  fIndirect : Nat

/-- A file of zeros. -/
def File.zero : File := ⟨fun _ => 0, 0, 0, fun _ => 0, 0⟩

/-- `&super.s_root`, or file `k` of block `bno`. -/
inductive FilePtr where
  | root
  | slot (bno k : Nat)
  deriving DecidableEq

structure Super where
  sMagic : Nat
  sNblocks : Nat
  sRoot : File

/-- The globals of the tool. `disk[1].data` gets the super block at the end only. -/
structure Image where
  nbitblock : Nat
  nextbno : Nat
  sMagic : Nat
  sNblocks : Nat
  type : Nat → Nat
  word : Nat → Nat → Nat
  file : FilePtr → File
  block1 : Super

/-- The globals before `main`. -/
def Image.zero : Image where
  nbitblock := 0
  nextbno := 0
  sMagic := 0
  sNblocks := 0
  type := fun _ => 0
  word := fun _ _ => 0
  file := fun _ => .zero
  block1 := ⟨0, 0, .zero⟩

/-- Why the tool stops: a failed `assert`, `exit`, or what the language does not define. -/
inductive Halt where
  | assertion
  | exit (status : Nat)
  | badIndex (n : Nat)
  | overrun
  deriving DecidableEq

abbrev Tool := StateT Image (Except Halt)

/-- `disk[n]`. -/
def useBlock (n : Nat) : Tool Unit := if n < NBLOCK then return () else throw (.badIndex n)

def assert (c : Prop) [Decidable c] : Tool Unit := if c then return () else throw .assertion

def setType (n type : Nat) : Tool Unit :=
  modify fun img => { img with type := Function.update img.type n type }

def setWord (n i w : Nat) : Tool Unit :=
  modify fun img => { img with word := Function.update img.word n (Function.update (img.word n) i w) }

def setFile (f : FilePtr) (upd : File → File) : Tool Unit :=
  modify fun img => { img with file := Function.update img.file f (upd (img.file f)) }

def File.directory (F : File) : File := { F with fType := FTYPE_DIR }

/-- `strcpy` to the name, with its NUL. -/
def File.strcpy (s : List Nat) (F : File) : File :=
  { F with fName := fun k => if k ≤ s.length then s.getD k 0 else F.fName k }

/-- `strncpy` to the name, padded with zeros. -/
def File.strncpy (s : List Nat) (n : Nat) (F : File) : File :=
  { F with fName := fun k => if k < n then s.getD k 0 else F.fName k }

/-- `strcpy(f->f_name, s)`. -/
def strcpyName (f : FilePtr) (s : List Nat) : Tool Unit :=
  if s.length < MAXNAMELEN then setFile f (File.strcpy s) else throw .overrun

-- ---------------------------------------------------------------------------
-- The blocks
-- ---------------------------------------------------------------------------

def initDisk : Tool Unit := do
  useBlock 0
  setType 0 BLOCK_BOOT
  let nbitblock := (NBLOCK + BIT2BLK - 1) / BIT2BLK
  modify fun img => { img with nbitblock := nbitblock, nextbno := 2 + nbitblock }
  (List.range nbitblock).forM fun i => do
    useBlock (2 + i)
    setType (2 + i) BLOCK_BMAP
  (List.range nbitblock).forM fun i => do
    useBlock (2 + i)
    modify fun img => { img with word := Function.update img.word (2 + i) fun _ => 0xffffffff }
  if NBLOCK ≠ nbitblock * BIT2BLK then
    let diff := NBLOCK % BIT2BLK / 8
    useBlock (2 + (nbitblock - 1))
    modify fun img => { img with word := Function.update img.word (2 + (nbitblock - 1)) fun i =>
      if i * 4 < diff then img.word (2 + (nbitblock - 1)) i else 0 }
  useBlock 1
  setType 1 BLOCK_SUPER
  modify fun img => { img with sMagic := FS_MAGIC, sNblocks := NBLOCK }
  setFile .root File.directory
  strcpyName .root [slash]

def nextBlock (type : Nat) : Tool Nat := do
  let bno := (← get).nextbno
  useBlock bno
  setType bno type
  modify fun img => { img with nextbno := bno + 1 }
  return bno

def flushBitmap : Tool Unit := do
  (List.range (← get).nextbno).forM fun i => do
    useBlock (2 + i / BIT2BLK)
    let w := (← get).word (2 + i / BIT2BLK) (i % BIT2BLK / 32)
    setWord (2 + i / BIT2BLK) (i % BIT2BLK / 32) (w &&& (0xffffffff ^^^ 1 <<< (i % 32)))

/-- The loop of `finish_fs` over `n` blocks; `written i` says whether block `i` could be written to the file
as a whole. -/
@[irreducible] def dumpBlocks (written : Nat → Bool) (n : Nat) : Tool Unit :=
  (List.range n).forM fun i => do
    useBlock i
    assert (written i = true)

def finishFs (written : Nat → Bool) : Tool Unit := do
  useBlock 1
  modify fun img => { img with block1 := ⟨img.sMagic, img.sNblocks, img.file .root⟩ }
  dumpBlocks written 1024

/-- The index block of a file, a new one if there is none. -/
def indexBlock (f : FilePtr) : Tool Nat := do
  let ind := ((← get).file f).fIndirect
  if ind = 0 then
    let bno ← nextBlock BLOCK_INDEX
    setFile f fun F => { F with fIndirect := bno }
    return bno
  else return ind

def saveBlockLink (f : FilePtr) (nblk bno : Nat) : Tool Unit := do
  assert (nblk < NINDIRECT)
  if nblk < NDIRECT then
    setFile f fun F => { F with fDirect := Function.update F.fDirect nblk bno }
  else
    let ind ← indexBlock f
    useBlock ind
    setWord ind nblk bno

/-- `f_size += BY2BLK`. -/
def File.grown (F : File) : File := { F with fSize := (F.fSize + BY2BLK) % 2 ^ 32 }

@[simp] theorem File.grown_fName (F : File) : F.grown.fName = F.fName := by
  simp only [File.grown]

@[simp] theorem File.grown_fSize (F : File) : F.grown.fSize = (F.fSize + BY2BLK) % 2 ^ 32 := by
  simp only [File.grown]

@[simp] theorem File.grown_fDirect (F : File) : F.grown.fDirect = F.fDirect := by
  simp only [File.grown]

@[simp] theorem File.grown_fIndirect (F : File) : F.grown.fIndirect = F.fIndirect := by
  simp only [File.grown]

def makeLinkBlock (dirf : FilePtr) (nblk : Nat) : Tool Nat := do
  let bno ← nextBlock BLOCK_FILE
  saveBlockLink dirf nblk bno
  setFile dirf File.grown
  return bno

/-- The number of block `i` of a directory. -/
def linkOf (dirf : FilePtr) (i : Nat) : Tool Nat := do
  let F := (← get).file dirf
  if i < NDIRECT then return F.fDirect i
  else
    useBlock F.fIndirect
    return (← get).word F.fIndirect i

/-- The loop of `create_file` over `n` blocks from block `i` on. -/
def findUnused (dirf : FilePtr) : Nat → Nat → Tool (Option FilePtr)
  | 0, _ => return none
  | n + 1, i => do
    let bno ← linkOf dirf i
    useBlock bno
    let img ← get
    match (List.range FILE2BLK).find? fun k => (img.file (.slot bno k)).fName 0 = 0 with
    | some k => return some (.slot bno k)
    | none => findUnused dirf n (i + 1)

def createFile (dirf : FilePtr) : Tool FilePtr := do
  let nblk := ((← get).file dirf).fSize / BY2BLK
  match ← findUnused dirf nblk 0 with
  | some f => return f
  | none =>
    let bno ← makeLinkBlock dirf nblk
    useBlock bno
    return .slot bno 0

-- ---------------------------------------------------------------------------
-- Files and directories of the host
-- ---------------------------------------------------------------------------

/-- A name that `readdir` gives. -/
structure Name where
  bytes : List Nat
  nonempty : bytes ≠ []
  noNul : 0 ∉ bytes
  noSlash : slash ∉ bytes

/-- `.` or `..`. -/
def Name.isDot (name : Name) : Bool := name.bytes = [46] || name.bytes = [46, 46]

/-- What the host says of a file: `size` is what `lseek` gives for its end, and `reads` is the number of
times that `read` fills at least a part of a block. -/
structure HostFile where
  size : Nat
  reads : Nat

/-- A regular file of `n` bytes. -/
def HostFile.ofBytes (n : Nat) : HostFile := ⟨n, (n + BY2BLK - 1) / BY2BLK⟩

mutual
/-- A file, a directory that `opendir` refuses, or one with what `readdir` gives. -/
inductive Node where
  | file (f : HostFile)
  | locked
  | dir (entries : Entries)

inductive Entries where
  | nil
  | cons (name : Name) (node : Node) (rest : Entries)
end

/-- What follows the last slash. -/
def afterSlash (path : List Nat) : List Nat := path.rtakeWhile (· ≠ slash)

/-- `basename` of `libgen.h`. -/
def basename (path : List Nat) : List Nat :=
  if path = [] then [46]
  else
    let cut := path.rdropWhile (· = slash)
    if cut = [] then [slash] else afterSlash cut

/-- The loop of `write_file`, with `n` reads to come; the last one gives nothing. -/
def readBlocks (target : FilePtr) : Nat → Nat → Tool Unit
  | 0, _ => do useBlock (← get).nextbno
  | n + 1, iblk => do
    useBlock (← get).nextbno
    let bno ← nextBlock BLOCK_DATA
    saveBlockLink target iblk bno
    readBlocks target n (iblk + 1)

/-- The size and the type of a file that is not a directory. -/
def File.regular (size : Nat) (F : File) : File := { F with fSize := size % 2 ^ 32, fType := FTYPE_REG }

def writeFile (dirf : FilePtr) (path : List Nat) (f : HostFile) : Tool Unit := do
  let target ← createFile dirf
  strcpyName target (afterSlash path)
  setFile target (File.regular f.size)
  readBlocks target f.reads 0

/-- `write_directory` up to its loop. -/
def enterDirectory (dirf : FilePtr) (path : List Nat) : Tool FilePtr := do
  let pdir ← createFile dirf
  setFile pdir (File.strncpy (basename path) (MAXNAMELEN - 1))
  if ((← get).file pdir).fName (MAXNAMELEN - 1) ≠ 0 then throw (.exit 1)
  setFile pdir File.directory
  return pdir

mutual
/-- `write_directory` of a directory, `write_file` of anything else. -/
def writeNode (dirf : FilePtr) (path : List Nat) : Node → Tool Unit
  | .file f => writeFile dirf path f
  | .locked => return ()
  | .dir entries => do
    let pdir ← enterDirectory dirf path
    writeEntries pdir path entries

/-- The loop of `write_directory`. -/
def writeEntries (pdir : FilePtr) (path : List Nat) : Entries → Tool Unit
  | .nil => return ()
  | .cons name node rest => do
    if !name.isDot then writeNode pdir (path ++ slash :: name.bytes) node
    writeEntries pdir path rest
end

/-- A file or directory given by its path. The path of a file does not end with a slash. -/
structure Given where
  path : List Nat
  node : Node
  noNul : 0 ∉ path
  named : ∀ f, node = .file f → afterSlash path ≠ []

/-- What `stat` finds at an argument: nothing, neither file nor directory, or one of these. -/
inductive Arg where
  | missing
  | special
  | given (g : Given)

/-- The loop of `main`. -/
def writeArgs : List Arg → Tool Unit
  | [] => return ()
  | .missing :: _ => throw .assertion
  | .special :: _ => throw (.exit 2)
  | .given g :: args => do
    writeNode .root g.path g.node
    writeArgs args

/-- `main`, from `argv[2]` on. -/
def fsformat (args : List Arg) (written : Nat → Bool) : Tool Unit := do
  initDisk
  if args = [] then throw (.exit 1)
  writeArgs args
  flushBitmap
  finishFs written

end Mos.Tools
