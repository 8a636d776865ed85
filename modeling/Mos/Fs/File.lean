import Mos.Lib.Bytes
import Mos.Fs.Cache

/-!
# MOS on RISC-V — files and directories

The second half of `fs/fs.c`. A `struct File` lies in a cached block, and a pointer
to it, or to a slot with a block number, is an address: the field at byte offset
`n` of the file at `f` is at `f + n`. An access below `UTEMP` is one the kernel
panics on; the server has other pages than those of the disk, and a pointer to
them is a wild one here.

A path and a name are the bytes before the NUL.
-/

namespace Mos.Fs

open Mos.Lib Mos.Kern

def NDIRECT : Nat := 10
def NINDIRECT : Nat := BY2BLK / 4
def BY2FILE : Nat := 256
def FILE2BLK : Nat := BY2BLK / BY2FILE
def MAXNAMELEN : Nat := 128
def FTYPE_DIR : BitVec 32 := 1#32

/-- The offsets of the fields of `struct File`. -/
def F_SIZE : Nat := 128
def F_TYPE : Nat := 132
def F_DIRECT : Nat := 136
def F_INDIRECT : Nat := 176
def F_DIR : Nat := 180

/-- The address of a block in the cache. -/
def diskaddr (b : Nat) : Nat := DISKMAP + b * BY2BLK

/-- `&super->s_root`. -/
def sRoot : Nat := diskaddr 1 + 8

/-- The block and the word at an address. -/
def locate (va : Nat) : Except Stop (Nat × Fin 1024) :=
  if va < UTEMP then .error .kernelPanic
  else if DISKMAP ≤ va ∧ va < DISKMAP + DISKMAX ∧ va % 4 = 0 then
    .ok ((va - DISKMAP) / BY2BLK, Fin.ofNat 1024 ((va - DISKMAP) / 4))
  else .error .wildPointer

def loadAt (va : Nat) : FsM (BitVec 32) := do
  let (b, i) ← locate va
  load b i

def storeAt (va : Nat) (w : BitVec 32) : FsM Unit := do
  let (b, i) ← locate va
  store b i w

/-- Byte `k` from `va` on, an aligned address. -/
def loadByte (va k : Nat) : FsM Nat := do
  let w ← loadAt (va + k / 4 * 4)
  return getByte w.toNat (k % 4)

-- ---------------------------------------------------------------------------
-- The blocks of a file
-- ---------------------------------------------------------------------------

/-- Step 2 of `file_block_walk` and of `file_map_block`: the slot at `ptr` names a
block, or there is an error. -/
def needBlock (ptr : Nat) (alloc : Bool) : FsM Int := do
  if (← loadAt ptr) = 0 then
    if alloc then
      match ← allocBlock with
      | .error r => return r
      | .ok bno =>
        storeAt ptr (BitVec.ofNat 32 bno)
        return 0
    else return -E_NOT_FOUND
  else return 0

/-- `file_block_walk`: the address of the slot. -/
def fileBlockWalk (f filebno : Nat) (alloc : Bool) : FsM (Except Int Nat) := do
  if filebno < NDIRECT then return .ok (f + F_DIRECT + 4 * filebno)
  else if filebno < NINDIRECT then
    let r ← needBlock (f + F_INDIRECT) alloc
    if r < 0 then return .error r
    else
      let ind := (← loadAt (f + F_INDIRECT)).toNat
      let _ ← readBlock ind
      return .ok (diskaddr ind + 4 * filebno)
  else return .error (-E_INVAL)

def fileMapBlock (f filebno : Nat) (alloc : Bool) : FsM (Except Int Nat) := do
  match ← fileBlockWalk f filebno alloc with
  | .error r => return .error r
  | .ok ptr =>
    let r ← needBlock ptr alloc
    if r < 0 then return .error r
    else return .ok (← loadAt ptr).toNat

def fileClearBlock (f filebno : Nat) : FsM Int := do
  match ← fileBlockWalk f filebno false with
  | .error r => return r
  | .ok ptr =>
    let bno ← loadAt ptr
    if bno ≠ 0 then
      freeBlock bno.toNat
      storeAt ptr 0
    return 0

/-- `file_get_block`: the number of the block. -/
def fileGetBlock (f filebno : Nat) : FsM (Except Int Nat) := do
  match ← fileMapBlock f filebno true with
  | .error r => return .error r
  | .ok diskbno =>
    let _ ← readBlock diskbno
    return .ok diskbno

def fileDirty (f offset : Nat) : FsM Int := do
  match ← fileMapBlock f (offset / BY2BLK) false with
  | .error r => return r
  | .ok diskbno => dirtyBlock diskbno

-- ---------------------------------------------------------------------------
-- Directories and paths
-- ---------------------------------------------------------------------------

/-- `strcmp(name, va) == 0`, from byte `k` on. -/
def strcmpEq (va : Nat) : Nat → List Nat → FsM Bool
  | k, [] => do return decide ((← loadByte va k) = 0)
  | k, c :: cs => do
    if (← loadByte va k) = c then strcmpEq va (k + 1) cs else return false

/-- The loop over the files of a block, `n` of them from `f` on. -/
def findName (name : List Nat) : Nat → Nat → FsM (Option Nat)
  | 0, _ => return none
  | n + 1, f => do
    if ← strcmpEq f 0 name then return some f else findName name n (f + BY2FILE)

/-- The loop of `dir_lookup`, over `n` blocks from block `i` on. -/
def dirLookupFrom (dir : Nat) (name : List Nat) : Nat → Nat → FsM (Except Int Nat)
  | 0, _ => return .error (-E_NOT_FOUND)
  | n + 1, i => do
    match ← fileGetBlock dir i with
    | .error r => return .error r
    | .ok b =>
      match ← findName name FILE2BLK (diskaddr b) with
      | some f =>
        storeAt (f + F_DIR) (BitVec.ofNat 32 dir)
        return .ok f
      | none => dirLookupFrom dir name n (i + 1)

def dirLookup (dir : Nat) (name : List Nat) : FsM (Except Int Nat) := do
  let size ← loadAt (dir + F_SIZE)
  dirLookupFrom dir name (size.toNat / BY2BLK) 0

def slash : Nat := 47

def skipSlash (p : List Nat) : List Nat := p.dropWhile (· = slash)

/-- What `walk_path` returns and leaves in `*pdir`, `*pfile` and `lastelem`. -/
structure Walk where
  r : Int
  dir : Option Nat
  file : Option Nat
  lastelem : List Nat

/-- The loop of `walk_path`; each round takes a byte of the path, of which there
are at most `n`. -/
def walkFrom : Nat → Option Nat → Nat → List Nat → FsM Walk
  | 0, dir, file, _ => return ⟨0, dir, some file, []⟩
  | n + 1, dir, file, path => do
    if path = [] then return ⟨0, dir, some file, []⟩
    else
      let name := path.takeWhile (· ≠ slash)
      let rest := skipSlash (path.dropWhile (· ≠ slash))
      if MAXNAMELEN ≤ name.length then return ⟨-E_BAD_PATH, none, none, []⟩
      else if (← loadAt (file + F_TYPE)) ≠ FTYPE_DIR then return ⟨-E_NOT_FOUND, none, none, []⟩
      else
        match ← dirLookup file name with
        | .error r =>
          if r = -E_NOT_FOUND ∧ rest = [] then return ⟨r, some file, none, name⟩
          else return ⟨r, none, none, []⟩
        | .ok f => walkFrom n (some file) f rest

def walkPath (path : List Nat) : FsM Walk :=
  walkFrom path.length none sRoot (skipSlash path)

/-- `walk_path(path, 0, &f, 0)`. -/
def fileOpen (path : List Nat) : FsM (Except Int Nat) := do
  let w ← walkPath path
  match w.file with
  | some f => return .ok f
  | none => return .error w.r

-- ---------------------------------------------------------------------------
-- Files as a whole
-- ---------------------------------------------------------------------------

/-- Step 2 of `file_truncate` when the direct slots are enough. -/
def clearIndirect (f : Nat) : FsM Unit := do
  let ind ← loadAt (f + F_INDIRECT)
  if ind ≠ 0 then
    freeBlock ind.toNat
    storeAt (f + F_INDIRECT) 0

def fileTruncate (f newsize : Nat) : FsM Unit := do
  let oldNblocks := (← loadAt (f + F_SIZE)).toNat / BY2BLK + 1
  let newNblocks := if newsize = 0 then 0 else newsize / BY2BLK + 1
  (List.range (oldNblocks - newNblocks)).forM fun i => do
    let _ ← fileClearBlock f (newNblocks + i)
  if newNblocks ≤ NDIRECT then clearIndirect f
  storeAt (f + F_SIZE) (BitVec.ofNat 32 newsize)

/-- One round of `file_flush`. -/
def flushBlock (f bno : Nat) : FsM Unit := do
  match ← fileMapBlock f bno false with
  | .error _ => return ()
  | .ok diskno => syncBlock diskno

def fileFlush (f : Nat) : FsM Unit := do
  let nblocks := (← loadAt (f + F_SIZE)).toNat / BY2BLK + 1
  (List.range nblocks).forM (flushBlock f)

/-- `if (f->f_dir) file_flush(f->f_dir)`. -/
def flushDir (f : Nat) : FsM Unit := do
  let dir ← loadAt (f + F_DIR)
  if dir ≠ 0 then fileFlush dir.toNat

def fileSetSize (f newsize : Nat) : FsM Int := do
  if newsize < (← loadAt (f + F_SIZE)).toNat then fileTruncate f newsize
  storeAt (f + F_SIZE) (BitVec.ofNat 32 newsize)
  flushDir f
  return 0

def fileClose (f : Nat) : FsM Unit := do
  fileFlush f
  flushDir f

/-- `f->f_name[0] = '\0'`. -/
def clearName (f : Nat) : FsM Unit := do
  let w ← loadAt f
  storeAt f (w &&& 0xffffff00#32)

def fileRemove (path : List Nat) : FsM Int := do
  match ← fileOpen path with
  | .error r => return r
  | .ok f =>
    fileTruncate f 0
    clearName f
    fileFlush f
    flushDir f
    return 0

end Mos.Fs
