import Mathlib.Algebra.Group.Nat.Defs
import Mos.Lib.Bitmap
import Mos.Lib.Except
import Mos.Kern.Mmu

/-!
# MOS on RISC-V — the block cache of the file server

The first half of `fs/fs.c`: the cache of disk blocks at `DISKMAP`, the bitmap
of free blocks, and `fs_init`. A block is its 1024 words. A cached block is the
page mapped at `diskaddr` of its number, with the dirty bit of the server's
page-table entry; `read_super` refuses a disk of more than `DISKMAX` bytes, so
these addresses are distinct and below `UTOP`.

The server touches a page that is not mapped as any process does: the kernel
maps a page of zeros there (`passive_alloc`). It gets pages from the kernel while
there are any; `mem` holds the answers to its coming requests. The device
performs each transfer it is asked for.
-/

namespace Mos.Fs

open Mos.Lib Mos.Kern

def E_NO_DISK : Int := 8
def E_MAX_OPEN : Int := 9
def E_NOT_FOUND : Int := 10
def E_BAD_PATH : Int := 11

def BY2BLK : Nat := BY2PG
def BIT2BLK : Nat := BY2BLK * 8
def DISKMAP : Nat := 0x10000000
def DISKMAX : Nat := 0x40000000
def FS_MAGIC : BitVec 32 := 0x68286097#32

/-- A block has words, so that their numbers can be written down. -/
scoped instance neZeroBlock : NeZero 1024 := ⟨by decide⟩

/-- The contents of a block. -/
abbrev Block := Fin 1024 → BitVec 32

/-- How the server stops. -/
inductive Stop where
  | userPanic
  | userAssert
  | kernelPanic      -- an access below `UTEMP`, or one the kernel has no page for
  | wildPointer      -- a pointer to no known object is used
  deriving DecidableEq, Repr

structure CachePage where
  words : Block
  dirty : Bool                       -- `PTE_DIRTY`

structure FsState where
  disk : Nat → Block
  cache : Nat → Option CachePage
  super : Bool                       -- `super` points to block 1, or is null
  bitmap : Bool                      -- `bitmap` points to block 2, or is null
  mem : Nat → Bool                   -- the next requests for a page succeed

abbrev FsM := StateT FsState (Except Stop)

namespace FsState

variable (st : FsState)

/-- The page of block `b` becomes `p`. -/
def setPage (b : Nat) (p : Option CachePage) : FsState :=
  { st with cache := Function.update st.cache b p }

def setDisk (b : Nat) (ws : Block) : FsState := { st with disk := Function.update st.disk b ws }

@[simp] theorem setPage_self (b : Nat) (p : Option CachePage) : (st.setPage b p).cache b = p :=
  Function.update_self ..
theorem setPage_of_ne {b c : Nat} (h : c ≠ b) (p : Option CachePage) :
    (st.setPage b p).cache c = st.cache c := Function.update_of_ne h ..
@[simp] theorem setPage_disk (b : Nat) (p : Option CachePage) : (st.setPage b p).disk = st.disk := rfl
@[simp] theorem setPage_super (b : Nat) (p : Option CachePage) : (st.setPage b p).super = st.super :=
  rfl
@[simp] theorem setPage_bitmap (b : Nat) (p : Option CachePage) :
    (st.setPage b p).bitmap = st.bitmap := rfl
@[simp] theorem setDisk_self (b : Nat) (ws : Block) : (st.setDisk b ws).disk b = ws :=
  Function.update_self ..
theorem setDisk_of_ne {b c : Nat} (h : c ≠ b) (ws : Block) : (st.setDisk b ws).disk c = st.disk c :=
  Function.update_of_ne h ..
@[simp] theorem setDisk_cache (b : Nat) (ws : Block) : (st.setDisk b ws).cache = st.cache := rfl
@[simp] theorem setDisk_super (b : Nat) (ws : Block) : (st.setDisk b ws).super = st.super := rfl
@[simp] theorem setDisk_bitmap (b : Nat) (ws : Block) : (st.setDisk b ws).bitmap = st.bitmap := rfl

/-- The kernel's coming answers are `mem`. -/
def withMem (mem : Nat → Bool) : FsState := { st with mem := mem }

@[simp] theorem withMem_cache (mem : Nat → Bool) : (st.withMem mem).cache = st.cache := rfl
@[simp] theorem withMem_disk (mem : Nat → Bool) : (st.withMem mem).disk = st.disk := rfl

end FsState

/-- `if (c) user_panic(...)`. -/
def userPanicIf (c : Bool) : FsM Unit := if c then throw .userPanic else return ()

/-- `user_assert(c)`. -/
def userAssert (c : Bool) : FsM Unit := if c then return () else throw .userAssert

-- ---------------------------------------------------------------------------
-- Memory
-- ---------------------------------------------------------------------------

def zeroBlock : Block := fun _ => 0#32

/-- The kernel gives a page, or has none. -/
def pageAnswer : FsM Bool := fun st => .ok (st.mem 0, st.withMem fun n => st.mem (n + 1))

/-- `syscall_mem_alloc(0, diskaddr(b), PTE_W)`. -/
def syscallMemAlloc (b : Nat) : FsM Int := do
  if ← pageAnswer then
    modify fun st => st.setPage b (some ⟨zeroBlock, false⟩)
    return 0
  else return -E_NO_MEM

/-- An access to the page of block `b`, which a page fault maps if it must. -/
def access (b : Nat) : FsM CachePage := do
  match (← get).cache b with
  | some p => return p
  | none =>
    if ← pageAnswer then
      modify fun st => st.setPage b (some ⟨zeroBlock, false⟩)
      return ⟨zeroBlock, false⟩
    else throw .kernelPanic

/-- Word `i` of the page at `diskaddr(b)`. -/
def load (b : Nat) (i : Fin 1024) : FsM (BitVec 32) := do
  let p ← access b
  return p.words i

/-- A store by the server; the hardware sets the dirty bit. -/
def store (b : Nat) (i : Fin 1024) (w : BitVec 32) : FsM Unit := do
  let p ← access b
  modify fun st => st.setPage b (some ⟨Function.update p.words i w, true⟩)

/-- `memcpy` of a block to `diskaddr(b)`. -/
def storeBlock (b : Nat) (ws : Block) : FsM Unit := do
  let _ ← access b
  modify fun st => st.setPage b (some ⟨ws, true⟩)

-- ---------------------------------------------------------------------------
-- The cache
-- ---------------------------------------------------------------------------

def blockIsMapped (b : Nat) : FsM Bool := do
  return ((← get).cache b).isSome

def FsState.isDirty (st : FsState) (b : Nat) : Bool :=
  match st.cache b with
  | some p => p.dirty
  | none => false

def blockIsDirty (b : Nat) : FsM Bool := do
  return (← get).isDirty b

/-- The call of `syscall_mem_map` maps the page where it is and does not fail. -/
def dirtyBlock (b : Nat) : FsM Int := do
  match (← get).cache b with
  | none => return -E_NOT_FOUND
  | some p =>
    if p.dirty then return 0
    else
      modify fun st => st.setPage b (some { p with dirty := true })
      return 0

def writeBlock (b : Nat) : FsM Unit := do
  match (← get).cache b with
  | none => throw .userPanic
  | some p => modify fun st => st.setDisk b p.words

/-- `super->s_nblocks`. -/
def sNblocks : FsM (BitVec 32) := do
  if (← get).super then load 1 1 else throw .kernelPanic

/-- Word `i` of the bitmap lies in block `bitmapBlock i`. -/
def bitmapBlock (i : Nat) : Nat := 2 + i / 1024

/-- `bitmap[i]`. -/
def bitmapLoad (i : Nat) : FsM (BitVec 32) := do
  if (← get).bitmap then load (bitmapBlock i) (Fin.ofNat 1024 i) else throw .kernelPanic

/-- `bitmap[i] = w`. -/
def bitmapStore (i : Nat) (w : BitVec 32) : FsM Unit := do
  if (← get).bitmap then store (bitmapBlock i) (Fin.ofNat 1024 i) w else throw .kernelPanic

def blockIsFree (b : Nat) : FsM Bool := do
  if !(← get).super then return false
  else if (← sNblocks).toNat ≤ b then return false
  else return decide ((← bitmapLoad (b >>> 5)) &&& Bitmap.mask b ≠ 0#32)

/-- Step 1 of `read_block`: the block exists. -/
def checkExists (b : Nat) : FsM Unit := do
  if (← get).super then userPanicIf (decide ((← sNblocks).toNat ≤ b)) else return ()

/-- Step 2: it is in use. -/
def checkUsed (b : Nat) : FsM Unit := do
  if (← get).bitmap then userPanicIf (← blockIsFree b) else return ()

/-- `read_block`, which never fails; the result is `*isnew`. The answer of
`syscall_mem_alloc` is not looked at. -/
def readBlock (b : Nat) : FsM Bool := do
  checkExists b
  checkUsed b
  if ← blockIsMapped b then return false
  else
    let _ ← syscallMemAlloc b
    storeBlock b ((← get).disk b)
    return true

def mapBlock (b : Nat) : FsM Int := do
  if ← blockIsMapped b then return 0 else syscallMemAlloc b

/-- Step 2 of `unmap_block`. -/
def writeBack (b : Nat) : FsM Unit := do
  if !(← blockIsFree b) then
    if ← blockIsDirty b then writeBlock b

def unmapBlock (b : Nat) : FsM Unit := do
  userAssert (← blockIsMapped b)
  writeBack b
  modify fun st => st.setPage b none

def freeBlock (b : Nat) : FsM Unit := do
  if b = 0 then return ()
  else if (← sNblocks).toNat ≤ b then return ()
  else bitmapStore (b >>> 5) ((← bitmapLoad (b >>> 5)) ||| Bitmap.mask b)

/-- The loop of `alloc_block_num`, with `n` blocks from `b` on to look at. -/
def allocScan : Nat → Nat → FsM (Except Int Nat)
  | 0, _ => return .error (-E_NO_DISK)
  | n + 1, b => do
    let w ← bitmapLoad (b >>> 5)
    if w &&& Bitmap.mask b ≠ 0#32 then
      bitmapStore (b >>> 5) (w &&& ~~~Bitmap.mask b)
      writeBlock (b / BIT2BLK + 2)
      return .ok b
    else allocScan n (b + 1)

def allocBlockNum : FsM (Except Int Nat) := do
  let n ← sNblocks
  allocScan (n.toNat - 3) 3

def allocBlock : FsM (Except Int Nat) := do
  match ← allocBlockNum with
  | .error r => return .error r
  | .ok bno =>
    let r ← mapBlock bno
    if r < 0 then
      freeBlock bno
      return .error r
    else return .ok bno

/-- One round of the loop of `fs_sync`. -/
def syncBlock (b : Nat) : FsM Unit := do
  if ← blockIsDirty b then writeBlock b

def fsSync : FsM Unit := do
  let n ← sNblocks
  (List.range n.toNat).forM syncBlock

-- ---------------------------------------------------------------------------
-- fs_init
-- ---------------------------------------------------------------------------

def readSuper : FsM Unit := do
  let _ ← readBlock 1
  modify fun st => { st with super := true }
  userPanicIf (decide ((← load 1 0) ≠ FS_MAGIC))
  userPanicIf (decide (DISKMAX / BY2BLK < (← sNblocks).toNat))

/-- `strcpy(diskaddr(1), "OOPS!\n")`. -/
def smashSuper : FsM Unit := do
  store 1 0 0x53504f4f#32
  let w ← load 1 1
  store 1 1 ((w &&& 0xff000000#32) ||| 0x000a21#32)

/-- The string that `smash_super` wrote is there. -/
def superIsSmashed : FsM Bool := do
  let w ← load 1 0
  let w' ← load 1 1
  return decide (w = 0x53504f4f#32 ∧ w' &&& 0xffffff#32 = 0x000a21#32)

def checkWriteBlock : FsM Unit := do
  modify fun st => { st with super := false }
  let _ ← readBlock 0
  storeBlock 0 (← access 1).words
  smashSuper
  writeBlock 1
  modify fun st => st.setPage 1 none
  let _ ← readBlock 1
  userAssert (← superIsSmashed)
  storeBlock 1 (← access 0).words
  writeBlock 1
  modify fun st => { st with super := true }

def readBitmap : FsM Unit := do
  let n ← sNblocks
  let nbitmap := n.toNat / BIT2BLK + 1
  (List.range nbitmap).forM fun i => do
    let _ ← readBlock (i + 2)
  modify fun st => { st with bitmap := true }
  userAssert (!(← blockIsFree 0))
  userAssert (!(← blockIsFree 1))
  (List.range nbitmap).forM fun i => do
    userAssert (!(← blockIsFree (i + 2)))

def fsInit : FsM Unit := do
  readSuper
  checkWriteBlock
  readBitmap

/-- The server before `fs_init`. -/
def emptyCache (disk : Nat → Block) (mem : Nat → Bool) : FsState where
  disk := disk
  cache := fun _ => none
  super := false
  bitmap := false
  mem := mem

end Mos.Fs
