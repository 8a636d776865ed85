import Mos.Lib.Bytes
import Mos.Lib.TailQueue
import Mos.Kern.DiskDriver

/-!
# MOS on RISC-V — environments and the scheduler

The functions of `kern/env.c` and `kern/sched.c`. An env is its index in
`envs`; a page directory is its frame. `env_free_list` is a list of indices.
`env_sched_list` is kept as the pointers of the `TAILQ` macros: these trust
their caller, and removing an env that is not linked, or linking one that is,
corrupts the queue and goes on. `queueLog` remembers each use of a macro with
the queue it found.

`env_pop_tf` loads the registers of the env it resumes; they are `Kernel.cpu`
until the next trap stores them in `Kernel.tf`, the slot below `KSTACKTOP`.
-/

namespace Mos.Kern

open Mos.Lib

def LOG2NENV : Nat := 10
def NENV : Nat := 2 ^ LOG2NENV
def ENVX (envid : Nat) : Nat := envid &&& (NENV - 1)
def NASID : Nat := 64

inductive EnvStatus where
  | free
  | runnable
  | notRunnable
  deriving DecidableEq, Repr

structure Trapframe where
  regs : Nat → Nat
  sstatus : Nat
  sscratch : Nat
  scause : Nat
  sepc : Nat
  stval : Nat
  sip : Nat

structure Env where
  tf : Trapframe
  id : Nat
  asid : Nat
  parentId : Nat
  status : EnvStatus
  pgdir : Nat
  pri : Nat
  ipcValue : Nat
  ipcFrom : Nat
  ipcRecving : Nat
  ipcDstva : Nat
  ipcPerm : Nat
  userTlbModEntry : Nat
  pgdirCopyPa : Nat
  runs : Nat

inductive QueueUse where
  | insert
  | remove
  deriving DecidableEq, Repr

structure Kernel where
  pm : Pmap
  envs : Nat → Env
  envFreeList : List Nat
  envSchedList : TailQueue Nat
  queueLog : List (QueueUse × TailQueue Nat × Nat)
  curenv : Option Nat
  curPgdir : Nat
  basePgdir : Nat
  kernelPgdir : Nat → Nat
  asidBitmap : Nat → BitVec 32
  mkenvidCount : Nat            -- the static `i` of `mkenvid`
  schedCount : Int              -- the static `count` of `schedule`
  tf : Trapframe                -- the slot below `KSTACKTOP`
  cpu : Trapframe               -- the registers of the running env
  disk : Vring

namespace Kernel

/-- `envs[e].... = ...`. -/
def setEnv (k : Kernel) (e : Nat) (f : Env → Env) : Kernel :=
  { k with envs := Function.update k.envs e (f (k.envs e)) }

variable (k : Kernel) (e : Nat) (f : Env → Env)

@[simp] theorem setEnv_self : (k.setEnv e f).envs e = f (k.envs e) := Function.update_self ..
theorem setEnv_of_ne {x : Nat} (h : x ≠ e) : (k.setEnv e f).envs x = k.envs x :=
  Function.update_of_ne h ..
@[simp] theorem setEnv_pm : (k.setEnv e f).pm = k.pm := rfl
@[simp] theorem setEnv_envFreeList : (k.setEnv e f).envFreeList = k.envFreeList := rfl
@[simp] theorem setEnv_envSchedList : (k.setEnv e f).envSchedList = k.envSchedList := rfl
@[simp] theorem setEnv_curenv : (k.setEnv e f).curenv = k.curenv := rfl

end Kernel

-- ---------------------------------------------------------------------------
-- The run queue
-- ---------------------------------------------------------------------------

/-- Sets the queue and records the use. -/
def Kernel.withQueue (k : Kernel) (use : QueueUse) (e : Nat) (q : TailQueue Nat) : Kernel :=
  { k with envSchedList := q, queueLog := (use, k.envSchedList, e) :: k.queueLog }

/-- `TAILQ_REMOVE(&env_sched_list, e, env_sched_link)`. -/
def tailqRemove (k : Kernel) (e : Nat) : Result Kernel :=
  match k.envSchedList.remove e with
  | none => .error .nullStore
  | some q => .ok (k.withQueue .remove e q)

/-- `TAILQ_INSERT_TAIL(&env_sched_list, e, env_sched_link)`. -/
def tailqInsertTail (k : Kernel) (e : Nat) : Result Kernel :=
  match k.envSchedList.insertTail e with
  | none => .error .nullStore
  | some q => .ok (k.withQueue .insert e q)

/-- `TAILQ_INSERT_HEAD(&env_sched_list, e, env_sched_link)`. -/
def tailqInsertHead (k : Kernel) (e : Nat) : Kernel :=
  k.withQueue .insert e (k.envSchedList.insertHead e)

-- ---------------------------------------------------------------------------
-- ASIDs and ids
-- ---------------------------------------------------------------------------

def asidAlloc (k : Kernel) : Option (Nat × Kernel) :=
  match (List.range NASID).find? fun i => k.asidBitmap (i >>> 5) &&& (1#32 <<< (i &&& 31)) = 0#32 with
  | some i => some (i, { k with
      asidBitmap := Function.update k.asidBitmap (i >>> 5)
        (k.asidBitmap (i >>> 5) ||| (1#32 <<< (i &&& 31))) })
  | none => none

def asidFree (k : Kernel) (i : Nat) : Kernel :=
  { k with
    asidBitmap := Function.update k.asidBitmap (i >>> 5)
      (k.asidBitmap (i >>> 5) &&& ~~~(1#32 <<< (i &&& 31))) }

def mkenvid (k : Kernel) (e : Nat) : Nat × Kernel :=
  let i := (k.mkenvidCount + 1) % 2 ^ 32
  (((i <<< (1 + LOG2NENV)) % 2 ^ 32) ||| e, { k with mkenvidCount := i })

/-- `envid2env`, called by the running env `cur`. -/
def envid2env (k : Kernel) (cur envid : Nat) (checkperm : Bool) : Except Int Nat :=
  if envid = 0 then .ok cur
  else
    let e := ENVX envid
    if (k.envs e).status = .free ∨ (k.envs e).id ≠ envid then .error (-E_BAD_ENV)
    else if checkperm ∧ e ≠ cur ∧ (k.envs e).parentId ≠ (k.envs cur).id then .error (-E_BAD_ENV)
    else .ok e

-- ---------------------------------------------------------------------------
-- Creating envs
-- ---------------------------------------------------------------------------

/-- The words `env_setup_vm` copies into a new directory: the kernel's, with the
slots from `UTOP` to `UVPT` from the template. -/
def templateWord (k : Kernel) (i : Nat) : Nat :=
  if PDX UTOP ≤ i ∧ i < PDX UVPT then k.pm.mem k.basePgdir i else k.kernelPgdir i

def Pmap.copyWords (s : Pmap) (f : Nat) (w : Nat → Nat) : Pmap :=
  s.write fun f' i => if f' = f ∧ i < 1024 then w i else s.mem f' i

def envSetupVm (k : Kernel) (e : Nat) : Int × Kernel :=
  match pageAlloc k.pm with
  | none => (-E_NO_MEM, k)
  | some (p, pm) =>
    let pm := pm.setRef p ((pm.ppRef p + 1) % 2 ^ 16)
    let pm := pm.copyWords p (templateWord { k with pm := pm })
    (0, { k with pm := pm }.setEnv e fun env => { env with pgdir := p, pgdirCopyPa := 0 })

/-- Steps 2 and 3 of `env_alloc`, up to the ASID; the result of `env_setup_vm` is
not looked at. -/
def envPrepare (k : Kernel) (e : Nat) : Kernel :=
  let k := (envSetupVm k e).2
  let (id, k) := mkenvid k e
  k.setEnv e fun env => { env with userTlbModEntry := 0, runs := 0, id := id }

def envAlloc (k : Kernel) (parentId : Nat) : Except Int Nat × Kernel :=
  match k.envFreeList with
  | [] => (.error (-E_NO_FREE_ENV), k)
  | e :: rest =>
    match asidAlloc (envPrepare k e) with
    | none => (.error (-E_NO_FREE_ENV), envPrepare k e)
    | some (asid, k) =>
      let k := k.setEnv e fun env => { env with
        asid := asid
        parentId := parentId
        tf := { env.tf with sstatus := 2, sscratch := USTACKTOP - 8 } }
      (.ok e, { k with envFreeList := rest })

/-- A program header with the bytes of its file part. -/
structure Phdr where
  type : Nat
  vaddr : Nat
  filesz : Nat
  memsz : Nat
  flags : Nat
  data : List Nat

structure Elf where
  entry : Nat
  phdrs : List Phdr

def PT_LOAD : Nat := 1
def PF_X : Nat := 1
def PF_W : Nat := 2
def PF_R : Nat := 4

def Pmap.loadByte (s : Pmap) (f a : Nat) : Nat := getByte (s.mem f (a / 4)) (a % 4)

def Pmap.storeByte (s : Pmap) (f a b : Nat) : Pmap :=
  s.store f (a / 4) (setByte (s.mem f (a / 4)) (a % 4) b)

/-- `memcpy` of `bytes` to offset `off` of frame `f`. -/
def Pmap.storeBytes (s : Pmap) (f : Nat) : Nat → List Nat → Pmap
  | _, [] => s
  | off, b :: bytes => (s.storeByte f off b).storeBytes f (off + 1) bytes

/-- `load_icode_mapper` for the env with directory `pgdir`; `src` is `none` for a
null pointer. -/
def loadIcodeMapper (pgdir asid : Nat) (va offset perm : Nat) (src : Option (List Nat))
    (pm : Pmap) : Result (Int × Pmap) :=
  match pageAlloc pm with
  | none => .ok (-E_NO_MEM, pm)
  | some (p, pm) =>
    let pm := match src with
      | none => pm
      | some bytes => pm.storeBytes p offset bytes
    pageInsert pm pgdir asid p va perm

/-- The `map_page` calls of `elf_load_seg`, in order: address, offset, bytes. -/
def elfSegCalls (ph : Phdr) : List (Nat × Nat × Option (List Nat)) :=
  let va := ph.vaddr
  let offset := va % BY2PG
  let first := min ph.filesz (BY2PG - offset)
  let i₀ := if offset ≠ 0 then first else 0
  let n := (ph.filesz - i₀ + BY2PG - 1) / BY2PG
  let i₁ := i₀ + n * BY2PG
  (if offset ≠ 0 then [(va, offset, some (ph.data.take first))] else []) ++
  ((List.range n).map fun j =>
    let i := i₀ + j * BY2PG
    (va + i, 0, some ((ph.data.drop i).take (min (ph.filesz - i) BY2PG)))) ++
  (List.range ((ph.memsz - i₁ + BY2PG - 1) / BY2PG)).map fun j => (va + (i₁ + j * BY2PG), 0, none)

def elfSegPerm (ph : Phdr) : Nat :=
  PTE_V ||| PTE_U ||| (if testFlag ph.flags PF_R then PTE_R else 0) |||
    (if testFlag ph.flags PF_W then PTE_W else 0) ||| (if testFlag ph.flags PF_X then PTE_X else 0)

/-- The calls are made until one fails. -/
def elfLoadSeg (pgdir asid perm : Nat) : List (Nat × Nat × Option (List Nat)) → Pmap →
    Result (Int × Pmap)
  | [], pm => .ok (0, pm)
  | (va, offset, src) :: calls, pm => do
    let (r, pm) ← loadIcodeMapper pgdir asid va offset perm src pm
    if r ≠ 0 then return (r, pm) else elfLoadSeg pgdir asid perm calls pm

/-- One round of the loop of `load_icode`. -/
def loadPhdr (pgdir asid : Nat) (pm : Pmap) (ph : Phdr) : Result Pmap :=
  if ph.type = PT_LOAD then do
    let (r, pm) ← elfLoadSeg pgdir asid (elfSegPerm ph) (elfSegCalls ph) pm
    if r ≠ 0 then .error .loadIcode else return pm
  else .ok pm

/-- `load_icode`; `none` is an image `elf_from` refuses. -/
def loadIcode (k : Kernel) (e : Nat) (binary : Option Elf) : Result Kernel := do
  match binary with
  | none => .error .loadIcode
  | some elf =>
    let pm ← elf.phdrs.foldlM (loadPhdr (k.envs e).pgdir (k.envs e).asid) k.pm
    return { k with pm := pm }.setEnv e fun env => { env with tf := { env.tf with sepc := elf.entry } }

def envCreate (k : Kernel) (binary : Option Elf) (priority : Nat) : Result (Nat × Kernel) := do
  match envAlloc k 0 with
  | (.error _, _) => .error .envCreate
  | (.ok e, k) =>
    let k := k.setEnv e fun env => { env with pri := priority, status := .runnable }
    let k ← loadIcode k e binary
    return (e, tailqInsertHead k e)

-- ---------------------------------------------------------------------------
-- Boot
-- ---------------------------------------------------------------------------

/-- One round of the loop of `map_segment`. -/
def mapSegmentPage (pgdir asid pa va perm : Nat) (pm : Pmap) (i : Nat) : Result Pmap := do
  let pp ← pa2page (pa + i * BY2PG)
  let (r, pm) ← pageInsert pm pgdir asid pp (va + i * BY2PG) perm
  if r ≠ 0 then .error .envInit else return pm

/-- `map_segment`, for `n` pages. -/
def mapSegment (pm : Pmap) (pgdir asid pa va n perm : Nat) : Result Pmap :=
  (List.range n).foldlM (mapSegmentPage pgdir asid pa va perm) pm

def zeroTrapframe : Trapframe := ⟨fun _ => 0, 0, 0, 0, 0, 0, 0⟩

/-- An entry of `envs` before its first use; its directory is no frame. -/
def zeroEnv : Env := ⟨zeroTrapframe, 0, 0, 0, .free, npage, 0, 0, 0, 0, 0, 0, 0, 0, 0⟩

/-- The pages of the `pages` and `envs` arrays (12 and 224 bytes an entry). -/
def pagesPages : Nat := (npage * 12 + BY2PG - 1) / BY2PG
def envsPages : Nat := (NENV * 224 + BY2PG - 1) / BY2PG

/-- The kernel variables after `env_init`, with `base_pgdir` in frame `p`. -/
def firstKernel (pm : Pmap) (p : Nat) (disk : Vring) (kernelPgdir : Nat → Nat) : Kernel where
  pm := pm
  envs := fun _ => zeroEnv
  envFreeList := List.range NENV
  envSchedList := TailQueue.init ⟨none, .null, fun _ => none, fun _ => .null⟩
  queueLog := []
  curenv := none
  curPgdir := npage
  basePgdir := p
  kernelPgdir := kernelPgdir
  asidBitmap := fun _ => 0#32
  mkenvidCount := 0
  schedCount := 0
  tf := zeroTrapframe
  cpu := zeroTrapframe
  disk := disk

/-- `env_init`, after `page_init` left `pm` and `virtio_disk_init` left `disk`;
the arrays `pages` and `envs` lie at `pagesPa` and `envsPa`. -/
def envInit (pm : Pmap) (disk : Vring) (kernelPgdir : Nat → Nat) (pagesPa envsPa : Nat) :
    Result Kernel :=
  match pageAlloc pm with
  | none => .error .envInit
  | some (p, pm) => do
    let pm := pm.setRef p ((pm.ppRef p + 1) % 2 ^ 16)
    let pm ← mapSegment pm p 0 pagesPa UPAGES pagesPages (PTE_G ||| PTE_R ||| PTE_U)
    let pm ← mapSegment pm p 0 envsPa UENVS envsPages (PTE_G ||| PTE_R ||| PTE_U)
    return firstKernel pm p disk kernelPgdir

-- ---------------------------------------------------------------------------
-- Running and destroying envs
-- ---------------------------------------------------------------------------

/-- Step 1 of `env_run`: the registers of the env that ran go to its `env_tf`. -/
def saveContext (k : Kernel) : Kernel :=
  match k.curenv with
  | some c => k.setEnv c fun env => { env with tf := k.tf }
  | none => k

/-- Steps 2 to 4 of `env_run`. -/
def resume (k : Kernel) (e : Nat) : Kernel :=
  let k := { k with curenv := some e }.setEnv e fun env => { env with runs := (env.runs + 1) % 2 ^ 32 }
  { k with curPgdir := (k.envs e).pgdir, cpu := (k.envs e).tf }

def envRun (k : Kernel) (e : Nat) : Result Kernel :=
  if (k.envs e).status = .runnable then .ok (resume (saveContext k) e) else .error .envRun

/-- The env `schedule` keeps running, if it need not pick another. -/
def keepRunning (k : Kernel) (yield : Bool) : Option Nat :=
  match k.curenv with
  | none => none
  | some c =>
    if yield = true ∨ k.schedCount = 0 ∨ (k.envs c).status ≠ .runnable then none else some c

/-- A runnable `curenv` goes to the tail of the queue. -/
def requeue (k : Kernel) : Result Kernel := do
  match k.curenv with
  | none => return k
  | some c =>
    if (k.envs c).status = .runnable then
      let k ← tailqRemove k c
      tailqInsertTail k c
    else return k

/-- A 32-bit word as an `int`. -/
def toInt (n : Int) : Int := Int.bmod n (2 ^ 32)

/-- `count = e->env_pri`, an unsigned priority in an `int`. -/
def slices (env : Env) : Int := toInt env.pri

/-- `count--`, on an `int`. -/
def countDown (count : Int) : Int := toInt (count - 1)

def schedule (k : Kernel) (yield : Bool) : Result Kernel := do
  let disk ← virtioDiskIntr k.disk
  let k := { k with disk := disk }
  match keepRunning k yield with
  | some c => envRun { k with schedCount := countDown k.schedCount } c
  | none =>
    let k ← requeue k
    match k.envSchedList.first with
    | none => .error .noRunnable
    | some e => envRun { k with schedCount := countDown (slices (k.envs e)) } e

/-- The inner loop of `env_free`: entry `pteno` of the page table `t`. -/
def envFreePte (pgdir asid pdeno t : Nat) (pm : Pmap) (pteno : Nat) : Result Pmap :=
  if testFlag (pm.mem t pteno) PTE_V then
    pageRemove pm pgdir asid ((pdeno <<< 22) ||| (pteno <<< 12))
  else .ok pm

/-- The outer loop of `env_free`: slot `pdeno` of the directory. -/
def envFreePde (pgdir asid : Nat) (pm : Pmap) (pdeno : Nat) : Result Pmap :=
  if testFlag (pm.mem pgdir pdeno) PTE_V then do
    let pa := PTE_ADDR (pm.mem pgdir pdeno)
    let t ← kaddr pa
    let pm ← (List.range 1024).foldlM (envFreePte pgdir asid pdeno t) pm
    let pm := pm.store pgdir pdeno 0
    let pp ← pa2page pa
    let pm ← pageDecref pm pp
    return tlbFlush pm asid 0
  else .ok pm

/-- The copy of the directory, if the env has one. -/
def envFreeCopy (pm : Pmap) (pgdirCopyPa : Nat) : Result Pmap :=
  if pgdirCopyPa ≠ 0 then do
    let pp ← pa2page pgdirCopyPa
    if pm.ppRef pp ≠ 1 then .error .envFree else pageDecref pm pp
  else .ok pm

/-- The page work of `env_free`. -/
def envFreePages (pm : Pmap) (pgdir asid pgdirCopyPa : Nat) : Result Pmap := do
  let pm ← (List.range (PDX UTOP)).foldlM (envFreePde pgdir asid) pm
  let pm ← envFreeCopy pm pgdirCopyPa
  let pm ← pageDecref pm pgdir
  return tlbFlush pm asid 0

def envFree (k : Kernel) (e : Nat) : Result Kernel := do
  let env := k.envs e
  let pm ← envFreePages k.pm env.pgdir env.asid env.pgdirCopyPa
  let k := asidFree { k with pm := pm } env.asid
  let k := k.setEnv e fun env => { env with status := .free }
  tailqRemove { k with envFreeList := e :: k.envFreeList } e

/-- `env_destroy`: the flag says whether it returns to its caller. -/
def envDestroy (k : Kernel) (e : Nat) : Result (Bool × Kernel) := do
  let k ← envFree k e
  if k.curenv = some e then
    let k ← schedule { k with curenv := none } true
    return (false, k)
  else return (true, k)

end Mos.Kern
