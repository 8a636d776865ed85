import Mos.Kern.Env

/-!
# MOS on RISC-V — page faults

The functions of `kern/tlbex.c`. `do_tlb_miss` gives a page to an address that
has none, hands a store to a copy-on-write page to the env's own handler, and
maps the `UVPT` window lazily: a copy of the directory, with the entries made
readable, serves as the page table of the window until a `page_insert` takes it
away.

The kernel reaches user memory through the directory of the running env and
takes the same faults there: `kernelLoad` and `kernelStore`. A fault of the
kernel on a page it may not access ends in a panic, also for a copy-on-write
page, because the handler of the env cannot run in supervisor mode. The bits
the hardware sets in an entry when it is used (`PTE_A`, `PTE_D`) are left out.
-/

namespace Mos.Kern

open Mos.Lib

def ROUNDDOWN (a n : Nat) : Nat := a - a % n

/-- `passive_alloc(va, cur_pgdir, curenv->env_asid)`, for the env `c`. -/
def passiveAlloc (k : Kernel) (c va : Nat) : Result Kernel :=
  if va < UTEMP then .error .badAddr                                 -- "address too low"
  else if USTACKTOP ≤ va ∧ va < USTACKTOP + BY2PG then .error .badAddr  -- "invalid memory"
  else if UENVS ≤ va ∧ va < UPAGES then .error .badAddr              -- "envs zone"
  else if UPAGES ≤ va ∧ va < UVPT then .error .badAddr               -- "pages zone"
  else if ULIM ≤ va then .error .badAddr                             -- "kernel address"
  else
    match pageAlloc k.pm with
    | none => .error .passiveAlloc
    | some (p, pm) => do
      let (r, pm) ← pageInsert pm k.curPgdir (k.envs c).asid p (ROUNDDOWN va BY2PG)
        (PTE_R ||| PTE_W ||| PTE_U)
      if r ≠ 0 then .error .passiveAlloc else return { k with pm := pm }

/-- The words of the copy of directory `d`. -/
def copyWord (pm : Pmap) (d i : Nat) : Nat :=
  if i = PDX UVPT then ADDR_PTE (page2pa d) ||| PTE_V ||| PTE_R ||| PTE_U
  else if testFlag (pm.mem d i) PTE_V then pm.mem d i ||| (PTE_R ||| PTE_U)
  else pm.mem d i

/-- The frame of the copy: the one the env has, or a new one. -/
def copyFrame (k : Kernel) (c : Nat) : Result (Nat × Kernel) :=
  if (k.envs c).pgdirCopyPa = 0 then
    match pageAlloc k.pm with
    | none => .error .pgdirCopy
    | some (p, pm) =>
      .ok (p, { k with pm := pm.setRef p ((pm.ppRef p + 1) % 2 ^ 16) }.setEnv c fun env =>
        { env with pgdirCopyPa := page2pa p })
  else do
    let p ← pa2page (k.envs c).pgdirCopyPa
    return (p, k)

/-- Refreshes the copy and maps the window. -/
def mapWindow (k : Kernel) (c : Nat) : Result Kernel := do
  let (p, k) ← copyFrame k c
  let pm := k.pm.copyWords p (copyWord k.pm k.curPgdir)
  return { k with pm := pm.store k.curPgdir (PDX UVPT) (mkPde p) }

/-- A load fault (`scause` 13) at the page `addr`, which is not mapped. -/
def loadFault (k : Kernel) (c addr : Nat) : Result Kernel :=
  if UTEMP ≤ addr ∧ addr < USTACKTOP then passiveAlloc k c addr
  else if addr < UVPT ∨ ULIM ≤ addr then .error .badAddr
  else do
    let k ← mapWindow k c
    if testFlag (k.pm.mem k.curPgdir ((addr - UVPT) / BY2PG)) PTE_V then return k
    else .error .notValidPte

/-- An access at `va`, by way of `fault` if no page is there. -/
def withPage (k : Kernel) (va : Nat) (fault : Result Kernel) : Result Kernel :=
  match k.pm.pteAt k.curPgdir (PDX va) (PTX va) with
  | some _ => .ok k
  | none => fault

/-- The kernel reads a byte at the user address `va`. -/
def kernelLoad (k : Kernel) (c va : Nat) : Result (Nat × Kernel) := do
  let k ← withPage k va (loadFault k c (ROUNDDOWN va BY2PG))
  match k.pm.pteAt k.curPgdir (PDX va) (PTX va) with
  | some w =>
    if testFlag w PTE_R then return (k.pm.loadByte (pteFrame w) (va % BY2PG), k)
    else .error .badPerm
  | none => .error .badAddr

def kernelLoads (k : Kernel) (c : Nat) : Nat → Nat → Result (List Nat × Kernel)
  | _, 0 => .ok ([], k)
  | va, n + 1 => do
    let (b, k) ← kernelLoad k c va
    let (bs, k) ← kernelLoads k c (va + 1) n
    return (b :: bs, k)

/-- The kernel writes a byte at the user address `va`. -/
def kernelStore (k : Kernel) (c va b : Nat) : Result Kernel := do
  let k ← withPage k va (passiveAlloc k c (ROUNDDOWN va BY2PG))
  match k.pm.pteAt k.curPgdir (PDX va) (PTX va) with
  | some w =>
    if testFlag w PTE_W then return { k with pm := k.pm.storeByte (pteFrame w) (va % BY2PG) b }
    else .error .badPerm
  | none => .error .badAddr

def kernelStores (k : Kernel) (c : Nat) : Nat → List Nat → Result Kernel
  | _, [] => .ok k
  | va, b :: bs => do
    let k ← kernelStore k c va b
    kernelStores k c (va + 1) bs

-- ---------------------------------------------------------------------------
-- Trap frames in memory
-- ---------------------------------------------------------------------------

/-- The bytes of a `struct Trapframe`. -/
def TRAPFRAME_SIZE : Nat := 152

def wordBytes (w : Nat) : List Nat := (List.range 4).map (getByte w)

def ofBytes : List Nat → Nat
  | [] => 0
  | b :: bs => b + 256 * ofBytes bs

def Trapframe.words (tf : Trapframe) : List Nat :=
  (List.range 32).map tf.regs ++ [tf.sstatus, tf.sscratch, tf.scause, tf.sepc, tf.stval, tf.sip]

def Trapframe.bytes (tf : Trapframe) : List Nat := tf.words.flatMap wordBytes

/-- Word `i` of a trap frame read as bytes. -/
def frameWord (bs : List Nat) (i : Nat) : Nat := ofBytes ((bs.drop (4 * i)).take 4)

def Trapframe.ofBytes (bs : List Nat) : Trapframe where
  regs := frameWord bs
  sstatus := frameWord bs 32
  sscratch := frameWord bs 33
  scause := frameWord bs 34
  sepc := frameWord bs 35
  stval := frameWord bs 36
  sip := frameWord bs 37

-- ---------------------------------------------------------------------------
-- The handlers
-- ---------------------------------------------------------------------------

/-- Where `do_tlb_mod` saves the frame of the env: on the exception stack. -/
def modFrameVa (tf : Trapframe) : Nat :=
  (if tf.sscratch < USTACKTOP ∨ UXSTACKTOP ≤ tf.sscratch then UXSTACKTOP else tf.sscratch) -
    TRAPFRAME_SIZE

def doTlbMod (k : Kernel) (c : Nat) : Result Kernel := do
  let tf := k.tf
  let k ← kernelStores k c (modFrameVa tf) tf.bytes
  if (k.envs c).userTlbModEntry ≠ 0 then
    return { k with tf := { tf with
      regs := Function.update tf.regs 10 (modFrameVa tf)
      sscratch := modFrameVa tf - 4
      sepc := (k.envs c).userTlbModEntry } }
  else .error .noModHandler

/-- `do_tlb_miss`, on the frame the trap saved. -/
def doTlbMiss (k : Kernel) (c : Nat) : Result Kernel := do
  let addr := ROUNDDOWN k.tf.stval BY2PG
  match ← pageLookup k.pm k.curPgdir addr with
  | some (_, p) =>
    if k.tf.scause = 15 ∧ testFlag (k.pm.mem p.1 p.2) PTE_COW then doTlbMod k c
    else .error .badPerm
  | none =>
    if k.tf.scause = 15 then passiveAlloc k c addr
    else if k.tf.scause = 13 then loadFault k c addr
    else .error .badAddr

/-- A byte store by the running env; without a writable user mapping it faults,
and stores nothing. -/
def userStore (k : Kernel) (va b : Nat) : Kernel :=
  match k.pm.pteAt k.curPgdir (PDX va) (PTX va) with
  | some w =>
    if testFlag w PTE_U ∧ testFlag w PTE_W then
      { k with pm := k.pm.storeByte (pteFrame w) (va % BY2PG) b }
    else k
  | none => k

end Mos.Kern
