import Mos.Kern.Mmu

/-!
# MOS on RISC-V — physical frames and two-level page tables

The functions of `kern/pmap.c` over an explicit machine state. A frame is its
index in `pages`; physical memory is a word map `frame → word index → word`,
which is all the kernel can reach, because `KADDR` panics outside the managed
range. A page directory and a page table are both frames; a PTE pointer is a
frame and a word index.

A function that can `panic` (a failing `assert`, an address `pa2page` or
`KADDR` refuses) returns in `Result`; C return codes stay integers.
-/

namespace Mos.Kern

open Mos.Lib

/-- The ways the kernel stops. -/
inductive Panic where
  | alloc            -- panic_on(freemem >= ULIM + memsize)
  | pa2page          -- "pa2page called with invalid pa"
  | kaddr            -- "KADDR called with invalid pa"
  | pageFree         -- assert(pp->pp_ref == 0)
  | pageDecref       -- assert(pp->pp_ref > 0)
  | envFree          -- assert(pa2page(env_pgdir_copy_pa)->pp_ref == 1)
  | envRun           -- assert(e->env_status == ENV_RUNNABLE)
  | envInit          -- panic_on in env_init and map_segment
  | envCreate        -- panic_on(env_alloc(&e, 0))
  | loadIcode        -- "bad elf", or panic_on(elf_load_seg(...))
  | noRunnable       -- "schedule: no runnable envs"
  | freeDesc         -- the assertions of free_desc
  | unreachable      -- alloc_desc fell out of its loop
  | usedFlags        -- "unexpected value of flags"
  | nullCurenv       -- a dereference of a null curenv
  | nullStore        -- a store through a null pointer
  | badPerm          -- "bad perm", or a fault of the kernel on a protected page
  | badAddr          -- "bad addr", or an address passive_alloc refuses
  | passiveAlloc     -- panic_on in passive_alloc
  | pgdirCopy        -- panic_on(page_alloc(&p)) for the copy of a directory
  | notValidPte      -- "not a valid pte"
  | sysPanic         -- sys_panic
  | noModHandler     -- "TLB Mod but no user handler registered"
  deriving DecidableEq, Repr

abbrev Result (α : Type) := Except Panic α

/-- A pointer to a page-table entry. -/
abbrev PtePtr := Nat × Nat

/-- What the page-table hardware sees of the kernel at work: memory after each
store, and the fences of `tlb_flush(asid, va)`. -/
inductive HwEvent where
  | wrote (mem : Nat → Nat → Nat)
  | fence (asid va : Nat)

/-- The state `pmap.c` works on: the `pages` array, the free list, the words of
physical memory and what happened to memory and the TLB so far. -/
structure Pmap where
  ppRef : Nat → Nat
  pageFreeList : List Nat
  mem : Nat → Nat → Nat
  trace : List HwEvent

namespace Pmap

/-- Memory becomes `mem`. -/
def write (s : Pmap) (mem : Nat → Nat → Nat) : Pmap :=
  { s with mem := mem, trace := s.trace ++ [.wrote mem] }

/-- `*p = w`, for a word pointer `p`. -/
def store (s : Pmap) (f i w : Nat) : Pmap :=
  s.write fun f' i' => if f' = f ∧ i' = i then w else s.mem f' i'

/-- `pp->pp_ref = r`. -/
def setRef (s : Pmap) (pp r : Nat) : Pmap :=
  { s with ppRef := fun f => if f = pp then r else s.ppRef f }

/-- `memset(page2kva(pp), 0, BY2PG)`. -/
def clear (s : Pmap) (pp : Nat) : Pmap :=
  s.write fun f i => if f = pp then 0 else s.mem f i

end Pmap

/-- `KADDR(pa)`: the frame at `pa`. -/
def kaddr (pa : Nat) : Result Nat :=
  if npage ≤ pa2idx pa then .error .kaddr else .ok (pa2idx pa)

def pa2page (pa : Nat) : Result Nat :=
  if npage ≤ pa2idx pa then .error .pa2page else .ok (pa2idx pa)

def tlbFlush (s : Pmap) (asid va : Nat) : Pmap :=
  { s with trace := s.trace ++ [.fence asid va] }

/-- The frames `page_init` marks used: those below `freemem`, rounded up. -/
def usedFrames (freemem : Nat) : Nat := (freemem + BY2PG - 1) / BY2PG - KERNBASE / BY2PG

/-- `page_init`, on memory `mem`: frames below `freemem` get one reference, the
others go to the head of the free list one after another. -/
def pageInit (freemem : Nat) (mem : Nat → Nat → Nat) : Pmap where
  ppRef f := if f < usedFrames freemem then 1 else 0
  pageFreeList := ((List.range npage).filter fun i => usedFrames freemem ≤ i).reverse
  mem := mem
  trace := []

/-- `page_alloc`: `none` is `-E_NO_MEM`. -/
def pageAlloc (s : Pmap) : Option (Nat × Pmap) :=
  match s.pageFreeList with
  | [] => none
  | pp :: rest => some (pp, { s with pageFreeList := rest }.clear pp)

def pageFree (s : Pmap) (pp : Nat) : Result Pmap :=
  if s.ppRef pp = 0 then .ok { s with pageFreeList := pp :: s.pageFreeList }
  else .error .pageFree

/-- `pgdir_walk`: the return code, `*ppte` and the state. -/
def pgdirWalk (s : Pmap) (pgdir va : Nat) (create : Bool) :
    Result (Int × Option PtePtr × Pmap) := do
  if testFlag (s.mem pgdir (PDX va)) PTE_V then
    let t ← kaddr (PTE_ADDR (s.mem pgdir (PDX va)))
    return (0, some (t, PTX va), s)
  else if create then
    match pageAlloc s with
    | none => return (-E_NO_MEM, none, s)
    | some (pp, s) =>
      let s := (s.setRef pp 1).store pgdir (PDX va) (mkPde pp)
      let t ← kaddr (PTE_ADDR (s.mem pgdir (PDX va)))
      return (0, some (t, PTX va), s)
  else
    return (0, none, s)

/-- `page_lookup`: the page and its entry, or `none` for `NULL`. -/
def pageLookup (s : Pmap) (pgdir va : Nat) : Result (Option (Nat × PtePtr)) := do
  let (_, pte, _) ← pgdirWalk s pgdir va false
  match pte with
  | none => return none
  | some p =>
    if testFlag (s.mem p.1 p.2) PTE_V then
      let pp ← pa2page (PTE_ADDR (s.mem p.1 p.2))
      return some (pp, p)
    else
      return none

/-- `page_decref`; the counter is a `u_short`. -/
def pageDecref (s : Pmap) (pp : Nat) : Result Pmap :=
  if 0 < s.ppRef pp then
    let s := s.setRef pp ((s.ppRef pp + (2 ^ 16 - 1)) % 2 ^ 16)
    if s.ppRef pp = 0 then pageFree s pp else .ok s
  else
    .error .pageDecref

def pageRemove (s : Pmap) (pgdir asid va : Nat) : Result Pmap := do
  match ← pageLookup s pgdir va with
  | none => return s
  | some (pp, p) =>
    let s ← pageDecref s pp
    return tlbFlush (s.store p.1 p.2 0) asid va

/-- Steps 2 to 4 of `page_insert`, after the old mapping is gone. -/
def pageInsertNew (s : Pmap) (pgdir asid pp va perm : Nat) : Result (Int × Pmap) := do
  let (r, pte, s) ← pgdirWalk s pgdir va true
  match pte with
  | none => return (r, s)
  | some p =>
    let s := s.store p.1 p.2 (mkPte pp perm)
    let s := s.setRef pp ((s.ppRef pp + 1) % 2 ^ 16)
    return (0, tlbFlush (s.store pgdir (PDX UVPT) 0) asid 0)

/-- "any page that has write perm should also have read perm". -/
def readable (perm : Nat) : Nat := if testFlag perm PTE_W then perm ||| PTE_R else perm

def pageInsert (s : Pmap) (pgdir asid pp va perm : Nat) : Result (Int × Pmap) := do
  let (_, pte, s) ← pgdirWalk s pgdir va false
  match pte with
  | some p =>
    if testFlag (s.mem p.1 p.2) PTE_V then
      let old ← pa2page (PTE_ADDR (s.mem p.1 p.2))
      if old ≠ pp then
        let s ← pageRemove s pgdir asid va
        pageInsertNew s pgdir asid pp va (readable perm)
      else
        return (0, tlbFlush (s.store p.1 p.2 (mkPte pp (readable perm))) asid va)
    else
      pageInsertNew s pgdir asid pp va (readable perm)
  | none => pageInsertNew s pgdir asid pp va (readable perm)

/-- `va2pa`: the physical page mapped at `va`, or `~0`. -/
def va2pa (s : Pmap) (pgdir va : Nat) : Result Nat := do
  if testFlag (s.mem pgdir (PDX va)) PTE_V then
    let t ← kaddr (PTE_ADDR (s.mem pgdir (PDX va)))
    if testFlag (s.mem t (PTX va)) PTE_V then return PTE_ADDR (s.mem t (PTX va))
    else return 2 ^ 32 - 1
  else
    return 2 ^ 32 - 1

/-- The entry the hardware walk finds in slot `i`, `j` of directory `d`. -/
def Pmap.pteAt (s : Pmap) (d i j : Nat) : Option Nat :=
  if testFlag (s.mem d i) PTE_V then
    if testFlag (s.mem (pteFrame (s.mem d i)) j) PTE_V then
      some (s.mem (pteFrame (s.mem d i)) j)
    else none
  else none

-- ---------------------------------------------------------------------------
-- Field lemmas
-- ---------------------------------------------------------------------------

namespace Pmap

variable (s : Pmap)

theorem store_mem (f i w f' i' : Nat) :
    (s.store f i w).mem f' i' = if f' = f ∧ i' = i then w else s.mem f' i' := rfl
@[simp] theorem store_mem_self (f i w : Nat) : (s.store f i w).mem f i = w := by
  simp [store_mem]
theorem store_mem_frame {f i w f' : Nat} (h : f' ≠ f) (i' : Nat) :
    (s.store f i w).mem f' i' = s.mem f' i' := by
  simp [store_mem, h]
@[simp] theorem store_ppRef (f i w : Nat) : (s.store f i w).ppRef = s.ppRef := rfl
@[simp] theorem store_pageFreeList (f i w : Nat) :
    (s.store f i w).pageFreeList = s.pageFreeList := rfl
@[simp] theorem setRef_mem (pp r : Nat) : (s.setRef pp r).mem = s.mem := rfl
@[simp] theorem setRef_pageFreeList (pp r : Nat) :
    (s.setRef pp r).pageFreeList = s.pageFreeList := rfl
theorem setRef_ppRef (pp r f : Nat) :
    (s.setRef pp r).ppRef f = if f = pp then r else s.ppRef f := rfl
@[simp] theorem setRef_ppRef_self (pp r : Nat) : (s.setRef pp r).ppRef pp = r := by
  simp [setRef_ppRef]
@[simp] theorem clear_ppRef (pp : Nat) : (s.clear pp).ppRef = s.ppRef := rfl
@[simp] theorem clear_pageFreeList (pp : Nat) :
    (s.clear pp).pageFreeList = s.pageFreeList := rfl
theorem clear_mem (pp f i : Nat) :
    (s.clear pp).mem f i = if f = pp then 0 else s.mem f i := rfl

end Pmap

/-- Dropping the last reference frees the page. -/
theorem pageDecref_last {s : Pmap} {pp : Nat} (h : s.ppRef pp = 1) :
    pageDecref s pp = .ok { s.setRef pp 0 with pageFreeList := pp :: s.pageFreeList } := by
  have hdec : (s.ppRef pp + (2 ^ 16 - 1)) % 2 ^ 16 = 0 := by
    rw [h]
    decide
  unfold pageDecref
  simp only [hdec, Pmap.setRef_ppRef_self]
  rw [if_pos (by omega)]
  simp [pageFree]

theorem pageDecref_more {s : Pmap} {pp : Nat} (h : 1 < s.ppRef pp) (hlt : s.ppRef pp < 2 ^ 16) :
    pageDecref s pp = .ok (s.setRef pp (s.ppRef pp - 1)) := by
  have hdec : (s.ppRef pp + (2 ^ 16 - 1)) % 2 ^ 16 = s.ppRef pp - 1 := by
    omega
  unfold pageDecref
  simp only [hdec, Pmap.setRef_ppRef_self]
  rw [if_pos (by omega), if_neg (by omega)]

@[simp] theorem tlbFlush_mem (s : Pmap) (asid va : Nat) : (tlbFlush s asid va).mem = s.mem := rfl
@[simp] theorem tlbFlush_ppRef (s : Pmap) (asid va : Nat) :
    (tlbFlush s asid va).ppRef = s.ppRef := rfl
@[simp] theorem tlbFlush_pageFreeList (s : Pmap) (asid va : Nat) :
    (tlbFlush s asid va).pageFreeList = s.pageFreeList := rfl

end Mos.Kern
