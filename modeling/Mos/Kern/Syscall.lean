import Mos.Kern.Tlbex

/-!
# MOS on RISC-V — system calls

The functions of `kern/syscall_all.c`, and one step of the kernel: a trap of
the running env, a store it makes, or a timer tick. `cur` is `curenv`, the env
that trapped. What goes to and comes from the console is left out.

A system call that returns gives `some r`; one that ends in `schedule` gives
`none`, and another env runs.
-/

namespace Mos.Kern

open Mos.Lib

/-- A system call with its arguments, any 32-bit words. -/
inductive Syscall where
  | putchar (left : Nat)                -- returns nothing; `left` is what `a0` held
  | printCons (s num : Nat)
  | getenvid
  | yield
  | envDestroy (envid : Nat)
  | setTlbModEntry (envid func : Nat)
  | memAlloc (envid va perm : Nat)
  | memMap (srcid srcva dstid dstva perm : Nat)
  | memUnmap (envid va : Nat)
  | exofork
  | setEnvStatus (envid status : Nat)
  | setTrapframe (envid va : Nat)
  | panic
  | ipcTrySend (envid value srcva perm : Nat)
  | ipcRecv (dstva : Nat)
  | cgetc (ch : Int)                    -- `ch` is what was typed
  | devReq (dev req : Nat)

abbrev SysResult := Result (Option Int × Kernel)

def sysPrintCons (k : Kernel) (cur s num : Nat) : SysResult :=
  if UTOP < (s + num) % 2 ^ 32 ∨ UTOP ≤ s ∨ (s + num) % 2 ^ 32 < s then .ok (some (-E_INVAL), k)
  else do
    let (_, k) ← kernelLoads k cur s num
    return (some 0, k)

def sysYield (k : Kernel) : SysResult := do
  let k ← schedule k true
  return (none, k)

def sysEnvDestroy (k : Kernel) (cur envid : Nat) : SysResult :=
  match envid2env k cur envid true with
  | .error r => .ok (some r, k)
  | .ok e => do
    let (returns, k) ← envDestroy k e
    return (if returns then some 0 else none, k)

def sysSetTlbModEntry (k : Kernel) (cur envid func : Nat) : SysResult :=
  match envid2env k cur envid true with
  | .error r => .ok (some r, k)
  | .ok e => .ok (some 0, k.setEnv e fun env => { env with userTlbModEntry := func })

def isIllegalVa (va : Nat) : Bool := decide (va < UTEMP ∨ UTOP ≤ va)

def isIllegalVaRange (va len : Nat) : Bool :=
  if len = 0 then false
  else decide ((va + len) % 2 ^ 32 < va ∨ va < UTEMP ∨ UTOP < (va + len) % 2 ^ 32)

def sysMemAlloc (k : Kernel) (cur envid va perm : Nat) : SysResult :=
  if isIllegalVa va then .ok (some (-E_INVAL), k)
  else
    match envid2env k cur envid true with
    | .error r => .ok (some r, k)
    | .ok e =>
      match pageAlloc k.pm with
      | none => .ok (some (-E_NO_MEM), k)
      | some (pp, pm) => do
        let (r, pm) ← pageInsert pm (k.envs e).pgdir (k.envs e).asid pp va (perm ||| PTE_U)
        return (some r, { k with pm := pm })

def sysMemMap (k : Kernel) (cur srcid srcva dstid dstva perm : Nat) : SysResult :=
  if isIllegalVa srcva then .ok (some (-E_INVAL), k)
  else if isIllegalVa dstva then .ok (some (-E_INVAL), k)
  else
    match envid2env k cur srcid true with
    | .error r => .ok (some r, k)
    | .ok src =>
      match envid2env k cur dstid true with
      | .error r => .ok (some r, k)
      | .ok dst => do
        match ← pageLookup k.pm (k.envs src).pgdir srcva with
        | none => return (some (-E_INVAL), k)
        | some (pp, _) =>
          let (r, pm) ← pageInsert k.pm (k.envs dst).pgdir (k.envs dst).asid pp dstva (perm ||| PTE_U)
          return (some r, { k with pm := pm })

def sysMemUnmap (k : Kernel) (cur envid va : Nat) : SysResult :=
  if isIllegalVa va then .ok (some (-E_INVAL), k)
  else
    match envid2env k cur envid true with
    | .error r => .ok (some r, k)
    | .ok e => do
      let pm ← pageRemove k.pm (k.envs e).pgdir (k.envs e).asid va
      return (some 0, { k with pm := pm })

def sysExofork (k : Kernel) (cur : Nat) : SysResult :=
  match envAlloc k (k.envs cur).id with
  | (.error r, k) => .ok (some r, k)
  | (.ok e, k) =>
    let k := k.setEnv e fun env => { env with
      tf := { k.tf with regs := Function.update k.tf.regs 10 0 }
      status := .notRunnable
      pri := (k.envs cur).pri }
    .ok (some (k.envs e).id, k)

/-- The statuses a caller may set. -/
def statusOfNat (status : Nat) : Option EnvStatus :=
  if status = 1 then some .runnable else if status = 2 then some .notRunnable else none

def sysSetEnvStatus (k : Kernel) (cur envid status : Nat) : SysResult :=
  match statusOfNat status with
  | none => .ok (some (-E_INVAL), k)
  | some st =>
    match envid2env k cur envid true with
    | .error r => .ok (some r, k)
    | .ok e => do
      let k ← if (k.envs e).status ≠ st then
          (if st = .runnable then tailqInsertTail k e else tailqRemove k e)
        else .ok k
      return (some 0, k.setEnv e fun env => { env with status := st })

def sysSetTrapframe (k : Kernel) (cur envid va : Nat) : SysResult :=
  if isIllegalVaRange va TRAPFRAME_SIZE then .ok (some (-E_INVAL), k)
  else
    match envid2env k cur envid true with
    | .error r => .ok (some r, k)
    | .ok e => do
      let (bs, k) ← kernelLoads k cur va TRAPFRAME_SIZE
      let tf := Trapframe.ofBytes bs
      if e = cur then return (some (tf.regs 10), { k with tf := tf })
      else return (some 0, k.setEnv e fun env => { env with tf := tf })

def sysIpcRecv (k : Kernel) (cur dstva : Nat) : SysResult :=
  if dstva ≠ 0 ∧ isIllegalVa dstva then .ok (some (-E_INVAL), k)
  else do
    let k := k.setEnv cur fun env =>
      { env with ipcRecving := 1, ipcDstva := dstva, status := .notRunnable }
    let k ← tailqRemove k cur
    let k ← schedule { k with tf := { k.tf with regs := Function.update k.tf.regs 10 0 } } true
    return (none, k)

/-- Steps 4 and 5 of `sys_ipc_try_send`: the message goes into the slots of `e`,
and `e` is made runnable. -/
def deliver (k : Kernel) (cur e value perm : Nat) : Result Kernel := do
  let k := k.setEnv e fun env => { env with
    ipcValue := value
    ipcFrom := (k.envs cur).id
    ipcPerm := PTE_U ||| PTE_V ||| readable perm
    ipcRecving := 0
    status := .runnable }
  tailqInsertTail k e

def sysIpcTrySend (k : Kernel) (cur envid value srcva perm : Nat) : SysResult :=
  if srcva ≠ 0 ∧ isIllegalVa srcva then .ok (some (-E_INVAL), k)
  else
    match envid2env k cur envid false with
    | .error r => .ok (some r, k)
    | .ok e =>
      if (k.envs e).ipcRecving = 0 then .ok (some (-E_IPC_NOT_RECV), k)
      else do
        let k ← deliver k cur e value perm
        if srcva ≠ 0 then
          match ← pageLookup k.pm (k.envs cur).pgdir srcva with
          | none => return (some (-E_INVAL), k)
          | some (p, _) =>
            let (r, pm) ← pageInsert k.pm (k.envs e).pgdir (k.envs e).asid p (k.envs e).ipcDstva
              (k.envs e).ipcPerm
            return (some r, { k with pm := pm })
        else return (some 0, k)

/-- `sys_dev_req`; the test `pa < 0` of an unsigned address is never true. -/
def sysDevReq (k : Kernel) (dev req : Nat) : SysResult :=
  if req % 2 ^ 12 ≠ 0 ∨ isIllegalVa req then .ok (some (-E_INVAL), k)
  else do
    let pa ← va2pa k.pm k.curPgdir req
    if dev = 8 then
      let (r, disk) ← virtioDiskReq k.disk pa
      return (some r, { k with disk := disk })
    else return (some (-E_INVAL), k)

def Syscall.exec (k : Kernel) (cur : Nat) : Syscall → SysResult
  | .putchar left => .ok (some left, k)
  | .printCons s num => sysPrintCons k cur s num
  | .getenvid => .ok (some (k.envs cur).id, k)
  | .yield => sysYield k
  | .envDestroy envid => sysEnvDestroy k cur envid
  | .setTlbModEntry envid func => sysSetTlbModEntry k cur envid func
  | .memAlloc envid va perm => sysMemAlloc k cur envid va perm
  | .memMap srcid srcva dstid dstva perm => sysMemMap k cur srcid srcva dstid dstva perm
  | .memUnmap envid va => sysMemUnmap k cur envid va
  | .exofork => sysExofork k cur
  | .setEnvStatus envid status => sysSetEnvStatus k cur envid status
  | .setTrapframe envid va => sysSetTrapframe k cur envid va
  | .panic => .error .sysPanic
  | .ipcTrySend envid value srcva perm => sysIpcTrySend k cur envid value srcva perm
  | .ipcRecv dstva => sysIpcRecv k cur dstva
  | .cgetc ch => .ok (some ch, k)
  | .devReq dev req => sysDevReq k dev req

/-- The 32-bit word of a C `int`. -/
def toWord (r : Int) : Nat := (r % 2 ^ 32).toNat

/-- `do_syscall`, on the trapframe the trap saved: `sepc` moves past the `ecall`,
and a result goes to `a0`. -/
def doSyscall (k : Kernel) (cur : Nat) (s : Syscall) : SysResult := do
  let k := { k with tf := { k.tf with sepc := (k.tf.sepc + 4) % 2 ^ 32 } }
  match ← s.exec k cur with
  | (none, k) => return (none, k)
  | (some r, k) =>
    return (some r, { k with tf := { k.tf with regs := Function.update k.tf.regs 10 (toWord r) } })

/-- What can happen next. -/
inductive KernOp where
  | create (binary : Option Elf) (priority : Nat)
  | device (disk : Vring)                     -- the device moves on
  | tick (tf : Trapframe)                     -- a timer interrupt
  | syscall (tf : Trapframe) (s : Syscall)    -- `ecall` by the running env
  | fault (tf : Trapframe)                    -- a page fault of the running env
  | store (va b : Nat)                        -- the running env writes memory

/-- `ret_from_exception`: the running env goes on with the frame of the slot. -/
def retFromException (k : Kernel) : Kernel := { k with cpu := k.tf }

/-- One trap of the running env `cur`. -/
def trap (k : Kernel) (cur : Nat) : KernOp → Result Kernel
  | .syscall tf s => do
    let (r, k) ← doSyscall { k with tf := tf } cur s
    return if r.isSome then retFromException k else k
  | .fault tf => do
    let k ← doTlbMiss { k with tf := tf } cur
    return retFromException k
  | .store va b => .ok (userStore k va b)
  | _ => .ok k

/-- One step. A trap first stores the registers below `KSTACKTOP`. -/
def KernOp.run (k : Kernel) (op : KernOp) : Result Kernel :=
  match op with
  | .create binary priority => do
    let (_, k) ← envCreate k binary priority
    return k
  | .device disk => .ok { k with disk := disk }
  | .tick tf => schedule { k with tf := tf } false
  | op =>
    match k.curenv with
    | none => .error .nullCurenv
    | some cur => trap k cur op

/-- The forms a step can take. -/
inductive KernOp.RunCases (k : Kernel) : KernOp → Prop where
  | create (binary : Option Elf) (priority : Nat) : RunCases k (.create binary priority)
  | device (disk : Vring) : RunCases k (.device disk)
  | tick (tf : Trapframe) : RunCases k (.tick tf)
  | idle {op : KernOp} : op.run k = .error .nullCurenv → RunCases k op
  | trap {op : KernOp} {cur : Nat} : k.curenv = some cur → op.run k = Kern.trap k cur op →
      RunCases k op

/-- The steps that the running env takes itself. -/
def KernOp.IsEnvOp : KernOp → Prop
  | .syscall .. | .fault _ | .store .. => True
  | _ => False

theorem KernOp.run_of_curenv {k : Kernel} {cur : Nat} (op : KernOp) (hop : op.IsEnvOp)
    (hcur : k.curenv = some cur) : op.run k = Kern.trap k cur op := by
  cases op with
  | syscall tf s => simp only [KernOp.run, hcur]
  | fault tf => simp only [KernOp.run, hcur]
  | store va b => simp only [KernOp.run, hcur]
  | _ => exact hop.elim

theorem KernOp.trap_of_run {k k' : Kernel} (op : KernOp) (hop : op.IsEnvOp) (h : op.run k = .ok k') :
    ∃ cur, k.curenv = some cur ∧ Kern.trap k cur op = .ok k' := by
  cases hcur : k.curenv with
  | some cur => exact ⟨cur, rfl, (run_of_curenv op hop hcur).symm.trans h⟩
  | none =>
    cases op with
    | syscall tf s => simp [KernOp.run, hcur] at h
    | fault tf => simp [KernOp.run, hcur] at h
    | store va b => simp [KernOp.run, hcur] at h
    | _ => exact hop.elim

theorem KernOp.run_trap {k : Kernel} (op : KernOp)
    (hop : op.run k = match k.curenv with
      | none => .error .nullCurenv
      | some cur => Kern.trap k cur op) : RunCases k op := by
  cases hcur : k.curenv with
  | none => exact .idle (by rw [hop, hcur])
  | some cur => exact .trap hcur (by rw [hop, hcur])

theorem KernOp.run_cases (k : Kernel) (op : KernOp) : RunCases k op := by
  cases op with
  | create binary priority => exact .create binary priority
  | device disk => exact .device disk
  | tick tf => exact .tick tf
  | syscall tf s => exact run_trap _ rfl
  | fault tf => exact run_trap _ rfl
  | store va b => exact run_trap _ rfl

/-- The states of the runs from `k₀` whose steps all meet `P`. -/
inductive KernReach (P : Kernel → KernOp → Prop) (k₀ : Kernel) : Kernel → Prop where
  | refl : KernReach P k₀ k₀
  | step {k k' : Kernel} {op : KernOp} : KernReach P k₀ k → P k op → op.run k = .ok k' →
      KernReach P k₀ k'

end Mos.Kern
