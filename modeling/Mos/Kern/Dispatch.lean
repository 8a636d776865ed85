import Mos.Kern.Context
import Mos.Kern.Progress

/-!
# MOS on RISC-V — the dispatcher

`do_syscall` takes the number of the call from `a0` and the arguments from `a1` to `a5`. It
moves `sepc` past the `ecall` only after it has checked the number.

Main results:

* `dispatch_executes_iff` — a call that returns has moved `sepc` by 4, put its result into
  `a0` and left the other registers alone, exactly if the number is in the table;
* `dispatch_noSys_again` — with a number outside the table the env comes back to the same
  `ecall`, with the same result, for ever.
-/

namespace Mos.Kern

open Mos.Lib

variable {k k' : Kernel} {cur : Nat}

/-- What a call takes from outside the kernel: the word `printcharc` leaves in `a0`, and
the character that `scancharc` finds. -/
structure Console where
  left : Nat
  typed : Int

def MAX_SYSNO : Int := 17

/-- `int sysno = tf->regs[10]`. -/
def Trapframe.sysno (tf : Trapframe) : Int := toInt (tf.regs 10)

/-- `syscall_table`, with the functions applied to the arguments in `tf`. -/
def syscallTable (tf : Trapframe) (io : Console) : List Syscall :=
  let arg1 := tf.regs 11
  let arg2 := tf.regs 12
  let arg3 := tf.regs 13
  let arg4 := tf.regs 14
  let arg5 := tf.regs 15
  [.putchar io.left, .printCons arg1 arg2, .getenvid, .yield, .envDestroy arg1,
    .setTlbModEntry arg1 arg2, .memAlloc arg1 arg2 arg3, .memMap arg1 arg2 arg3 arg4 arg5,
    .memUnmap arg1 arg2, .exofork, .setEnvStatus arg1 arg2, .setTrapframe arg1 arg2, .panic,
    .ipcTrySend arg1 arg2 arg3 arg4, .ipcRecv arg1, .cgetc io.typed, .devReq arg1 arg2]

/-- The call that `tf` asks for. -/
def Trapframe.call (tf : Trapframe) (io : Console) : Option Syscall :=
  if tf.sysno < 0 ∨ MAX_SYSNO ≤ tf.sysno then none
  else (syscallTable tf io)[tf.sysno.toNat]?

/-- `tf->regs[10] = -E_NO_SYS`. -/
def Trapframe.noSys (tf : Trapframe) : Trapframe := tf.withA0 (toWord (-E_NO_SYS))

def callFunc (k : Kernel) (cur : Nat) : Option Syscall → SysResult
  | none => .ok (some (-E_NO_SYS), { k with tf := k.tf.noSys })
  | some s => doSyscall k cur s

/-- `do_syscall`, on the trapframe the trap saved. -/
def dispatch (k : Kernel) (cur : Nat) (io : Console) : SysResult := callFunc k cur (k.tf.call io)

/-- The number is in the table. -/
def Trapframe.InTable (tf : Trapframe) : Prop := 0 ≤ tf.sysno ∧ tf.sysno < MAX_SYSNO

/-- The `ecall` of `k` was executed, once, with the result `r`. -/
structure Executed (k k' : Kernel) (r : Int) : Prop where
  frame : k'.tf = k.tf.pastEcall.withA0 (toWord r)
  noSys : ¬ k.tf.InTable → r = -E_NO_SYS

/-- `sys_set_trapframe` on the caller itself. -/
def Syscall.OnItself (k : Kernel) (cur : Nat) : Syscall → Prop
  | .setTrapframe envid _ => envid2env k cur envid true = .ok cur
  | _ => False

-- ---------------------------------------------------------------------------
-- The table
-- ---------------------------------------------------------------------------

theorem call_eq_none {tf : Trapframe} {io : Console} : tf.call io = none ↔ ¬ tf.InTable := by
  unfold Trapframe.call Trapframe.InTable
  split_ifs with h
  · exact iff_of_true rfl (by omega)
  · refine iff_of_false ?_ (by omega)
    rw [List.getElem?_eq_none_iff]
    have hlen : (syscallTable tf io).length = 17 := rfl
    simp only [MAX_SYSNO] at h
    omega

theorem dispatch_noSys {io : Console} (h : ¬ k.tf.InTable) :
    dispatch k cur io = .ok (some (-E_NO_SYS), { k with tf := k.tf.noSys }) := by
  rw [dispatch, call_eq_none.mpr h, callFunc]

theorem dispatch_call {io : Console} {s : Syscall} (h : k.tf.call io = some s) :
    dispatch k cur io = doSyscall k cur s := by
  rw [dispatch, h, callFunc]

/-- No call moved the program counter there. -/
theorem sepc_ne_pastEcall (tf : Trapframe) : tf.sepc ≠ tf.pastEcall.sepc := by
  show tf.sepc ≠ (tf.sepc + 4) % 2 ^ 32
  omega

theorem noSys_ne_pastEcall (tf : Trapframe) (a0 : Nat) : tf.noSys ≠ tf.pastEcall.withA0 a0 := by
  intro h
  have hsepc : tf.noSys.sepc = (tf.pastEcall.withA0 a0).sepc := by rw [h]
  exact sepc_ne_pastEcall tf hsepc

-- ---------------------------------------------------------------------------
-- The frame of the caller
-- ---------------------------------------------------------------------------

/-- The frame that a call sets is not that of its caller. -/
theorem sets_ne_caller (htable : TableInv k) (hcur : k.curenv = some cur) {s : Syscall}
    (hself : ¬ s.OnItself k cur) {e : Nat} {tf : Trapframe} (h : s.sets k cur = some (e, tf)) : e ≠ cur := by
  cases s with
  | setTrapframe envid va =>
    rintro rfl
    apply hself
    change (if isIllegalVaRange va TRAPFRAME_SIZE then _ else _) = _ at h
    split_ifs at h
    unfold Syscall.OnItself
    cases he : envid2env k e envid true with
    | error r =>
      simp only [he] at h
      cases h
    | ok e' =>
      simp only [he] at h
      cases hload : kernelLoads k e va TRAPFRAME_SIZE with
      | error p =>
        simp only [hload] at h
        cases h
      | ok x =>
        simp only [hload] at h
        obtain ⟨rfl, -⟩ := Prod.mk.inj (Option.some.inj h)
        exact he
  | exofork =>
    unfold Syscall.sets at h
    cases he : (envAlloc k (k.envs cur).id).1 with
    | error r =>
      simp only [he] at h
      cases h
    | ok e' =>
      simp only [he] at h
      obtain ⟨rfl, -⟩ := Prod.mk.inj (Option.some.inj h)
      exact htable.fresh_ne hcur he
  | _ => cases h

/-- A function of the table leaves the frame of its caller alone. -/
theorem exec_tf (htable : TableInv k) (hcur : k.curenv = some cur) {s : Syscall} (hself : ¬ s.OnItself k cur)
    {r : Int} (h : s.exec k cur = .ok (some r, k')) : k'.tf = k.tf := by
  obtain ⟨hcur', hheld, -⟩ := exec_returns hcur (fun e he => htable.fresh_ne hcur he) h
  have hframe := hheld cur
  have hslot : k'.frameOf cur = k'.tf := if_pos hcur'
  have hold : k.frameOf cur = k.tf := if_pos hcur
  rw [← hslot, hframe, ← hold]
  cases hsets : s.sets k cur with
  | none => rfl
  | some x =>
    obtain ⟨e, tf⟩ := x
    rw [setFrame_some, Function.update_of_ne (sets_ne_caller htable hcur hself hsets).symm]

/-- A call of the table. -/
theorem doSyscall_executed (htable : TableInv k) (hcur : k.curenv = some cur) {s : Syscall}
    (hself : ¬ s.OnItself k cur) {r : Int} (h : doSyscall k cur s = .ok (some r, k')) :
    k'.tf = k.tf.pastEcall.withA0 (toWord r) := by
  unfold doSyscall at h
  obtain ⟨⟨res, k₁⟩, hexec, hret⟩ := bind_eq_ok.mp h
  have hpast : ({ k with tf := { k.tf with sepc := (k.tf.sepc + 4) % 2 ^ 32 } } : Kernel) =
    { k with tf := k.tf.pastEcall } := rfl
  rw [hpast] at hexec
  have htable' : TableInv { k with tf := k.tf.pastEcall } :=
    htable.same (fun _ _ => rfl) (fun _ => Iff.rfl) rfl rfl htable.cur
  cases res with
  | none => cases hret
  | some v =>
    have hself' : ¬ s.OnItself { k with tf := k.tf.pastEcall } cur := by
      cases s <;> exact hself
    have htf := exec_tf htable' hcur hself' hexec
    have hr : v = r := by
      cases hret
      rfl
    have htf' : k'.tf = k₁.tf.withA0 (toWord v) := by
      cases hret
      rfl
    rw [htf', htf, hr]

/-- **An `ecall` is executed once.** For every number in `a0`, in every call that returns to
its caller and is not `sys_set_trapframe` on the caller itself. -/
theorem dispatch_executes_iff (htable : TableInv k) (hcur : k.curenv = some cur) {io : Console}
    (hself : ∀ s, k.tf.call io = some s → ¬ s.OnItself k cur) {r : Int}
    (h : dispatch k cur io = .ok (some r, k')) : Executed k k' r ↔ k.tf.InTable := by
  by_cases hin : k.tf.InTable
  · refine iff_of_true ⟨?_, fun hout => absurd hin hout⟩ hin
    cases hcall : k.tf.call io with
    | none => exact absurd hin (call_eq_none.mp hcall)
    | some s =>
      rw [dispatch_call hcall] at h
      exact doSyscall_executed htable hcur (hself s hcall) h
  · refine iff_of_false ?_ hin
    rintro ⟨hframe, -⟩
    rw [dispatch_noSys hin] at h
    have hsame : k.tf.noSys = k'.tf := congrArg (fun x : Option Int × Kernel => x.2.tf) (Except.ok.inj h)
    exact noSys_ne_pastEcall k.tf _ (hsame.trans hframe)

/-- The answer is no number of the table either. -/
theorem noSys_notInTable (tf : Trapframe) : ¬ tf.noSys.InTable := by
  rintro ⟨hnonneg, -⟩
  have hsysno : tf.noSys.sysno = -E_NO_SYS := by
    show toInt ((Function.update tf.regs 10 (toWord (-E_NO_SYS)) 10 : Nat) : Int) = _
    rw [Function.update_self]
    decide
  rw [hsysno] at hnonneg
  exact absurd hnonneg (by decide)

theorem noSys_noSys (tf : Trapframe) : tf.noSys.noSys = tf.noSys := by
  unfold Trapframe.noSys Trapframe.withA0
  rw [Function.update_idem]

/-- The env comes back to its `ecall`, and to the same answer. -/
theorem dispatch_noSys_again {io : Console} (h : ¬ k.tf.InTable)
    (hrun : dispatch k cur io = .ok (some (-E_NO_SYS), k')) (io' : Console) :
    k'.tf.sepc = k.tf.sepc ∧ dispatch k' cur io' = .ok (some (-E_NO_SYS), k') := by
  rw [dispatch_noSys h] at hrun
  have hk' : { k with tf := k.tf.noSys } = k' := congrArg Prod.snd (Except.ok.inj hrun)
  have hout : ¬ k'.tf.InTable := by
    rw [← hk']
    exact noSys_notInTable k.tf
  refine ⟨by rw [← hk']; rfl, ?_⟩
  rw [dispatch_noSys hout, ← hk']
  exact congrArg (fun tf => Except.ok (some (-E_NO_SYS), { k with tf := tf })) (noSys_noSys k.tf)

-- ---------------------------------------------------------------------------
-- The first env
-- ---------------------------------------------------------------------------

/-- The frame of an `ecall` with `no` in `a0`. -/
def callFrame (no : Nat) : Trapframe := zeroTrapframe.withA0 no

/-- `sys_getenvid` and `MAX_SYSNO`, by the first env after boot. -/
theorem smallBoot_calls :
    ∃ (k : Kernel) (a : Nat), TableInv k ∧ k.curenv = some a := by
  obtain ⟨k₀, -, k₁, k, a, hboot, -, hcreate, htick, -, -, -, hcur, -, -⟩ := smallBoot_first
  have hreach : KernReach (fun _ _ => True) k₀ k := .step (.step .refl trivial hcreate) trivial htick
  exact ⟨k, a, hreach.tableInv (boot_idInv hboot).table, hcur⟩

theorem dispatch_executes_iff_getenvid :
    ∃ (k k' : Kernel) (a : Nat), dispatch k a ⟨0, 0⟩ = .ok (some (k.envs a).id, k') ∧
      (Executed k k' (k.envs a).id ↔ k.tf.InTable) := by
  obtain ⟨k, a, htable, hcur⟩ := smallBoot_calls
  have htable' : TableInv { k with tf := callFrame 2 } :=
    htable.same (fun _ _ => rfl) (fun _ => Iff.rfl) rfl rfl htable.cur
  have hcall : (callFrame 2).call ⟨0, 0⟩ = some .getenvid := by
    unfold Trapframe.call
    rw [if_neg (by decide), show (callFrame 2).sysno = 2 by decide]
    rfl
  have hrun : dispatch { k with tf := callFrame 2 } a ⟨0, 0⟩ =
      doSyscall { k with tf := callFrame 2 } a .getenvid := dispatch_call hcall
  refine ⟨{ k with tf := callFrame 2 }, _, a, hrun, dispatch_executes_iff htable' hcur ?_ hrun⟩
  intro s hs
  obtain rfl : Syscall.getenvid = s := Option.some.inj (hcall.symm.trans hs)
  exact id

/-- **The number after the last.** `sepc` stays at the `ecall`. -/
theorem dispatch_pastTable :
    ∃ (k k' : Kernel) (a : Nat), TableInv k ∧ k.curenv = some a ∧
      dispatch k a ⟨0, 0⟩ = .ok (some (-E_NO_SYS), k') ∧ k.tf = callFrame 17 ∧ k'.tf.sepc = k.tf.sepc ∧
      ¬ Executed k k' (-E_NO_SYS) := by
  obtain ⟨k, a, htable, hcur⟩ := smallBoot_calls
  have htable' : TableInv { k with tf := callFrame 17 } :=
    htable.same (fun _ _ => rfl) (fun _ => Iff.rfl) rfl rfl htable.cur
  have hout : ¬ (callFrame 17).InTable := fun hin => absurd hin.2 (by decide)
  refine ⟨{ k with tf := callFrame 17 }, _, a, htable', hcur, dispatch_noSys hout, rfl, rfl, ?_⟩
  exact fun hex => noSys_ne_pastEcall (callFrame 17) _ hex.frame

end Mos.Kern
