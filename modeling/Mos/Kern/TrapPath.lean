import Mos.Lib.Riscv
import Mos.Kern.Env

/-!
# MOS on RISC-V — the way into the kernel and back

The code of `kern/entry.S`, `kern/genex.S` and `kern/env_asm.S` with the macros `SAVE_ALL` and
`RESTORE_ALL` of `include/stackframe.h`, on the machine of `Mos.Lib.Riscv`, and the table
`exception_handlers` of `kern/traps.c`. The C functions are left to their callers.

* `entry_saves` — from a trap to the C function for its cause, with the registers in a frame.
* `ret_restores` — from a frame back to what it says.
* `envPopTf_restores` — the same for a frame anywhere, in another address space.

The code saves below the stack pointer if that is a kernel address, and else below
`KSTACKTOP`. The labels are where the linker puts them; `exception_handlers` is in memory.
-/

namespace Mos.Kern

open Mos.Lib Mos.Lib.Riscv

-- ---------------------------------------------------------------------------
-- The code
-- ---------------------------------------------------------------------------

namespace Reg

abbrev sp : Nat := 2
abbrev t0 : Nat := 5
abbrev t1 : Nat := 6
abbrev t2 : Nat := 7
abbrev a0 : Nat := 10
abbrev a1 : Nat := 11

end Reg

open Reg

/-- The handlers that `BUILD_HANDLER` makes. -/
inductive Handler where
  | mod | sys | reserved | instrMiss | loadMiss | storeMiss
  deriving DecidableEq, Repr

/-- The C functions the code goes to. -/
inductive CFun where
  | doTlbMod | doSyscall | doReserved | doTlbMiss | clockSetNextEvent | schedule
  deriving DecidableEq, Repr

inductive TrapLabel where
  | exceptionEntry
  | saveFrame                  -- `$1` in `SAVE_ALL`
  | interrupt
  | handle (h : Handler)
  | handleTimer
  | retFromException
  | envPopTf
  | c (f : CFun)
  deriving DecidableEq, Repr

/-- The function `BUILD_HANDLER` is given. -/
def Handler.fn : Handler → CFun
  | .mod => .doTlbMod
  | .sys => .doSyscall
  | .reserved => .doReserved
  | .instrMiss | .loadMiss | .storeMiss => .doTlbMiss

/-- `exception_handlers`. -/
def exceptionHandlers (code : Nat) : Handler :=
  if code = 12 then .instrMiss
  else if code = 13 then .loadMiss
  else if code = 15 then .storeMiss
  else if code = 7 then .mod
  else if code = 8 then .sys
  else .reserved

/-- Where the linker puts the code and the table of handlers. -/
structure Image where
  place : TrapLabel → Word
  handlers : Word

/-- The first part of `SAVE_ALL`, which goes on at its label. -/
def savePointer : List (Instr TrapLabel) :=
  [.op (.csrw .sscratch sp), .bltz sp .saveFrame, .op (.li sp (BitVec.ofNat 32 KSTACKTOP)), .j .saveFrame]

/-- `csrr t0, c` and `sw t0, off(sp)`, for one register after the other. -/
def saveCsrs : List Csr → Nat → List Op
  | [], _ => []
  | c :: cs, off => .csrr t0 c :: .sw t0 off sp :: saveCsrs cs (off + 4)

/-- `lw t0, off(sp)` and `csrw c, t0`. -/
def restoreCsrs : List Csr → Nat → List Op
  | [], _ => []
  | c :: cs, off => .lw t0 off sp :: .csrw c t0 :: restoreCsrs cs (off + 4)

/-- The rest of `SAVE_ALL`. -/
def saveAll : List Op :=
  [.addi sp sp (-152)] ++ ((List.range 32).map fun i => .sw i (4 * i) sp) ++
    saveCsrs [.sstatus, .sscratch, .scause, .sepc, .stval, .sip] 128

/-- The registers `RESTORE_ALL` loads before the stack pointer. -/
def restored : List Nat := [1, 3, 4, 5, 6, 7, 8, 9, 10, 11, 12, 13, 14, 15, 16, 17, 18, 19, 20, 21,
  22, 23, 24, 25, 26, 27, 28, 29, 30, 31]

def restoreAll : List Op :=
  restoreCsrs [.sstatus, .sscratch, .scause, .sepc, .stval] 128 ++
    (restored.map fun i => .lw i (4 * i) sp) ++
    [.lw sp 8 sp, .addi sp sp 152, .csrrw sp .sscratch sp]

/-- After `SAVE_ALL`: user memory is opened, and the cause decides. -/
def dispatchTrap (im : Image) : List (Instr TrapLabel) :=
  [.op (.li t0 0x40000), .op (.csrs .sstatus t0), .op (.csrr t0 .scause), .op (.li t1 0x80000000),
    .op (.and t2 t1 t0), .bnez t2 .interrupt,
    .op (.li t2 im.handlers), .op (.slli t1 t0 2), .op (.add t1 t1 t2), .op (.lw t1 0 t1), .jr t1]

/-- The code of `ret_from_exception`. -/
def retCode : List (Instr TrapLabel) := [.op (.li t0 0x40000), .op (.csrc .sstatus t0)] ++
  restoreAll.map .op ++ [.sret, .op (.addi 0 0 0)]

/-- The code at a label; the C functions have none here. -/
def trapCode (im : Image) : TrapLabel → Option (List (Instr TrapLabel))
  | .exceptionEntry => some savePointer
  | .saveFrame => some (saveAll.map .op ++ dispatchTrap im)
  | .interrupt => some [.op (.li t1 0x80000005), .beq t0 t1 .handleTimer, .j (.handle .reserved)]
  | .handle h => some [.op (.mv a0 sp), .call (.c h.fn), .j .retFromException]
  | .handleTimer => some [.op (.csrr a0 .time), .op (.li t1 50000), .op (.add a0 a0 t1),
      .call (.c .clockSetNextEvent), .op (.li a0 0), .j (.c .schedule)]
  | .retFromException => some retCode
  | .envPopTf => some [.op (.csrw .satp a1), .op .fenceI, .op (.mv sp a0), .j .retFromException]
  | .c _ => none

-- ---------------------------------------------------------------------------
-- Frames in memory
-- ---------------------------------------------------------------------------

/-- The trap frame at `a`. -/
def frameAt (mem : ByteMem) (a : Nat) : Trapframe where
  regs i := loadWord mem (a + 4 * i)
  sstatus := loadWord mem (a + 128)
  sscratch := loadWord mem (a + 132)
  scause := loadWord mem (a + 136)
  sepc := loadWord mem (a + 140)
  stval := loadWord mem (a + 144)
  sip := loadWord mem (a + 148)

/-- The frame has the registers of `m`; the stack pointer is in its slot for `sscratch`. -/
structure Saved (m : Machine) (tf : Trapframe) : Prop where
  regs : ∀ i < 32, i ≠ sp → tf.regs i = (m.reg i).toNat
  stack : tf.sscratch = (m.reg sp).toNat
  sstatus : tf.sstatus = (m.csr .sstatus).toNat
  scause : tf.scause = (m.csr .scause).toNat
  sepc : tf.sepc = (m.csr .sepc).toNat
  stval : tf.stval = (m.csr .stval).toNat
  sip : tf.sip = (m.csr .sip).toNat

/-- The words `SAVE_ALL` stores, with the stack pointer at the frame `f` by then. -/
def savedWords (m : Machine) (f : Word) : List Nat :=
  ((List.range 32).map fun i => if i = sp then f.toNat else (m.reg i).toNat) ++
    [(m.csr .sstatus).toNat, (m.reg sp).toNat, (m.csr .scause).toNat, (m.csr .sepc).toNat,
      (m.csr .stval).toNat, (m.csr .sip).toNat]

theorem savedWords_length (m : Machine) (f : Word) : (savedWords m f).length = 38 := by
  simp [savedWords]

theorem savedWords_lt (m : Machine) (f : Word) : ∀ w ∈ savedWords m f, w < 2 ^ 32 := by
  intro w hw
  simp only [savedWords, List.mem_append, List.mem_map, List.mem_cons, List.not_mem_nil,
    or_false] at hw
  rcases hw with ⟨i, -, rfl⟩ | rfl | rfl | rfl | rfl | rfl | rfl
  · split_ifs <;> exact BitVec.isLt _
  all_goals exact BitVec.isLt _

/-- The words are the frame. -/
theorem saved_savedWords (m : Machine) (f : Word) (mem : ByteMem) (a : Nat) :
    Saved m (frameAt (storeWords mem a (savedWords m f)) a) := by
  have hword : ∀ i, (hi : i < (savedWords m f).length) →
      loadWord (storeWords mem a (savedWords m f)) (a + 4 * i) = (savedWords m f)[i] :=
    fun i hi => loadWord_storeWords hi (savedWords_lt m f)
  have hlen := savedWords_length m f
  refine ⟨fun i hi hsp => ?_, ?_, ?_, ?_, ?_, ?_, ?_⟩
  · have hlt : i < (savedWords m f).length := by omega
    have hget : (savedWords m f)[i]? = some (m.reg i).toNat := by
      unfold savedWords
      rw [List.getElem?_append_left (by simpa using hi), List.getElem?_map, List.getElem?_range hi,
        Option.map_some, if_neg hsp]
    exact (hword i hlt).trans (Option.some.inj ((List.getElem?_eq_getElem hlt).symm.trans hget))
  · exact (hword 33 (by omega)).trans rfl
  · exact (hword 32 (by omega)).trans rfl
  · exact (hword 34 (by omega)).trans rfl
  · exact (hword 35 (by omega)).trans rfl
  · exact (hword 36 (by omega)).trans rfl
  · exact (hword 37 (by omega)).trans rfl

-- ---------------------------------------------------------------------------
-- SAVE_ALL
-- ---------------------------------------------------------------------------

/-- The control registers go to memory by way of `t0`. -/
theorem runOps_saveCsrs (cs : List Csr) (off : Nat) (m : Machine)
    (h : (m.reg sp).toNat + off + 4 * cs.length ≤ 2 ^ 32) :
    (runOps m (saveCsrs cs off)).mem =
        storeWords m.mem ((m.reg sp).toNat + off) (cs.map fun c => (m.csr c).toNat) ∧
      (runOps m (saveCsrs cs off)).csr = m.csr ∧ (runOps m (saveCsrs cs off)).pc = m.pc ∧
      ∀ i, i ≠ t0 → (runOps m (saveCsrs cs off)).reg i = m.reg i := by
  induction cs generalizing off m with
  | nil => exact ⟨rfl, rfl, rfl, fun _ _ => rfl⟩
  | cons c cs ih =>
    rw [List.length_cons] at h
    obtain ⟨m₁, hm₁⟩ : ∃ m₁, m₁ = (Op.sw t0 off sp).exec ((Op.csrr t0 c).exec m) := ⟨_, rfl⟩
    have hreg : ∀ i, i ≠ t0 → ((Op.csrr t0 c).exec m).reg i = m.reg i := fun i hi => by
      rw [Op.exec, reg_setReg (by decide), if_neg hi]
    have hm₁' : m₁ = { (Op.csrr t0 c).exec m with
        mem := storeWord m.mem ((m.reg sp).toNat + off) (m.csr c).toNat } := by
      have ht0 : ((Op.csrr t0 c).exec m).reg t0 = m.csr c := by
        rw [Op.exec, reg_setReg (by decide), if_pos rfl]
      rw [hm₁, exec_sw (by rw [hreg sp (by decide)]; omega), hreg sp (by decide), ht0]
      rfl
    have hreg₁ : ∀ i, i ≠ t0 → m₁.reg i = m.reg i := fun i hi => by
      rw [hm₁']
      exact hreg i hi
    obtain ⟨hmem, hcsr, hpc, hregs⟩ := ih (off + 4) m₁ (by rw [hreg₁ sp (by decide)]; omega)
    have hrun : runOps m (saveCsrs (c :: cs) off) = runOps m₁ (saveCsrs cs (off + 4)) := by
      rw [hm₁]
      rfl
    rw [hrun]
    refine ⟨?_, hcsr.trans (by rw [hm₁']; rfl), hpc.trans (by rw [hm₁']; rfl),
      fun i hi => (hregs i hi).trans (hreg₁ i hi)⟩
    rw [hmem, hreg₁ sp (by decide), hm₁']
    rfl

/-- The machine at the label of `SAVE_ALL`: the stack pointer `base` is one of the kernel. -/
structure Pointed (m₀ m : Machine) (base : Word) : Prop where
  stack : m.reg sp = base
  regs : ∀ i, i ≠ sp → m.reg i = m₀.reg i
  csr : m.csr = Function.update m₀.csr .sscratch (m₀.reg sp)
  mem : m.mem = m₀.mem
  pc : m.pc = m₀.pc
  user : m.user = m₀.user

/-- The machine with the frame of `m₀` stored at `f`. -/
structure Stored (m₀ m : Machine) (f : Word) : Prop where
  stack : m.reg sp = f
  regs : ∀ i, i ≠ sp → i ≠ t0 → m.reg i = m₀.reg i
  csr : m.csr = Function.update m₀.csr .sscratch (m₀.reg sp)
  mem : m.mem = storeWords m₀.mem f.toNat (savedWords m₀ f)
  pc : m.pc = m₀.pc
  user : m.user = m₀.user

theorem saveCsrs_keepsStatus (cs : List Csr) (off : Nat) : ∀ o ∈ saveCsrs cs off, o.KeepsStatus := by
  induction cs generalizing off with
  | nil => exact fun o ho => absurd ho List.not_mem_nil
  | cons c cs ih =>
    intro o ho
    rcases List.mem_cons.mp ho with rfl | ho
    · trivial
    rcases List.mem_cons.mp ho with rfl | ho
    · trivial
    · exact ih (off + 4) o ho

theorem saveAll_keepsStatus : ∀ o ∈ saveAll, o.KeepsStatus := by
  intro o ho
  unfold saveAll at ho
  rcases List.mem_append.mp ho with ho | ho
  · rcases List.mem_append.mp ho with ho | ho
    · obtain rfl := List.mem_singleton.mp ho
      trivial
    · obtain ⟨i, -, rfl⟩ := List.mem_map.mp ho
      trivial
  · exact saveCsrs_keepsStatus _ _ o ho

/-- `SAVE_ALL` from its label on. -/
theorem runOps_saveAll {m₀ m : Machine} {base f : Word} (h : Pointed m₀ m base)
    (hf : base + (-152) = f) (hroom : f.toNat + 152 ≤ 2 ^ 32) : Stored m₀ (runOps m saveAll) f := by
  obtain ⟨m₁, hm₁⟩ : ∃ m₁, m₁ = (Op.addi sp sp (-152)).exec m := ⟨_, rfl⟩
  have hsp₁ : m₁.reg sp = f := by
    rw [hm₁, Op.exec, reg_setReg (by decide), if_pos rfl, h.stack, hf]
  have hregs₁ : ∀ i, i ≠ sp → m₁.reg i = m₀.reg i := fun i hi => by
    rw [hm₁, Op.exec, reg_setReg (by decide), if_neg hi, h.regs i hi]
  have hmem₁ : m₁.mem = m₀.mem := by
    rw [hm₁]
    exact h.mem
  have hcsr₁ : m₁.csr = Function.update m₀.csr .sscratch (m₀.reg sp) := by
    rw [hm₁]
    exact h.csr
  -- the registers
  have hstores := runOps_stores sp 32 (m := m₁) (by rw [hsp₁]; omega)
  rw [hsp₁, hmem₁] at hstores
  obtain ⟨m₂, hm₂⟩ : ∃ m₂, m₂ = runOps m₁ ((List.range 32).map fun i => .sw i (4 * i) sp) := ⟨_, rfl⟩
  rw [← hm₂] at hstores
  have hreg₂ : ∀ i, m₂.reg i = m₁.reg i := fun i => by
    rw [hstores]
    rfl
  -- the control registers
  obtain ⟨hmem, hcsr, hpc, hregs⟩ := runOps_saveCsrs
    [.sstatus, .sscratch, .scause, .sepc, .stval, .sip] 128 m₂
    (by rw [hreg₂, hsp₁]; simp only [List.length_cons, List.length_nil]; omega)
  have hrun : runOps m saveAll =
      runOps m₂ (saveCsrs [.sstatus, .sscratch, .scause, .sepc, .stval, .sip] 128) := by
    rw [hm₂, hm₁]
    unfold saveAll
    rw [runOps_append, runOps_append]
    rfl
  have hcsr₂ : m₂.csr = Function.update m₀.csr .sscratch (m₀.reg sp) := by
    rw [hstores]
    exact hcsr₁
  rw [hrun]
  refine ⟨?_, fun i hi hi' => ?_, hcsr.trans hcsr₂, ?_, ?_, ?_⟩
  · rw [hregs sp (by decide), hreg₂, hsp₁]
  · rw [hregs i hi', hreg₂, hregs₁ i hi]
  · have hwords : savedWords m₀ f = (List.range 32).map (fun i => (m₁.reg i).toNat) ++
        [.sstatus, .sscratch, .scause, .sepc, .stval, .sip].map fun c => (m₂.csr c).toNat := by
      rw [hcsr₂]
      unfold savedWords
      congr 1
      refine List.map_congr_left fun i _ => ?_
      split_ifs with hi
      · rw [hi, hsp₁]
      · rw [hregs₁ i hi]
    rw [hmem, hreg₂, hsp₁, hwords, storeWords_append, List.length_map, List.length_range, hstores]
  · rw [hpc, hstores, hm₁]
    exact (setReg_pc ..).trans h.pc
  · rw [(runOps_status (saveCsrs_keepsStatus _ _) m₂).2, hstores, hm₁]
    exact (setReg_user ..).trans h.user

-- ---------------------------------------------------------------------------
-- exception_entry
-- ---------------------------------------------------------------------------

/-- Where the frame of a trap goes: below the stack of the kernel, or below `KSTACKTOP`. -/
def frameBase (m : Machine) : Word :=
  if (m.reg sp).msb then m.reg sp else BitVec.ofNat 32 KSTACKTOP

def frameOf (m : Machine) : Word := frameBase m + (-152)

theorem savePointer_exec {m : Machine} (hm : m.interruptible = false) :
    ∃ m', exec savePointer m = some (.goto .saveFrame, m') ∧ Pointed m m' (frameBase m) := by
  obtain ⟨m₁, hm₁⟩ : ∃ m₁, m₁ = (Op.csrw .sscratch sp).exec m := ⟨_, rfl⟩
  have hone : m₁.interruptible = false := by
    have hkeep : (Op.csrw .sscratch sp).KeepsStatus := by
      show Csr.sscratch ≠ .sstatus
      decide
    obtain ⟨hst, hu⟩ := hkeep.exec m
    rw [hm₁, interruptible_congr hst hu, hm]
  have hcsr₁ : m₁.csr = Function.update m.csr .sscratch (m.reg sp) := by
    rw [hm₁]
    rfl
  have hreg₁ : ∀ i, m₁.reg i = m.reg i := fun i => by
    rw [hm₁]
    rfl
  have hrun : exec savePointer m = exec (savePointer.drop 1) m₁ := by
    rw [hm₁]
    exact exec_op hm _ _
  unfold frameBase
  rw [hrun]
  by_cases hneg : (m.reg sp).msb = true
  · -- a kernel stack
    refine ⟨m₁, ?_, ?_⟩
    · exact (exec_bltz hone _ sp TrapLabel.saveFrame).trans (if_pos (by rw [hreg₁]; exact hneg))
    · rw [if_pos hneg]
      refine ⟨hreg₁ sp, fun i _ => hreg₁ i, hcsr₁, ?_, ?_, ?_⟩ <;> rw [hm₁] <;> rfl
  · obtain ⟨m₂, hm₂⟩ : ∃ m₂, m₂ = (Op.li sp (BitVec.ofNat 32 KSTACKTOP)).exec m₁ := ⟨_, rfl⟩
    have htwo : m₂.interruptible = false := by
      rw [hm₂, Op.exec, interruptible_congr (congrFun (setReg_csr ..) _) (setReg_user ..), hone]
    refine ⟨m₂, ?_, ?_⟩
    · refine (exec_bltz hone _ sp TrapLabel.saveFrame).trans ?_
      rw [if_neg (by rw [hreg₁]; exact hneg), exec_op hone, ← hm₂]
      exact exec_j htwo _ _
    · rw [if_neg hneg]
      refine ⟨?_, fun i hi => ?_, ?_, ?_, ?_, ?_⟩
      · rw [hm₂, Op.exec, reg_setReg (by decide), if_pos rfl]
      · rw [hm₂, Op.exec, reg_setReg (by decide), if_neg hi, hreg₁]
      · rw [hm₂, Op.exec, setReg_csr, hcsr₁]
      · rw [hm₂, Op.exec, setReg_mem, hm₁]
        rfl
      · rw [hm₂, Op.exec, setReg_pc, hm₁]
        rfl
      · rw [hm₂, Op.exec, setReg_user, hm₁]
        rfl

/-- In the kernel, with the frame of `m₀` at `f` and user memory open. -/
structure Entered (m₀ m : Machine) (f : Word) : Prop where
  stack : m.reg sp = f
  regs : ∀ i, i ∉ [sp, t0, t1, t2, a0] → m.reg i = m₀.reg i
  csr : ∀ c, c ≠ .sstatus → c ≠ .sscratch → m.csr c = m₀.csr c
  status : ∀ i, i ≠ SUM → m.status i = m₀.status i
  sum : m.status SUM = true
  mem : m.mem = storeWords m₀.mem f.toNat (savedWords m₀ f)
  pc : m.pc = m₀.pc
  user : m.user = m₀.user

namespace Entered

variable {m₀ m : Machine} {f : Word}

theorem interruptible (h : Entered m₀ m f) (hm : m₀.interruptible = false) :
    m.interruptible = false := by
  unfold Machine.interruptible at hm ⊢
  rw [h.user, h.status SIE (by decide)]
  exact hm

/-- Work on the temporaries and on `a0`. -/
theorem setReg (h : Entered m₀ m f) {i : Nat} (hi : i ∈ [t0, t1, t2, a0]) (v : Word) :
    Entered m₀ (m.setReg i v) f := by
  have h0 : i ≠ 0 := by
    rintro rfl
    exact absurd hi (by decide)
  have hsp : sp ≠ i := by
    rintro rfl
    exact absurd hi (by decide)
  refine ⟨?_, fun j hj => ?_, fun c => ?_, fun j => ?_, ?_, ?_, ?_, ?_⟩
  · rw [reg_setReg h0, if_neg hsp, h.stack]
  · have hji : j ≠ i := by
      rintro rfl
      exact hj (List.mem_cons_of_mem sp hi)
    rw [reg_setReg h0, if_neg hji, h.regs j hj]
  · rw [setReg_csr]
    exact h.csr c
  · unfold Machine.status
    rw [setReg_csr]
    exact h.status j
  · unfold Machine.status
    rw [setReg_csr]
    exact h.sum
  · rw [setReg_mem, h.mem]
  · rw [setReg_pc, h.pc]
  · rw [setReg_user, h.user]

end Entered

/-- `csrs sstatus, t0` with the bit that opens user memory. -/
theorem Stored.openUser {m₀ m : Machine} {f : Word} (h : Stored m₀ m f) :
    Entered m₀ ((Op.csrs .sstatus t0).exec ((Op.li t0 0x40000).exec m)) f := by
  have hreg : ∀ i, i ≠ t0 → ((Op.csrs .sstatus t0).exec ((Op.li t0 0x40000).exec m)).reg i = m.reg i :=
    fun i hi => by
      show ((Op.li t0 0x40000).exec m).reg i = _
      rw [Op.exec, reg_setReg (by decide), if_neg hi]
  have hcsr : ((Op.csrs .sstatus t0).exec ((Op.li t0 0x40000).exec m)).csr =
      Function.update m.csr .sstatus (m.csr .sstatus ||| 0x40000) := rfl
  have hbit : ∀ i, ((Op.csrs .sstatus t0).exec ((Op.li t0 0x40000).exec m)).status i =
      (m₀.status i || (0x40000 : Word).getLsbD i) := fun i => by
    unfold Machine.status
    rw [hcsr, Function.update_self, h.csr, Function.update_of_ne (by decide), BitVec.getLsbD_or]
  refine ⟨?_, fun i hi => ?_, fun c h1 h2 => ?_, fun i hi => ?_, ?_, ?_, ?_, ?_⟩
  · rw [hreg sp (by decide), h.stack]
  · simp only [List.mem_cons, List.not_mem_nil, or_false, not_or] at hi
    rw [hreg i hi.2.1, h.regs i hi.1 hi.2.1]
  · rw [hcsr, Function.update_of_ne h1, h.csr, Function.update_of_ne h2]
  · have hoff : (0x40000 : Word).getLsbD i = false := by
      have hpow : (0x40000 : Word) = BitVec.twoPow 32 SUM := by decide
      rw [hpow, BitVec.getLsbD_twoPow]
      simp [Ne.symm hi]
    rw [hbit, hoff, Bool.or_false]
  · rw [hbit]
    have hon : (0x40000 : Word).getLsbD SUM = true := by decide
    rw [hon, Bool.or_true]
  · exact h.mem
  · exact h.pc
  · exact h.user

theorem and_signBit (w : Word) : ((0x80000000 : Word) &&& w ≠ 0) ↔ w.msb = true := by
  have hpow : (0x80000000 : Word) = BitVec.twoPow 32 31 := by decide
  have hmsb : w.msb = w.getLsbD 31 := BitVec.msb_eq_getLsbD_last w
  rw [hpow, BitVec.and_comm, BitVec.and_twoPow, hmsb]
  cases w.getLsbD 31 with
  | true => simp
  | false => simp

/-- The part of `exception_entry` after `SAVE_ALL`, up to the test of the cause. -/
theorem dispatchTrap_exec (im : Image) {m₀ m : Machine} {f : Word} (h : Stored m₀ m f)
    (hm : m₀.interruptible = false) :
    ∃ m', Entered m₀ m' f ∧ m'.reg t0 = m₀.csr .scause ∧
      exec (dispatchTrap im) m = if (m₀.csr .scause).msb then some (.goto .interrupt, m')
        else exec ((dispatchTrap im).drop 6) m' := by
  have hstatus : m.csr .sstatus = m₀.csr .sstatus := by
    rw [h.csr, Function.update_of_ne (by decide)]
  have hone : m.interruptible = false := (interruptible_congr hstatus h.user).trans hm
  have htwo : ((Op.li t0 0x40000).exec m).interruptible = false := by
    rw [Op.exec, interruptible_congr (congrFun (setReg_csr ..) _) (setReg_user ..), hone]
  have hopen := h.openUser
  generalize hm₁ : (Op.csrs .sstatus t0).exec ((Op.li t0 0x40000).exec m) = m₁ at hopen
  have hcause : m₁.csr .scause = m₀.csr .scause := hopen.csr _ (by decide) (by decide)
  have h₂ := hopen.setReg (i := t0) (by decide) (m₁.csr .scause)
  generalize hm₂ : m₁.setReg t0 (m₁.csr .scause) = m₂ at h₂
  have ht0 : m₂.reg t0 = m₀.csr .scause := by
    rw [← hm₂, reg_setReg (by decide), if_pos rfl, hcause]
  have h₃ := h₂.setReg (i := t1) (by decide) 0x80000000
  generalize hm₃ : m₂.setReg t1 0x80000000 = m₃ at h₃
  have hand : m₃.reg t1 &&& m₃.reg t0 = 0x80000000 &&& m₀.csr .scause := by
    rw [← hm₃, reg_setReg (by decide), if_pos rfl, reg_setReg (by decide), if_neg (by decide), ht0]
  have h₄ := h₃.setReg (i := t2) (by decide) (m₃.reg t1 &&& m₃.reg t0)
  generalize hm₄ : m₃.setReg t2 (m₃.reg t1 &&& m₃.reg t0) = m₄ at h₄
  have ht0' : m₄.reg t0 = m₀.csr .scause := by
    rw [← hm₄, reg_setReg (by decide), if_neg (by decide), ← hm₃, reg_setReg (by decide),
      if_neg (by decide), ht0]
  have ht2 : m₄.reg t2 = 0x80000000 &&& m₀.csr .scause := by
    rw [← hm₄, reg_setReg (by decide), if_pos rfl, hand]
  refine ⟨m₄, h₄, ht0', ?_⟩
  have hrun : exec (dispatchTrap im) m = exec ((dispatchTrap im).drop 5) m₄ := by
    unfold dispatchTrap
    rw [exec_op hone, exec_op htwo, hm₁, exec_op (hopen.interruptible hm)]
    show exec _ (m₁.setReg t0 (m₁.csr .scause)) = _
    rw [hm₂, exec_op (h₂.interruptible hm)]
    show exec _ (m₂.setReg t1 0x80000000) = _
    rw [hm₃, exec_op (h₃.interruptible hm)]
    show exec _ (m₃.setReg t2 (m₃.reg t1 &&& m₃.reg t0)) = _
    rw [hm₄]
    rfl
  rw [hrun]
  refine (exec_bnez (h₄.interruptible hm) _ t2 TrapLabel.interrupt).trans ?_
  rw [ht2]
  by_cases hneg : (m₀.csr .scause).msb = true
  · rw [if_pos ((and_signBit _).mpr hneg), if_pos hneg]
  · rw [if_neg (fun hne => hneg ((and_signBit _).mp hne)), if_neg hneg]
    rfl

/-- The table of handlers is in memory. -/
structure Loaded (im : Image) (mem : ByteMem) : Prop where
  fits : im.handlers.toNat + 128 ≤ 2 ^ 32
  entry : ∀ i < 32, loadWord mem (im.handlers.toNat + 4 * i) =
    (im.place (.handle (exceptionHandlers i))).toNat

/-- The frame is not stored over the table. -/
def Image.Apart (im : Image) (f : Word) : Prop :=
  im.handlers.toNat + 128 ≤ f.toNat ∨ f.toNat + 152 ≤ im.handlers.toNat

theorem Loaded.entered {im : Image} {m₀ m : Machine} {f : Word} (h : Loaded im m₀.mem)
    (hapart : im.Apart f) (he : Entered m₀ m f) : Loaded im m.mem := by
  refine ⟨h.fits, fun i hi => ?_⟩
  have hlen := savedWords_length m₀ f
  unfold Image.Apart at hapart
  rw [he.mem, ← h.entry i hi]
  exact loadWord_congr fun x _ _ => storeWords_of_notMem (by omega)

/-- The jump through the table. -/
theorem exception_exec {im : Image} {m₀ m : Machine} {f : Word} (h : Entered m₀ m f)
    (hm : m₀.interruptible = false) (hload : Loaded im m.mem) (hcause : (m.reg t0).toNat < 32) :
    ∃ m', Entered m₀ m' f ∧ exec ((dispatchTrap im).drop 6) m =
      some (.jump (im.place (.handle (exceptionHandlers (m.reg t0).toNat))), m') := by
  obtain ⟨cause, hc⟩ : ∃ cause, m.reg t0 = cause := ⟨_, rfl⟩
  rw [hc] at hcause ⊢
  have h₁ := h.setReg (i := t2) (by decide) im.handlers
  generalize hm₁ : m.setReg t2 im.handlers = m₁ at h₁
  have ht0 : m₁.reg t0 = cause := by
    rw [← hm₁, reg_setReg (by decide), if_neg (by decide), hc]
  have h₂ := h₁.setReg (i := t1) (by decide) (m₁.reg t0 <<< 2)
  generalize hm₂ : m₁.setReg t1 (m₁.reg t0 <<< 2) = m₂ at h₂
  have hsum : m₂.reg t1 + m₂.reg t2 = cause <<< 2 + im.handlers := by
    rw [← hm₂, reg_setReg (by decide), if_pos rfl, reg_setReg (by decide), if_neg (by decide),
      ht0, ← hm₁, reg_setReg (by decide), if_pos rfl]
  have h₃ := h₂.setReg (i := t1) (by decide) (m₂.reg t1 + m₂.reg t2)
  generalize hm₃ : m₂.setReg t1 (m₂.reg t1 + m₂.reg t2) = m₃ at h₃
  have ht1 : (m₃.reg t1).toNat = im.handlers.toNat + 4 * cause.toNat := by
    have hfits := hload.fits
    rw [← hm₃, reg_setReg (by decide), if_pos rfl, hsum, BitVec.toNat_add, BitVec.toNat_shiftLeft,
      Nat.shiftLeft_eq]
    omega
  have haddr : m₃.addr t1 0 = im.handlers.toNat + 4 * cause.toNat := by
    rw [addr_eq (by have := (m₃.reg t1).isLt; omega), ht1, Nat.add_zero]
  have hmem : m₃.mem = m.mem := h₃.mem.trans h.mem.symm
  have hword : BitVec.ofNat 32 (loadWord m₃.mem (m₃.addr t1 0)) =
      im.place (.handle (exceptionHandlers cause.toNat)) := by
    rw [haddr, hmem, hload.entry _ hcause, BitVec.ofNat_toNat, BitVec.setWidth_eq]
  have h₄ := h₃.setReg (i := t1) (by decide) (BitVec.ofNat 32 (loadWord m₃.mem (m₃.addr t1 0)))
  generalize hm₄ : m₃.setReg t1 (BitVec.ofNat 32 (loadWord m₃.mem (m₃.addr t1 0))) = m₄ at h₄
  refine ⟨m₄, h₄, ?_⟩
  show exec (.op (.li t2 im.handlers) :: _) m = _
  rw [exec_op (h.interruptible hm)]
  show exec _ (m.setReg t2 im.handlers) = _
  rw [hm₁, exec_op (h₁.interruptible hm)]
  show exec _ (m₁.setReg t1 (m₁.reg t0 <<< 2)) = _
  rw [hm₂, exec_op (h₂.interruptible hm)]
  show exec _ (m₂.setReg t1 (m₂.reg t1 + m₂.reg t2)) = _
  rw [hm₃, exec_op (h₃.interruptible hm)]
  show exec _ (m₃.setReg t1 (BitVec.ofNat 32 (loadWord m₃.mem (m₃.addr t1 0)))) = _
  rw [hm₄, exec_jr (h₄.interruptible hm), ← hm₄, reg_setReg (by decide), if_pos rfl, hword]

/-- The C function that a cause leads to. -/
def causeFn (cause : Word) : CFun :=
  if cause.msb then (if cause = 0x80000005 then .clockSetNextEvent else .doReserved)
  else (exceptionHandlers cause.toNat).fn

/-- The code that goes on when the function returns. -/
def afterCall : CFun → List (Instr TrapLabel)
  | .clockSetNextEvent => [.op (.li a0 0), .j (.c .schedule)]
  | _ => [.j .retFromException]

/-- The function is called, with the frame as its argument unless it is that of the timer. -/
structure Called (im : Image) (is : List (Instr TrapLabel)) (m₀ m m' : Machine) (f : Word) : Prop where
  goes : Goes (trapCode im) im.place is m
    (.call (.c (causeFn (m₀.csr .scause))) (afterCall (causeFn (m₀.csr .scause)))) m'
  entered : Entered m₀ m' f
  arg : causeFn (m₀.csr .scause) ≠ .clockSetNextEvent → m'.reg a0 = f

theorem handle_goes (im : Image) {m₀ m : Machine} {f : Word} {h : Handler} (he : Entered m₀ m f)
    (hm : m₀.interruptible = false) (hfn : h.fn = causeFn (m₀.csr .scause)) :
    ∃ m', Called im [.op (.mv a0 sp), .call (.c h.fn), .j .retFromException] m₀ m m' f := by
  have hone := he.setReg (i := a0) (by decide) (m.reg sp)
  refine ⟨m.setReg a0 (m.reg sp), ?_, hone, fun _ => ?_⟩
  · have hrest : afterCall (causeFn (m₀.csr .scause)) = [.j .retFromException] := by
      rw [← hfn]
      cases h <;> rfl
    rw [hrest, ← hfn]
    refine .leave ?_ (fun _ hg => nomatch hg) (fun _ hg => nomatch hg)
    rw [exec_op (he.interruptible hm)]
    exact exec_call (hone.interruptible hm) _ _
  · rw [reg_setReg (by decide), if_pos rfl, he.stack]

theorem interrupt_goes (im : Image) {m₀ m : Machine} {f : Word} (he : Entered m₀ m f)
    (hm : m₀.interruptible = false) (ht0 : m.reg t0 = m₀.csr .scause)
    (hneg : (m₀.csr .scause).msb = true) :
    ∃ m', Called im [.op (.li t1 0x80000005), .beq t0 t1 .handleTimer, .j (.handle .reserved)]
      m₀ m m' f := by
  have h₁ := he.setReg (i := t1) (by decide) 0x80000005
  generalize hm₁ : m.setReg t1 0x80000005 = m₁ at h₁
  have ht0' : m₁.reg t0 = m₀.csr .scause := by
    rw [← hm₁, reg_setReg (by decide), if_neg (by decide), ht0]
  have ht1 : m₁.reg t1 = 0x80000005 := by
    rw [← hm₁, reg_setReg (by decide), if_pos rfl]
  have hexec : exec [.op (.li t1 0x80000005), .beq t0 t1 TrapLabel.handleTimer,
      .j (TrapLabel.handle .reserved)] m =
      if m₀.csr .scause = 0x80000005 then some (.goto .handleTimer, m₁)
      else some (.goto (.handle .reserved), m₁) := by
    rw [exec_op (he.interruptible hm)]
    show exec _ (m.setReg t1 0x80000005) = _
    rw [hm₁, exec_beq (h₁.interruptible hm), exec_j (h₁.interruptible hm), ht0', ht1]
  by_cases htimer : m₀.csr .scause = 0x80000005
  · -- the next event is set from the time
    rw [if_pos htimer] at hexec
    have hfn : causeFn (m₀.csr .scause) = .clockSetNextEvent := by
      unfold causeFn
      rw [if_pos hneg, if_pos htimer]
    have h₂ := h₁.setReg (i := a0) (by decide) (m₁.csr .time)
    generalize hm₂ : m₁.setReg a0 (m₁.csr .time) = m₂ at h₂
    have h₃ := h₂.setReg (i := t1) (by decide) 50000
    generalize hm₃ : m₂.setReg t1 50000 = m₃ at h₃
    have h₄ := h₃.setReg (i := a0) (by decide) (m₃.reg a0 + m₃.reg t1)
    refine ⟨_, ⟨.goto hexec rfl (.leave ?_ (fun _ hg => nomatch hg) (fun _ hg => nomatch hg)), h₄,
      fun hne => absurd hfn hne⟩⟩
    rw [hfn, exec_op (h₁.interruptible hm)]
    show exec _ (m₁.setReg a0 (m₁.csr .time)) = _
    rw [hm₂, exec_op (h₂.interruptible hm)]
    show exec _ (m₂.setReg t1 50000) = _
    rw [hm₃, exec_op (h₃.interruptible hm)]
    exact exec_call (h₄.interruptible hm) _ _
  · rw [if_neg htimer] at hexec
    have hfn : Handler.reserved.fn = causeFn (m₀.csr .scause) := by
      unfold causeFn
      rw [if_pos hneg, if_neg htimer]
      rfl
    obtain ⟨m', hcall⟩ := handle_goes im h₁ hm hfn
    exact ⟨m', .goto hexec rfl hcall.goes, hcall.entered, hcall.arg⟩

/-- **The way in.** After a trap, the registers are in a frame below the stack of the kernel, or
below `KSTACKTOP` after a trap from user mode, nothing else in memory has changed, and the C
function for the cause is called. -/
theorem entry_saves (im : Image) {m₀ : Machine} (hm : m₀.interruptible = false)
    (hroom : 152 ≤ (frameBase m₀).toNat)
    (hcause : (m₀.csr .scause).msb = true ∨ (m₀.csr .scause).toNat < 32)
    (hload : Loaded im m₀.mem) (hapart : im.Apart (frameOf m₀)) :
    ∃ m', Called im savePointer m₀ m₀ m' (frameOf m₀) := by
  obtain ⟨m₁, hpoint, hp⟩ := savePointer_exec hm
  have hfit : (frameOf m₀).toNat + 152 ≤ 2 ^ 32 := by
    have hlt := (frameBase m₀).isLt
    have hneg : ((-152 : Word)).toNat = 2 ^ 32 - 152 := by decide
    unfold frameOf
    rw [BitVec.toNat_add, hneg]
    omega
  have hstored := runOps_saveAll hp rfl hfit
  have hone : m₁.interruptible = false := by
    refine (interruptible_congr ?_ hp.user).trans hm
    rw [hp.csr, Function.update_of_ne (by decide)]
  obtain ⟨m₂, he, ht0, hdisp⟩ := dispatchTrap_exec im hstored hm
  have hexec : exec (saveAll.map .op ++ dispatchTrap im) m₁ = exec (dispatchTrap im) (runOps m₁ saveAll) :=
    exec_ops saveAll_keepsStatus hone _
  rw [hdisp] at hexec
  by_cases hneg : (m₀.csr .scause).msb = true
  · rw [if_pos hneg] at hexec
    obtain ⟨m', hcall⟩ := interrupt_goes im he hm ht0 hneg
    exact ⟨m', .goto hpoint rfl (.goto hexec rfl hcall.goes), hcall.entered, hcall.arg⟩
  · rw [if_neg hneg] at hexec
    have hlt : (m₂.reg t0).toNat < 32 := by
      rw [ht0]
      exact hcause.resolve_left hneg
    obtain ⟨m₃, he₃, hjump⟩ := exception_exec he hm (hload.entered hapart he) hlt
    rw [hjump, ht0] at hexec
    have hfn : (exceptionHandlers (m₀.csr .scause).toNat).fn = causeFn (m₀.csr .scause) := by
      unfold causeFn
      rw [if_neg hneg]
    obtain ⟨m', hcall⟩ := handle_goes im he₃ hm hfn
    exact ⟨m', .goto hpoint rfl (.jump hexec rfl hcall.goes), hcall.entered, hcall.arg⟩

-- ---------------------------------------------------------------------------
-- ret_from_exception
-- ---------------------------------------------------------------------------

/-- The control registers `cs`, loaded from the words at `a`. -/
def loadedCsrs (mem : ByteMem) (csr : Csr → Word) : Nat → List Csr → Csr → Word
  | _, [] => csr
  | a, c :: cs =>
    loadedCsrs mem (Function.update csr c (BitVec.ofNat 32 (loadWord mem a))) (a + 4) cs

theorem runOps_restoreCsrs (cs : List Csr) (off : Nat) (m : Machine)
    (h : (m.reg sp).toNat + off + 4 * cs.length ≤ 2 ^ 32) :
    (runOps m (restoreCsrs cs off)).csr = loadedCsrs m.mem m.csr ((m.reg sp).toNat + off) cs ∧
      (runOps m (restoreCsrs cs off)).mem = m.mem ∧ (runOps m (restoreCsrs cs off)).user = m.user ∧
      ∀ i, i ≠ t0 → (runOps m (restoreCsrs cs off)).reg i = m.reg i := by
  induction cs generalizing off m with
  | nil => exact ⟨rfl, rfl, rfl, fun _ _ => rfl⟩
  | cons c cs ih =>
    rw [List.length_cons] at h
    have hload : (Op.lw t0 off sp).exec m =
        m.setReg t0 (BitVec.ofNat 32 (loadWord m.mem ((m.reg sp).toNat + off))) :=
      exec_lw (by omega)
    obtain ⟨m₁, hm₁⟩ : ∃ m₁, m₁ = (Op.csrw c t0).exec ((Op.lw t0 off sp).exec m) := ⟨_, rfl⟩
    have hreg₁ : ∀ i, i ≠ t0 → m₁.reg i = m.reg i := fun i hi => by
      rw [hm₁]
      show ((Op.lw t0 off sp).exec m).reg i = _
      rw [hload, reg_setReg (by decide), if_neg hi]
    have hmem₁ : m₁.mem = m.mem := by
      rw [hm₁]
      show ((Op.lw t0 off sp).exec m).mem = _
      rw [hload, setReg_mem]
    have huser₁ : m₁.user = m.user := by
      rw [hm₁]
      show ((Op.lw t0 off sp).exec m).user = _
      rw [hload, setReg_user]
    have hcsr₁ : m₁.csr = Function.update m.csr c
        (BitVec.ofNat 32 (loadWord m.mem ((m.reg sp).toNat + off))) := by
      rw [hm₁]
      show Function.update ((Op.lw t0 off sp).exec m).csr c (((Op.lw t0 off sp).exec m).reg t0) = _
      rw [hload, setReg_csr, reg_setReg (by decide), if_pos rfl]
    obtain ⟨hcsr, hmem, huser, hregs⟩ := ih (off + 4) m₁ (by rw [hreg₁ sp (by decide)]; omega)
    have hrun : runOps m (restoreCsrs (c :: cs) off) = runOps m₁ (restoreCsrs cs (off + 4)) := by
      rw [hm₁]
      rfl
    rw [hrun]
    refine ⟨?_, hmem.trans hmem₁, huser.trans huser₁, fun i hi => (hregs i hi).trans (hreg₁ i hi)⟩
    rw [hcsr, hmem₁, hcsr₁, hreg₁ sp (by decide)]
    rfl

theorem restoreCsrs_keepsStatus {cs : List Csr} (hcs : .sstatus ∉ cs) (off : Nat) :
    ∀ o ∈ restoreCsrs cs off, o.KeepsStatus := by
  induction cs generalizing off with
  | nil => exact fun o ho => absurd ho List.not_mem_nil
  | cons c cs ih =>
    obtain ⟨hc, hcs⟩ := not_or.mp (fun hm => hcs (List.mem_cons.mpr hm))
    intro o ho
    rcases List.mem_cons.mp ho with rfl | ho
    · trivial
    rcases List.mem_cons.mp ho with rfl | ho
    · exact Ne.symm hc
    · exact ih hcs (off + 4) o ho

/-- The registers of `m'` are those of the frame; this is the machine before `sret`. -/
structure Restored (m m' : Machine) (tf : Trapframe) : Prop where
  regs : ∀ i < 32, i ≠ 0 → i ≠ sp → m'.reg i = BitVec.ofNat 32 (tf.regs i)
  stack : m'.reg sp = BitVec.ofNat 32 tf.sscratch
  sstatus : m'.csr .sstatus = BitVec.ofNat 32 tf.sstatus
  sepc : m'.csr .sepc = BitVec.ofNat 32 tf.sepc
  satp : m'.csr .satp = m.csr .satp
  mem : m'.mem = m.mem
  user : m'.user = m.user

/-- `RESTORE_ALL`. -/
theorem runOps_restoreAll {m : Machine} (h : (m.reg sp).toNat + 152 ≤ 2 ^ 32) :
    Restored m (runOps m restoreAll) (frameAt m.mem (m.reg sp).toNat) := by
  obtain ⟨p, hp⟩ : ∃ p, (m.reg sp).toNat = p := ⟨_, rfl⟩
  obtain ⟨hcsr, hmem, huser, hregs⟩ :=
    runOps_restoreCsrs [.sstatus, .sscratch, .scause, .sepc, .stval] 128 m
      (by simp only [List.length_cons, List.length_nil]; omega)
  rw [hp] at hcsr
  generalize hm₁ : runOps m (restoreCsrs [.sstatus, .sscratch, .scause, .sepc, .stval] 128) = m₁
    at hcsr hmem huser hregs
  have hsp₁ : (m₁.reg sp).toNat = p := by rw [hregs sp (by decide), hp]
  have hsmall : ∀ i ∈ restored, i < 32 := by decide
  have hloads := runOps_loads sp restored (m := m₁) (by decide) (by decide)
    fun i hi => by
      have := hsmall i hi
      omega
  rw [hsp₁, hmem] at hloads
  generalize hm₂ : runOps m₁ (restored.map fun i => .lw i (4 * i) sp) = m₂ at hloads
  have hreg₂ : ∀ i < 32, i ≠ 0 → i ≠ sp →
      m₂.reg i = BitVec.ofNat 32 (loadWord m.mem (p + 4 * i)) := by
    have hall : ∀ i < 32, i ≠ 0 → i ≠ sp → i ∈ restored := by decide
    intro i hi h0 hsp
    rw [reg_pos h0, hloads]
    exact if_pos (hall i hi h0 hsp)
  have hcsr₂ : m₂.csr = m₁.csr := by rw [hloads]
  have hmem₂ : m₂.mem = m.mem := by
    rw [hloads]
  have huser₂ : m₂.user = m.user := by
    rw [hloads]
    exact huser
  generalize hm₃ : (Op.addi sp sp 152).exec ((Op.lw sp 8 sp).exec m₂) = m₃
  have hreg₃ : ∀ i, i ≠ sp → m₃.reg i = m₂.reg i := fun i hi => by
    rw [← hm₃]
    simp only [Op.exec]
    rw [reg_setReg (by decide), if_neg hi, reg_setReg (by decide), if_neg hi]
  have hcsr₃ : m₃.csr = m₂.csr := by
    rw [← hm₃]
    simp only [Op.exec, setReg_csr]
  have hmem₃ : m₃.mem = m₂.mem := by
    rw [← hm₃]
    simp only [Op.exec, setReg_mem]
  have huser₃ : m₃.user = m₂.user := by
    rw [← hm₃]
    simp only [Op.exec, setReg_user]
  -- the stack pointer comes from `sscratch`
  have hrun : runOps m restoreAll = (m₃.setCsr .sscratch (m₃.reg sp)).setReg sp (m₃.csr .sscratch) := by
    unfold restoreAll
    rw [runOps_append, runOps_append, hm₁, hm₂, ← hm₃]
    rfl
  have hother : ∀ c, c ≠ .sscratch → (runOps m restoreAll).csr c =
      loadedCsrs m.mem m.csr (p + 128) [.sstatus, .sscratch, .scause, .sepc, .stval] c := by
    intro c hc
    rw [hrun, setReg_csr]
    show Function.update m₃.csr .sscratch _ c = _
    rw [Function.update_of_ne hc, hcsr₃, hcsr₂, hcsr]
  rw [hp]
  refine ⟨fun i hi h0 hsp => ?_, ?_, ?_, ?_, ?_, ?_, ?_⟩
  · rw [hrun, reg_setReg (by decide), if_neg hsp]
    exact (hreg₃ i hsp).trans (hreg₂ i hi h0 hsp)
  · rw [hrun, reg_setReg (by decide), if_pos rfl, hcsr₃, hcsr₂, hcsr]
    rfl
  · rw [hother _ (by decide)]
    rfl
  · rw [hother _ (by decide)]
    rfl
  · rw [hother _ (by decide)]
    rfl
  · rw [hrun, setReg_mem]
    exact hmem₃.trans hmem₂
  · rw [hrun, setReg_user]
    exact huser₃.trans huser₂

/-- **The way back.** A frame whose `sstatus` leaves interrupts off is restored; the last
instruction is `sret`. -/
theorem ret_restores (im : Image) {m : Machine} (hm : m.interruptible = false)
    (h : (m.reg sp).toNat + 152 ≤ 2 ^ 32)
    (hoff : (BitVec.ofNat 32 (frameAt m.mem (m.reg sp).toNat).sstatus).getLsbD SIE = false) :
    ∃ m', Goes (trapCode im) im.place retCode m .sret m' ∧
      Restored m m' (frameAt m.mem (m.reg sp).toNat) := by
  obtain ⟨m₁, hm₁⟩ : ∃ m₁, m₁ = (Op.li t0 0x40000).exec m := ⟨_, rfl⟩
  have hone : m₁.interruptible = false := by
    rw [hm₁, Op.exec, interruptible_congr (congrFun (setReg_csr ..) _) (setReg_user ..), hm]
  obtain ⟨m₂, hm₂⟩ : ∃ m₂, m₂ = (Op.csrc .sstatus t0).exec m₁ := ⟨_, rfl⟩
  have htwo : m₂.interruptible = false := by
    have huser : m₂.user = m₁.user := by
      rw [hm₂]
      rfl
    have hbit : m₂.status SIE = (m₁.status SIE && !(m₁.reg t0).getLsbD SIE) := by
      rw [hm₂]
      show (Function.update m₁.csr .sstatus (m₁.csr .sstatus &&& ~~~ m₁.reg t0) .sstatus).getLsbD SIE = _
      rw [Function.update_self, BitVec.getLsbD_and, BitVec.getLsbD_not]
      rfl
    unfold Machine.interruptible at hone ⊢
    rw [huser, hbit, ← Bool.and_assoc, hone, Bool.false_and]
  have hregs₂ : ∀ i, i ≠ t0 → m₂.reg i = m.reg i := fun i hi => by
    have hsame : m₂.reg i = m₁.reg i := by
      rw [hm₂]
      rfl
    rw [hsame, hm₁, Op.exec, reg_setReg (by decide), if_neg hi]
  have hmem₂ : m₂.mem = m.mem := by
    rw [hm₂, hm₁]
    exact setReg_mem ..
  have huser₂ : m₂.user = m.user := by
    rw [hm₂, hm₁]
    exact setReg_user ..
  have hsatp₂ : m₂.csr .satp = m.csr .satp := by
    have hsame : m₂.csr .satp = m₁.csr .satp := by
      rw [hm₂]
      rfl
    rw [hsame, hm₁, Op.exec, setReg_csr]
  have hsp₂ : m₂.reg sp = m.reg sp := hregs₂ sp (by decide)
  have hrest := runOps_restoreAll (m := m₂) (by rw [hsp₂]; exact h)
  rw [hsp₂, hmem₂] at hrest
  -- the word for `sstatus` is loaded first
  obtain ⟨m₃, hm₃⟩ : ∃ m₃, m₃ = (Op.lw t0 128 sp).exec m₂ := ⟨_, rfl⟩
  have hload : m₃ = m₂.setReg t0 (BitVec.ofNat 32 (frameAt m.mem (m.reg sp).toNat).sstatus) := by
    rw [hm₃, exec_lw (by rw [hsp₂]; omega), hsp₂, hmem₂]
    rfl
  have hthree : m₃.interruptible = false := by
    rw [hload, interruptible_congr (congrFun (setReg_csr ..) _) (setReg_user ..), htwo]
  obtain ⟨m₄, hm₄⟩ : ∃ m₄, m₄ = (Op.csrw .sstatus t0).exec m₃ := ⟨_, rfl⟩
  have hfour : m₄.interruptible = false := by
    have hbit : m₄.status SIE = false := by
      rw [hm₄]
      show (Function.update m₃.csr .sstatus (m₃.reg t0) .sstatus).getLsbD SIE = _
      rw [Function.update_self, hload, reg_setReg (by decide), if_pos rfl, hoff]
    unfold Machine.interruptible
    rw [hbit, Bool.and_false]
  obtain ⟨ops, hops⟩ : ∃ ops, ops = restoreCsrs [.sscratch, .scause, .sepc, .stval] 132 ++
      (restored.map fun i => .lw i (4 * i) sp) ++
      [.lw sp 8 sp, .addi sp sp 152, .csrrw sp .sscratch sp] := ⟨_, rfl⟩
  have hkeep : ∀ o ∈ ops, o.KeepsStatus := by
    intro o ho
    rw [hops, List.mem_append, List.mem_append] at ho
    rcases ho with (ho | ho) | ho
    · exact restoreCsrs_keepsStatus (by decide) _ o ho
    · obtain ⟨i, -, rfl⟩ := List.mem_map.mp ho
      trivial
    · simp only [List.mem_cons, List.not_mem_nil, or_false] at ho
      rcases ho with rfl | rfl | rfl
      · trivial
      · trivial
      · show Csr.sscratch ≠ .sstatus
        decide
  have hall : restoreAll = .lw t0 128 sp :: .csrw .sstatus t0 :: ops := by
    rw [hops]
    rfl
  have hrun : runOps m₂ restoreAll = runOps m₄ ops := by
    rw [hall, hm₄, hm₃]
    rfl
  refine ⟨runOps m₂ restoreAll, .leave ?_ (fun _ hg => by cases hg) (fun _ hg => by cases hg),
    ⟨hrest.regs, hrest.stack, hrest.sstatus, hrest.sepc, hrest.satp.trans hsatp₂,
      hrest.mem.trans hmem₂, hrest.user.trans huser₂⟩⟩
  have hend : (runOps m₄ ops).interruptible = false := by
    obtain ⟨hst, hu⟩ := runOps_status hkeep m₄
    exact (interruptible_congr hst hu).trans hfour
  rw [hrun]
  have hcode : retCode = .op (.li t0 0x40000) :: .op (.csrc .sstatus t0) :: .op (.lw t0 128 sp) ::
      .op (.csrw .sstatus t0) :: (ops.map .op ++ [.sret, .op (.addi 0 0 0)]) := by
    unfold retCode
    rw [hall]
    rfl
  rw [hcode, exec_op hm, ← hm₁, exec_op hone, ← hm₂, exec_op htwo, ← hm₃, exec_op hthree, ← hm₄,
    exec_ops hkeep hfour, exec_sret hend]

/-- `env_pop_tf`: a frame anywhere, in another address space. -/
theorem envPopTf_restores (im : Image) {m : Machine} (hm : m.interruptible = false)
    (h : (m.reg a0).toNat + 152 ≤ 2 ^ 32)
    (hoff : (BitVec.ofNat 32 (frameAt m.mem (m.reg a0).toNat).sstatus).getLsbD SIE = false) :
    ∃ m', Goes (trapCode im) im.place [.op (.csrw .satp a1), .op .fenceI, .op (.mv sp a0),
        .j .retFromException] m .sret m' ∧
      Restored (m.setCsr .satp (m.reg a1)) m' (frameAt m.mem (m.reg a0).toNat) := by
  obtain ⟨m₁, hm₁⟩ : ∃ m₁, m₁ = m.setCsr .satp (m.reg a1) := ⟨_, rfl⟩
  have hone : m₁.interruptible = false := by
    refine (interruptible_congr ?_ ?_).trans hm
    · rw [hm₁]
      rfl
    · rw [hm₁]
      rfl
  have ha0 : m₁.reg a0 = m.reg a0 := by
    rw [hm₁]
    rfl
  have hmem : m₁.mem = m.mem := by
    rw [hm₁]
    rfl
  obtain ⟨m₂, hm₂⟩ : ∃ m₂, m₂ = m₁.setReg sp (m₁.reg a0) := ⟨_, rfl⟩
  have htwo : m₂.interruptible = false := by
    rw [hm₂, interruptible_congr (congrFun (setReg_csr ..) _) (setReg_user ..), hone]
  have hsp : m₂.reg sp = m.reg a0 := by
    rw [hm₂, reg_setReg (by decide), if_pos rfl, ha0]
  have hmem₂ : m₂.mem = m.mem := by
    rw [hm₂, setReg_mem, hmem]
  obtain ⟨m', hgoes, hrest⟩ := ret_restores im (m := m₂) htwo (by rw [hsp]; exact h)
    (by rw [hsp, hmem₂]; exact hoff)
  rw [hsp, hmem₂] at hrest
  have hexec : exec [.op (.csrw .satp a1), .op .fenceI, .op (.mv sp a0),
      .j TrapLabel.retFromException] m = some (.goto .retFromException, m₂) := by
    rw [exec_op hm]
    show exec _ (m.setCsr .satp (m.reg a1)) = _
    rw [← hm₁, exec_op hone]
    show exec _ m₁ = _
    rw [exec_op hone]
    show exec _ (m₁.setReg sp (m₁.reg a0)) = _
    rw [← hm₂]
    exact exec_j htwo _ _
  refine ⟨m', .goto hexec rfl hgoes, ?_⟩
  rw [← hm₁]
  refine ⟨hrest.regs, hrest.stack, hrest.sstatus, hrest.sepc, hrest.satp.trans ?_,
    hrest.mem.trans ?_, hrest.user.trans ?_⟩
  · rw [hm₂, setReg_csr]
  · rw [hm₂, setReg_mem]
  · rw [hm₂, setReg_user]

end Mos.Kern
