import Mos.Kern.TrapPath
import Mos.Kern.UserMode

/-!
# MOS on RISC-V — traps that are returned from

`Mos.Kern.TrapPath` has the code on the way into the kernel and back. Here the two ways are put
together, around a C function, and the function may be interrupted in its turn: the kernel reads
and writes user memory, and a page that is not there yet is a trap from supervisor mode.

* `trap_round` — from a trap to the C function for its cause, and from there to what the frame
  says by then.
* `nested_transparent` — a trap from supervisor mode, however deep, leaves what it interrupts as
  it was.
* `trapOf_slot` — a trap of an env stores the frame that `Mos.Kern.UserMode` takes for granted.
-/

namespace Mos.Kern

open Mos.Lib Mos.Lib.Riscv Reg

-- ---------------------------------------------------------------------------
-- What a machine shows
-- ---------------------------------------------------------------------------

/-- The machine runs what the frame says. -/
structure Shows (m : Machine) (tf : Trapframe) : Prop where
  regs : ∀ i < 32, i ≠ 0 → i ≠ sp → m.reg i = BitVec.ofNat 32 (tf.regs i)
  stack : m.reg sp = BitVec.ofNat 32 tf.sscratch
  pc : m.pc = BitVec.ofNat 32 tf.sepc
  user : m.user = !tf.spp

/-- What was interrupted goes on: the registers, the place, the mode and the address space. -/
structure GoesOn (m m' : Machine) : Prop where
  regs : ∀ i < 32, m'.reg i = m.reg i
  pc : m'.pc = m.pc
  user : m'.user = m.user
  status : ∀ i, i ≠ SPIE → i ≠ SPP → m'.status i = m.status i
  satp : m'.csr .satp = m.csr .satp

/-- The bit of `sstatus` in a frame that was stored from a register. -/
theorem spp_ofNat (tf : Trapframe) : (BitVec.ofNat 32 tf.sstatus).getLsbD SPP = tf.spp := by
  unfold Trapframe.spp SSTATUS_SPP
  rw [testFlag_two_pow, BitVec.getLsbD_ofNat]
  simp [SPP]

theorem reg_sret (m : Machine) (i : Nat) : m.sret.reg i = m.reg i := rfl

theorem reg_trap (m : Machine) (cause tval : Word) (i : Nat) : (m.trap cause tval).reg i = m.reg i :=
  rfl

/-- `sret` after `RESTORE_ALL`. -/
theorem Restored.shows {m m' : Machine} {tf : Trapframe} (h : Restored m m' tf) :
    Shows m'.sret tf where
  regs := h.regs
  stack := h.stack
  pc := h.sepc
  user := by
    show (!m'.status SPP) = _
    unfold Machine.status
    rw [h.sstatus, spp_ofNat]

/-- A word of a frame is back where it came from. -/
theorem ofNat_toNat_eq {w : Word} {n : Nat} (h : n = w.toNat) : BitVec.ofNat 32 n = w := by
  rw [h, BitVec.ofNat_toNat, BitVec.setWidth_eq]

/-- `RESTORE_ALL` from the frame of the trap of `m`, and `sret`. -/
theorem Restored.goesOn {m m₂ m₃ : Machine} {cause tval : Word} {tf : Trapframe}
    (h : Restored m₂ m₃ tf) (hsaved : Saved (m.trap cause tval) tf)
    (hsatp : m₂.csr .satp = m.csr .satp) : GoesOn m m₃.sret := by
  have hst : m₃.csr .sstatus = (m.trap cause tval).csr .sstatus :=
    h.sstatus.trans (ofNat_toNat_eq hsaved.sstatus)
  have hpc : m₃.csr .sepc = m.pc := h.sepc.trans (ofNat_toNat_eq hsaved.sepc)
  obtain ⟨hpc', huser, hstatus⟩ := sret_trap hst hpc
  refine ⟨fun i hi => ?_, hpc', huser, hstatus, ?_⟩
  · rw [reg_sret]
    by_cases h0 : i = 0
    · rw [h0, reg_zero, reg_zero]
    · by_cases hsp : i = sp
      · rw [hsp]
        exact h.stack.trans (ofNat_toNat_eq hsaved.stack)
      · exact (h.regs i hi h0 hsp).trans (ofNat_toNat_eq (hsaved.regs i hi hsp))
  · have hkeep : m₃.sret.csr .satp = m₃.csr .satp := rfl
    rw [hkeep, h.satp, hsatp]

-- ---------------------------------------------------------------------------
-- A trap and its return
-- ---------------------------------------------------------------------------

theorem trap_interruptible (m : Machine) (cause tval : Word) :
    (m.trap cause tval).interruptible = false := by
  unfold Machine.interruptible
  rw [trap_status, if_neg (by decide), if_pos rfl, Bool.and_false]

/-- The frame that is in memory when the C function is called. -/
theorem Entered.saved {m₀ m : Machine} {f : Word} (h : Entered m₀ m f) :
    Saved m₀ (frameAt m.mem f.toNat) := by
  rw [h.mem]
  exact saved_savedWords m₀ f m₀.mem f.toNat

theorem Entered.memElse {m₀ m : Machine} {f : Word} (h : Entered m₀ m f) {x : Nat}
    (hx : x < f.toNat ∨ f.toNat + 152 ≤ x) : m.mem x = m₀.mem x := by
  have hlen := savedWords_length m₀ f
  rw [h.mem]
  exact storeWords_of_notMem (by omega)

/-- A frame is what its bytes are. -/
theorem Saved.congr {m : Machine} {mem mem' : ByteMem} {a : Nat} (h : Saved m (frameAt mem a))
    (hsame : ∀ x, a ≤ x → x < a + 152 → mem' x = mem x) : Saved m (frameAt mem' a) := by
  have hword : ∀ n, n + 4 ≤ 152 → loadWord mem' (a + n) = loadWord mem (a + n) := fun n hn =>
    loadWord_congr fun x hx hx' => hsame x (by omega) (by omega)
  refine ⟨fun i hi hsp => ?_, ?_, ?_, ?_, ?_, ?_, ?_⟩
  · exact (hword (4 * i) (by omega)).trans (h.regs i hi hsp)
  · exact (hword 132 (by omega)).trans h.stack
  · exact (hword 128 (by omega)).trans h.sstatus
  · exact (hword 136 (by omega)).trans h.scause
  · exact (hword 140 (by omega)).trans h.sepc
  · exact (hword 144 (by omega)).trans h.stval
  · exact (hword 148 (by omega)).trans h.sip

/-- The frame of a trap leaves interrupts off. -/
theorem Saved.quiet {m : Machine} {cause tval : Word} {tf : Trapframe}
    (h : Saved (m.trap cause tval) tf) : (BitVec.ofNat 32 tf.sstatus).getLsbD SIE = false := by
  have hst : (m.trap cause tval).status SIE = false := by
    rw [trap_status, if_neg (by decide), if_pos rfl]
  rw [ofNat_toNat_eq h.sstatus]
  exact hst

/-- The function returns to `j ret_from_exception`. -/
theorem afterCall_restores (im : Image) {fn : CFun} (hfn : fn ≠ .clockSetNextEvent) {m : Machine}
    (hm : m.interruptible = false) (h : (m.reg sp).toNat + 152 ≤ 2 ^ 32)
    (hoff : (BitVec.ofNat 32 (frameAt m.mem (m.reg sp).toNat).sstatus).getLsbD SIE = false) :
    ∃ m', Goes (trapCode im) im.place (afterCall fn) m .sret m' ∧
      Restored m m' (frameAt m.mem (m.reg sp).toNat) := by
  obtain ⟨m', hgoes, hrest⟩ := ret_restores im hm h hoff
  have hcode : afterCall fn = [.j .retFromException] := by
    cases fn with
    | clockSetNextEvent => exact absurd rfl hfn
    | doTlbMod | doSyscall | doReserved | doTlbMiss | schedule => rfl
  rw [hcode]
  exact ⟨m', .goto (exec_j hm _ _) rfl hgoes, hrest⟩

theorem frameOf_fits (m : Machine) (hroom : 152 ≤ (frameBase m).toNat) :
    (frameOf m).toNat + 152 = (frameBase m).toNat := by
  have hlt := (frameBase m).isLt
  have hneg : ((-152 : Word)).toNat = 2 ^ 32 - 152 := by decide
  unfold frameOf
  rw [BitVec.toNat_add, hneg]
  omega

/-- The function is back, with its stack pointer and with interrupts off. -/
structure Back (f : Word) (m : Machine) : Prop where
  stack : m.reg sp = f
  quiet : m.interruptible = false

/-- **A trap and its return.** The registers go to a frame below the stack of the kernel, or below
`KSTACKTOP`, and nowhere else; the C function for the cause is called. When it is back, what the
frame says by then goes on, unless the function is that of the timer, which does not come
back here; if the frame and the address space are as they were, it is what was interrupted. -/
theorem trap_round (im : Image) {m : Machine} {cause : Word} (tval : Word)
    (hroom : 152 ≤ (frameBase m).toNat) (hcause : cause.msb = true ∨ cause.toNat < 32)
    (hload : Loaded im m.mem) (hapart : im.Apart (frameOf m)) :
    ∃ m₁, Called im savePointer (m.trap cause tval) (m.trap cause tval) m₁ (frameOf m) ∧
      Saved (m.trap cause tval) (frameAt m₁.mem (frameOf m).toNat) ∧
      (∀ x, x < (frameOf m).toNat ∨ (frameOf m).toNat + 152 ≤ x → m₁.mem x = m.mem x) ∧
      (causeFn cause ≠ .clockSetNextEvent → ∀ m₂, Back (frameOf m) m₂ →
        (BitVec.ofNat 32 (frameAt m₂.mem (frameOf m).toNat).sstatus).getLsbD SIE = false →
        ∃ m₃, Goes (trapCode im) im.place (afterCall (causeFn cause)) m₂ .sret m₃ ∧
          m₃.mem = m₂.mem ∧ Shows m₃.sret (frameAt m₂.mem (frameOf m).toNat) ∧
          ((∀ x, (frameOf m).toNat ≤ x → x < (frameOf m).toNat + 152 → m₂.mem x = m₁.mem x) →
            m₂.csr .satp = m.csr .satp → GoesOn m m₃.sret)) := by
  obtain ⟨m₁, hcall⟩ := entry_saves im (trap_interruptible m cause tval) hroom hcause hload hapart
  have hsaved := hcall.entered.saved
  refine ⟨m₁, hcall, hsaved, fun x hx => hcall.entered.memElse hx, fun hfn m₂ hback hoff => ?_⟩
  have hfits := frameOf_fits m hroom
  have hlt := (frameBase m).isLt
  obtain ⟨m₃, hgoes, hrest⟩ := afterCall_restores im hfn hback.quiet
    (by rw [hback.stack]; omega) (by rw [hback.stack]; exact hoff)
  rw [hback.stack] at hrest
  exact ⟨m₃, hgoes, hrest.mem, hrest.shows, fun hsame hsatp =>
    hrest.goesOn (hsaved.congr hsame) hsatp⟩

/-- The labels, in the order in which `sampleImage` has them, 256 bytes apart. -/
def sampleLabels : List TrapLabel :=
  [.exceptionEntry, .saveFrame, .interrupt, .handleTimer, .retFromException, .envPopTf] ++
    [.mod, .sys, .reserved, .instrMiss, .loadMiss, .storeMiss].map .handle ++
    [.doTlbMod, .doSyscall, .doReserved, .doTlbMiss, .clockSetNextEvent, .schedule].map .c

theorem mem_sampleLabels (l : TrapLabel) : l ∈ sampleLabels := by
  cases l with
  | handle h => cases h <;> decide
  | c f => cases f <;> decide
  | exceptionEntry | saveFrame | interrupt | handleTimer | retFromException | envPopTf => decide

def sampleImage : Image where
  place l := BitVec.ofNat 32 (0x80200000 + 256 * sampleLabels.idxOf l)
  handlers := 0x80300000

theorem sampleImage_place : Function.Injective sampleImage.place := by
  intro l l' h
  have hlt : ∀ l, sampleLabels.idxOf l < 18 := fun l => List.idxOf_lt_length_of_mem (mem_sampleLabels l)
  have hword := congrArg BitVec.toNat h
  simp only [sampleImage, BitVec.toNat_ofNat] at hword
  have h₁ := hlt l
  have h₂ := hlt l'
  have hidx : sampleLabels.idxOf l = sampleLabels.idxOf l' := by omega
  exact (List.idxOf_inj (mem_sampleLabels l)).mp hidx

/-- The kernel at work, with the table in memory and its stack pointer at `0x80500000`. -/
def sampleMachine : Machine where
  x i := if i = sp then 0x80500000 else 0
  csr _ := 0
  mem := storeWords (fun _ => 0) 0x80300000
    ((List.range 32).map fun i => (sampleImage.place (.handle (exceptionHandlers i))).toNat)
  pc := 0x80400000
  user := false

theorem sampleMachine_loaded : Loaded sampleImage sampleMachine.mem := by
  refine ⟨by decide, fun i hi => ?_⟩
  refine (loadWord_storeWords (by simpa using hi) ?_).trans ?_
  · intro w hw
    obtain ⟨j, -, rfl⟩ := List.mem_map.mp hw
    exact BitVec.isLt _
  · rw [List.getElem_map, List.getElem_range]

/-- A load page fault of the kernel. -/
theorem trap_round_sample :
    ∃ m₁, Called sampleImage savePointer (sampleMachine.trap 13 0x1000)
        (sampleMachine.trap 13 0x1000) m₁ (frameOf sampleMachine) ∧
      Saved (sampleMachine.trap 13 0x1000) (frameAt m₁.mem (frameOf sampleMachine).toNat) := by
  have hcause : (13 : Word).toNat < 32 := by decide
  obtain ⟨m₁, hcall, hsaved, -⟩ := trap_round sampleImage (m := sampleMachine) 0x1000 (by decide)
    (Or.inr hcause) sampleMachine_loaded (Or.inl (by decide))
  exact ⟨m₁, hcall, hsaved⟩

-- ---------------------------------------------------------------------------
-- The frames of envs
-- ---------------------------------------------------------------------------

/-- **The slot of an env.** The machine runs what `k` restored last; its stack pointer is no kernel
address. A trap stores a frame below `KSTACKTOP` that is one of the running env. -/
theorem trapOf_slot (im : Image) {k : Kernel} {m₀ m : Machine} {cause tval : Word}
    (hshows : Shows m₀ k.cpu) (hmode : m.user = m₀.user) (hsp : (m.reg sp).toNat < 2 ^ 31)
    (hcause : cause.msb = true ∨ cause.toNat < 32) (hload : Loaded im m.mem)
    (hapart : im.Apart (BitVec.ofNat 32 (KSTACKTOP - 152))) :
    ∃ m₁, Called im savePointer (m.trap cause tval) (m.trap cause tval) m₁
        (BitVec.ofNat 32 (KSTACKTOP - 152)) ∧
      TrapOf k (frameAt m₁.mem (KSTACKTOP - 152)) := by
  have hneg : ¬ (m.reg sp).msb = true := by
    rw [BitVec.msb_eq_decide, decide_eq_true_eq]
    omega
  have hbase : frameBase m = BitVec.ofNat 32 KSTACKTOP := if_neg hneg
  have hframe : frameOf m = BitVec.ofNat 32 (KSTACKTOP - 152) := by
    unfold frameOf
    rw [hbase]
    decide
  have hroom : 152 ≤ (frameBase m).toNat := by
    rw [hbase]
    decide
  have hapart' : im.Apart (frameOf m) := by
    rw [hframe]
    exact hapart
  obtain ⟨m₁, hcall⟩ := entry_saves im (trap_interruptible m cause tval) hroom hcause hload hapart'
  have hcall' : Called im savePointer (m.trap cause tval) (m.trap cause tval) m₁ (frameOf m) := hcall
  rw [hframe] at hcall'
  have hsaved := hcall'.entered.saved
  have haddr : (BitVec.ofNat 32 (KSTACKTOP - 152)).toNat = KSTACKTOP - 152 := by decide
  rw [haddr] at hsaved
  refine ⟨m₁, hcall', ?_, ?_⟩
  · have hspp : (m.trap cause tval).status SPP = !m.user := by
      rw [trap_status, if_pos rfl]
    rw [← spp_ofNat, ofNat_toNat_eq hsaved.sstatus]
    refine Eq.trans hspp ?_
    rw [hmode, hshows.user, Bool.not_not]
  · rw [hsaved.stack]
    exact hsp

-- ---------------------------------------------------------------------------
-- Traps from supervisor mode
-- ---------------------------------------------------------------------------

/-- The kernel runs, with its stack below `f`. -/
structure InKernel (im : Image) (f : Nat) (m : Machine) : Prop where
  mode : m.user = false
  quiet : m.status SIE = false
  stack : (m.reg sp).toNat ≤ f
  table : Loaded im m.mem

/-- A stretch of a C function whose caller's part of the stack begins at `f`: it stays below, and
leaves alone that part, the table of handlers, the address space and the interrupt bit. -/
structure CodeStep (im : Image) (f : Nat) (m m' : Machine) : Prop where
  mode : m'.user = false
  quiet : m'.status SIE = false
  stack : (m'.reg sp).toNat ≤ f
  keeps : ∀ x, f ≤ x → x < KSTACKTOP → m'.mem x = m.mem x
  table : Loaded im m.mem → Loaded im m'.mem
  satp : m'.csr .satp = m.csr .satp

/-- What the kernel does above its stack at `low`: C code, and traps at any moment whose functions
run in the same way and come back. The function of a trap does not change its frame, as
`do_tlb_miss` does not when it maps a page. -/
inductive KernelRun (im : Image) (low : Nat) : Nat → Machine → Machine → Prop where
  | refl (f : Nat) (m : Machine) : KernelRun im low f m m
  | code {f : Nat} {m m₁ m₂ : Machine} :
      KernelRun im low f m m₁ → CodeStep im f m₁ m₂ → KernelRun im low f m m₂
  | trap {f : Nat} {m m₁ m₂ m₃ m₄ : Machine} {cause tval : Word} {fn : CFun}
      {rest : List (Instr TrapLabel)} :
      KernelRun im low f m m₁ → cause.toNat < 32 → low + 152 ≤ (m₁.reg sp).toNat →
      Goes (trapCode im) im.place savePointer (m₁.trap cause tval) (.call (.c fn) rest) m₂ →
      KernelRun im low (frameOf m₁).toNat m₂ m₃ → m₃.reg sp = m₂.reg sp →
      Goes (trapCode im) im.place rest m₃ .sret m₄ → KernelRun im low f m m₄.sret

/-- A trap from the kernel, up to its `sret`. -/
def NestedTrap (im : Image) (low : Nat) (m m' : Machine) : Prop :=
  ∃ cause tval fn rest m₂ m₃ m₄, cause.toNat < 32 ∧ low + 152 ≤ (m.reg sp).toNat ∧
    Goes (trapCode im) im.place savePointer (m.trap cause tval) (.call (.c fn) rest) m₂ ∧
    KernelRun im low (frameOf m).toNat m₂ m₃ ∧ m₃.reg sp = m₂.reg sp ∧
    Goes (trapCode im) im.place rest m₃ .sret m₄ ∧ m' = m₄.sret

/-- The run so far has left alone what is above `f`. -/
structure RunKeeps (im : Image) (f : Nat) (m m' : Machine) : Prop where
  kernel : InKernel im f m'
  keeps : ∀ x, f ≤ x → x < KSTACKTOP → m'.mem x = m.mem x
  satp : m'.csr .satp = m.csr .satp

/-- The table is not in the stack of the kernel, which is in the upper half. -/
structure StackAt (im : Image) (low : Nat) : Prop where
  place : Function.Injective im.place
  upper : 2 ^ 31 ≤ low
  apart : im.handlers.toNat + 128 ≤ low ∨ KSTACKTOP ≤ im.handlers.toNat

section

variable {im : Image} {low f : Nat} {m m₁ m₂ m₃ m₄ : Machine} {cause tval : Word} {fn : CFun}
  {rest : List (Instr TrapLabel)}

/-- Where the frame of a nested trap goes. -/
theorem frameOf_kernel (hlow : 2 ^ 31 ≤ low) (hroom : low + 152 ≤ (m.reg sp).toNat) :
    frameBase m = m.reg sp ∧ (frameOf m).toNat + 152 = (m.reg sp).toNat := by
  have hneg : (m.reg sp).msb = true := by
    rw [BitVec.msb_eq_decide, decide_eq_true_eq]
    omega
  have hbase : frameBase m = m.reg sp := if_pos hneg
  refine ⟨hbase, ?_⟩
  rw [← hbase]
  exact frameOf_fits m (by rw [hbase]; omega)

/-- The way into a nested trap. -/
theorem nested_entry (hat : StackAt im low) (hm : InKernel im f m) (hf : f ≤ KSTACKTOP)
    (hcause : cause.toNat < 32) (hroom : low + 152 ≤ (m.reg sp).toNat)
    (hin : Goes (trapCode im) im.place savePointer (m.trap cause tval) (.call (.c fn) rest) m₂) :
    Entered (m.trap cause tval) m₂ (frameOf m) ∧ fn ≠ .clockSetNextEvent ∧ rest = afterCall fn ∧
      InKernel im (frameOf m).toNat m₂ := by
  obtain ⟨hbase, hfits⟩ := frameOf_kernel hat.upper hroom
  have hstack := hm.stack
  have hapart : im.Apart (frameOf m) := by
    have := hat.apart
    unfold Image.Apart
    omega
  obtain ⟨m', hcall⟩ := entry_saves im (trap_interruptible m cause tval)
    (by show 152 ≤ (frameBase m).toNat; rw [hbase]; omega) (Or.inr hcause) hm.table hapart
  obtain ⟨he, rfl⟩ := hin.unique hat.place hcall.goes
  obtain ⟨hfn, hrest⟩ := Exit.call.inj he
  have hfn' : fn = causeFn cause := TrapLabel.c.inj hfn
  have hnotimer : fn ≠ .clockSetNextEvent := by
    have hneg : ¬ cause.msb = true := by
      rw [BitVec.msb_eq_decide, decide_eq_true_eq]
      omega
    rw [hfn']
    unfold causeFn
    rw [if_neg hneg]
    cases exceptionHandlers cause.toNat <;> decide
  have hentered : Entered (m.trap cause tval) m₂ (frameOf m) := hcall.entered
  refine ⟨hentered, hnotimer, hrest.trans (congrArg afterCall hfn'.symm), ⟨?_, ?_, ?_, ?_⟩⟩
  · exact hentered.user
  · rw [hentered.status SIE (by decide), trap_status, if_neg (by decide), if_pos rfl]
  · rw [hentered.stack]
  · have htable : Loaded im (m.trap cause tval).mem := hm.table
    exact htable.entered hapart hentered

/-- **One nested trap.** Its function leaves the frame alone; the interrupted machine goes on, and
the stack above its stack pointer is as it was. -/
theorem nested_returns (hat : StackAt im low) (hm : InKernel im f m) (hf : f ≤ KSTACKTOP)
    (hcause : cause.toNat < 32) (hroom : low + 152 ≤ (m.reg sp).toNat)
    (hin : Goes (trapCode im) im.place savePointer (m.trap cause tval) (.call (.c fn) rest) m₂)
    (hrun : InKernel im (frameOf m).toNat m₂ → RunKeeps im (frameOf m).toNat m₂ m₃)
    (hback : m₃.reg sp = m₂.reg sp) (hout : Goes (trapCode im) im.place rest m₃ .sret m₄) :
    GoesOn m m₄.sret ∧ Loaded im m₄.sret.mem ∧
      ∀ x, (m.reg sp).toNat ≤ x → x < KSTACKTOP → m₄.sret.mem x = m.mem x := by
  obtain ⟨hbase, hfits⟩ := frameOf_kernel hat.upper hroom
  have hstack := hm.stack
  obtain ⟨hentered, hfn, hrest, hkernel⟩ := nested_entry hat hm hf hcause hroom hin
  have hkeeps := hrun hkernel
  have hsp₃ : m₃.reg sp = frameOf m := hback.trans hentered.stack
  have hquiet : m₃.interruptible = false := by
    unfold Machine.interruptible
    rw [hkeeps.kernel.quiet, Bool.and_false]
  -- the frame is still there
  have hsaved : Saved (m.trap cause tval) (frameAt m₃.mem (frameOf m).toNat) :=
    hentered.saved.congr fun x hx hx' => hkeeps.keeps x hx (by omega)
  have hlt := (m.reg sp).isLt
  obtain ⟨m', hgoes, hrestored⟩ := afterCall_restores im hfn hquiet
    (by rw [hsp₃]; omega) (by rw [hsp₃]; exact hsaved.quiet)
  rw [hsp₃] at hrestored
  rw [hrest] at hout
  obtain ⟨-, rfl⟩ := hout.unique hat.place hgoes
  have hsatp : m₃.csr .satp = m.csr .satp :=
    hkeeps.satp.trans (hentered.csr .satp (by decide) (by decide))
  have hmem : m₄.sret.mem = m₃.mem := hrestored.mem
  refine ⟨hrestored.goesOn hsaved hsatp, ?_, fun x hx hx' => ?_⟩
  · rw [hmem]
    exact hkeeps.kernel.table
  · rw [hmem, hkeeps.keeps x (by omega) hx']
    exact hentered.memElse (Or.inr (by omega))

/-- What C code and nested traps leave alone. -/
theorem KernelRun.keeps (hat : StackAt im low) (h : KernelRun im low f m m₁) (hf : f ≤ KSTACKTOP)
    (hm : InKernel im f m) : RunKeeps im f m m₁ := by
  induction h with
  | refl f m => exact ⟨hm, fun _ _ _ => rfl, rfl⟩
  | code _ hstep ih =>
    have hkeep := ih hf hm
    refine ⟨⟨hstep.mode, hstep.quiet, hstep.stack, hstep.table hkeep.kernel.table⟩,
      fun x hx hx' => ?_, hstep.satp.trans hkeep.satp⟩
    exact (hstep.keeps x hx hx').trans (hkeep.keeps x hx hx')
  | trap _ hcause hroom hin _ hback hout ih ihfn =>
    have hkeep := ih hf hm
    obtain ⟨-, hfits⟩ := frameOf_kernel hat.upper hroom
    have hstack := hkeep.kernel.stack
    obtain ⟨hon, htable, hmem⟩ := nested_returns hat hkeep.kernel hf hcause hroom hin
      (fun hk => ihfn (by omega) hk) hback hout
    refine ⟨⟨?_, ?_, ?_, htable⟩, fun x hx hx' => ?_, hon.satp.trans hkeep.satp⟩
    · exact hon.user.trans hkeep.kernel.mode
    · exact (hon.status SIE (by decide) (by decide)).trans hkeep.kernel.quiet
    · rw [hon.regs sp (by decide)]
      exact hstack
    · exact (hmem x (by omega) hx').trans (hkeep.keeps x hx hx')

/-- **Nested traps are not seen.** Wherever the kernel runs, and however many traps from supervisor
mode its trap functions meet in their turn, a trap from supervisor mode leaves the registers, the
place, the mode and the address space of what it interrupts, and the stack above its stack pointer. -/
theorem nested_transparent (hat : StackAt im low) (hf : f ≤ KSTACKTOP) (hm : InKernel im f m)
    (hrun : KernelRun im low f m m₁) (htrap : NestedTrap im low m₁ m₂) :
    GoesOn m₁ m₂ ∧ ∀ x, (m₁.reg sp).toNat ≤ x → x < KSTACKTOP → m₂.mem x = m₁.mem x := by
  have hkernel := (hrun.keeps hat hf hm).kernel
  obtain ⟨cause, tval, fn, rest, m', m₃, m₄, hcause, hroom, hin, hfn, hback, hout, rfl⟩ := htrap
  obtain ⟨-, hfits⟩ := frameOf_kernel hat.upper hroom
  have hstack := hkernel.stack
  obtain ⟨hon, -, hmem⟩ := nested_returns hat hkernel hf hcause hroom hin
    (fun hk => hfn.keeps hat (by omega) hk) hback hout
  exact ⟨hon, hmem⟩

end

theorem sampleMachine_stackAt : StackAt sampleImage 0x80400000 :=
  ⟨sampleImage_place, by decide, Or.inl (by decide)⟩

theorem sampleMachine_inKernel : InKernel sampleImage 0x80500000 sampleMachine :=
  ⟨rfl, by decide, by decide, sampleMachine_loaded⟩

/-- A load page fault whose function has nothing to do. -/
theorem sampleMachine_nested : ∃ m, NestedTrap sampleImage 0x80400000 sampleMachine m := by
  have hat := sampleMachine_stackAt
  have hroom : 0x80400000 + 152 ≤ (sampleMachine.reg sp).toNat := by decide
  obtain ⟨m₂, hcall⟩ := entry_saves sampleImage (trap_interruptible sampleMachine 13 0x1000)
    (by decide) (Or.inr (by decide)) sampleMachine_loaded (Or.inl (by decide))
  have hin : Goes (trapCode sampleImage) sampleImage.place savePointer (sampleMachine.trap 13 0x1000)
      (.call (.c .doTlbMiss) (afterCall .doTlbMiss)) m₂ := hcall.goes
  obtain ⟨hentered, -, -, hkernel⟩ := nested_entry hat sampleMachine_inKernel (by decide) (by decide)
    hroom hin
  have hquiet : m₂.interruptible = false := by
    unfold Machine.interruptible
    rw [hkernel.quiet, Bool.and_false]
  have hfn : CFun.doTlbMiss ≠ .clockSetNextEvent := by decide
  obtain ⟨m₄, hout, -⟩ := afterCall_restores sampleImage hfn hquiet
    (by rw [hentered.stack]; decide) (by rw [hentered.stack]; exact hentered.saved.quiet)
  exact ⟨_, 13, 0x1000, _, _, m₂, m₂, m₄, by decide, hroom, hin, .refl .., rfl, hout, rfl⟩

theorem nested_transparent_sample : ∃ m, NestedTrap sampleImage 0x80400000 sampleMachine m ∧
    GoesOn sampleMachine m := by
  obtain ⟨m, htrap⟩ := sampleMachine_nested
  exact ⟨m, htrap, (nested_transparent sampleMachine_stackAt (by decide) sampleMachine_inKernel
    (.refl ..) htrap).1⟩

end Mos.Kern
