import Mos.Kern.Progress

/-!
# MOS on RISC-V — linked if and only if runnable

The comments of `env.c` and `sched.c` promise that `env_sched_list` holds
exactly the runnable envs.

* `runQueue_linked` — it does in every run whose steps meet `QueueSafe`: an env
  is destroyed, or begins to wait, while it is runnable, and a waiting env is not
  runnable when a message comes.
* `runQueue_unlinked` — an env that destroys the child it has just forked makes
  `env_free` remove an env that is not linked.
-/

namespace Mos.Kern

open Mos.Lib

variable {k₀ k : Kernel}

/-- The queue holds the runnable envs, each once, and every macro that was used
found what it expects: `TAILQ_REMOVE` a linked env, `TAILQ_INSERT` one that is
not linked. -/
def QueueLaw (k : Kernel) : Prop :=
  (∃ l, k.envSchedList.Rep l ∧ ∀ e, e ∈ l ↔ (k.envs e).status = .runnable) ∧
    ∀ u ∈ k.queueLog, ProperUse u

/-- **The run queue.** In every run from boot whose steps meet `QueueSafe`, the law
holds in every state, and no such step stores through a null link. -/
theorem runQueue_linked (b : BootState) (hboot : b.boot = .ok k₀) (hrun : KernReach QueueSafe k₀ k) :
    QueueLaw k ∧ ∀ op, QueueSafe k op → op.run k ≠ .error .nullStore := by
  have hinv := hrun.queueInv (envInit_queueInv hboot)
  refine ⟨⟨hinv.queued.rep, hinv.queued.log⟩, fun op hsafe hnull => ?_⟩
  exact (hinv.step op hsafe).quiet _ hnull rfl

/-- A fork: the parent is linked, the child is not. -/
theorem runQueue_linked_fork :
    ∃ k₀ k a e, smallBoot.boot = .ok k₀ ∧ KernReach QueueSafe k₀ k ∧ k.Live e ∧
      k.envSchedList.Rep [a] ∧ QueueLaw k := by
  obtain ⟨k₀, role₀, k₁, k₂, a, hboot, hb, hcreate, htick, -, -, h₂, hcur, hcount, -⟩ :=
    smallBoot_first
  obtain ⟨e, k₃, hfork, -, h₃, -, -⟩ := h₂.forkChild hb hcur (by omega)
  have hreach : KernReach QueueSafe k₀ k₃ := by
    refine .step (.step (.step .refl ?_ hcreate) ?_ htick) ?_ hfork <;> trivial
  exact ⟨k₀, k₃, a, e, hboot, hreach, (h₃.live e).mpr List.mem_cons_self, h₃.queue,
    (runQueue_linked smallBoot hboot hreach).1⟩

/-- `TAILQ_REMOVE` of an env that is not linked. -/
theorem not_properUse_remove {q : TailQueue Nat} {l : List Nat} {e : Nat} (hq : q.Rep l) (he : e ∉ l) :
    ¬ ProperUse (.remove, q, e) := by
  rintro ⟨l', hrep, hmem⟩
  rw [hrep.unique hq] at hmem
  exact he (hmem.mpr rfl)

/-- `sys_env_destroy` of a live env that is not linked breaks the law. -/
theorem InOrder.destroy_unlinked {b : BootState} {role₀ : Nat → Role} {l s : List Nat} {n c e envid : Nat}
    (h : InOrder b k₀ role₀ k l s n) (hcur : k.curenv = some c)
    (hfind : envid2env k c envid true = .ok e) (he : k.Live e) (hne : e ≠ c) (hnot : e ∉ l)
    (tf : Trapframe) :
    (KernOp.syscall tf (.envDestroy envid)).run k = .error .nullStore ∨
      ∃ k', (KernOp.syscall tf (.envDestroy envid)).run k = .ok k' ∧ ¬ QueueLaw k' := by
  have hfind' : envid2env { k with tf := { tf with sepc := (tf.sepc + 4) % 2 ^ 32 } } c envid true =
    .ok e := hfind
  obtain ⟨pm, -, hpages⟩ := envFree_retires h.ok he { tf with sepc := (tf.sepc + 4) % 2 ^ 32 }
  cases hq : k.envSchedList.remove e with
  | none =>
    refine Or.inl (run_syscall_error tf hcur (sysEnvDestroy_error hfind' ?_))
    rw [hpages]
    exact tailqRemove_none hq
  | some q =>
    have hexec := sysEnvDestroy_other hfind' (hpages.trans (tailqRemove_of hq)) fun hc =>
      hne (Option.some.inj (hcur.symm.trans hc)).symm
    obtain ⟨tf₂, cpu, hrun⟩ := run_syscall_ok (c := .envDestroy envid) tf hcur hexec
    refine Or.inr ⟨_, hrun, fun hlaw => ?_⟩
    exact not_properUse_remove h.queue hnot (hlaw.2 _ List.mem_cons_self)

/-- **A removal of an unlinked env.** The parent destroys the child it has just
forked, which was never linked: the removal stores through a null link, or it is
recorded as made on an env that is not linked. -/
theorem runQueue_unlinked :
    ∃ k₀ k a e, smallBoot.boot = .ok k₀ ∧ KernReach (fun _ _ => True) k₀ k ∧ k.curenv = some a ∧
      envid2env k a (k.envs e).id true = .ok e ∧ k.envSchedList.Rep [a] ∧ e ∉ [a] ∧
      ((KernOp.syscall zeroTrapframe (.envDestroy (k.envs e).id)).run k = .error .nullStore ∨
        ∃ k', (KernOp.syscall zeroTrapframe (.envDestroy (k.envs e).id)).run k = .ok k' ∧
          ¬ QueueLaw k') := by
  obtain ⟨k₀, role₀, k₁, k₂, a, hboot, hb, hcreate, htick, -, -, h₂, hcur, hcount, -⟩ :=
    smallBoot_first
  obtain ⟨e, k₃, hfork, -, h₃, hchild, hborn⟩ := h₂.forkChild hb hcur (by omega)
  have hreach : KernReach (fun _ _ => True) k₀ k₃ :=
    .step (.step (.step .refl trivial hcreate) trivial htick) trivial hfork
  have hlive : k₃.Live e := (h₃.live e).mpr List.mem_cons_self
  have hcur₃ : k₃.curenv = some a := hborn.curenv.trans hcur
  have hnot : e ∉ [a] := fun hm => hchild.ne (List.mem_singleton.mp hm)
  have hfind : envid2env k₃ a (k₃.envs e).id true = .ok e :=
    envid2env_ok rfl hchild.id (h₃.table.slot e hlive) hlive fun _ => Or.inr hchild.parent
  exact ⟨k₀, k₃, a, e, hboot, hreach, hcur₃, hfind, h₃.queue, hnot,
    h₃.destroy_unlinked hcur₃ hfind hlive hchild.ne hnot zeroTrapframe⟩

end Mos.Kern
