import Mos.Kern.EnvIds

/-!
# MOS on RISC-V — the waiting flag of a new env

`env_ipc_recving` says that an env waits for a message. `env_alloc` does not
touch it, so a new env has the flag of the env that had the slot before.

* `send_before_recv` — if no env dies while it waits, nobody can send to a new
  env before it calls `sys_ipc_recv`.
* `send_to_recycled` — an env that is destroyed while its flag is set leaves it
  to the next env in the slot, and a send to that env goes through.
-/

namespace Mos.Kern

open Mos.Lib

variable {b : BootState} {k₀ k k' : Kernel} {P : Kernel → KernOp → Prop} {op : KernOp}

/-- No env dies while it waits for a message. -/
def IdleDeaths (k : Kernel) (op : KernOp) : Prop :=
  ∀ e, op.event k = .died e → (k.envs e).ipcRecving = 0

/-- Slots that are free have the flag clear. -/
structure FlagInv (k : Kernel) : Prop where
  table : TableInv k
  dead : ∀ e, ¬ k.Live e → (k.envs e).ipcRecving = 0

namespace FlagInv

/-- Only a running env begins to wait. -/
theorem waiter_live (h : FlagInv k) {e : Nat} (hw : op.waiter k = some e) : k.Live e := by
  unfold KernOp.waiter at hw
  split at hw
  · exact h.table.cur e hw
  · cases hw

/-- An env that is no longer live has just died. -/
theorem died_of_step {ev : TableEvent} (h : TableStep k k' ev) {x : Nat} (hx : k.Live x)
    (hdead : ¬ k'.Live x) : ev = .died x := by
  cases h with
  | same quiet ident live => exact absurd ((live x).mpr hx) hdead
  | lost hl ident live => exact absurd ((live x).mpr hx) hdead
  | @alloc e asid parentId rest hl hlt hclear new born ident live =>
    by_cases hxe : x = e
    · exact absurd (hxe ▸ born) hdead
    · exact absurd ((live x hxe).mpr hx) hdead
  | @free e alive dead ident live =>
    by_cases hxe : x = e
    · rw [hxe]
    · exact absurd ((live x hxe).mpr hx) hdead

theorem waiter_of_died {e : Nat} (h : op.event k = .died e) : op.waiter k = none := by
  cases op with
  | syscall tf c =>
    cases c with
    | ipcRecv dstva => cases h
    | _ => rfl
  | _ => rfl

theorem step (h : FlagInv k) (hidle : IdleDeaths k op) (hrun : op.run k = .ok k') : FlagInv k' := by
  have hmove := KernOp.tableStep h.table.cur hrun
  refine ⟨h.table.step hrun, fun x hx => ?_⟩
  by_cases hlive : k.Live x
  · have hev := died_of_step hmove.step hlive hx
    refine hmove.recving x ?_ (hidle x hev)
    rw [waiter_of_died hev]
    exact fun hc => by cases hc
  · exact hmove.recving x (fun hw => hlive (h.waiter_live hw)) (h.dead x hlive)

end FlagInv

theorem KernReach.flagInv (hboot : b.boot = .ok k₀) (h : KernReach IdleDeaths k₀ k) : FlagInv k := by
  induction h with
  | refl =>
    refine ⟨(boot_idInv hboot).table, fun e _ => ?_⟩
    obtain ⟨pm, p, hk⟩ := envInit_firstKernel hboot
    rw [hk]
    rfl
  | step _ hidle hrun ih => exact ih.step hidle hrun

/-- A clear flag stays clear until the env itself calls `sys_ipc_recv`. -/
theorem KernReach.recving_clear (h₀ : TableInv k₀) {e : Nat} (hclear : (k₀.envs e).ipcRecving = 0)
    (h : KernReach (fun k op => op.waiter k ≠ some e) k₀ k) : (k.envs e).ipcRecving = 0 := by
  induction h with
  | refl => exact hclear
  | step hreach hw hrun ih =>
    exact (KernOp.tableStep (hreach.tableInv h₀).cur hrun).recving e hw ih

/-- A send to an env that does not wait. -/
theorem sysIpcTrySend_notRecv {cur e envid value srcva perm : Nat}
    (hva : srcva = 0 ∨ isIllegalVa srcva = false) (he : envid2env k cur envid false = .ok e)
    (hclear : (k.envs e).ipcRecving = 0) :
    sysIpcTrySend k cur envid value srcva perm = .ok (some (-E_IPC_NOT_RECV), k) := by
  have hlegal : ¬ (srcva ≠ 0 ∧ isIllegalVa srcva = true) := by
    rintro ⟨hne, hill⟩
    rcases hva with rfl | hva
    · exact hne rfl
    · rw [hva] at hill
      cases hill
  unfold sysIpcTrySend
  rw [if_neg hlegal]
  simp only [he]
  rw [if_pos hclear]

/-- **No message before the first receive.** Take a run from boot in which no env
dies while it waits, a step in which `env_alloc` returns the slot `e`, and any
steps after it in which `e` does not call `sys_ipc_recv`. A `sys_ipc_try_send`
to `e` then returns `-E_IPC_NOT_RECV` (or `-E_INVAL`, for a page at an illegal
address) and changes nothing. -/
theorem send_before_recv (b : BootState) {k₁ k₂ : Kernel} {e : Nat} (hboot : b.boot = .ok k₀)
    (hbefore : KernReach IdleDeaths k₀ k₁) (hborn : op.event k₁ = .born e)
    (hrun : op.run k₁ = .ok k₂) (hafter : KernReach (fun k op => op.waiter k ≠ some e) k₂ k)
    (cur envid value srcva perm : Nat) (tf : Trapframe)
    (haddr : envid2env k cur envid false = .ok e) :
    Syscall.exec { k with tf := tf } cur (.ipcTrySend envid value srcva perm) =
      .ok (some (if srcva = 0 ∨ isIllegalVa srcva = false then -E_IPC_NOT_RECV else -E_INVAL),
        { k with tf := tf }) := by
  have hinv := hbefore.flagInv hboot
  have hmove := KernOp.tableStep hinv.table.cur hrun
  have hdead : ¬ k₁.Live e := by
    have hstep := hmove.step
    rw [hborn] at hstep
    cases hstep with
    | same quiet => rcases quiet with hc | hc <;> cases hc
    | alloc hl => exact ((hinv.table.freeIff e).mp (by rw [hl]; exact List.mem_cons_self)).2
  have hclear : (k₂.envs e).ipcRecving = 0 :=
    hmove.recving e (fun hw => hdead (hinv.waiter_live hw)) (hinv.dead e hdead)
  have hnow := hafter.recving_clear (hinv.table.step hrun) hclear
  show sysIpcTrySend { k with tf := tf } cur envid value srcva perm = _
  by_cases hva : srcva = 0 ∨ isIllegalVa srcva = false
  · rw [if_pos hva]
    exact sysIpcTrySend_notRecv hva haddr hnow
  · rw [if_neg hva]
    unfold sysIpcTrySend
    rw [if_pos]
    rw [not_or, Bool.not_eq_false] at hva
    exact hva

theorem allocEvent_ne_died (r : Except Int Nat) (e : Nat) : allocEvent r ≠ .died e := by
  cases r <;> exact fun hc => by cases hc

/-- Right after a fork nobody can send to the child. -/
theorem send_before_recv_fork :
    ∃ k₀ k₁ k₂ a e, smallBoot.boot = .ok k₀ ∧ KernReach IdleDeaths k₀ k₁ ∧
      (KernOp.syscall zeroTrapframe .exofork).run k₁ = .ok k₂ ∧ k₂.curenv = some a ∧ k₂.Live e ∧
      Syscall.exec k₂ a (.ipcTrySend (k₂.envs e).id 7 0 0) = .ok (some (-E_IPC_NOT_RECV), k₂) := by
  obtain ⟨k₀, role₀, k₁, k₂, a, hboot, hb, hcreate, htick, -, -, h₂, hcur, hcount, -⟩ :=
    smallBoot_first
  obtain ⟨e, k₃, hfork, hev, h₃, hchild, hborn⟩ := h₂.forkChild hb hcur (by omega)
  have hreach : KernReach IdleDeaths k₀ k₂ := by
    refine .step (.step .refl ?_ hcreate) ?_ htick
    · exact fun x hx => absurd hx (allocEvent_ne_died _ x)
    · exact fun x hx => by cases hx
  have hlive : k₃.Live e := (h₃.live e).mpr List.mem_cons_self
  have hfind : envid2env k₃ a (k₃.envs e).id false = .ok e :=
    envid2env_ok rfl hchild.id (h₃.table.slot e hlive) hlive fun hc => by cases hc
  exact ⟨k₀, k₂, k₃, a, e, hboot, hreach, hfork, hborn.curenv.trans hcur, hlive,
    send_before_recv smallBoot hboot hreach hev hfork .refl a _ 7 0 0 k₃.tf hfind⟩

-- ---------------------------------------------------------------------------
-- A slot that is used again
-- ---------------------------------------------------------------------------

/-- A send without a page to an env that waits and is not linked. -/
theorem InOrder.send {role₀ : Nat → Role} {l s : List Nat} {n : Nat} (h : InOrder b k₀ role₀ k l s n)
    {c e envid : Nat} (he : envid2env k c envid false = .ok e) (hwait : (k.envs e).ipcRecving ≠ 0)
    (hnot : e ∉ l) (value perm : Nat) :
    ∃ k', Syscall.exec k c (.ipcTrySend envid value 0 perm) = .ok (some 0, k') ∧
      k'.envs e = deliveredEnv k c e value perm := by
  obtain ⟨q, hq, hrep⟩ := tailqInsertTail_rep
    (k := k.setEnv e fun _ => deliveredEnv k c e value perm) h.queue hnot
  refine ⟨(k.setEnv e fun _ => deliveredEnv k c e value perm).withQueue .insert e q, ?_, ?_⟩
  · show sysIpcTrySend k c envid value 0 perm = _
    unfold sysIpcTrySend
    rw [if_neg fun hc => hc.1 rfl]
    simp only [he]
    rw [if_neg hwait]
    exact bind_eq_ok.mpr ⟨_, hq, rfl⟩
  · show (k.setEnv e fun _ => deliveredEnv k c e value perm).envs e = _
    rw [Kernel.setEnv_self]

/-- **A message to a recycled slot.** A child waits for a message, its parent makes
it runnable and destroys it, and forks again: the new child has the slot, and
the flag, and the parent's message goes through. -/
theorem send_to_recycled :
    ∃ k₀ k₁ k₂ a e k₃, smallBoot.boot = .ok k₀ ∧ KernReach (fun _ _ => True) k₀ k₁ ∧
      (KernOp.syscall zeroTrapframe .exofork).event k₁ = .born e ∧
      (KernOp.syscall zeroTrapframe .exofork).run k₁ = .ok k₂ ∧ k₂.curenv = some a ∧
      envid2env k₂ a (k₂.envs e).id false = .ok e ∧
      Syscall.exec k₂ a (.ipcTrySend (k₂.envs e).id 7 0 0) = .ok (some 0, k₃) ∧
      (k₂.envs e).status = .notRunnable ∧ (k₃.envs e).status = .runnable := by
  obtain ⟨k₀, role₀, k₁, k₂, a, hboot, hb, hcreate, htick, -, -, h₂, hcur₂, hcount₂, -⟩ :=
    smallBoot_first
  -- the first child, which waits
  obtain ⟨e, k₃, hfork, -, h₃, hchild₃, hborn₃⟩ := h₂.forkChild hb hcur₂ (by omega)
  have hcur₃ : k₃.curenv = some a := hborn₃.curenv.trans hcur₂
  obtain ⟨k₄, hwake₄, h₄, hchild₄, hone₄⟩ := h₃.wakeChild hb hcur₃ hchild₃
  have hturn : [a, e].erase a ++ [a] = e :: [a] := by simp
  obtain ⟨k₅, hyield, h₅, hcur₅, hres₅⟩ := h₄.yield (hone₄.curenv.trans hcur₃) List.mem_cons_self
    hturn zeroTrapframe
  have hstop : [e, a].erase e = a :: [] := by simp
  obtain ⟨k₆, hrecv, h₆, hcur₆, hres₆⟩ := h₅.recv hcur₅ List.mem_cons_self hstop zeroTrapframe
  have hchild₆ := (hchild₄.of_ident (h₄.table.ident_eq hyield rfl)).of_ident
    (h₅.table.ident_eq hrecv rfl)
  have hflag₆ : (k₆.envs e).ipcRecving = 1 := by
    rw [hres₆.field Env.ipcRecving fun _ _ _ => rfl]
    show (Function.update k₅.envs e (waitingEnv k₅ e 0) e).ipcRecving = 1
    rw [Function.update_self]
    rfl
  -- it is made runnable and destroyed, and its slot is taken again
  obtain ⟨k₇, hwake₇, h₇, hchild₇, hone₇⟩ := h₆.wakeChild hb hcur₆ hchild₆
  obtain ⟨k₈, hdestroy, h₈, henvs₈, hfree₈, hcount₈, hcur₈⟩ :=
    h₇.destroyChild hb (hone₇.curenv.trans hcur₆) hchild₇
  have hcount : k₈.mkenvidCount = 2 := by
    have hcount₆ : k₆.mkenvidCount = k₅.mkenvidCount := hres₆.count
    rw [hcount₈, hone₇.count, hcount₆, hres₅.count, hone₄.count, hborn₃.count, hcount₂]
    rfl
  obtain ⟨e', k₉, hfork₉, hev₉, h₉, hchild₉, hborn₉⟩ := h₈.forkChild hb hcur₈ (by omega)
  obtain rfl : e' = e := by
    have hfree := hborn₉.free
    rw [hfree₈] at hfree
    exact (List.cons.inj hfree).1.symm
  have hflag₉ : (k₉.envs e').ipcRecving ≠ 0 := by
    rw [hborn₉.recving, henvs₈, Function.update_self]
    show (k₇.envs e').ipcRecving ≠ 0
    rw [hone₇.envs, Function.update_self]
    show (k₆.envs e').ipcRecving ≠ 0
    rw [hflag₆]
    decide
  have hlive₉ : k₉.Live e' := (h₉.live e').mpr List.mem_cons_self
  have hnot : e' ∉ [a] := fun hm => hchild₉.ne (List.mem_singleton.mp hm)
  have hfind : envid2env k₉ a (k₉.envs e').id false = .ok e' :=
    envid2env_ok rfl hchild₉.id (h₉.table.slot e' hlive₉) hlive₉ fun hc => by cases hc
  have hstatus : (k₉.envs e').status = .notRunnable := by
    cases hst : (k₉.envs e').status with
    | free => exact absurd hst hlive₉
    | runnable => exact absurd ((h₉.runnable e').mpr hst) hnot
    | notRunnable => rfl
  obtain ⟨k₁₀, hsend, henv⟩ := h₉.send hfind hflag₉ hnot 7 0
  have hreach₃ : KernReach (fun _ _ => True) k₀ k₃ :=
    .step (.step (.step .refl trivial hcreate) trivial htick) trivial hfork
  have hreach₆ : KernReach (fun _ _ => True) k₀ k₆ :=
    .step (.step (.step hreach₃ trivial hwake₄) trivial hyield) trivial hrecv
  have hreach₈ : KernReach (fun _ _ => True) k₀ k₈ :=
    .step (.step hreach₆ trivial hwake₇) trivial hdestroy
  exact ⟨k₀, k₈, k₉, a, e', k₁₀, hboot, hreach₈, hev₉, hfork₉, hborn₉.curenv.trans hcur₈, hfind,
    hsend, hstatus, by rw [henv]; rfl⟩

end Mos.Kern
