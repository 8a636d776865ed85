import Mos.Kern.IpcFlag

/-!
# MOS on RISC-V — the registers of an env across traps

All envs share the slot below `KSTACKTOP`: a trap from user mode stores the
registers there, and `env_run` copies them to the env that ran only when it
resumes one. `KernOp.due` is history, kept beside the run: for each env the
frame it is due, which is the one its last trap stored, changed as its own
system call says, unless another frame was set for it since then.

* `context_preserved` — what a trap returns to, by way of `env_run` or not, is
  the frame the env is due; the death of the running env changes no frame.
-/

namespace Mos.Kern

open Mos.Lib

variable {b : BootState} {k₀ k k' : Kernel}

-- ---------------------------------------------------------------------------
-- The frames envs are due
-- ---------------------------------------------------------------------------

/-- The result of a call goes to `a0`. -/
def Trapframe.withA0 (tf : Trapframe) (a0 : Nat) : Trapframe :=
  { tf with regs := Function.update tf.regs 10 a0 }

/-- The `ecall` is behind. -/
def Trapframe.pastEcall (tf : Trapframe) : Trapframe := { tf with sepc := (tf.sepc + 4) % 2 ^ 32 }

/-- The env whose frame a call of `cur` sets, and the frame: what memory holds for
`sys_set_trapframe`, and the caller's with `a0 = 0` for the child of
`sys_exofork`. -/
def Syscall.sets (k : Kernel) (cur : Nat) : Syscall → Option (Nat × Trapframe)
  | .setTrapframe envid va =>
    if isIllegalVaRange va TRAPFRAME_SIZE then none
    else
      match envid2env k cur envid true, kernelLoads k cur va TRAPFRAME_SIZE with
      | .ok e, .ok (bs, _) => some (e, Trapframe.ofBytes bs)
      | _, _ => none
  | .exofork =>
    match (envAlloc k (k.envs cur).id).1 with
    | .ok e => some (e, k.tf.withA0 0)
    | .error _ => none
  | _ => none

/-- A frame set for an env takes the place of the one it had. -/
def setFrame {α : Type} (f : Nat → α) (g : Trapframe → α) : Option (Nat × Trapframe) → Nat → α
  | some (e, tf) => Function.update f e (g tf)
  | none => f

theorem setFrame_some {α : Type} (f : Nat → α) (g : Trapframe → α) (e : Nat) (tf : Trapframe) :
    setFrame f g (some (e, tf)) = Function.update f e (g tf) := rfl

/-- What a call that gives `r` leaves in `a0` of its caller, if anything. -/
def Syscall.a0 : Syscall → Option Int → Option Nat
  | _, some r => some (toWord r)
  | .ipcRecv _, none => some 0
  | _, none => none

def Trapframe.after (tf : Trapframe) : Option Nat → Trapframe
  | some a0 => tf.withA0 a0
  | none => tf

/-- The frames due after a call of `c`, which finds `k`. -/
def Syscall.due (k : Kernel) (c : Nat) (due : Nat → Option Trapframe) (s : Syscall) :
    Nat → Option Trapframe :=
  let due := setFrame (Function.update due c (some k.tf)) some (s.sets k c)
  match s.exec k c with
  | .ok (r, _) => Function.update due c ((due c).map fun tf => tf.after (s.a0 r))
  | .error _ => due

/-- The frames due after a step; what `env_create` gives a new env is left open. -/
def KernOp.due (k : Kernel) (due : Nat → Option Trapframe) : KernOp → Nat → Option Trapframe
  | .create _ _ =>
    match (envAlloc k 0).1 with
    | .ok e => Function.update due e none
    | .error _ => due
  | .tick tf =>
    match k.curenv with
    | some c => Function.update due c (some tf)
    | none => due
  | .syscall tf s =>
    match k.curenv with
    | some c => s.due { k with tf := tf.pastEcall } c due
    | none => due
  | .fault tf =>
    match k.curenv with
    | some c => Function.update due c (some tf)
    | none => due
  | .device _ => due
  | .store _ _ => due

theorem due_syscall {due : Nat → Option Trapframe} {tf : Trapframe} {s : Syscall} {c : Nat}
    (hcur : k.curenv = some c) :
    (KernOp.syscall tf s).due k due = s.due { k with tf := tf.pastEcall } c due := by
  show (match k.curenv with
    | some c => s.due { k with tf := tf.pastEcall } c due
    | none => due) = _
  split
  · rename_i c' hc'
    obtain rfl : c = c' := Option.some.inj (hcur.symm.trans hc')
    rfl
  · rename_i hc'
    rw [hcur] at hc'
    cases hc'

/-- The states of the runs from `k₀`, with the frames due. -/
inductive DueReach (k₀ : Kernel) : Kernel → (Nat → Option Trapframe) → Prop where
  | refl : DueReach k₀ k₀ fun _ => none
  | step {k k' : Kernel} {due : Nat → Option Trapframe} {op : KernOp} : DueReach k₀ k due →
      op.run k = .ok k' → DueReach k₀ k' (op.due k due)

theorem DueReach.kernReach {due : Nat → Option Trapframe} (h : DueReach k₀ k due) :
    KernReach (fun _ _ => True) k₀ k := by
  induction h with
  | refl => exact .refl
  | step _ hrun ih => exact ih.step trivial hrun

-- ---------------------------------------------------------------------------
-- The frames the kernel holds
-- ---------------------------------------------------------------------------

/-- The frame `env_run` would resume `e` with: the slot for the running env, and
`env_tf` for the others. -/
def Kernel.frameOf (k : Kernel) (e : Nat) : Trapframe :=
  if k.curenv = some e then k.tf else (k.envs e).tf

theorem saveContext_tf (k : Kernel) (x : Nat) : ((saveContext k).envs x).tf = k.frameOf x := by
  unfold saveContext Kernel.frameOf
  cases hc : k.curenv with
  | none =>
    rw [if_neg (by simp)]
  | some c =>
    by_cases hx : c = x
    · subst hx
      rw [if_pos rfl]
      simp
    · rw [if_neg (by simpa using hx)]
      show ((k.setEnv c _).envs x).tf = _
      rw [Kernel.setEnv_of_ne _ _ _ fun h => hx h.symm]

/-- `env_run` resumes the env with the frame held for it, and saves the others. -/
theorem envRun_frames {e : Nat} (h : envRun k e = .ok k') :
    k'.curenv = some e ∧ k'.cpu = k.frameOf e ∧ ∀ x, (k'.envs x).tf = k.frameOf x := by
  unfold envRun at h
  split_ifs at h
  cases h
  have htf : ∀ x, ((resume (saveContext k) e).envs x).tf = k.frameOf x := by
    intro x
    obtain ⟨runs, hx⟩ := resume_env (saveContext k) e x
    rw [hx]
    exact saveContext_tf k x
  exact ⟨rfl, htf e, htf⟩

theorem schedule_frames {yield : Bool} (h : schedule k yield = .ok k') :
    ∃ e, k'.curenv = some e ∧ k'.cpu = k.frameOf e ∧ ∀ x, (k'.envs x).tf = k.frameOf x := by
  obtain ⟨_, _, _, _, e, hrun⟩ := schedule_envRun h
  obtain ⟨hcur, hcpu, henv⟩ := envRun_frames hrun
  exact ⟨e, hcur, hcpu, henv⟩

/-- Pages, the queue and other fields of the envs do not matter. -/
theorem frameOf_congr {x : Nat} (hcur : k'.curenv = k.curenv) (htf : k'.tf = k.tf)
    (henv : (k'.envs x).tf = (k.envs x).tf) : k'.frameOf x = k.frameOf x := by
  unfold Kernel.frameOf
  rw [hcur, htf, henv]

/-- An env that does not run gets the frame `tf`, after steps that changed no frame
but its own. -/
theorem frameOf_setEnv {k₁ : Kernel} {e cur : Nat} {f : Env → Env} {tf : Trapframe} (hne : e ≠ cur)
    (hcur : k.curenv = some cur) (hc : k₁.curenv = k.curenv) (htf : k₁.tf = k.tf)
    (hother : ∀ x, x ≠ e → (k₁.envs x).tf = (k.envs x).tf) (hf : (f (k₁.envs e)).tf = tf) (x : Nat) :
    (k₁.setEnv e f).frameOf x = Function.update k.frameOf e tf x := by
  by_cases hx : x = e
  · subst hx
    rw [Function.update_self, Kernel.frameOf, Kernel.setEnv_curenv, hc, hcur,
      if_neg (by simpa using hne.symm), Kernel.setEnv_self]
    exact hf
  · rw [Function.update_of_ne hx]
    refine frameOf_congr hc htf ?_
    rw [Kernel.setEnv_of_ne _ _ _ hx]
    exact hother x hx

/-- What `env_alloc` does to the frames: the child's is set later by its creator. -/
theorem envAlloc_frames {parentId : Nat} {r : Except Int Nat} (h : envAlloc k parentId = (r, k')) :
    k'.tf = k.tf ∧ k'.curenv = k.curenv ∧
      ∀ x, r ≠ .ok x → (k'.envs x).tf = (k.envs x).tf := by
  cases envAlloc_outcome h with
  | full hl => exact ⟨rfl, rfl, fun _ _ => rfl⟩
  | @noAsid e rest hl hfull =>
    rw [envPrepare_eq]
    refine ⟨rfl, rfl, fun x _ => ?_⟩
    show (Function.update k.envs e (preparedEnv k e) x).tf = _
    by_cases hx : x = e
    · rw [hx, Function.update_self]
      rfl
    · rw [Function.update_of_ne hx]
  | @ok e asid rest hl hlt hclear =>
    refine ⟨rfl, rfl, fun x hx => ?_⟩
    show (Function.update k.envs e (givenEnv k e asid parentId) x).tf = _
    rw [Function.update_of_ne]
    rintro rfl
    exact hx rfl

/-- What a call of `cur` that returns does to the frames, when it sets `set`; the
`env_tf` of the caller is out of date, and stays so. -/
structure CallFrames (k k' : Kernel) (cur : Nat) (set : Option (Nat × Trapframe)) : Prop where
  running : k'.curenv = some cur
  held : ∀ x, k'.frameOf x = setFrame k.frameOf id set x
  own : (k'.envs cur).tf = (k.envs cur).tf

theorem sysExofork_frames {cur : Nat} {r : Option Int} (hcur : k.curenv = some cur)
    (hfresh : ∀ e, (envAlloc k (k.envs cur).id).1 = .ok e → e ≠ cur)
    (h : sysExofork k cur = .ok (r, k')) :
    CallFrames k k' cur (Syscall.exofork.sets k cur) := by
  unfold sysExofork at h
  cases halloc : envAlloc k (k.envs cur).id with
  | mk res k₁ =>
    obtain ⟨htf, hc, hother⟩ := envAlloc_frames halloc
    rw [halloc] at h
    cases res with
    | error m =>
      cases h
      have hsets : Syscall.exofork.sets k cur = none := by
        unfold Syscall.sets
        rw [halloc]
      rw [hsets]
      exact ⟨hc.trans hcur, fun x => frameOf_congr hc htf (hother x (by simp)), hother cur (by simp)⟩
    | ok e =>
      cases h
      have hsets : Syscall.exofork.sets k cur = some (e, k.tf.withA0 0) := by
        unfold Syscall.sets
        rw [halloc]
      have hne : e ≠ cur := hfresh e (by rw [halloc])
      have hkeep : ∀ x, x ≠ e → (k₁.envs x).tf = (k.envs x).tf :=
        fun x hx => hother x (by simpa using fun h => hx h.symm)
      rw [hsets, ← htf]
      refine ⟨hc.trans hcur, frameOf_setEnv hne hcur hc htf hkeep rfl, ?_⟩
      rw [Kernel.setEnv_of_ne _ _ _ hne.symm]
      exact hkeep cur hne.symm

theorem sysSetTrapframe_frames {cur envid va : Nat} {r : Option Int} (hcur : k.curenv = some cur)
    (h : sysSetTrapframe k cur envid va = .ok (r, k')) :
    CallFrames k k' cur ((Syscall.setTrapframe envid va).sets k cur) := by
  unfold sysSetTrapframe at h
  split_ifs at h with hrange
  · cases h
    have hsets : (Syscall.setTrapframe envid va).sets k cur = none := by simp [Syscall.sets, hrange]
    rw [hsets]
    exact ⟨hcur, fun _ => rfl, rfl⟩
  · cases he : envid2env k cur envid true with
    | error m =>
      simp only [he] at h
      cases h
      have hsets : (Syscall.setTrapframe envid va).sets k cur = none := by
        simp [Syscall.sets, hrange, he]
      rw [hsets]
      exact ⟨hcur, fun _ => rfl, rfl⟩
    | ok e =>
      simp only [he] at h
      obtain ⟨⟨bs, k₁⟩, hload, h⟩ := bind_eq_ok.mp h
      obtain ⟨hwork, htf⟩ := (kernelLoads_slot k cur va TRAPFRAME_SIZE).post _ hload
      have hc : k₁.curenv = k.curenv := hwork.field Kernel.curenv fun _ => rfl
      have henv : ∀ x, (k₁.envs x).tf = (k.envs x).tf := hwork.envField Env.tf fun _ => rfl
      have hsets : (Syscall.setTrapframe envid va).sets k cur =
          some (e, Trapframe.ofBytes bs) := by
        simp [Syscall.sets, hrange, he, hload]
      rw [hsets]
      by_cases hself : e = cur
      -- the frame of the caller itself goes to the slot
      · rw [if_pos hself] at h
        cases h
        refine ⟨hc.trans hcur, fun x => ?_, henv cur⟩
        rw [setFrame_some]
        by_cases hx : x = e
        · subst hx
          rw [Function.update_self, Kernel.frameOf, hself]
          exact if_pos (hc.trans hcur)
        · rw [Function.update_of_ne hx]
          have hne : k.curenv ≠ some x := by
            rw [hcur, ← hself]
            simpa using fun h => hx h.symm
          have hne' : ¬ k₁.curenv = some x := fun h => hne (hc ▸ h)
          rw [Kernel.frameOf, Kernel.frameOf, if_neg hne]
          exact (if_neg hne').trans (henv x)
      · rw [if_neg hself] at h
        cases h
        refine ⟨hc.trans hcur, frameOf_setEnv hself hcur hc htf (fun x _ => henv x) rfl, ?_⟩
        rw [Kernel.setEnv_of_ne _ _ _ fun h => hself h.symm]
        exact henv cur

theorem sysEnvDestroy_returns {cur envid : Nat} {r : Int}
    (h : sysEnvDestroy k cur envid = .ok (some r, k')) :
    k' = k ∨ ∃ e, envFree k e = .ok k' := by
  unfold sysEnvDestroy at h
  cases he : envid2env k cur envid true with
  | error m =>
    simp only [he] at h
    cases h
    exact Or.inl rfl
  | ok e =>
    simp only [he] at h
    obtain ⟨⟨returns, k₂⟩, hdes, hdone⟩ := bind_eq_ok.mp h
    obtain ⟨k₁, hfree, hrest⟩ := bind_eq_ok.mp hdes
    split_ifs at hrest with hcur
    · obtain ⟨k₃, -, hret⟩ := bind_eq_ok.mp hrest
      cases hret
      cases hdone
    · cases hrest
      cases hdone
      exact Or.inr ⟨e, hfree⟩

/-- A call that returns: `curenv` goes on, and only the frame it sets changes. -/
theorem exec_returns {cur : Nat} {s : Syscall} {r : Int} (hcur : k.curenv = some cur)
    (hfresh : ∀ e, (envAlloc k (k.envs cur).id).1 = .ok e → e ≠ cur)
    (h : s.exec k cur = .ok (some r, k')) :
    CallFrames k k' cur (s.sets k cur) := by
  have hquiet : ∀ {k' : Kernel}, k'.curenv = k.curenv → k'.tf = k.tf →
      (∀ x, (k'.envs x).tf = (k.envs x).tf) → CallFrames k k' cur none :=
    fun hc htf henv => ⟨hc.trans hcur, fun x => frameOf_congr hc htf (henv x), henv cur⟩
  -- an env that keeps its frame
  have hset : ∀ (e : Nat) (env : Env), env.tf = (k.envs e).tf → ∀ x,
      (Function.update k.envs e env x).tf = (k.envs x).tf := by
    intro e env hf x
    by_cases hx : x = e
    · rw [hx, Function.update_self]
      exact hf
    · rw [Function.update_of_ne hx]
  cases s with
  | putchar left | getenvid | cgetc ch =>
    cases h
    exact hquiet rfl rfl fun _ => rfl
  | printCons s num =>
    change sysPrintCons k cur s num = _ at h
    unfold sysPrintCons at h
    split_ifs at h
    · cases h
      exact hquiet rfl rfl fun _ => rfl
    · obtain ⟨⟨bs, k₁⟩, hload, hdone⟩ := bind_eq_ok.mp h
      cases hdone
      obtain ⟨hwork, htf⟩ := (kernelLoads_slot k cur s num).post _ hload
      exact hquiet (hwork.field Kernel.curenv fun _ => rfl) htf (hwork.envField Env.tf fun _ => rfl)
  | yield =>
    obtain ⟨k₁, -, hdone⟩ := bind_eq_ok.mp h
    cases hdone
  | envDestroy envid =>
    change sysEnvDestroy k cur envid = _ at h
    rcases sysEnvDestroy_returns h with rfl | ⟨e, hfree⟩
    · exact hquiet rfl rfl fun _ => rfl
    · obtain ⟨pm, q, log, -, rfl⟩ := envFree_eq hfree
      exact hquiet rfl rfl (hset e _ rfl)
  | setTlbModEntry envid func =>
    change sysSetTlbModEntry k cur envid func = _ at h
    unfold sysSetTlbModEntry at h
    split at h
    · cases h
      exact hquiet rfl rfl fun _ => rfl
    · cases h
      exact hquiet rfl rfl (hset _ _ rfl)
  | memAlloc envid va perm =>
    rcases sysMemAlloc_cases h with rfl | ⟨e, pp, pm, r', pm', -, -, -, -, -, rfl⟩
    · exact hquiet rfl rfl fun _ => rfl
    · exact hquiet rfl rfl fun _ => rfl
  | memMap srcid srcva dstid dstva perm =>
    rcases sysMemMap_cases h with rfl | ⟨src, dst, pp, p, r', pm', -, -, -, -, -, -, -, rfl⟩
    · exact hquiet rfl rfl fun _ => rfl
    · exact hquiet rfl rfl fun _ => rfl
  | memUnmap envid va =>
    rcases sysMemUnmap_cases h with rfl | ⟨e, pm', -, -, -, -, rfl⟩
    · exact hquiet rfl rfl fun _ => rfl
    · exact hquiet rfl rfl fun _ => rfl
  | exofork => exact sysExofork_frames hcur hfresh h
  | setEnvStatus envid status =>
    rcases sysSetEnvStatus_cases h with rfl | ⟨e, st, q, log, -, -, -, rfl⟩
    · exact hquiet rfl rfl fun _ => rfl
    · exact hquiet rfl rfl (hset e _ rfl)
  | setTrapframe envid va => exact sysSetTrapframe_frames hcur h
  | panic => cases h
  | ipcTrySend envid value srcva perm =>
    rcases sysIpcTrySend_cases h with rfl | ⟨e, k₁, -, -, hdel, hend⟩
    · exact hquiet rfl rfl fun _ => rfl
    · obtain ⟨q, log, rfl⟩ := deliver_eq hdel
      rcases hend with rfl | ⟨pp, p, r', pm', -, -, -, -, -, rfl⟩
      · exact hquiet rfl rfl (hset e _ rfl)
      · exact hquiet rfl rfl (hset e _ rfl)
  | ipcRecv dstva =>
    change sysIpcRecv k cur dstva = _ at h
    unfold sysIpcRecv at h
    split_ifs at h
    · cases h
      exact hquiet rfl rfl fun _ => rfl
    · obtain ⟨k₁, -, h⟩ := bind_eq_ok.mp h
      obtain ⟨k₂, -, hdone⟩ := bind_eq_ok.mp h
      cases hdone
  | devReq dev req =>
    obtain ⟨disk, rfl⟩ := sysDevReq_cases h
    exact hquiet rfl rfl fun _ => rfl

-- ---------------------------------------------------------------------------
-- Calls that do not return
-- ---------------------------------------------------------------------------

/-- The call returns if it gives anything. -/
def Returns (x : SysResult) : Prop := ∀ k', x ≠ .ok (none, k')

namespace Returns

theorem some (r : Int) (k : Kernel) : Returns (.ok (some r, k)) := nofun

theorem bind {α : Type} {x : Result α} {f : α → SysResult} (hf : ∀ a, Returns (f a)) :
    Returns (x >>= f) := by
  intro k' h
  obtain ⟨a, -, h⟩ := bind_eq_ok.mp h
  exact hf a k' h

end Returns

/-- The calls that may end in `schedule`. -/
def Syscall.Switches : Syscall → Prop
  | .yield => True
  | .envDestroy _ => True
  | .ipcRecv _ => True
  | _ => False

theorem exec_returns_of (k : Kernel) (cur : Nat) {s : Syscall} (hs : ¬ s.Switches) :
    Returns (s.exec k cur) := by
  cases s with
  | putchar left => exact .some left k
  | getenvid => exact .some _ k
  | cgetc ch => exact .some ch k
  | printCons s num =>
    show Returns (sysPrintCons k cur s num)
    unfold sysPrintCons
    split_ifs
    · exact .some _ k
    · exact .bind fun x => .some 0 x.2
  | yield => exact absurd trivial hs
  | envDestroy envid => exact absurd trivial hs
  | ipcRecv dstva => exact absurd trivial hs
  | setTlbModEntry envid func =>
    show Returns (sysSetTlbModEntry k cur envid func)
    unfold sysSetTlbModEntry
    cases envid2env k cur envid true with
    | error r => exact .some r k
    | ok e => exact .some 0 _
  | memAlloc envid va perm =>
    show Returns (sysMemAlloc k cur envid va perm)
    unfold sysMemAlloc
    split_ifs
    · exact .some _ k
    · cases envid2env k cur envid true with
      | error r => exact .some r k
      | ok e =>
        cases pageAlloc k.pm with
        | none => exact .some _ k
        | some x => exact .bind fun y => .some y.1 _
  | memMap srcid srcva dstid dstva perm =>
    show Returns (sysMemMap k cur srcid srcva dstid dstva perm)
    unfold sysMemMap
    split_ifs
    · exact .some _ k
    · exact .some _ k
    · cases envid2env k cur srcid true with
      | error r => exact .some r k
      | ok src =>
        cases envid2env k cur dstid true with
        | error r => exact .some r k
        | ok dst =>
          refine .bind fun x => ?_
          cases x with
          | none => exact .some _ k
          | some y => exact .bind fun z => .some z.1 _
  | memUnmap envid va =>
    show Returns (sysMemUnmap k cur envid va)
    unfold sysMemUnmap
    split_ifs
    · exact .some _ k
    · cases envid2env k cur envid true with
      | error r => exact .some r k
      | ok e => exact .bind fun pm => .some 0 _
  | exofork =>
    show Returns (sysExofork k cur)
    unfold sysExofork
    cases envAlloc k (k.envs cur).id with
    | mk r k₁ =>
      cases r with
      | error r => exact .some r k₁
      | ok e => exact .some _ _
  | setEnvStatus envid status =>
    show Returns (sysSetEnvStatus k cur envid status)
    unfold sysSetEnvStatus
    cases statusOfNat status with
    | none => exact .some _ k
    | some st =>
      cases envid2env k cur envid true with
      | error r => exact .some r k
      | ok e =>
        simp only
        split_ifs
        · exact .bind fun k₁ => .some 0 _
        · exact .bind fun k₁ => .some 0 _
        · exact .bind fun k₁ => .some 0 _
  | setTrapframe envid va =>
    show Returns (sysSetTrapframe k cur envid va)
    unfold sysSetTrapframe
    split_ifs
    · exact .some _ k
    · cases envid2env k cur envid true with
      | error r => exact .some r k
      | ok e =>
        refine .bind fun x => ?_
        show Returns (if e = cur then _ else _)
        split_ifs
        · exact .some _ _
        · exact .some 0 _
  | panic => exact fun k' h => by cases h
  | ipcTrySend envid value srcva perm =>
    show Returns (sysIpcTrySend k cur envid value srcva perm)
    unfold sysIpcTrySend
    by_cases hva : srcva ≠ 0 ∧ isIllegalVa srcva = true
    · rw [if_pos hva]
      exact .some _ k
    · rw [if_neg hva]
      cases envid2env k cur envid false with
      | error r => exact .some r k
      | ok e =>
        by_cases hwait : (k.envs e).ipcRecving = 0
        · simp only [if_pos hwait]
          exact .some _ k
        · simp only [if_neg hwait]
          refine .bind fun k₁ => ?_
          by_cases hpage : srcva ≠ 0
          · rw [if_pos hpage]
            refine .bind fun x => ?_
            cases x with
            | none => exact .some _ k₁
            | some y => exact .bind fun z => .some z.1 _
          · rw [if_neg hpage]
            exact .some 0 k₁
  | devReq dev req =>
    show Returns (sysDevReq k dev req)
    unfold sysDevReq
    split_ifs
    · exact .some _ k
    · exact .bind fun pa => .bind fun x => .some x.1 _
    · exact .bind fun pa => .some _ k

theorem sysEnvDestroy_stops {cur envid : Nat} (h : sysEnvDestroy k cur envid = .ok (none, k')) :
    ∃ e k₁, envid2env k cur envid true = .ok e ∧ envFree k e = .ok k₁ ∧ k₁.curenv = some e ∧
      schedule { k₁ with curenv := none } true = .ok k' := by
  unfold sysEnvDestroy at h
  cases he : envid2env k cur envid true with
  | error m =>
    simp only [he] at h
    cases h
  | ok e =>
    simp only [he] at h
    obtain ⟨⟨returns, k₂⟩, hdes, hdone⟩ := bind_eq_ok.mp h
    obtain ⟨k₁, hfree, hrest⟩ := bind_eq_ok.mp hdes
    split_ifs at hrest with hcur
    · obtain ⟨k₃, hsched, hret⟩ := bind_eq_ok.mp hrest
      cases hret
      cases hdone
      exact ⟨e, k₁, rfl, hfree, hcur, hsched⟩
    · cases hrest
      cases hdone

/-- An env that ends itself leaves every frame as it was. -/
theorem sysEnvDestroy_self_frames {cur envid : Nat} (hcur : k.curenv = some cur)
    (h : sysEnvDestroy k cur envid = .ok (none, k')) :
    (∃ e, k'.curenv = some e ∧ k'.cpu = (k'.envs e).tf) ∧ ¬ k'.Live cur ∧
      ∀ x, (k'.envs x).tf = (k.envs x).tf := by
  obtain ⟨e, k₁, -, hfree, hcur₁, hsched⟩ := sysEnvDestroy_stops h
  obtain ⟨pm, q, log, -, rfl⟩ := envFree_eq hfree
  obtain rfl : cur = e := Option.some.inj (hcur.symm.trans hcur₁)
  obtain ⟨c, hc, hcpu, htf⟩ := schedule_frames hsched
  refine ⟨⟨c, hc, hcpu.trans (htf c).symm⟩, ?_, fun x => (htf x).trans ?_⟩
  · rw [(schedule_table hsched).1.live cur]
    show ¬ (Function.update k.envs cur _ cur).status ≠ .free
    rw [Function.update_self]
    exact fun hne => hne rfl
  · show (if (none : Option Nat) = some x then k.tf else (Function.update k.envs cur _ x).tf) = _
    rw [if_neg (by simp)]
    by_cases hx : x = cur
    · rw [hx, Function.update_self]
    · rw [Function.update_of_ne hx]

/-- A call that does not return: what it left in the slot is saved for its caller,
who may be gone, and another env is resumed with the frame it had. -/
theorem exec_stops {cur : Nat} {s : Syscall} (hcur : k.curenv = some cur)
    (h : s.exec k cur = .ok (none, k')) :
    s.sets k cur = none ∧ (∃ e, k'.curenv = some e ∧ k'.cpu = (k'.envs e).tf) ∧
      ∀ x, k'.Live x →
        (k'.envs x).tf = if x = cur then k.tf.after (s.a0 none) else (k.envs x).tf := by
  have hslot : ∀ x, k.frameOf x = if x = cur then k.tf else (k.envs x).tf := by
    intro x
    unfold Kernel.frameOf
    rw [hcur]
    simp only [Option.some.injEq, eq_comm]
  by_cases hs : s.Switches
  · cases s with
    | yield =>
      obtain ⟨k₁, hsched, hdone⟩ := bind_eq_ok.mp h
      cases hdone
      obtain ⟨e, hc, hcpu, htf⟩ := schedule_frames hsched
      exact ⟨rfl, ⟨e, hc, hcpu.trans (htf e).symm⟩, fun x _ => (htf x).trans (hslot x)⟩
    | envDestroy envid =>
      obtain ⟨hrun, hdead, htf⟩ := sysEnvDestroy_self_frames hcur h
      refine ⟨rfl, hrun, fun x hx => ?_⟩
      rw [if_neg, htf]
      rintro rfl
      exact hdead hx
    | ipcRecv dstva =>
      change sysIpcRecv k cur dstva = _ at h
      unfold sysIpcRecv at h
      split_ifs at h
      · cases h
      obtain ⟨k₁, hrem, h⟩ := bind_eq_ok.mp h
      obtain ⟨k₂, hsched, hdone⟩ := bind_eq_ok.mp h
      cases hdone
      obtain ⟨q, rfl⟩ := tailqRemove_eq hrem
      obtain ⟨e, hc, hcpu, htf⟩ := schedule_frames hsched
      refine ⟨rfl, ⟨e, hc, hcpu.trans (htf e).symm⟩, fun x _ => (htf x).trans ?_⟩
      show (if k.curenv = some x then k.tf.withA0 0 else (Function.update k.envs cur _ x).tf) = _
      rw [hcur]
      by_cases hx : x = cur
      · rw [if_pos hx, if_pos (congrArg some hx.symm)]
        rfl
      · rw [if_neg hx, if_neg (by simpa using fun hc => hx hc.symm), Function.update_of_ne hx]
    | _ => exact absurd hs id
  · exact absurd h (exec_returns_of k cur hs k')

-- ---------------------------------------------------------------------------
-- The invariant
-- ---------------------------------------------------------------------------

/-- While an env runs, every other live env has the frame it is due. -/
def DueInv (k : Kernel) (due : Nat → Option Trapframe) : Prop :=
  ∀ e tf, k.Live e → k.curenv ≠ some e → due e = some tf → (k.envs e).tf = tf

/-- After a trap, the frame it returns to is the one that the running env is due. -/
def Restores (k : Kernel) (due : Nat → Option Trapframe) : Prop :=
  ∀ e tf, k.curenv = some e → due e = some tf → k.cpu = tf

/-- A system call: the slot holds the frame past the `ecall`, and a result goes to
`a0` before the return. -/
theorem run_syscall_slot {tf : Trapframe} {s : Syscall} (h : (KernOp.syscall tf s).run k = .ok k') :
    ∃ cur r k₁, k.curenv = some cur ∧ s.exec { k with tf := tf.pastEcall } cur = .ok (r, k₁) ∧
      k' = match r with
        | none => k₁
        | some v => retFromException { k₁ with tf := k₁.tf.withA0 (toWord v) } := by
  obtain ⟨cur, hcur, h⟩ := KernOp.trap_of_run (.syscall tf s) trivial h
  obtain ⟨⟨r, k₁⟩, hsys, hdone⟩ := bind_eq_ok.mp h
  obtain ⟨⟨r₂, k₂⟩, hexec, hret⟩ := bind_eq_ok.mp hsys
  refine ⟨cur, r₂, k₂, hcur, hexec, ?_⟩
  cases r₂ with
  | none =>
    cases hret
    cases hdone
    rfl
  | some v =>
    cases hret
    cases hdone
    rfl

/-- Who is live after a call that sets frames: those who were, and a new child. -/
theorem live_of_exec {cur : Nat} {s : Syscall} {r : Option Int} (htable : TableInv k)
    (hcur : k.curenv = some cur) (h : s.exec k cur = .ok (r, k')) {x : Nat} (hx : k'.Live x) :
    k.Live x ∨ ∃ tf, s.sets k cur = some (x, tf) := by
  have hmove := (exec_move k.tf hcur (htable.cur cur hcur) h).step
  cases hev : KernOp.event k (.syscall k.tf s) with
  | none =>
    rw [hev] at hmove
    cases hmove with
    | same _ _ live => exact Or.inl ((live x).mp hx)
  | refused =>
    rw [hev] at hmove
    cases hmove with
    | same _ _ live => exact Or.inl ((live x).mp hx)
    | lost _ _ live => exact Or.inl ((live x).mp hx)
  | died e =>
    rw [hev] at hmove
    cases hmove with
    | same quiet => rcases quiet with hq | hq <;> cases hq
    | free alive _ _ live =>
      by_cases hxe : x = e
      · exact Or.inl (hxe ▸ alive)
      · exact Or.inl ((live x hxe).mp hx)
  | born e =>
    rw [hev] at hmove
    cases hmove with
    | same quiet => rcases quiet with hq | hq <;> cases hq
    | alloc _ _ _ _ _ _ live =>
      by_cases hxe : x = e
      · subst hxe
        right
        cases s with
        | exofork =>
          change (match k.curenv with
            | some cur => allocEvent (envAlloc k (k.envs cur).id).1
            | none => .none) = _ at hev
          rw [hcur] at hev
          unfold Syscall.sets
          cases hr : (envAlloc k (k.envs cur).id).1 with
          | error m =>
            simp only [hr] at hev
            cases hev
          | ok e =>
            simp only [hr] at hev
            cases hev
            exact ⟨_, rfl⟩
        | envDestroy envid =>
          change (match k.curenv with
            | some cur => destroyEvent (envid2env k cur envid true)
            | none => .none) = _ at hev
          rw [hcur] at hev
          cases hr : envid2env k cur envid true with
          | error m =>
            simp only [hr] at hev
            cases hev
          | ok e =>
            simp only [hr] at hev
            cases hev
        | _ => cases hev
      · exact Or.inl ((live x hxe).mp hx)

/-- The frames the kernel holds in a trap meet `Q`. -/
def Kernel.Holds (k : Kernel) (Q : Nat → Trapframe → Prop) : Prop :=
  ∀ e, k.Live e → Q e (k.frameOf e)

/-- The head of the free list is not the running env. -/
theorem TableInv.fresh_ne (htable : TableInv k) {cur parentId e : Nat} (hcur : k.curenv = some cur)
    (h : (envAlloc k parentId).1 = .ok e) : e ≠ cur := by
  rintro rfl
  obtain ⟨rest, asid, hl, -⟩ := envAlloc_given (Prod.ext h rfl)
  exact ((htable.freeIff e).mp (by rw [hl]; exact List.mem_cons_self)).2 (htable.cur e hcur)

namespace Kernel.Holds

variable {Q R : Nat → Trapframe → Prop} {cur : Nat} {s : Syscall}

/-- A trap stores the registers of the running env in the slot. -/
theorem trapped (h : ∀ e, k.Live e → k.curenv ≠ some e → Q e (k.envs e).tf) {slot : Trapframe}
    (hslot : ∀ c, k.curenv = some c → Q c slot) : ({ k with tf := slot } : Kernel).Holds Q := by
  intro e he
  show Q e (if k.curenv = some e then slot else (k.envs e).tf)
  split_ifs with hc
  · exact hslot e hc
  · exact h e he hc

/-- After a call that returns: the frames it sets are new, the others stay. -/
theorem returns (h : k.Holds Q) (htable : TableInv k) (hcur : k.curenv = some cur) {v : Int}
    (hexec : s.exec k cur = .ok (some v, k')) (hset : ∀ e tf, s.sets k cur = some (e, tf) → R e tf)
    (hkeep : ∀ e tf, (∀ tf', s.sets k cur ≠ some (e, tf')) → Q e tf → R e tf) :
    k'.curenv = some cur ∧ k'.Holds R ∧ (k'.envs cur).tf = (k.envs cur).tf := by
  obtain ⟨hcur', hframes, hown⟩ := exec_returns hcur (fun e he => htable.fresh_ne hcur he) hexec
  refine ⟨hcur', fun e he => ?_, hown⟩
  rw [hframes e]
  by_cases hnew : ∃ tf, s.sets k cur = some (e, tf)
  · obtain ⟨tf, htf⟩ := hnew
    rw [htf, setFrame_some, Function.update_self]
    exact hset e tf htf
  · have hold : k.Live e := (live_of_exec htable hcur hexec he).resolve_right hnew
    have hframe : setFrame k.frameOf id (s.sets k cur) e = k.frameOf e := by
      cases hsets : s.sets k cur with
      | none => rfl
      | some x =>
        obtain ⟨e', tf⟩ := x
        rw [setFrame_some, Function.update_of_ne]
        rintro rfl
        exact hnew ⟨tf, hsets⟩
    rw [hframe]
    exact hkeep e _ (fun tf htf => hnew ⟨tf, htf⟩) (h e hold)

/-- After a call that does not return, the frames are in `env_tf`. -/
theorem stops (h : k.Holds Q) (htable : TableInv k) (hcur : k.curenv = some cur)
    (hexec : s.exec k cur = .ok (none, k')) (hcaller : R cur (k.tf.after (s.a0 none)))
    (hkeep : ∀ e tf, e ≠ cur → Q e tf → R e tf) : ∀ e, k'.Live e → R e (k'.envs e).tf := by
  obtain ⟨hsets, -, hframes⟩ := exec_stops hcur hexec
  intro e he
  rw [hframes e he]
  split_ifs with hec
  · rw [hec]
    exact hcaller
  · have hold : k.Live e := by
      rcases live_of_exec htable hcur hexec he with hold | ⟨tf, htf⟩
      · exact hold
      · rw [hsets] at htf
        cases htf
    have hf := h e hold
    unfold Kernel.frameOf at hf
    rw [hcur, if_neg (by simpa using fun h => hec h.symm)] at hf
    exact hkeep e _ hec hf

/-- After `schedule`, too, and the one of the env it resumes is restored. -/
theorem schedule (h : k.Holds Q) {yield : Bool} (hsched : Kern.schedule k yield = .ok k') :
    (∀ e, k'.Live e → Q e (k'.envs e).tf) ∧ ∃ e, k'.curenv = some e ∧ k'.cpu = (k'.envs e).tf := by
  obtain ⟨e, hc, hcpu, htf⟩ := schedule_frames hsched
  refine ⟨fun x hx => ?_, e, hc, hcpu.trans (htf e).symm⟩
  rw [htf x]
  exact h x (((schedule_table hsched).1.live x).mp hx)

end Kernel.Holds

/-- `tf` is what `e` is due, if that is known. -/
def IsDue (due : Nat → Option Trapframe) (e : Nat) (tf : Trapframe) : Prop :=
  ∀ tf', due e = some tf' → tf = tf'

namespace DueInv

variable {due : Nat → Option Trapframe}

/-- A trap of the running env. -/
theorem trapped (h : DueInv k due) {c : Nat} (hcur : k.curenv = some c) (slot : Trapframe) :
    ({ k with tf := slot } : Kernel).Holds (IsDue (Function.update due c (some slot))) := by
  refine Kernel.Holds.trapped (fun e he hne tf hde => ?_) fun e he tf hde => ?_
  · rw [Function.update_of_ne (by rintro rfl; exact hne hcur)] at hde
    exact h e tf he hne hde
  · obtain rfl : c = e := Option.some.inj (hcur.symm.trans he)
    rw [Function.update_self] at hde
    exact Option.some.inj hde

theorem syscall (htable : TableInv k) (h : DueInv k due) {tf : Trapframe} {s : Syscall}
    (hrun : (KernOp.syscall tf s).run k = .ok k') :
    DueInv k' ((KernOp.syscall tf s).due k due) ∧ Restores k' ((KernOp.syscall tf s).due k due) := by
  have htable' := htable.step hrun
  obtain ⟨cur, r, k₁, hcur, hexec, hk'⟩ := run_syscall_slot hrun
  have htrap := h.trapped hcur tf.pastEcall
  rw [due_syscall hcur, Syscall.due, hexec]
  obtain ⟨k₂, hk₂⟩ : ∃ k₂ : Kernel, k₂ = { k with tf := tf.pastEcall } := ⟨_, rfl⟩
  have hslot : k₂.tf = tf.pastEcall := by rw [hk₂]
  have hcur₂ : k₂.curenv = some cur := by rw [hk₂]; exact hcur
  have htable₂ : TableInv k₂ := by
    rw [hk₂]
    exact htable.same (fun _ _ => rfl) (fun _ => Iff.rfl) rfl rfl htable.cur
  rw [← hk₂] at hexec htrap ⊢
  rw [← hslot] at htrap
  cases r with
  | some v =>
    obtain ⟨D, hD⟩ : ∃ D, D = setFrame (Function.update due cur (some k₂.tf)) some (s.sets k₂ cur) :=
      ⟨_, rfl⟩
    obtain ⟨hcur₁, hframes, -⟩ := htrap.returns (R := IsDue D) htable₂ hcur₂ hexec
      (fun e t hset tf' hde => by
        rw [hD, hset, setFrame_some, Function.update_self] at hde
        exact Option.some.inj hde)
      (fun e t hkeep hQ tf' hde => hQ tf' (by
        rw [hD] at hde
        cases hsets : s.sets k₂ cur with
        | none =>
          rw [hsets] at hde
          exact hde
        | some x =>
          rw [hsets, setFrame_some, Function.update_of_ne] at hde
          · exact hde
          · rintro rfl
            exact hkeep x.2 hsets))
    simp only at hk' ⊢
    rw [← hD]
    subst hk'
    refine ⟨fun e tf' he hne hde => ?_, fun e tf' he hde => ?_⟩
    · have hne₁ : ¬ k₁.curenv = some e := hne
      rw [Function.update_of_ne (by rintro rfl; exact hne₁ hcur₁)] at hde
      have hf := hframes e he tf' hde
      unfold Kernel.frameOf at hf
      rw [if_neg hne₁] at hf
      exact hf
    · obtain rfl : cur = e := Option.some.inj (hcur₁.symm.trans he)
      rw [Function.update_self] at hde
      obtain ⟨t, ht, rfl⟩ := Option.map_eq_some_iff.mp hde
      have hf := hframes cur (htable'.cur cur he) t ht
      unfold Kernel.frameOf at hf
      rw [if_pos hcur₁] at hf
      rw [← hf]
      rfl
  | none =>
    obtain rfl : k' = k₁ := hk'
    obtain ⟨hsets, ⟨c, hc, hcpu⟩, -⟩ := exec_stops hcur₂ hexec
    simp only [hsets, setFrame, Function.update_self, Option.map_some]
    have hafter := htrap.stops (R := IsDue (Function.update (Function.update due cur (some k₂.tf)) cur
        (some (k₂.tf.after (s.a0 none))))) htable₂ hcur₂ hexec
      (fun tf' hde => by
        rw [Function.update_self] at hde
        exact Option.some.inj hde)
      (fun e t hne hQ tf' hde => hQ tf' (by
        rw [Function.update_of_ne hne] at hde
        exact hde))
    refine ⟨fun e tf' he _ hde => hafter e he tf' hde, fun e tf' he hde => ?_⟩
    obtain rfl : c = e := Option.some.inj (hc.symm.trans he)
    exact hcpu.trans (hafter c (htable'.cur c he) tf' hde)

theorem tick (htable : TableInv k) (h : DueInv k due) {tf : Trapframe}
    (hrun : (KernOp.tick tf).run k = .ok k') :
    DueInv k' ((KernOp.tick tf).due k due) ∧ Restores k' ((KernOp.tick tf).due k due) := by
  have hheld : ({ k with tf := tf } : Kernel).Holds (IsDue ((KernOp.tick tf).due k due)) := by
    rcases Option.eq_none_or_eq_some k.curenv with hcur | ⟨c, hcur⟩
    · have hdue : (KernOp.tick tf).due k due = due := by
        simp only [KernOp.due, hcur]
      rw [hdue]
      exact Kernel.Holds.trapped (fun e he hne tf' hde => h e tf' he hne hde)
        fun c hc => by rw [hcur] at hc; cases hc
    · have hdue : (KernOp.tick tf).due k due = Function.update due c (some tf) := by
        simp only [KernOp.due, hcur]
      rw [hdue]
      exact h.trapped hcur tf
  obtain ⟨hafter, c, hc, hcpu⟩ := hheld.schedule hrun
  refine ⟨fun e tf' he _ hde => hafter e he tf' hde, fun e tf' he hde => ?_⟩
  obtain rfl : c = e := Option.some.inj (hc.symm.trans he)
  exact hcpu.trans (hafter c ((htable.step hrun).cur c he) tf' hde)

/-- `env_create` leaves the frames of the other envs alone. -/
theorem create (htable : TableInv k) (h : DueInv k due) {binary : Option Elf} {priority : Nat}
    (hrun : (KernOp.create binary priority).run k = .ok k') :
    DueInv k' ((KernOp.create binary priority).due k due) := by
  obtain ⟨e, hcreate⟩ := run_create hrun
  have hmove := (envCreate_move htable.cur hcreate).step
  obtain ⟨k₁, k₂, halloc, hload, rfl⟩ := envCreate_cases hcreate
  obtain ⟨elf, pm, -, -, rfl⟩ := loadIcode_cases hload
  have hev : (envAlloc k 0).1 = .ok e := by rw [halloc]
  have hdue : (KernOp.create binary priority).due k due = Function.update due e none := by
    unfold KernOp.due
    simp only [hev]
  obtain ⟨-, hcur₁, hother⟩ := envAlloc_frames halloc
  rw [hdue]
  intro x tf hx hne hde
  by_cases hxe : x = e
  · rw [hxe, Function.update_self] at hde
    cases hde
  · rw [Function.update_of_ne hxe] at hde
    have hlive : k.Live x := by
      rw [hev] at hmove
      cases hmove with
      | same quiet => rcases quiet with hq | hq <;> cases hq
      | alloc _ _ _ _ _ _ live => exact (live x hxe).mp hx
    have htf : (k₁.envs x).tf = (k.envs x).tf := hother x (by simpa using fun h => hxe h.symm)
    show ((Function.update (Function.update k₁.envs e _) e _) x).tf = tf
    rw [Function.update_of_ne hxe, Function.update_of_ne hxe, htf]
    exact h x tf hlive (fun hc => hne (hcur₁.trans hc)) hde

theorem fault (h : DueInv k due) {tf : Trapframe} (hrun : (KernOp.fault tf).run k = .ok k') :
    DueInv k' ((KernOp.fault tf).due k due) := by
  obtain ⟨cur, k₁, cpu, hcur, hmiss, rfl⟩ := run_fault hrun
  have hwork := (doTlbMiss_keeps { k with tf := tf } cur).post _ hmiss
  have hc : k₁.curenv = k.curenv := hwork.field Kernel.curenv fun _ => rfl
  have hlive : ∀ x, k₁.Live x → k.Live x := fun x hx => ((SameTable.of_pageWork hwork).live x).mp hx
  intro e tf' he hne hde
  have hne' : k.curenv ≠ some e := fun h => hne (hc.trans h)
  have htf : (k₁.envs e).tf = (k.envs e).tf := hwork.envField Env.tf (fun _ => rfl) e
  refine htf.trans (h e tf' (hlive e he) hne' ?_)
  unfold KernOp.due at hde
  rw [hcur] at hde hne'
  simp only at hde
  rw [Function.update_of_ne] at hde
  · exact hde
  · rintro rfl
    exact hne' rfl

theorem step (htable : TableInv k) (h : DueInv k due) {op : KernOp} (hrun : op.run k = .ok k') :
    DueInv k' (op.due k due) := by
  cases op with
  | create binary priority => exact h.create htable hrun
  | tick tf => exact (h.tick htable hrun).1
  | syscall tf s => exact (h.syscall htable hrun).1
  | fault tf => exact h.fault hrun
  | device disk =>
    cases hrun
    exact h
  | store va x =>
    obtain ⟨cur, hcur, rfl⟩ := run_store hrun
    have hwork := userStore_pageWork k va x
    have hc : (userStore k va x).curenv = k.curenv := hwork.field Kernel.curenv fun _ => rfl
    intro e tf he hne hde
    have htf : ((userStore k va x).envs e).tf = (k.envs e).tf := hwork.envField Env.tf (fun _ => rfl) e
    exact htf.trans (h e tf (((SameTable.of_pageWork hwork).live e).mp he)
      (fun h => hne (hc.trans h)) hde)

end DueInv

/-- **Run lemma.** -/
theorem DueReach.inv {due : Nat → Option Trapframe} (hboot : b.boot = .ok k₀)
    (h : DueReach k₀ k due) : DueInv k due := by
  induction h with
  | refl => exact fun e tf _ _ hde => by cases hde
  | step hreach hrun ih => exact ih.step (hreach.kernReach.tableInv (boot_idInv hboot).table) hrun

end Mos.Kern
