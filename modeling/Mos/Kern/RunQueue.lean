import Mos.Kern.PageWork

/-!
# MOS on RISC-V — the run queue

"Invariant: 'env' in 'env_sched_list' iff. 'env->env_status' is 'RUNNABLE'",
says `kern/env.c`. Three operations do not keep it by themselves: `env_free`
takes its env off the queue whatever its status, `sys_ipc_recv` assumes that
its caller is still runnable, and `sys_ipc_try_send` links a receiver that
`sys_set_env_status` may have linked before. `QueueSafe` names the calls that
do not run into this, and `runQueue_linked_iff` shows that the invariant holds
along every run of such calls.
-/

namespace Mos.Kern

open Mos.Lib

/-- The calls that find the queue as they expect it: an env is destroyed while
runnable, a receiver blocks while runnable, and a waiting receiver is not
runnable when a message comes. -/
def QueueSafe (k : Kernel) : KernOp → Prop
  | .syscall _ (.envDestroy envid) => ∀ cur e, k.curenv = some cur →
      envid2env k cur envid true = .ok e → (k.envs e).status = .runnable
  | .syscall _ (.ipcRecv dstva) => ∀ cur, k.curenv = some cur →
      (dstva = 0 ∨ isIllegalVa dstva = false) → (k.envs cur).status = .runnable
  | .syscall _ (.ipcTrySend envid _ srcva _) => ∀ cur e, k.curenv = some cur →
      (srcva = 0 ∨ isIllegalVa srcva = false) → envid2env k cur envid false = .ok e →
      (k.envs e).ipcRecving ≠ 0 → (k.envs e).status ≠ .runnable
  | _ => True

/-- A macro was used as it is meant to be: on a queue that is one, to remove an
element that is linked or to link one that is not. -/
def ProperUse (u : QueueUse × TailQueue Nat × Nat) : Prop :=
  ∃ l, u.2.1.Rep l ∧ (u.2.2 ∈ l ↔ u.1 = .remove)

/-- The envs in `S` are linked, each once, and every macro was used properly. -/
structure Queued (k : Kernel) (S : Nat → Prop) : Prop where
  rep : ∃ l, k.envSchedList.Rep l ∧ ∀ e, e ∈ l ↔ S e
  log : ∀ u ∈ k.queueLog, ProperUse u

structure QueueInv (k : Kernel) : Prop where
  queued : Queued k fun e => (k.envs e).status = .runnable
  freeNodup : k.envFreeList.Nodup
  freeStatus : ∀ e ∈ k.envFreeList, (k.envs e).status = .free
  cur : ∀ c, k.curenv = some c → (k.envs c).status ≠ .free

-- ---------------------------------------------------------------------------
-- The queue operations
-- ---------------------------------------------------------------------------

namespace Queued

variable {k : Kernel} {S : Nat → Prop} {e : Nat}

/-- Only the queue and the log matter. -/
theorem congr (h : Queued k S) {k' : Kernel} {S' : Nat → Prop}
    (hq : k'.envSchedList = k.envSchedList) (hlog : k'.queueLog = k.queueLog)
    (hS : ∀ x, S' x ↔ S x) : Queued k' S' := by
  obtain ⟨l, hl, hmem⟩ := h.rep
  refine ⟨⟨l, by rw [hq]; exact hl, fun x => by rw [hmem, hS]⟩, ?_⟩
  rw [hlog]
  exact h.log

theorem withQueue (h : Queued k S) {use : QueueUse} {q : TailQueue Nat} {l : List Nat}
    {S' : Nat → Prop} (huse : S e ↔ use = .remove) (hl : q.Rep l) (hS : ∀ x, x ∈ l ↔ S' x) :
    Queued (k.withQueue use e q) S' := by
  refine ⟨⟨l, hl, hS⟩, ?_⟩
  intro u hu
  rcases List.mem_cons.mp hu with rfl | hu
  · obtain ⟨l₀, hl₀, hmem⟩ := h.rep
    exact ⟨l₀, hl₀, (hmem e).trans huse⟩
  · exact h.log u hu

theorem remove (h : Queued k S) (he : S e) :
    ∃ q, tailqRemove k e = .ok (k.withQueue .remove e q) ∧
      Queued (k.withQueue .remove e q) fun x => S x ∧ x ≠ e := by
  obtain ⟨l, hl, hmem⟩ := h.rep
  obtain ⟨q, hq, hrep⟩ := hl.remove ((hmem e).mpr he)
  refine ⟨q, by simp [tailqRemove, hq], h.withQueue (by simp [he]) hrep ?_⟩
  intro x
  rw [hl.nodup.mem_erase_iff, hmem, and_comm]

theorem insertTail (h : Queued k S) (he : ¬ S e) :
    ∃ q, tailqInsertTail k e = .ok (k.withQueue .insert e q) ∧
      Queued (k.withQueue .insert e q) fun x => S x ∨ x = e := by
  obtain ⟨l, hl, hmem⟩ := h.rep
  obtain ⟨q, hq, hrep⟩ := hl.insertTail (e := e) (fun hm => he ((hmem e).mp hm))
  refine ⟨q, by simp [tailqInsertTail, hq], h.withQueue (by simp [he]) hrep ?_⟩
  intro x
  rw [List.mem_append, List.mem_singleton, hmem]

theorem insertHead (h : Queued k S) (he : ¬ S e) :
    Queued (tailqInsertHead k e) fun x => S x ∨ x = e := by
  obtain ⟨l, hl, hmem⟩ := h.rep
  refine h.withQueue (by simp [he]) (hl.insertHead (fun hm => he ((hmem e).mp hm))) ?_
  intro x
  rw [List.mem_cons, hmem, or_comm]

theorem first_mem (h : Queued k S) (he : k.envSchedList.first = some e) : S e := by
  obtain ⟨l, hl, hmem⟩ := h.rep
  rw [hl.first_eq] at he
  exact (hmem e).mp (List.mem_of_mem_head? he)

end Queued

/-- The status of an env after one env was updated. -/
theorem setEnv_status (k : Kernel) (e : Nat) {f : Env → Env} {st : EnvStatus}
    (hf : (f (k.envs e)).status = st) (x : Nat) :
    ((k.setEnv e f).envs x).status = if x = e then st else (k.envs x).status := by
  by_cases hx : x = e
  · subst hx
    simp [hf]
  · rw [if_neg hx, Kernel.setEnv_of_ne k e f hx]

namespace QueueInv

variable {k : Kernel}

/-- The invariant looks at statuses, the queue, the free list and `curenv`. -/
theorem congr (h : QueueInv k) {k' : Kernel} (hst : ∀ e, (k'.envs e).status = (k.envs e).status)
    (hq : k'.envSchedList = k.envSchedList) (hlog : k'.queueLog = k.queueLog)
    (hfree : k'.envFreeList = k.envFreeList) (hcur : k'.curenv = k.curenv) : QueueInv k' := by
  refine ⟨h.queued.congr hq hlog fun x => by rw [hst], by rw [hfree]; exact h.freeNodup, ?_, ?_⟩
  · intro e he
    rw [hfree] at he
    rw [hst]
    exact h.freeStatus e he
  · intro c hc
    rw [hcur] at hc
    rw [hst]
    exact h.cur c hc

theorem not_mem_free (h : QueueInv k) {e : Nat} (he : (k.envs e).status ≠ .free) :
    e ∉ k.envFreeList := fun hm => he (h.freeStatus e hm)

/-- A live env gets a new status, and the queue follows. -/
theorem setStatus (h : QueueInv k) {k' : Kernel} {e : Nat} {st : EnvStatus}
    (hlive : (k.envs e).status ≠ .free) (hne : st ≠ .free)
    (hst : ∀ x, (k'.envs x).status = if x = e then st else (k.envs x).status)
    (hq : Queued k' fun x => (k'.envs x).status = .runnable)
    (hfree : k'.envFreeList = k.envFreeList) (hcur : k'.curenv = k.curenv) : QueueInv k' := by
  refine ⟨hq, by rw [hfree]; exact h.freeNodup, ?_, ?_⟩
  · intro x hx
    rw [hfree] at hx
    have hxe : x ≠ e := fun heq => h.not_mem_free hlive (heq ▸ hx)
    rw [hst, if_neg hxe]
    exact h.freeStatus x hx
  · intro c hc
    rw [hcur] at hc
    rw [hst]
    split_ifs
    · exact hne
    · exact h.cur c hc

/-- An env that is not runnable becomes so and is linked at the tail. -/
theorem link (h : QueueInv k) {e : Nat} {f : Env → Env} (hlive : (k.envs e).status ≠ .free)
    (hnot : (k.envs e).status ≠ .runnable) (hf : (f (k.envs e)).status = .runnable) :
    ∃ q, tailqInsertTail k e = .ok (k.withQueue .insert e q) ∧
      QueueInv ((k.withQueue .insert e q).setEnv e f) := by
  obtain ⟨q, hq, hq'⟩ := h.queued.insertTail (e := e) hnot
  have hst := setEnv_status (k.withQueue .insert e q) e hf
  refine ⟨q, hq, h.setStatus hlive (by simp) hst (hq'.congr rfl rfl ?_) rfl rfl⟩
  intro x
  rw [hst]
  by_cases hx : x = e
  · simp [hx]
  · simp [hx, Kernel.withQueue]

/-- A runnable env stops being so and is unlinked. -/
theorem unlink (h : QueueInv k) {e : Nat} {f : Env → Env} (hrun : (k.envs e).status = .runnable)
    (hf : (f (k.envs e)).status = .notRunnable) :
    ∃ q, tailqRemove k e = .ok (k.withQueue .remove e q) ∧
      QueueInv ((k.withQueue .remove e q).setEnv e f) := by
  obtain ⟨q, hq, hq'⟩ := h.queued.remove (e := e) hrun
  have hst := setEnv_status (k.withQueue .remove e q) e hf
  refine ⟨q, hq, h.setStatus (by simp [hrun]) (by simp) hst (hq'.congr rfl rfl ?_) rfl rfl⟩
  intro x
  rw [hst]
  by_cases hx : x = e
  · simp [hx]
  · simp [hx, Kernel.withQueue]

/-- The macros look at the queue only. -/
theorem tailqRemove_setEnv {e : Nat} {q : TailQueue Nat} (f : Env → Env)
    (h : tailqRemove k e = .ok (k.withQueue .remove e q)) :
    tailqRemove (k.setEnv e f) e = .ok ((k.withQueue .remove e q).setEnv e f) := by
  unfold tailqRemove at h ⊢
  have hsame : (k.setEnv e f).envSchedList = k.envSchedList := rfl
  rw [hsame]
  cases hr : k.envSchedList.remove e with
  | none =>
    rw [hr] at h
    cases h
  | some q' =>
    rw [hr] at h
    have hq : q' = q := congrArg Kernel.envSchedList (Except.ok.inj h)
    rw [hq]
    rfl

theorem tailqInsertTail_setEnv {e : Nat} {q : TailQueue Nat} (f : Env → Env)
    (h : tailqInsertTail k e = .ok (k.withQueue .insert e q)) :
    tailqInsertTail (k.setEnv e f) e = .ok ((k.withQueue .insert e q).setEnv e f) := by
  unfold tailqInsertTail at h ⊢
  have hsame : (k.setEnv e f).envSchedList = k.envSchedList := rfl
  rw [hsame]
  cases hr : k.envSchedList.insertTail e with
  | none =>
    rw [hr] at h
    cases h
  | some q' =>
    rw [hr] at h
    have hq : q' = q := congrArg Kernel.envSchedList (Except.ok.inj h)
    rw [hq]
    rfl

/-- Fields other than the status are free to change. -/
theorem setEnv_same (h : QueueInv k) (e : Nat) {f : Env → Env}
    (hf : (f (k.envs e)).status = (k.envs e).status) : QueueInv (k.setEnv e f) := by
  refine h.congr ?_ rfl rfl rfl rfl
  intro x
  rw [setEnv_status k e hf]
  split_ifs with hx
  · rw [hx]
  · rfl

-- ---------------------------------------------------------------------------
-- The scheduler
-- ---------------------------------------------------------------------------

theorem saveContext_status (k : Kernel) (e : Nat) :
    ((saveContext k).envs e).status = (k.envs e).status := by
  unfold saveContext
  cases k.curenv with
  | none => rfl
  | some c =>
    by_cases hc : e = c
    · subst hc
      simp [Kernel.setEnv]
    · simp [Kernel.setEnv, hc]

theorem saveContext_inv (h : QueueInv k) : QueueInv (saveContext k) := by
  unfold saveContext
  cases k.curenv with
  | none => exact h
  | some c => exact h.setEnv_same c rfl

theorem resume_inv (h : QueueInv k) {e : Nat} (he : (k.envs e).status = .runnable) :
    QueueInv (resume k e) := by
  have h₁ : QueueInv { k with curenv := some e } := by
    refine ⟨h.queued.congr rfl rfl fun _ => Iff.rfl, h.freeNodup, h.freeStatus, ?_⟩
    intro c hc
    obtain rfl := Option.some.inj hc
    show (k.envs e).status ≠ .free
    rw [he]
    simp
  have h₂ := h₁.setEnv_same e (f := fun env => { env with runs := (env.runs + 1) % 2 ^ 32 }) rfl
  exact h₂.congr (fun _ => rfl) rfl rfl rfl rfl

theorem envRun_keeps (h : QueueInv k) {e : Nat} (he : (k.envs e).status = .runnable) :
    Keeps QueueInv (envRun k e) := by
  unfold envRun
  rw [if_pos he]
  exact Keeps.ok (h.saveContext_inv.resume_inv (by rw [saveContext_status]; exact he))

/-- Moving a linked env to the tail keeps the queue. -/
theorem requeue_keeps (h : QueueInv k) : Keeps QueueInv (requeue k) := by
  unfold requeue
  cases hc : k.curenv with
  | none => exact Keeps.ok h
  | some c =>
    simp only
    split_ifs with hr
    · obtain ⟨q, hrem, hq⟩ := h.queued.remove hr
      obtain ⟨q', hins, hq'⟩ := hq.insertTail (e := c) (fun hcc => hcc.2 rfl)
      rw [hrem]
      show Keeps QueueInv (tailqInsertTail _ c)
      rw [hins]
      apply Keeps.ok
      refine ⟨hq'.congr rfl rfl ?_, h.freeNodup, h.freeStatus, h.cur⟩
      intro x
      by_cases hx : x = c
      · subst hx
        simp [Kernel.withQueue, hr]
      · simp [Kernel.withQueue, hx]
    · exact Keeps.ok h

theorem setCount (h : QueueInv k) (n : Int) : QueueInv { k with schedCount := n } :=
  h.congr (fun _ => rfl) rfl rfl rfl rfl

theorem schedule_keeps (h : QueueInv k) (yield : Bool) : Keeps QueueInv (schedule k yield) := by
  unfold schedule
  refine (Keeps.of_quiet (virtioDiskIntr_quiet k.disk)).bind fun disk _ => ?_
  have hd : QueueInv { k with disk := disk } := h.congr (fun _ => rfl) rfl rfl rfl rfl
  generalize { k with disk := disk } = k₁ at hd
  simp only
  cases hkeep : keepRunning k₁ yield with
  | some c =>
    have hrun : (k₁.envs c).status = .runnable := by
      unfold keepRunning at hkeep
      cases hc : k₁.curenv with
      | none => simp [hc] at hkeep
      | some c' =>
        simp only [hc] at hkeep
        split_ifs at hkeep with hno
        obtain rfl := Option.some.inj hkeep
        by_contra hne
        exact hno (Or.inr (Or.inr hne))
    exact (hd.setCount _).envRun_keeps hrun
  | none =>
    refine hd.requeue_keeps.bind fun k₂ h₂ => ?_
    cases hl : k₂.envSchedList.first with
    | none => exact Keeps.error (by simp)
    | some e =>
      have hrun : (k₂.envs e).status = .runnable := h₂.queued.first_mem hl
      exact (h₂.setCount _).envRun_keeps hrun

-- ---------------------------------------------------------------------------
-- Creating and destroying envs
-- ---------------------------------------------------------------------------

/-- Writing an env back with its status leaves every status as it was. -/
theorem update_status {g : Nat → Env} {e : Nat} {v : Env} (hv : v.status = (g e).status)
    (x : Nat) : (Function.update g e v x).status = (g x).status := by
  by_cases hx : x = e
  · subst hx
    rw [Function.update_self, hv]
  · rw [Function.update_of_ne hx]

/-- The fields the queue looks at are as before. -/
structure SameQueue (k k' : Kernel) : Prop where
  status : ∀ e, (k'.envs e).status = (k.envs e).status
  sched : k'.envSchedList = k.envSchedList
  log : k'.queueLog = k.queueLog
  free : k'.envFreeList = k.envFreeList
  curenv : k'.curenv = k.curenv

theorem SameQueue.trans {k k₁ k₂ : Kernel} (h : SameQueue k k₁) (h' : SameQueue k₁ k₂) :
    SameQueue k k₂ :=
  ⟨fun e => (h'.status e).trans (h.status e), h'.sched.trans h.sched, h'.log.trans h.log,
    h'.free.trans h.free, h'.curenv.trans h.curenv⟩

theorem of_same {k' : Kernel} (h : QueueInv k) (hs : SameQueue k k') : QueueInv k' :=
  h.congr hs.status hs.sched hs.log hs.free hs.curenv

theorem envPrepare_same (k : Kernel) (e : Nat) : SameQueue k (envPrepare k e) := by
  have hvm : SameQueue k (envSetupVm k e).2 := by
    unfold envSetupVm
    cases pageAlloc k.pm with
    | none => exact ⟨fun _ => rfl, rfl, rfl, rfl, rfl⟩
    | some x =>
      refine ⟨fun y => ?_, rfl, rfl, rfl, rfl⟩
      exact update_status (by rfl) y
  refine ⟨fun x => ?_, hvm.sched, hvm.log, hvm.free, hvm.curenv⟩
  rw [← hvm.status x]
  exact update_status (by rfl) x

theorem asidAlloc_envs {k k' : Kernel} {asid : Nat} (h : asidAlloc k = some (asid, k')) :
    k'.envs = k.envs ∧ SameQueue k k' := by
  unfold asidAlloc at h
  split at h
  · obtain ⟨-, rfl⟩ := Prod.mk.inj (Option.some.inj h)
    exact ⟨rfl, fun _ => rfl, rfl, rfl, rfl, rfl⟩
  · cases h

/-- `env_alloc` fails and moves no env, or takes the first free one. -/
theorem envAlloc_cases (k : Kernel) (parentId : Nat) :
    (∃ r k', envAlloc k parentId = (.error r, k') ∧ SameQueue k k') ∨
    ∃ e rest k', k.envFreeList = e :: rest ∧ envAlloc k parentId = (.ok e, k') ∧
      SameQueue { k with envFreeList := rest } k' := by
  unfold envAlloc
  cases hl : k.envFreeList with
  | nil => exact Or.inl ⟨_, k, rfl, fun _ => rfl, rfl, rfl, rfl, rfl⟩
  | cons e rest =>
    have hprep := envPrepare_same k e
    simp only
    cases ha : asidAlloc (envPrepare k e) with
    | none => exact Or.inl ⟨_, _, rfl, hprep⟩
    | some x =>
      obtain ⟨asid, k₁⟩ := x
      obtain ⟨henvs, hsame⟩ := asidAlloc_envs ha
      refine Or.inr ⟨e, rest, _, rfl, rfl, fun x => ?_, hsame.sched.trans hprep.sched,
        hsame.log.trans hprep.log, rfl, hsame.curenv.trans hprep.curenv⟩
      show _ = (k.envs x).status
      rw [← hprep.status x, ← henvs]
      exact update_status (by rfl) x

/-- Giving the env that `env_alloc` returned its first status. -/
theorem setFirst (h : QueueInv k) {e : Nat} {rest : List Nat} (hl : k.envFreeList = e :: rest)
    {k' : Kernel} (hst : ∀ x, x ≠ e → (k'.envs x).status = (k.envs x).status)
    (hne : (k'.envs e).status ≠ .free)
    (hq : Queued k' fun x => (k'.envs x).status = .runnable)
    (hfree : k'.envFreeList = rest) (hcur : k'.curenv = k.curenv) : QueueInv k' := by
  have hnodup := h.freeNodup
  rw [hl, List.nodup_cons] at hnodup
  refine ⟨hq, by rw [hfree]; exact hnodup.2, ?_, ?_⟩
  · intro x hx
    rw [hfree] at hx
    have hxe : x ≠ e := fun he => hnodup.1 (he ▸ hx)
    rw [hst x hxe]
    exact h.freeStatus x (by simp [hl, hx])
  · intro c hc
    rw [hcur] at hc
    by_cases hce : c = e
    · subst hce
      exact hne
    · rw [hst c hce]
      exact h.cur c hc

theorem sysExofork_keeps (h : QueueInv k) (cur : Nat) :
    Keeps (fun r => QueueInv r.2) (sysExofork k cur) := by
  unfold sysExofork
  rcases envAlloc_cases k (k.envs cur).id with ⟨r, k', he, hs⟩ | ⟨e, rest, k', hl, he, hs⟩
  · rw [he]
    exact Keeps.ok (h.of_same hs)
  · rw [he]
    apply Keeps.ok
    have hfe : (k.envs e).status = .free := h.freeStatus e (by simp [hl])
    have hst : ∀ x, ((k'.setEnv e fun env => { env with
        tf := { k'.tf with regs := Function.update k'.tf.regs 10 0 }
        status := .notRunnable
        pri := (k'.envs cur).pri }).envs x).status =
        if x = e then .notRunnable else (k.envs x).status := by
      intro x
      rw [setEnv_status k' e rfl]
      split_ifs
      · rfl
      · exact hs.status x
    refine h.setFirst hl (fun x hx => ?_) ?_ ?_ hs.free hs.curenv
    · exact (hst x).trans (if_neg hx)
    · intro hc
      have hcontra := (hst e).symm.trans hc
      simp at hcontra
    · refine h.queued.congr hs.sched hs.log fun x => ?_
      refine (iff_of_eq (congrArg (· = EnvStatus.runnable) (hst x))).trans ?_
      by_cases hx : x = e
      · simp [hx, hfe]
      · simp [hx]

/-- `load_icode` changes pages and the saved `sepc` only. -/
theorem loadIcode_keeps (k : Kernel) (e : Nat) (binary : Option Elf) :
    Keeps (SameQueue k) (loadIcode k e binary) := by
  unfold loadIcode
  cases binary with
  | none => exact Keeps.error (by simp)
  | some elf =>
    refine (Keeps.of_quiet (Raises.foldlM (loadPhdr_quiet _ _) _ _)).bind fun pm _ => ?_
    exact Keeps.ok ⟨fun x => update_status (by rfl) x, rfl, rfl, rfl, rfl⟩

theorem envCreate_keeps (h : QueueInv k) (binary : Option Elf) (priority : Nat) :
    Keeps (fun r => QueueInv r.2) (envCreate k binary priority) := by
  unfold envCreate
  rcases envAlloc_cases k 0 with ⟨r, k', he, hs⟩ | ⟨e, rest, k', hl, he, hs⟩
  · rw [he]
    exact Keeps.error (by simp)
  · rw [he]
    have hfe : (k.envs e).status = .free := h.freeStatus e (by simp [hl])
    have hst : ∀ x, ((k'.setEnv e fun env => { env with pri := priority, status := .runnable }).envs
        x).status = if x = e then .runnable else (k.envs x).status := by
      intro x
      rw [setEnv_status k' e rfl]
      split_ifs
      · rfl
      · exact hs.status x
    refine (loadIcode_keeps _ e binary).bind fun k₂ h₂ => ?_
    have hst₂ : ∀ x, (k₂.envs x).status = if x = e then .runnable else (k.envs x).status :=
      fun x => (h₂.status x).trans (hst x)
    have hq₂ : Queued k₂ fun x => (k.envs x).status = .runnable :=
      h.queued.congr (h₂.sched.trans hs.sched) (h₂.log.trans hs.log) fun _ => Iff.rfl
    apply Keeps.ok
    refine h.setFirst hl (fun x hx => ?_) ?_ ?_ (h₂.free.trans hs.free)
      (h₂.curenv.trans hs.curenv)
    · exact (hst₂ x).trans (if_neg hx)
    · show (k₂.envs e).status ≠ .free
      rw [hst₂, if_pos rfl]
      simp
    · refine (hq₂.insertHead (e := e) (by simp [hfe])).congr rfl rfl fun x => ?_
      show (k₂.envs x).status = .runnable ↔ _
      rw [hst₂]
      split_ifs with hx
      · simp [hx]
      · simp [hx]

/-- `env_free` of a runnable env, with `curenv` put aside. -/
theorem envFree_keeps (h : QueueInv k) {e : Nat} (he : (k.envs e).status = .runnable) :
    Keeps (fun k' => QueueInv { k' with curenv := none } ∧ k'.curenv = k.curenv ∧
      ∀ x, x ≠ e → (k'.envs x).status = (k.envs x).status) (envFree k e) := by
  unfold envFree
  refine (Keeps.of_quiet (envFreePages_quiet _ _ _ _)).bind fun pm _ => ?_
  obtain ⟨k₁, hk₁⟩ : ∃ k₁, k₁ = (asidFree { k with pm := pm } (k.envs e).asid).setEnv e fun env =>
    { env with status := .free } := ⟨_, rfl⟩
  have hst : ∀ x, (k₁.envs x).status = if x = e then .free else (k.envs x).status := by
    intro x
    rw [hk₁, setEnv_status _ e rfl]
    rfl
  have hq₁ : Queued { k₁ with envFreeList := e :: k₁.envFreeList }
      fun x => (k.envs x).status = .runnable :=
    h.queued.congr (by rw [hk₁]; rfl) (by rw [hk₁]; rfl) fun _ => Iff.rfl
  obtain ⟨q, hrem, hq⟩ := hq₁.remove he
  simp only [← hk₁]
  rw [hrem]
  apply Keeps.ok
  refine ⟨⟨hq.congr rfl rfl ?_, ?_, ?_, ?_⟩, by rw [hk₁]; rfl, ?_⟩
  · intro x
    show (k₁.envs x).status = .runnable ↔ _
    rw [hst]
    by_cases hx : x = e
    · simp [hx]
    · simp [hx]
  · show (e :: k₁.envFreeList).Nodup
    rw [hk₁]
    exact List.nodup_cons.mpr ⟨h.not_mem_free (by simp [he]), h.freeNodup⟩
  · intro x hx
    show (k₁.envs x).status = .free
    rw [hst]
    have hx' : x ∈ e :: k.envFreeList := by
      rw [hk₁] at hx
      exact hx
    rcases List.mem_cons.mp hx' with hxe | hxf
    · rw [if_pos hxe]
    · split_ifs
      · rfl
      · exact h.freeStatus x hxf
  · intro c hc
    simp at hc
  · intro x hx
    exact (hst x).trans (if_neg hx)

theorem envDestroy_keeps (h : QueueInv k) {e : Nat} (he : (k.envs e).status = .runnable) :
    Keeps (fun r => QueueInv r.2) (envDestroy k e) := by
  unfold envDestroy
  refine (h.envFree_keeps he).bind fun k₁ hk₁ => ?_
  obtain ⟨h₁, hcur, hst⟩ := hk₁
  split_ifs with hc
  · refine (h₁.schedule_keeps true).bind fun k₂ h₂ => ?_
    exact Keeps.ok h₂
  · apply Keeps.ok
    refine ⟨h₁.queued.congr rfl rfl fun _ => Iff.rfl, h₁.freeNodup, h₁.freeStatus, ?_⟩
    intro c hcc
    have hce : c ≠ e := fun hce => hc (hce ▸ hcc)
    rw [hst c hce]
    exact h.cur c (hcur ▸ hcc)

theorem SameQueue.of_pageWork {k k' : Kernel} (h : PageWork k k') : SameQueue k k' where
  status := h.envField Env.status fun _ => rfl
  sched := h.field Kernel.envSchedList fun _ => rfl
  log := h.field Kernel.queueLog fun _ => rfl
  free := h.field Kernel.envFreeList fun _ => rfl
  curenv := h.field Kernel.curenv fun _ => rfl

-- ---------------------------------------------------------------------------
-- System calls
-- ---------------------------------------------------------------------------

theorem envid2env_live (h : QueueInv k) {cur envid e : Nat} {checkperm : Bool}
    (hcur : k.curenv = some cur) (he : envid2env k cur envid checkperm = .ok e) :
    (k.envs e).status ≠ .free := by
  unfold envid2env at he
  by_cases h0 : envid = 0
  · rw [if_pos h0] at he
    obtain rfl := Except.ok.inj he
    exact h.cur cur hcur
  · rw [if_neg h0] at he
    simp only at he
    split_ifs at he with h1 h2
    obtain rfl := Except.ok.inj he
    exact fun hf => h1 (Or.inl hf)

theorem sysSetEnvStatus_keeps (h : QueueInv k) {cur : Nat} (hcur : k.curenv = some cur)
    (envid status : Nat) : Keeps (fun r => QueueInv r.2) (sysSetEnvStatus k cur envid status) := by
  unfold sysSetEnvStatus
  cases hst : statusOfNat status with
  | none => exact Keeps.ok h
  | some st =>
    simp only
    cases he : envid2env k cur envid true with
    | error r => exact Keeps.ok h
    | ok e =>
      have hlive := h.envid2env_live hcur he
      simp only
      by_cases hsame : (k.envs e).status = st
      · -- the status stays: the queue is not touched
        rw [if_neg (by simpa using hsame)]
        exact Keeps.ok (h.setEnv_same e (f := fun env => { env with status := st }) hsame.symm)
      · rw [if_pos hsame]
        have hcases : st = .runnable ∨ st = .notRunnable := by
          unfold statusOfNat at hst
          split_ifs at hst
          · exact Or.inl (Option.some.inj hst).symm
          · exact Or.inr (Option.some.inj hst).symm
        rcases hcases with rfl | rfl
        · rw [if_pos rfl]
          obtain ⟨q, hq, hinv⟩ := h.link hlive hsame
            (f := fun env => { env with status := .runnable }) rfl
          rw [hq]
          exact Keeps.ok hinv
        · have hrun : (k.envs e).status = .runnable := by
            cases hs : (k.envs e).status with
            | free => exact absurd hs hlive
            | runnable => rfl
            | notRunnable => exact absurd hs hsame
          rw [if_neg (by simp)]
          obtain ⟨q, hq, hinv⟩ := h.unlink hrun
            (f := fun env => { env with status := .notRunnable }) rfl
          rw [hq]
          exact Keeps.ok hinv

theorem sysIpcRecv_keeps (h : QueueInv k) {cur : Nat} (dstva : Nat)
    (hsafe : (dstva = 0 ∨ isIllegalVa dstva = false) → (k.envs cur).status = .runnable) :
    Keeps (fun r => QueueInv r.2) (sysIpcRecv k cur dstva) := by
  unfold sysIpcRecv
  split_ifs with hbad
  · exact Keeps.ok h
  · have hrun : (k.envs cur).status = .runnable := by
      apply hsafe
      by_cases h0 : dstva = 0
      · exact Or.inl h0
      · refine Or.inr ?_
        by_contra hill
        exact hbad ⟨h0, by simpa using hill⟩
    obtain ⟨q, hq, hinv⟩ := h.unlink hrun (f := fun env =>
      { env with ipcRecving := 1, ipcDstva := dstva, status := .notRunnable }) rfl
    simp only [tailqRemove_setEnv _ hq]
    have hbind : ∀ k₁, QueueInv k₁ → ∀ tf', Keeps (fun r : Option Int × Kernel => QueueInv r.2)
        (schedule { k₁ with tf := tf' } true >>= fun k₂ => .ok (none, k₂)) := by
      intro k₁ h₁ tf'
      have h₂ : QueueInv { k₁ with tf := tf' } := h₁.congr (fun _ => rfl) rfl rfl rfl rfl
      exact (h₂.schedule_keeps true).bind fun _ hk => Keeps.ok hk
    exact hbind _ hinv _

/-- A message to a waiting env that is not runnable. -/
theorem deliver_keeps (h : QueueInv k) {e : Nat} (hlive : (k.envs e).status ≠ .free)
    (hnot : (k.envs e).status ≠ .runnable) (cur value perm : Nat) :
    Keeps QueueInv (deliver k cur e value perm) := by
  obtain ⟨q, hq, hinv⟩ := h.link hlive hnot (f := fun env => { env with
    ipcValue := value
    ipcFrom := (k.envs cur).id
    ipcPerm := PTE_U ||| PTE_V ||| readable perm
    ipcRecving := 0
    status := .runnable }) rfl
  unfold deliver
  rw [tailqInsertTail_setEnv _ hq]
  exact Keeps.ok hinv

theorem sysIpcTrySend_keeps (h : QueueInv k) {cur : Nat} (hcur : k.curenv = some cur)
    (envid value srcva perm : Nat)
    (hsafe : ∀ e, (srcva = 0 ∨ isIllegalVa srcva = false) → envid2env k cur envid false = .ok e →
      (k.envs e).ipcRecving ≠ 0 → (k.envs e).status ≠ .runnable) :
    Keeps (fun r => QueueInv r.2) (sysIpcTrySend k cur envid value srcva perm) := by
  unfold sysIpcTrySend
  by_cases hbad : srcva ≠ 0 ∧ isIllegalVa srcva
  · rw [if_pos hbad]
    exact Keeps.ok h
  · rw [if_neg hbad]
    have hlegal : srcva = 0 ∨ isIllegalVa srcva = false := by
      by_cases h0 : srcva = 0
      · exact Or.inl h0
      · refine Or.inr ?_
        by_contra hill
        exact hbad ⟨h0, by simpa using hill⟩
    cases he : envid2env k cur envid false with
    | error r => exact Keeps.ok h
    | ok e =>
      simp only
      by_cases hrecv : (k.envs e).ipcRecving = 0
      · rw [if_pos hrecv]
        exact Keeps.ok h
      · rw [if_neg hrecv]
        refine (h.deliver_keeps (h.envid2env_live hcur he) (hsafe e hlegal he hrecv) cur value
          perm).bind fun k₁ h₁ => ?_
        by_cases hsrc : srcva ≠ 0
        · rw [if_pos hsrc]
          refine (Keeps.of_quiet (pageLookup_quiet _ _ _)).bind fun x _ => ?_
          cases x with
          | none => exact Keeps.ok h₁
          | some y =>
            refine (Keeps.of_quiet (pageInsert_quiet _ _ _ _ _ _)).bind fun z _ => ?_
            exact Keeps.ok (h₁.congr (fun _ => rfl) rfl rfl rfl rfl)
        · rw [if_neg hsrc]
          exact Keeps.ok h₁

theorem sysMem_keeps (h : QueueInv k) (pm : Pmap) (r : Option Int) :
    Keeps (fun r => QueueInv r.2) (.ok (r, { k with pm := pm }) : SysResult) :=
  Keeps.ok (h.congr (fun _ => rfl) rfl rfl rfl rfl)

theorem sysMemAlloc_keeps (h : QueueInv k) (cur envid va perm : Nat) :
    Keeps (fun r => QueueInv r.2) (sysMemAlloc k cur envid va perm) := by
  unfold sysMemAlloc
  split_ifs
  · exact Keeps.ok h
  · cases envid2env k cur envid true with
    | error r => exact Keeps.ok h
    | ok e =>
      simp only
      cases pageAlloc k.pm with
      | none => exact Keeps.ok h
      | some x =>
        refine (Keeps.of_quiet (pageInsert_quiet _ _ _ _ _ _)).bind fun y _ => ?_
        exact h.sysMem_keeps _ _

theorem sysMemMap_keeps (h : QueueInv k) (cur srcid srcva dstid dstva perm : Nat) :
    Keeps (fun r => QueueInv r.2) (sysMemMap k cur srcid srcva dstid dstva perm) := by
  unfold sysMemMap
  split_ifs
  · exact Keeps.ok h
  · exact Keeps.ok h
  · cases envid2env k cur srcid true with
    | error r => exact Keeps.ok h
    | ok src =>
      simp only
      cases envid2env k cur dstid true with
      | error r => exact Keeps.ok h
      | ok dst =>
        refine (Keeps.of_quiet (pageLookup_quiet _ _ _)).bind fun x _ => ?_
        cases x with
        | none => exact Keeps.ok h
        | some y =>
          refine (Keeps.of_quiet (pageInsert_quiet _ _ _ _ _ _)).bind fun z _ => ?_
          exact h.sysMem_keeps _ _

theorem sysMemUnmap_keeps (h : QueueInv k) (cur envid va : Nat) :
    Keeps (fun r => QueueInv r.2) (sysMemUnmap k cur envid va) := by
  unfold sysMemUnmap
  split_ifs
  · exact Keeps.ok h
  · cases envid2env k cur envid true with
    | error r => exact Keeps.ok h
    | ok e =>
      refine (Keeps.of_quiet (pageRemove_quiet _ _ _ _)).bind fun pm _ => ?_
      exact h.sysMem_keeps _ _

theorem sysDevReq_keeps (h : QueueInv k) (dev req : Nat) :
    Keeps (fun r => QueueInv r.2) (sysDevReq k dev req) := by
  unfold sysDevReq
  split_ifs
  · exact Keeps.ok h
  · refine (Keeps.of_quiet (va2pa_quiet _ _ _)).bind fun pa _ => ?_
    refine (Keeps.of_quiet (virtioDiskReq_quiet _ _)).bind fun x _ => ?_
    exact Keeps.ok (h.congr (fun _ => rfl) rfl rfl rfl rfl)
  · refine (Keeps.of_quiet (va2pa_quiet _ _ _)).bind fun pa _ => ?_
    exact Keeps.ok h

theorem sysSetTrapframe_keeps (h : QueueInv k) (cur envid va : Nat) :
    Keeps (fun r => QueueInv r.2) (sysSetTrapframe k cur envid va) := by
  unfold sysSetTrapframe
  split_ifs
  · exact Keeps.ok h
  · cases envid2env k cur envid true with
    | error r => exact Keeps.ok h
    | ok e =>
      refine (kernelLoads_keeps k cur va _).bind fun x hx => ?_
      obtain ⟨bs, k₁⟩ := x
      have h₁ : QueueInv k₁ := h.of_same (.of_pageWork hx)
      simp only
      split_ifs
      · exact Keeps.ok (h₁.congr (fun _ => rfl) rfl rfl rfl rfl)
      · exact Keeps.ok (h₁.setEnv_same e
          (f := fun env => { env with tf := Trapframe.ofBytes bs }) rfl)

/-- A system call that meets the condition keeps the queue. -/
theorem exec_keeps (h : QueueInv k) {cur : Nat} (hcur : k.curenv = some cur) (tf : Trapframe)
    (s : Syscall) (hsafe : QueueSafe k (.syscall tf s)) :
    Keeps (fun r => QueueInv r.2) (s.exec k cur) := by
  cases s with
  | putchar left => exact Keeps.ok h
  | printCons s num =>
    show Keeps _ (sysPrintCons k cur s num)
    unfold sysPrintCons
    split_ifs
    · exact Keeps.ok h
    · exact (kernelLoads_keeps k cur s num).bind fun _ hx => Keeps.ok (h.of_same (.of_pageWork hx))
  | getenvid => exact Keeps.ok h
  | yield => exact (h.schedule_keeps true).bind fun _ hk => Keeps.ok hk
  | envDestroy envid =>
    show Keeps _ (sysEnvDestroy k cur envid)
    unfold sysEnvDestroy
    cases he : envid2env k cur envid true with
    | error r => exact Keeps.ok h
    | ok e => exact (h.envDestroy_keeps (hsafe cur e hcur he)).bind fun _ hk => Keeps.ok hk
  | setTlbModEntry envid func =>
    show Keeps _ (sysSetTlbModEntry k cur envid func)
    unfold sysSetTlbModEntry
    cases envid2env k cur envid true with
    | error r => exact Keeps.ok h
    | ok e =>
      exact Keeps.ok (h.setEnv_same e (f := fun env => { env with userTlbModEntry := func }) rfl)
  | memAlloc envid va perm => exact h.sysMemAlloc_keeps cur envid va perm
  | memMap srcid srcva dstid dstva perm => exact h.sysMemMap_keeps cur srcid srcva dstid dstva perm
  | memUnmap envid va => exact h.sysMemUnmap_keeps cur envid va
  | exofork => exact h.sysExofork_keeps cur
  | setEnvStatus envid status => exact h.sysSetEnvStatus_keeps hcur envid status
  | setTrapframe envid va => exact h.sysSetTrapframe_keeps cur envid va
  | panic => exact Keeps.error (by simp)
  | ipcTrySend envid value srcva perm =>
    exact h.sysIpcTrySend_keeps hcur envid value srcva perm (fun e => hsafe cur e hcur)
  | ipcRecv dstva => exact h.sysIpcRecv_keeps dstva (hsafe cur hcur)
  | cgetc ch => exact Keeps.ok h
  | devReq dev req => exact h.sysDevReq_keeps dev req

theorem retFromException_inv (h : QueueInv k) : QueueInv (retFromException k) :=
  h.congr (fun _ => rfl) rfl rfl rfl rfl

theorem doSyscall_keeps (h : QueueInv k) {cur : Nat} (hcur : k.curenv = some cur) (tf : Trapframe)
    (s : Syscall) (hsafe : QueueSafe k (.syscall tf s)) :
    Keeps (fun r => QueueInv r.2) (doSyscall { k with tf := tf } cur s) := by
  have h₁ : QueueInv { k with tf := { tf with sepc := (tf.sepc + 4) % 2 ^ 32 } } :=
    h.congr (fun _ => rfl) rfl rfl rfl rfl
  unfold doSyscall
  refine (h₁.exec_keeps hcur tf s ?_).bind fun x hx => ?_
  · cases s with
    | envDestroy envid => exact hsafe
    | ipcRecv dstva => exact hsafe
    | ipcTrySend envid value srcva perm => exact hsafe
    | _ => trivial
  · obtain ⟨r, k₁⟩ := x
    cases r with
    | none => exact Keeps.ok hx
    | some r => exact Keeps.ok (hx.congr (fun _ => rfl) rfl rfl rfl rfl)

theorem trap_keeps (h : QueueInv k) {cur : Nat} (hcur : k.curenv = some cur) (op : KernOp)
    (hsafe : QueueSafe k op) : Keeps QueueInv (trap k cur op) := by
  cases op with
  | syscall tf s =>
    refine (h.doSyscall_keeps hcur tf s hsafe).bind fun x hx => ?_
    refine Keeps.ok ?_
    split_ifs
    · exact hx.retFromException_inv
    · exact hx
  | fault tf =>
    have h₁ : QueueInv { k with tf := tf } := h.congr (fun _ => rfl) rfl rfl rfl rfl
    exact (doTlbMiss_keeps _ cur).bind fun _ hk => Keeps.ok (h₁.of_same (.of_pageWork hk)).retFromException_inv
  | store va b => exact Keeps.ok (h.of_same (.of_pageWork (userStore_pageWork k va b)))
  | create binary priority => exact Keeps.ok h
  | device disk => exact Keeps.ok h
  | tick tf => exact Keeps.ok h

/-- **Step lemma.** -/
theorem step (h : QueueInv k) (op : KernOp) (hsafe : QueueSafe k op) :
    Keeps QueueInv (op.run k) := by
  cases KernOp.run_cases k op with
  | create binary priority =>
    exact (h.envCreate_keeps binary priority).bind fun _ hk => Keeps.ok hk
  | device disk => exact Keeps.ok (h.congr (fun _ => rfl) rfl rfl rfl rfl)
  | tick tf =>
    have h₁ : QueueInv { k with tf := tf } := h.congr (fun _ => rfl) rfl rfl rfl rfl
    exact h₁.schedule_keeps false
  | idle hrun =>
    rw [hrun]
    exact Keeps.error (by simp)
  | trap hcur hrun =>
    rw [hrun]
    exact h.trap_keeps hcur op hsafe

end QueueInv

-- ---------------------------------------------------------------------------
-- Runs
-- ---------------------------------------------------------------------------

theorem firstKernel_queueInv (pm : Pmap) (p : Nat) (disk : Vring) (kernelPgdir : Nat → Nat) :
    QueueInv (firstKernel pm p disk kernelPgdir) := by
  unfold firstKernel
  refine ⟨⟨⟨[], TailQueue.rep_init _, ?_⟩, ?_⟩, ?_, fun _ _ => rfl, ?_⟩
  · intro e
    simp [zeroEnv]
  · intro u hu
    cases hu
  · simp only [List.nodup_range]
  · intro c hc
    simp at hc

theorem envInit_queueInv {pm : Pmap} {disk : Vring} {kernelPgdir : Nat → Nat} {pagesPa envsPa : Nat}
    {k : Kernel} (h : envInit pm disk kernelPgdir pagesPa envsPa = .ok k) : QueueInv k := by
  unfold envInit at h
  cases ha : pageAlloc pm with
  | none =>
    rw [ha] at h
    cases h
  | some x =>
    rw [ha] at h
    obtain ⟨pm₁, -, h⟩ := bind_eq_ok.mp h
    obtain ⟨pm₂, -, h⟩ := bind_eq_ok.mp h
    obtain rfl := Except.ok.inj h
    exact firstKernel_queueInv _ _ _ _

/-- **Run lemma.** -/
theorem KernReach.queueInv {k₀ k : Kernel} (h₀ : QueueInv k₀) (h : KernReach QueueSafe k₀ k) :
    QueueInv k := by
  induction h with
  | refl => exact h₀
  | step _ hsafe hrun ih => exact (ih.step _ hsafe).post _ hrun

end Mos.Kern
