import Mos.Kern.EnvTable
import Mos.Kern.KernRun
import Mos.Kern.RunQueue
import Mos.Kern.Sched

/-!
# MOS on RISC-V — when calls succeed

The invariants say what a call that returns leaves behind; this module says when
calls return. `InOrder` puts the invariants of pages, table and queue together
and names what the next call depends on: the queue, the live envs, and how many
pages are left at least. From such a state the kernel can create an env, resume
the next one, fork, wake, destroy and exchange messages, and each lemma gives
the next state in order.
-/

namespace Mos.Kern

open Mos.Lib

variable {b : BootState} {k₀ k k' : Kernel} {role₀ : Nat → Role} {l s : List Nat} {n : Nat}

/-- All invariants hold, the queue is `l`, the live envs are those of `s`, `n` pages
are free, and the disk has nothing to report. -/
structure InOrder (b : BootState) (k₀ : Kernel) (role₀ : Nat → Role) (k : Kernel) (l s : List Nat)
    (n : Nat) : Prop where
  ok : KernelOk b k₀ role₀ k
  table : TableInv k
  queue : k.envSchedList.Rep l
  runnable : ∀ e, e ∈ l ↔ (k.envs e).status = .runnable
  live : ∀ e, k.Live e ↔ e ∈ s
  room : n ≤ k.pm.pageFreeList.length
  idle : Drained k.disk

namespace InOrder

theorem live_of_mem (h : InOrder b k₀ role₀ k l s n) {e : Nat} (he : e ∈ l) : e ∈ s := by
  refine (h.live e).mp ?_
  unfold Kernel.Live
  rw [(h.runnable e).mp he]
  exact fun hc => by cases hc

/-- A new directory finds a page. -/
theorem envRoom (h : InOrder b k₀ role₀ k l s (n + 1)) : EnvRoom k := by
  intro _ hnil
  have := h.room
  rw [hnil] at this
  exact absurd this (Nat.not_succ_le_zero n)

/-- A list of fewer than `m` numbers misses one below `m`. -/
theorem exists_not_mem {t : List Nat} {m : Nat} (ht : t.length < m) : ∃ i < m, i ∉ t := by
  by_contra hall
  push Not at hall
  have hsub : Finset.range m ⊆ t.toFinset := by
    intro i hi
    exact List.mem_toFinset.mpr (hall i (Finset.mem_range.mp hi))
  have hcard := Finset.card_le_card hsub
  rw [Finset.card_range] at hcard
  have := t.toFinset_card_le
  omega

/-- With fewer than 64 live envs there are a slot and an ASID for another. -/
theorem slot (h : InOrder b k₀ role₀ k l s n) (hs : s.length < NASID) :
    (∃ e rest, k.envFreeList = e :: rest) ∧ ∃ i < NASID, ¬ Bitmap.isSet k.asidBitmap i := by
  constructor
  · obtain ⟨e, hlt, he⟩ := exists_not_mem (lt_trans hs (show NASID < NENV by decide))
    have hmem := (h.table.freeIff e).mpr ⟨hlt, fun hl => he ((h.live e).mp hl)⟩
    cases hfree : k.envFreeList with
    | nil =>
      rw [hfree] at hmem
      exact absurd hmem List.not_mem_nil
    | cons e rest => exact ⟨e, rest, rfl⟩
  · obtain ⟨i, hlt, hi⟩ := exists_not_mem (t := s.map fun e => (k.envs e).asid)
      (by rw [List.length_map]; exact hs)
    refine ⟨i, hlt, fun hset => hi ?_⟩
    obtain ⟨e, hlive, hasid⟩ := (h.table.asidSet i hlt).mp hset
    exact List.mem_map.mpr ⟨e, (h.live e).mp hlive, hasid⟩

end InOrder

theorem length_filter_range (m u : Nat) :
    ((List.range m).filter fun i => u ≤ i).length = m - u := by
  induction m with
  | zero => simp
  | succ m ih =>
    rw [List.range_succ, List.filter_append, List.length_append, ih]
    by_cases hu : u ≤ m
    · rw [List.filter_singleton, decide_eq_true hu]
      exact (Nat.sub_add_comm hu).symm
    · rw [List.filter_singleton, decide_eq_false hu]
      show m - u + 0 = _
      omega

/-- The registers of the trap and of the running env do not matter. -/
theorem InOrder.setRegs (h : InOrder b k₀ role₀ k l s n) (tf cpu : Trapframe) :
    InOrder b k₀ role₀ { k with tf := tf, cpu := cpu } l s n where
  ok := by refine h.ok.congr ?_ ?_ ?_ ?_ ?_ ?_ ?_ <;> rfl
  table := ⟨h.table.freeNodup, h.table.freeIff, h.table.liveLt, h.table.slot, h.table.asidSet,
    h.table.asidLt, h.table.asidInj, h.table.cur⟩
  queue := h.queue
  runnable := h.runnable
  live := h.live
  room := h.room
  idle := h.idle

/-- The pages `page_init` leaves, less the three of `env_init`. -/
theorem Booted.inOrder (hb : Booted b k₀ role₀) (hidle : Drained b.disk)
    (hn : usedFrames b.freemem + 3 + n ≤ npage) : InOrder b k₀ role₀ k₀ [] [] n := by
  obtain ⟨pm, p, hk⟩ := hb.eq
  have hroom := hb.room
  have hlen : (pageInit b.freemem b.mem).pageFreeList.length = npage - usedFrames b.freemem := by
    unfold pageInit
    rw [List.length_reverse, length_filter_range]
  refine ⟨hb.kernelOk, ?_, ?_, ?_, ?_, ?_, ?_⟩
  · rw [hk]
    exact firstKernel_tableInv pm p b.disk b.kernelPgdir
  · rw [hk]
    exact TailQueue.rep_init _
  · intro e
    rw [hk]
    exact ⟨fun h => absurd h List.not_mem_nil, fun h => by cases h⟩
  · intro e
    rw [hk]
    exact ⟨fun h => absurd rfl h, fun h => absurd h List.not_mem_nil⟩
  · omega
  · rw [hk]
    exact hidle

/-- A system call returns when its function does. -/
theorem trap_syscall (k : Kernel) (cur : Nat) (tf : Trapframe) (c : Syscall) :
    trap k cur (.syscall tf c) = (doSyscall { k with tf := tf } cur c >>= fun x =>
      .ok (if x.1.isSome then retFromException x.2 else x.2)) := rfl

theorem run_syscall_ok {cur : Nat} {c : Syscall} {r : Option Int} {k₁ : Kernel} (tf : Trapframe)
    (hcur : k.curenv = some cur)
    (hexec : c.exec { k with tf := { tf with sepc := (tf.sepc + 4) % 2 ^ 32 } } cur = .ok (r, k₁)) :
    ∃ tf₂ cpu, (KernOp.syscall tf c).run k = .ok { k₁ with tf := tf₂, cpu := cpu } := by
  rw [KernOp.run_of_curenv (.syscall tf c) trivial hcur, trap_syscall]
  cases r with
  | none =>
    have hdo : doSyscall { k with tf := tf } cur c = .ok (none, k₁) :=
      bind_eq_ok.mpr ⟨(none, k₁), hexec, rfl⟩
    rw [hdo]
    exact ⟨k₁.tf, k₁.cpu, rfl⟩
  | some x =>
    have hdo : doSyscall { k with tf := tf } cur c = .ok (some x, { k₁ with
        tf := { k₁.tf with regs := Function.update k₁.tf.regs 10 (toWord x) } }) :=
      bind_eq_ok.mpr ⟨(some x, k₁), hexec, rfl⟩
    rw [hdo]
    exact ⟨_, _, rfl⟩

/-- It stops when its function does. -/
theorem run_syscall_error {cur : Nat} {c : Syscall} {p : Panic} (tf : Trapframe)
    (hcur : k.curenv = some cur)
    (hexec : c.exec { k with tf := { tf with sepc := (tf.sepc + 4) % 2 ^ 32 } } cur = .error p) :
    (KernOp.syscall tf c).run k = .error p := by
  rw [KernOp.run_of_curenv (.syscall tf c) trivial hcur, trap_syscall]
  have hdo : doSyscall { k with tf := tf } cur c = .error p := by
    show Except.bind (c.exec { k with tf := { tf with sepc := (tf.sepc + 4) % 2 ^ 32 } } cur) _ = _
    rw [hexec]
    rfl
  rw [hdo]
  rfl

-- ---------------------------------------------------------------------------
-- The scheduler
-- ---------------------------------------------------------------------------

theorem tailqRemove_of {e : Nat} {q : TailQueue Nat} (h : k.envSchedList.remove e = some q) :
    tailqRemove k e = .ok (k.withQueue .remove e q) := by
  unfold tailqRemove
  rw [h]

theorem tailqRemove_none {e : Nat} (h : k.envSchedList.remove e = none) : tailqRemove k e = .error .nullStore := by
  unfold tailqRemove
  rw [h]

theorem tailqRemove_rep {e : Nat} (h : k.envSchedList.Rep l) (he : e ∈ l) :
    ∃ q, tailqRemove k e = .ok (k.withQueue .remove e q) ∧ q.Rep (l.erase e) := by
  obtain ⟨q, hq, hrep⟩ := h.remove he
  exact ⟨q, tailqRemove_of hq, hrep⟩

theorem tailqInsertTail_rep {e : Nat} (h : k.envSchedList.Rep l) (he : e ∉ l) :
    ∃ q, tailqInsertTail k e = .ok (k.withQueue .insert e q) ∧ q.Rep (l ++ [e]) := by
  obtain ⟨q, hq, hrep⟩ := h.insertTail he
  refine ⟨q, ?_, hrep⟩
  unfold tailqInsertTail
  rw [hq]

/-- What a call of `schedule` leaves alone: all but the queue, the counter of
slices, who runs, and the saved registers. -/
structure Resumed (k k' : Kernel) : Prop where
  env : ∀ x, ∃ tf runs, k'.envs x = { k.envs x with tf := tf, runs := runs }
  pm : k'.pm = k.pm
  free : k'.envFreeList = k.envFreeList
  count : k'.mkenvidCount = k.mkenvidCount

theorem Resumed.field (h : Resumed k k') {α : Type} (g : Env → α)
    (hg : ∀ env tf runs, g { env with tf := tf, runs := runs } = g env) (x : Nat) :
    g (k'.envs x) = g (k.envs x) := by
  obtain ⟨tf, runs, hx⟩ := h.env x
  rw [hx, hg]

/-- The scheduler resumes the first env of the queue it has put in order. -/
theorem schedule_picks {yield : Bool} {q : TailQueue Nat} {log : List (QueueUse × TailQueue Nat × Nat)}
    {e : Nat} (hidle : Drained k.disk)
    (hkeep : keepRunning { k with disk := intrAck k.disk } yield = none)
    (hreq : requeue { k with disk := intrAck k.disk } =
      .ok { k with disk := intrAck k.disk, envSchedList := q, queueLog := log })
    (hrep : q.Rep (e :: l)) (hrun : (k.envs e).status = .runnable) :
    ∃ k', schedule k yield = .ok k' ∧ Resumed k k' ∧ k'.curenv = some e ∧ k'.envSchedList = q ∧
      Drained k'.disk := by
  obtain ⟨hintr, hdrained⟩ := hidle.intr
  obtain ⟨k', hk'⟩ : ∃ k', envRun { k with
      disk := intrAck k.disk, envSchedList := q, queueLog := log,
      schedCount := countDown (slices (k.envs e)) } e = .ok k' := by
    unfold envRun
    rw [if_pos hrun]
    exact ⟨_, rfl⟩
  refine ⟨k', ?_, ?_⟩
  · unfold schedule
    rw [hintr, ok_bind]
    simp only [hkeep]
    rw [hreq, ok_bind, hrep.first_eq]
    exact hk'
  · obtain ⟨-, hcur, -, henv, envs, pgdir, cpu, heq⟩ := envRun_env hk'
    refine ⟨⟨henv, ?_, ?_, ?_⟩, hcur, ?_, ?_⟩
    all_goals rw [heq]
    exact hdrained

namespace InOrder

/-- The next state is in order when the scheduler resumed an env from the queue `l'`. -/
theorem resumed (h : InOrder b k₀ role₀ k l s n) {yield : Bool} {l' : List Nat}
    (hrun : schedule k yield = .ok k') (hres : Resumed k k') (hmem : ∀ x, x ∈ l' ↔ x ∈ l)
    (hq : k'.envSchedList.Rep l') (hidle : Drained k'.disk) : InOrder b k₀ role₀ k' l' s n where
  ok := schedule_ok h.ok hrun
  table := by
    have hs := schedule_table hrun
    exact h.table.same (fun x _ => hs.1.ident x) hs.1.live hs.1.free hs.1.bits
      fun c hc => (hs.1.live c).mpr (hs.2 c hc)
  queue := hq
  runnable e := by
    rw [hmem, hres.field Env.status fun _ _ _ => rfl]
    exact h.runnable e
  live e := by
    unfold Kernel.Live
    rw [hres.field Env.status fun _ _ _ => rfl]
    exact h.live e
  room := by
    rw [hres.pm]
    exact h.room
  idle := hidle

/-- Nobody to put back: the first of the queue runs. -/
theorem schedule_first {e : Nat} (h : InOrder b k₀ role₀ k (e :: l) s n) (yield : Bool)
    (hcur : ∀ c, k.curenv = some c → (k.envs c).status ≠ .runnable) :
    ∃ k', schedule k yield = .ok k' ∧ InOrder b k₀ role₀ k' (e :: l) s n ∧ k'.curenv = some e ∧
      Resumed k k' := by
  have hkeep : keepRunning { k with disk := intrAck k.disk } yield = none := by
    unfold keepRunning
    split
    · rfl
    · rename_i c hc
      rw [if_pos (Or.inr (Or.inr (hcur c hc)))]
  have hreq : requeue { k with disk := intrAck k.disk } = .ok { k with disk := intrAck k.disk } := by
    unfold requeue
    split
    · rfl
    · rename_i c hc
      rw [if_neg (hcur c hc)]
      rfl
  have hrun := (h.runnable e).mp List.mem_cons_self
  obtain ⟨k', hk', hres, hc, hq, hidle⟩ := schedule_picks h.idle hkeep hreq h.queue hrun
  refine ⟨k', hk', h.resumed hk' hres (fun _ => Iff.rfl) ?_ hidle, hc, hres⟩
  rw [hq]
  exact h.queue

/-- A yield: the running env goes to the tail. -/
theorem schedule_yield {c e : Nat} {l' : List Nat} (h : InOrder b k₀ role₀ k l s n)
    (hcur : k.curenv = some c) (hc : c ∈ l) (hl' : l.erase c ++ [c] = e :: l') :
    ∃ k', schedule k true = .ok k' ∧ InOrder b k₀ role₀ k' (e :: l') s n ∧ k'.curenv = some e ∧
      Resumed k k' := by
  have hkeep : keepRunning { k with disk := intrAck k.disk } true = none := by
    unfold keepRunning
    split
    · rfl
    · rw [if_pos (Or.inl rfl)]
  obtain ⟨q₁, hrem, hrep₁⟩ := tailqRemove_rep (k := { k with disk := intrAck k.disk }) h.queue hc
  have hnot : c ∉ l.erase c := h.queue.nodup.not_mem_erase
  obtain ⟨q₂, hins, hrep₂⟩ := tailqInsertTail_rep
    (k := { k with disk := intrAck k.disk }.withQueue .remove c q₁) hrep₁ hnot
  have hreq : requeue { k with disk := intrAck k.disk } =
      .ok (({ k with disk := intrAck k.disk }.withQueue .remove c q₁).withQueue .insert c q₂) := by
    unfold requeue
    split
    · rename_i hnone
      exact absurd (hcur.symm.trans hnone) (Option.some_ne_none c)
    · rename_i c' hc'
      obtain rfl : c = c' := Option.some.inj (hcur.symm.trans hc')
      rw [if_pos ((h.runnable c).mp hc), hrem, ok_bind, hins]
  have hmem : ∀ x, x ∈ e :: l' ↔ x ∈ l := by
    intro x
    rw [← hl', List.mem_append, List.mem_singleton, h.queue.nodup.mem_erase_iff]
    constructor
    · rintro (⟨-, hx⟩ | rfl)
      · exact hx
      · exact hc
    · intro hx
      by_cases hxc : x = c
      · exact Or.inr hxc
      · exact Or.inl ⟨hxc, hx⟩
  have hrun := (h.runnable e).mp ((hmem e).mp List.mem_cons_self)
  rw [hl'] at hrep₂
  obtain ⟨k', hk', hres, hce, hq, hidle⟩ := schedule_picks h.idle hkeep hreq hrep₂ hrun
  refine ⟨k', hk', h.resumed hk' hres hmem ?_ hidle, hce, hres⟩
  rw [hq]
  exact hrep₂

end InOrder

-- ---------------------------------------------------------------------------
-- New envs
-- ---------------------------------------------------------------------------

/-- `e` is a new env; nothing else in the table changed. -/
structure Born (k k' : Kernel) (e parentId : Nat) : Prop where
  free : k.envFreeList = e :: k'.envFreeList
  other : ∀ x, x ≠ e → k'.envs x = k.envs x
  id : (k'.envs e).id = (mkenvid k e).1
  parent : (k'.envs e).parentId = parentId
  recving : (k'.envs e).ipcRecving = (k.envs e).ipcRecving
  curenv : k'.curenv = k.curenv
  count : k'.mkenvidCount = (k.mkenvidCount + 1) % 2 ^ 32
  space : k.pm.pageFreeList ≠ [] → (k'.envs e).pgdirCopyPa = 0 ∧
    ∀ i < PDX UTOP, k'.pm.mem (k'.envs e).pgdir i = k.kernelPgdir i

theorem envAlloc_succeeds {e : Nat} {rest : List Nat} (hl : k.envFreeList = e :: rest)
    (hasid : ∃ i < NASID, ¬ Bitmap.isSet k.asidBitmap i) (parentId : Nat) :
    ∃ k', envAlloc k parentId = (.ok e, k') := by
  obtain ⟨i, hlt, hi⟩ := hasid
  cases hrun : envAlloc k parentId with
  | mk r k' =>
    cases envAlloc_outcome hrun with
    | full hnil =>
      rw [hl] at hnil
      cases hnil
    | noAsid _ hfull => exact absurd (hfull i hlt) hi
    | ok hl' =>
      rw [hl] at hl'
      cases hl'
      exact ⟨_, rfl⟩

/-- A successful `env_alloc` takes one page if there is one. -/
theorem setupPages_free (k : Kernel) (e : Nat) :
    (setupPages k e).1.pageFreeList = k.pm.pageFreeList.tail := by
  unfold setupPages pageAlloc
  cases hfree : k.pm.pageFreeList with
  | nil => exact hfree
  | cons p rest => rfl

/-- With a page for the directory, the new address space is empty. -/
theorem setupPages_space (hfree : k.pm.pageFreeList ≠ []) (e : Nat) :
    (setupPages k e).2.2 = 0 ∧
      ∀ i < PDX UTOP, (setupPages k e).1.mem (setupPages k e).2.1 i = k.kernelPgdir i := by
  cases hl : k.pm.pageFreeList with
  | nil => exact absurd hl hfree
  | cons p rest =>
    rw [setupPages_eq (pageAlloc_cons hl)]
    refine ⟨rfl, fun i hi => ?_⟩
    have hUT := PDX_UTOP
    show (if p = p ∧ i < 1024 then _ else _) = _
    rw [if_pos ⟨rfl, by omega⟩]
    unfold templateWord
    rw [if_neg (by omega)]

theorem envAlloc_born {e parentId : Nat} {k₁ : Kernel} (h : envAlloc k parentId = (.ok e, k₁))
    {f : Env → Env} (hident : (f (k₁.envs e)).ident = (k₁.envs e).ident)
    (hrecv : (f (k₁.envs e)).ipcRecving = (k₁.envs e).ipcRecving)
    (hdir : (f (k₁.envs e)).pgdir = (k₁.envs e).pgdir)
    (hcopy : (f (k₁.envs e)).pgdirCopyPa = (k₁.envs e).pgdirCopyPa) :
    Born k (k₁.setEnv e f) e parentId ∧
      (k₁.setEnv e f).pm.pageFreeList = k.pm.pageFreeList.tail ∧
      (k₁.setEnv e f).envSchedList = k.envSchedList ∧ (k₁.setEnv e f).disk = k.disk := by
  obtain ⟨rest, asid, hl, -, -, hk₁⟩ := envAlloc_given h
  have henv : k₁.envs e = givenEnv k e asid parentId := by
    rw [hk₁]
    exact Function.update_self ..
  have hid : (f (k₁.envs e)).id = (k₁.envs e).id := congrArg (fun t => t.1) hident
  have hpar : (f (k₁.envs e)).parentId = (k₁.envs e).parentId := congrArg (fun t => t.2.2) hident
  refine ⟨⟨?_, ?_, ?_, ?_, ?_, ?_, ?_, ?_⟩, ?_, ?_, ?_⟩
  · rw [Kernel.setEnv_envFreeList, hk₁]
    exact hl
  · intro x hx
    rw [Kernel.setEnv_of_ne _ _ _ hx, hk₁]
    exact Function.update_of_ne hx ..
  · rw [Kernel.setEnv_self, hid, henv]
    rfl
  · rw [Kernel.setEnv_self, hpar, henv]
    rfl
  · rw [Kernel.setEnv_self, hrecv, henv]
    rfl
  · rw [Kernel.setEnv_curenv, hk₁]
  · show k₁.mkenvidCount = _
    rw [hk₁]
  · intro hfree
    have hpm : k₁.pm = (setupPages k e).1 := by rw [hk₁]
    rw [Kernel.setEnv_self, Kernel.setEnv_pm, hdir, hcopy, hpm, henv]
    exact setupPages_space hfree e
  · rw [Kernel.setEnv_pm, hk₁]
    exact setupPages_free k e
  · rw [Kernel.setEnv_envSchedList, hk₁]
  · show k₁.disk = _
    rw [hk₁]

namespace InOrder

/-- A state is in order when a safe step led to it. -/
theorem next (h : InOrder b k₀ role₀ k l s n) (hb : Booted b k₀ role₀) {op : KernOp}
    (hrun : op.run k = .ok k') (hsafe : MapSafe k op) (hshare : ¬ op.Shares) {l' s' : List Nat}
    {m : Nat} (hq : k'.envSchedList.Rep l')
    (hst : ∀ e, e ∈ l' ↔ (k'.envs e).status = .runnable) (hlive : ∀ e, k'.Live e ↔ e ∈ s')
    (hroom : m ≤ k'.pm.pageFreeList.length) (hidle : Drained k'.disk) :
    InOrder b k₀ role₀ k' l' s' m where
  ok := (h.ok.step hb hsafe hrun).ok fun hs => absurd hs hshare
  table := h.table.step hrun
  queue := hq
  runnable := hst
  live := hlive
  room := hroom
  idle := hidle

/-- Who is live and runnable once `e` is born with the status `st`. -/
theorem born (h : InOrder b k₀ role₀ k l s n) {e parentId : Nat} (hborn : Born k k' e parentId)
    (st : EnvStatus) (hst : (k'.envs e).status = st) (hne : st ≠ .free) (l' : List Nat)
    (hl' : ∀ x, x ∈ l' ↔ x ∈ l ∨ (x = e ∧ st = .runnable)) :
    e ∉ s ∧ (∀ x, x ∈ l' ↔ (k'.envs x).status = .runnable) ∧ ∀ x, k'.Live x ↔ x ∈ e :: s := by
  have hdead : ¬ k.Live e := ((h.table.freeIff e).mp (by rw [hborn.free]; exact List.mem_cons_self)).2
  refine ⟨fun hm => hdead ((h.live e).mpr hm), ?_, ?_⟩
  · intro x
    rw [hl', h.runnable]
    by_cases hx : x = e
    · rw [hx, hst]
      constructor
      · rintro (hr | ⟨-, hr⟩)
        · exact absurd (by unfold Kernel.Live; rw [hr]; exact fun hc => by cases hc) hdead
        · exact hr
      · exact fun hr => Or.inr ⟨rfl, hr⟩
    · rw [hborn.other x hx]
      exact ⟨fun hr => hr.elim id fun hr => absurd hr.1 hx, Or.inl⟩
  · intro x
    rw [List.mem_cons, ← h.live]
    unfold Kernel.Live
    by_cases hx : x = e
    · rw [hx, hst]
      exact ⟨fun _ => Or.inl rfl, fun _ => hne⟩
    · rw [hborn.other x hx]
      exact ⟨Or.inr, fun hr => hr.elim (fun he => absurd he hx) id⟩

/-- `env_create` of a program without segments. -/
theorem create (h : InOrder b k₀ role₀ k l s (n + 1)) (hb : Booted b k₀ role₀)
    (hs : s.length < NASID) (entry priority : Nat) :
    ∃ e k', (KernOp.create (some ⟨entry, []⟩) priority).run k = .ok k' ∧
      InOrder b k₀ role₀ k' (e :: l) (e :: s) n ∧ e ∉ s ∧ Born k k' e 0 := by
  obtain ⟨⟨e, rest, hl⟩, hasid⟩ := h.slot hs
  obtain ⟨k₁, hk₁⟩ := envAlloc_succeeds hl hasid 0
  obtain ⟨k₂, hk₂⟩ : ∃ k₂, k₂ = k₁.setEnv e fun env =>
    { env with pri := priority, status := .runnable, tf := { env.tf with sepc := entry } } := ⟨_, rfl⟩
  obtain ⟨hborn, hpages, hqueue, hdisk⟩ : Born k k₂ e 0 ∧ _ := hk₂ ▸ envAlloc_born hk₁ rfl rfl rfl rfl
  obtain ⟨hnew, hst, hlive⟩ := h.born hborn .runnable
    (by rw [hk₂, Kernel.setEnv_self]) (by decide) (e :: l) (fun x => by rw [List.mem_cons]; tauto)
  have hrun : (KernOp.create (some ⟨entry, []⟩) priority).run k = .ok (tailqInsertHead k₂ e) := by
    refine bind_eq_ok.mpr ⟨(e, tailqInsertHead k₂ e), ?_, rfl⟩
    unfold envCreate
    rw [hk₁]
    refine bind_eq_ok.mpr ⟨_, rfl, ?_⟩
    rw [hk₂]
    simp only [Kernel.setEnv, Function.update_self, Function.update_idem]
    rfl
  refine ⟨e, tailqInsertHead k₂ e, hrun, ?_, hnew, ?_⟩
  · refine h.next hb hrun ⟨?_, h.envRoom⟩ id ?_ hst hlive ?_ ?_
    · intro elf helf ph hph
      cases helf
      exact absurd hph List.not_mem_nil
    · exact TailQueue.Rep.insertHead (hqueue ▸ h.queue) fun hm => hnew (h.live_of_mem hm)
    · show n ≤ k₂.pm.pageFreeList.length
      rw [hpages, List.length_tail]
      have := h.room
      omega
    · show Drained k₂.disk
      rw [hdisk]
      exact h.idle
  · exact ⟨hborn.free, hborn.other, hborn.id, hborn.parent, hborn.recving, hborn.curenv, hborn.count,
      hborn.space⟩

/-- `sys_exofork`. -/
theorem fork (h : InOrder b k₀ role₀ k l s (n + 1)) (hb : Booted b k₀ role₀)
    (hs : s.length < NASID) {c : Nat} (hcur : k.curenv = some c) (tf : Trapframe) :
    ∃ e k', (KernOp.syscall tf .exofork).run k = .ok k' ∧
      (KernOp.syscall tf .exofork).event k = .born e ∧
      InOrder b k₀ role₀ k' l (e :: s) n ∧ e ∉ s ∧ Born k k' e (k.envs c).id := by
  obtain ⟨⟨e, rest, hl⟩, hasid⟩ := h.slot hs
  obtain ⟨k₁, hk₁⟩ := envAlloc_succeeds
    (k := { k with tf := { tf with sepc := (tf.sepc + 4) % 2 ^ 32 } }) hl hasid (k.envs c).id
  obtain ⟨k₂, hk₂⟩ : ∃ k₂, k₂ = k₁.setEnv e fun env => { env with
      tf := { k₁.tf with regs := Function.update k₁.tf.regs 10 0 }
      status := .notRunnable
      pri := (k₁.envs c).pri } := ⟨_, rfl⟩
  obtain ⟨hborn, hpages, hqueue, hdisk⟩ :
    Born { k with tf := { tf with sepc := (tf.sepc + 4) % 2 ^ 32 } } k₂ e (k.envs c).id ∧ _ :=
      hk₂ ▸ envAlloc_born hk₁ rfl rfl rfl rfl
  have hexec : Syscall.exec { k with tf := { tf with sepc := (tf.sepc + 4) % 2 ^ 32 } } c .exofork =
      .ok (some ((k₂.envs e).id : Int), k₂) := by
    show sysExofork _ c = _
    unfold sysExofork
    rw [hk₁, hk₂]
  obtain ⟨tf₂, cpu, hrun⟩ := run_syscall_ok tf hcur hexec
  have hst₂ : (k₂.envs e).status = .notRunnable := by rw [hk₂, Kernel.setEnv_self]
  have hborn' : Born k { k₂ with tf := tf₂, cpu := cpu } e (k.envs c).id :=
    ⟨hborn.free, hborn.other, hborn.id, hborn.parent, hborn.recving, hborn.curenv, hborn.count,
      hborn.space⟩
  obtain ⟨hnew, hst, hlive⟩ := h.born hborn' .notRunnable hst₂ (by decide) l
    (fun x => ⟨Or.inl, fun hx => hx.elim id fun hx => by cases hx.2⟩)
  have hevent : (KernOp.syscall tf .exofork).event k = .born e := by
    unfold KernOp.event
    rw [hcur]
    show allocEvent (envAlloc k (k.envs c).id).1 = _
    rw [← @envAlloc_slot k { k with tf := { tf with sepc := (tf.sepc + 4) % 2 ^ 32 } } rfl rfl _
      (k.envs c).id, hk₁]
    rfl
  refine ⟨e, _, hrun, hevent, h.next hb hrun h.envRoom id ?_ hst hlive ?_ ?_, hnew, hborn'⟩
  · show k₂.envSchedList.Rep l
    rw [hqueue]
    exact h.queue
  · show n ≤ k₂.pm.pageFreeList.length
    rw [hpages, List.length_tail]
    have := h.room
    show n ≤ k.pm.pageFreeList.length - 1
    omega
  · show Drained k₂.disk
    rw [hdisk]
    exact h.idle

end InOrder

-- ---------------------------------------------------------------------------
-- Ticks, yields and waiting
-- ---------------------------------------------------------------------------

/-- An id that is not zero names its env, for the env itself and its parent. -/
theorem envid2env_ok {cur e id : Nat} {checkperm : Bool} (hid : (k.envs e).id = id) (h0 : id ≠ 0)
    (hslot : ENVX id = e) (hlive : k.Live e)
    (hperm : checkperm = true → e = cur ∨ (k.envs e).parentId = (k.envs cur).id) :
    envid2env k cur id checkperm = .ok e := by
  unfold envid2env
  rw [if_neg h0]
  show (if (k.envs (ENVX id)).status = .free ∨ (k.envs (ENVX id)).id ≠ id then _ else _) = _
  rw [hslot, if_neg (fun hc => hc.elim hlive fun hc => hc hid),
    if_neg (fun hc => (hperm hc.1).elim hc.2.1 hc.2.2)]

namespace InOrder

/-- The first timer tick, or one while the running env is not runnable. -/
theorem tick {e : Nat} (h : InOrder b k₀ role₀ k (e :: l) s n) (tf : Trapframe)
    (hcur : ∀ c, k.curenv = some c → (k.envs c).status ≠ .runnable) :
    ∃ k', (KernOp.tick tf).run k = .ok k' ∧ InOrder b k₀ role₀ k' (e :: l) s n ∧
      k'.curenv = some e ∧ Resumed k k' := by
  obtain ⟨k', hrun, hk', hc, hres⟩ := (h.setRegs tf k.cpu).schedule_first false hcur
  exact ⟨k', hrun, hk', hc, ⟨hres.env, hres.pm, hres.free, hres.count⟩⟩

/-- `sys_yield`. -/
theorem yield {c e : Nat} {l' : List Nat} (h : InOrder b k₀ role₀ k l s n)
    (hcur : k.curenv = some c) (hc : c ∈ l) (hl' : l.erase c ++ [c] = e :: l') (tf : Trapframe) :
    ∃ k', (KernOp.syscall tf .yield).run k = .ok k' ∧ InOrder b k₀ role₀ k' (e :: l') s n ∧
      k'.curenv = some e ∧ Resumed k k' := by
  obtain ⟨k₁, hsched, hk₁, hce, hres⟩ :=
    (h.setRegs { tf with sepc := (tf.sepc + 4) % 2 ^ 32 } k.cpu).schedule_yield hcur hc hl'
  have hexec : Syscall.exec { k with tf := { tf with sepc := (tf.sepc + 4) % 2 ^ 32 } } c .yield =
      .ok (none, k₁) := bind_eq_ok.mpr ⟨k₁, hsched, rfl⟩
  obtain ⟨tf₂, cpu, hrun⟩ := run_syscall_ok tf hcur hexec
  exact ⟨_, hrun, hk₁.setRegs tf₂ cpu, hce, ⟨hres.env, hres.pm, hres.free, hres.count⟩⟩

/-- The running env has stopped and is off the queue. -/
theorem stopped {c : Nat} (h : InOrder b k₀ role₀ k l s n) (hc : c ∈ l) {q : TailQueue Nat}
    (hq : q.Rep (l.erase c)) (log : List (QueueUse × TailQueue Nat × Nat)) (tf : Trapframe) :
    InOrder b k₀ role₀ { k with
      envs := Function.update k.envs c (waitingEnv k c 0)
      envSchedList := q
      queueLog := log
      tf := tf } (l.erase c) s n := by
  have hstatus : ∀ x, (Function.update k.envs c (waitingEnv k c 0) x).status =
      if x = c then .notRunnable else (k.envs x).status := by
    intro x
    by_cases hx : x = c
    · rw [hx, Function.update_self, if_pos rfl]
      rfl
    · rw [Function.update_of_ne hx, if_neg hx]
  have hlive : ∀ x, (Function.update k.envs c (waitingEnv k c 0) x).status ≠ .free ↔ k.Live x := by
    intro x
    rw [hstatus]
    split_ifs with hx
    · rw [hx]
      exact ⟨fun _ => (h.live c).mpr (h.live_of_mem hc), fun _ hc => by cases hc⟩
    · rfl
  refine ⟨?_, ?_, hq, ?_, fun x => (hlive x).trans (h.live x), h.room, h.idle⟩
  · have hok := h.ok.setEnv c (f := fun env =>
      { env with ipcRecving := 1, ipcDstva := 0, status := .notRunnable })
      ⟨nofun, fun hf => absurd hf ((h.live c).mpr (h.live_of_mem hc))⟩ rfl rfl
      (by show 0 < UTOP; decide)
    refine hok.congr ?_ ?_ ?_ ?_ ?_ ?_ ?_ <;> rfl
  · refine h.table.same ?_ hlive rfl rfl fun x hx => (hlive x).mpr (h.table.cur x hx)
    intro x _
    show (Function.update k.envs c (waitingEnv k c 0) x).ident = _
    by_cases hx : x = c
    · rw [hx, Function.update_self]
      rfl
    · rw [Function.update_of_ne hx]
  · intro x
    rw [h.queue.nodup.mem_erase_iff, h.runnable]
    show _ ↔ (Function.update k.envs c (waitingEnv k c 0) x).status = .runnable
    rw [hstatus]
    split_ifs with hx
    · exact ⟨fun hr => absurd hx hr.1, fun hr => by cases hr⟩
    · exact ⟨And.right, fun hr => ⟨hx, hr⟩⟩

/-- `sys_ipc_recv(0)`: the caller stops, and the first of the others runs. -/
theorem recv {c e : Nat} {l' : List Nat} (h : InOrder b k₀ role₀ k l s n)
    (hcur : k.curenv = some c) (hc : c ∈ l) (hl' : l.erase c = e :: l') (tf : Trapframe) :
    ∃ k', (KernOp.syscall tf (.ipcRecv 0)).run k = .ok k' ∧ InOrder b k₀ role₀ k' (e :: l') s n ∧
      k'.curenv = some e ∧
      Resumed { k with envs := Function.update k.envs c (waitingEnv k c 0) } k' := by
  obtain ⟨q, hq, hrep⟩ := h.queue.remove hc
  have hstop := h.stopped hc hrep ((.remove, k.envSchedList, c) :: k.queueLog)
    { tf with sepc := (tf.sepc + 4) % 2 ^ 32, regs := Function.update tf.regs 10 0 }
  rw [hl'] at hstop
  obtain ⟨k₁, hsched, hk₁, hce, hres⟩ := hstop.schedule_first true fun c' hc' => by
    obtain rfl : c = c' := Option.some.inj (hcur.symm.trans hc')
    show (Function.update k.envs c (waitingEnv k c 0) c).status ≠ .runnable
    rw [Function.update_self]
    exact fun hc => by cases hc
  have hexec : Syscall.exec { k with tf := { tf with sepc := (tf.sepc + 4) % 2 ^ 32 } } c (.ipcRecv 0) =
      .ok (none, k₁) := by
    show sysIpcRecv _ c 0 = _
    unfold sysIpcRecv
    rw [if_neg fun hc => hc.1 rfl]
    refine bind_eq_ok.mpr ⟨{ k with
      envs := Function.update k.envs c (waitingEnv k c 0)
      envSchedList := q
      queueLog := (.remove, k.envSchedList, c) :: k.queueLog
      tf := { tf with sepc := (tf.sepc + 4) % 2 ^ 32 } }, ?_, bind_eq_ok.mpr ⟨k₁, hsched, rfl⟩⟩
    exact tailqRemove_of hq
  obtain ⟨tf₂, cpu, hrun⟩ := run_syscall_ok tf hcur hexec
  exact ⟨_, hrun, hk₁.setRegs tf₂ cpu, hce, ⟨hres.env, hres.pm, hres.free, hres.count⟩⟩

end InOrder

-- ---------------------------------------------------------------------------
-- Waking and destroying a child
-- ---------------------------------------------------------------------------

/-- The state in which `env_free` takes the env off the queue, the pages it gave
back being `pm`. -/
def retired (k : Kernel) (e : Nat) (pm : Pmap) : Kernel :=
  { k with
    pm := pm
    envs := Function.update k.envs e { k.envs e with status := .free }
    envFreeList := e :: k.envFreeList
    asidBitmap := Bitmap.clear k.asidBitmap (k.envs e).asid }

/-- The page work of `env_free` succeeds, and the directory is free afterwards. -/
theorem envFree_retires (h : KernelOk b k₀ role₀ k) {e : Nat} (he : k.Live e) (tf : Trapframe) :
    ∃ pm, (k.envs e).pgdir ∈ pm.pageFreeList ∧
      envFree { k with tf := tf } e = tailqRemove (retired { k with tf := tf } e pm) e := by
  obtain ⟨role, hinv, hbd⟩ := h
  obtain ⟨pm, role', hpages, hret⟩ := envFreePages_ok hinv hbd he
  refine ⟨pm, (hret.inv.freeIff _).mpr hret.freed, ?_⟩
  show (envFreePages k.pm (k.envs e).pgdir (k.envs e).asid (k.envs e).pgdirCopyPa >>= fun pm =>
    tailqRemove (retired { k with tf := tf } e pm) e) = _
  rw [hpages, ok_bind]

/-- `sys_env_destroy` of an env that does not run. -/
theorem sysEnvDestroy_other {cur envid e : Nat} (hfind : envid2env k cur envid true = .ok e)
    (hfree : envFree k e = .ok k') (hne : k'.curenv ≠ some e) :
    sysEnvDestroy k cur envid = .ok (some 0, k') := by
  unfold sysEnvDestroy
  simp only [hfind]
  refine bind_eq_ok.mpr ⟨(true, k'), ?_, rfl⟩
  refine bind_eq_ok.mpr ⟨k', hfree, ?_⟩
  rw [if_neg hne]
  rfl

theorem sysEnvDestroy_error {cur envid e : Nat} {p : Panic}
    (hfind : envid2env k cur envid true = .ok e) (hfree : envFree k e = .error p) :
    sysEnvDestroy k cur envid = .error p := by
  unfold sysEnvDestroy envDestroy
  simp only [hfind]
  rw [hfree]
  rfl

/-- One env changed; the rest of the table, the pages and who runs are as before. -/
structure OneEnv (k k' : Kernel) (e : Nat) (env : Env) : Prop where
  envs : k'.envs = Function.update k.envs e env
  pm : k'.pm = k.pm
  free : k'.envFreeList = k.envFreeList
  count : k'.mkenvidCount = k.mkenvidCount
  curenv : k'.curenv = k.curenv

namespace InOrder

/-- `sys_set_env_status(envid, ENV_RUNNABLE)` on a child that is not runnable. -/
theorem wake {c e envid : Nat} (h : InOrder b k₀ role₀ k l s n) (hb : Booted b k₀ role₀)
    (hcur : k.curenv = some c) (hid : (k.envs e).id = envid) (h0 : envid ≠ 0)
    (hparent : (k.envs e).parentId = (k.envs c).id) (he : e ∈ s) (hnot : e ∉ l) (tf : Trapframe) :
    ∃ k', (KernOp.syscall tf (.setEnvStatus envid 1)).run k = .ok k' ∧
      InOrder b k₀ role₀ k' (l ++ [e]) s n ∧
      OneEnv k k' e { k.envs e with status := .runnable } := by
  have hlive := (h.live e).mpr he
  have hres : envid2env { k with tf := { tf with sepc := (tf.sepc + 4) % 2 ^ 32 } } c envid true = .ok e :=
    envid2env_ok hid h0 (hid ▸ h.table.slot e hlive) hlive fun _ => Or.inr hparent
  obtain ⟨q, hq, hrep⟩ := tailqInsertTail_rep
    (k := { k with tf := { tf with sepc := (tf.sepc + 4) % 2 ^ 32 } }) h.queue hnot
  have hexec : Syscall.exec { k with tf := { tf with sepc := (tf.sepc + 4) % 2 ^ 32 } } c
      (.setEnvStatus envid 1) = .ok (some 0, (Kernel.withQueue
        { k with tf := { tf with sepc := (tf.sepc + 4) % 2 ^ 32 } } .insert e q).setEnv e
          fun env => { env with status := .runnable }) := by
    show sysSetEnvStatus _ c envid 1 = _
    unfold sysSetEnvStatus
    rw [show statusOfNat 1 = some .runnable from rfl]
    simp only [hres]
    rw [if_pos (fun hr => hnot ((h.runnable e).mpr hr)), if_pos trivial, hq, ok_bind]
    rfl
  obtain ⟨tf₂, cpu, hrun⟩ := run_syscall_ok tf hcur hexec
  refine ⟨_, hrun, h.next hb hrun trivial id hrep ?_ ?_ h.room h.idle, ⟨rfl, rfl, rfl, rfl, rfl⟩⟩
  · intro x
    rw [List.mem_append, List.mem_singleton, h.runnable]
    show _ ↔ (Function.update k.envs e { k.envs e with status := .runnable } x).status = .runnable
    by_cases hx : x = e
    · rw [hx, Function.update_self]
      exact ⟨fun _ => rfl, fun _ => Or.inr rfl⟩
    · rw [Function.update_of_ne hx]
      exact ⟨fun hr => hr.elim id fun hr => absurd hr hx, Or.inl⟩
  · intro x
    rw [← h.live]
    show (Function.update k.envs e { k.envs e with status := .runnable } x).status ≠ .free ↔ _
    by_cases hx : x = e
    · rw [hx, Function.update_self]
      exact ⟨fun _ => hlive, fun _ hc => by cases hc⟩
    · rw [Function.update_of_ne hx]
      rfl

/-- `sys_env_destroy` of a runnable child. -/
theorem destroy {c e envid : Nat} (s' : List Nat) (h : InOrder b k₀ role₀ k l s n)
    (hb : Booted b k₀ role₀) (hcur : k.curenv = some c) (hid : (k.envs e).id = envid) (h0 : envid ≠ 0)
    (hparent : (k.envs e).parentId = (k.envs c).id) (hne : e ≠ c) (he : e ∈ l)
    (hs' : ∀ x, x ∈ s' ↔ x ∈ s ∧ x ≠ e) (tf : Trapframe) :
    ∃ k', (KernOp.syscall tf (.envDestroy envid)).run k = .ok k' ∧
      InOrder b k₀ role₀ k' (l.erase e) s' 1 ∧
      k'.envs = Function.update k.envs e { k.envs e with status := .free } ∧
      k'.envFreeList = e :: k.envFreeList ∧ k'.mkenvidCount = k.mkenvidCount ∧
      k'.curenv = k.curenv := by
  have hlive := (h.live e).mpr (h.live_of_mem he)
  have hres : envid2env { k with tf := { tf with sepc := (tf.sepc + 4) % 2 ^ 32 } } c envid true = .ok e :=
    envid2env_ok hid h0 (hid ▸ h.table.slot e hlive) hlive fun _ => Or.inr hparent
  obtain ⟨pm, hfreed, hpages⟩ := envFree_retires h.ok hlive
    { tf with sepc := (tf.sepc + 4) % 2 ^ 32 }
  obtain ⟨q, hq, hrep⟩ := h.queue.remove he
  obtain ⟨k₁, hk₁, hfree⟩ : ∃ k₁ : Kernel, k₁ = (retired
      { k with tf := { tf with sepc := (tf.sepc + 4) % 2 ^ 32 } } e pm).withQueue .remove e q ∧
      envFree { k with tf := { tf with sepc := (tf.sepc + 4) % 2 ^ 32 } } e = .ok k₁ :=
    ⟨_, rfl, hpages.trans (tailqRemove_of hq)⟩
  have hexec : Syscall.exec { k with tf := { tf with sepc := (tf.sepc + 4) % 2 ^ 32 } } c
      (.envDestroy envid) = .ok (some 0, k₁) := by
    refine sysEnvDestroy_other hres hfree ?_
    rw [hk₁]
    exact fun hc => hne (Option.some.inj (hcur.symm.trans hc)).symm
  obtain ⟨tf₂, cpu, hrun⟩ := run_syscall_ok tf hcur hexec
  refine ⟨_, hrun, h.next hb hrun trivial id ?_ ?_ ?_ ?_ ?_, ?_, ?_, ?_, ?_⟩
  all_goals rw [hk₁]
  all_goals try rfl
  · exact hrep
  · intro x
    rw [h.queue.nodup.mem_erase_iff, h.runnable]
    show _ ↔ (Function.update k.envs e { k.envs e with status := .free } x).status = .runnable
    by_cases hx : x = e
    · rw [hx, Function.update_self]
      exact ⟨fun hr => absurd rfl hr.1, fun hr => by cases hr⟩
    · rw [Function.update_of_ne hx]
      exact ⟨And.right, fun hr => ⟨hx, hr⟩⟩
  · intro x
    rw [hs', ← h.live]
    show (Function.update k.envs e { k.envs e with status := .free } x).status ≠ .free ↔ _
    by_cases hx : x = e
    · rw [hx, Function.update_self]
      exact ⟨fun hr => absurd rfl hr, fun hr => absurd rfl hr.2⟩
    · rw [Function.update_of_ne hx]
      exact ⟨fun hr => ⟨hr, hx⟩, And.left⟩
  · exact List.length_pos_of_mem hfreed
  · exact h.idle

end InOrder

-- ---------------------------------------------------------------------------
-- A parent and its child
-- ---------------------------------------------------------------------------

/-- `a` may wake and destroy `e`. -/
structure Child (k : Kernel) (a e : Nat) : Prop where
  ne : e ≠ a
  id : (k.envs e).id ≠ 0
  parent : (k.envs e).parentId = (k.envs a).id

theorem Child.of_ident {a e : Nat} (h : Child k a e)
    (hident : ∀ x, (k'.envs x).ident = (k.envs x).ident) : Child k' a e := by
  have hid : ∀ x, (k'.envs x).id = (k.envs x).id := fun x => congrArg Prod.fst (hident x)
  have hpar : (k'.envs e).parentId = (k.envs e).parentId := congrArg (fun t => t.2.2) (hident e)
  refine ⟨h.ne, ?_, ?_⟩
  · rw [hid]
    exact h.id
  · rw [hpar, hid]
    exact h.parent

namespace InOrder

variable {a e : Nat}

/-- `a`, alone, forks. -/
theorem forkChild (h : InOrder b k₀ role₀ k [a] [a] (n + 1)) (hb : Booted b k₀ role₀)
    (hcur : k.curenv = some a) (hcount : k.mkenvidCount + 1 < 2 ^ 21) :
    ∃ e k', (KernOp.syscall zeroTrapframe .exofork).run k = .ok k' ∧
      (KernOp.syscall zeroTrapframe .exofork).event k = .born e ∧
      InOrder b k₀ role₀ k' [a] [e, a] n ∧ Child k' a e ∧ Born k k' e (k.envs a).id := by
  obtain ⟨e, k', hfork, hev, h', hnew, hborn⟩ :=
    h.fork hb (show 1 < NASID by decide) hcur zeroTrapframe
  have hea : e ≠ a := fun hc => hnew (hc ▸ List.mem_cons_self)
  refine ⟨e, k', hfork, hev, h', ⟨hea, ?_, ?_⟩, hborn⟩
  · rw [hborn.id, mkenvid_eq k (h'.table.liveLt e ((h'.live e).mpr List.mem_cons_self))]
    omega
  · rw [hborn.parent, hborn.other a (Ne.symm hea)]

/-- It makes its child runnable. -/
theorem wakeChild (h : InOrder b k₀ role₀ k [a] [e, a] n) (hb : Booted b k₀ role₀)
    (hcur : k.curenv = some a) (hchild : Child k a e) :
    ∃ k', (KernOp.syscall zeroTrapframe (.setEnvStatus (k.envs e).id 1)).run k = .ok k' ∧
      InOrder b k₀ role₀ k' [a, e] [e, a] n ∧ Child k' a e ∧
      OneEnv k k' e { k.envs e with status := .runnable } := by
  obtain ⟨k', hrun, h', hone⟩ := h.wake hb hcur rfl hchild.id hchild.parent List.mem_cons_self
    (fun hm => hchild.ne (List.mem_singleton.mp hm)) zeroTrapframe
  exact ⟨k', hrun, h', hchild.of_ident (h.table.ident_eq hrun rfl), hone⟩

/-- It destroys its child. -/
theorem destroyChild (h : InOrder b k₀ role₀ k [a, e] [e, a] n) (hb : Booted b k₀ role₀)
    (hcur : k.curenv = some a) (hchild : Child k a e) :
    ∃ k', (KernOp.syscall zeroTrapframe (.envDestroy (k.envs e).id)).run k = .ok k' ∧
      InOrder b k₀ role₀ k' [a] [a] 1 ∧
      k'.envs = Function.update k.envs e { k.envs e with status := .free } ∧
      k'.envFreeList = e :: k.envFreeList ∧ k'.mkenvidCount = k.mkenvidCount ∧
      k'.curenv = some a := by
  have hrest : ∀ x, x ∈ [a] ↔ x ∈ [e, a] ∧ x ≠ e := by
    intro x
    rw [List.mem_singleton, List.mem_pair]
    constructor
    · rintro rfl
      exact ⟨Or.inr rfl, Ne.symm hchild.ne⟩
    · rintro ⟨hx, hxe⟩
      exact hx.resolve_left hxe
  have herase : [a, e].erase e = [a] := by
    rw [List.erase_cons_tail (by simp [Ne.symm hchild.ne]), List.erase_cons_head]
  obtain ⟨k', hrun, h', henvs, hfree, hcount, hcur'⟩ := h.destroy [a] hb hcur rfl hchild.id
    hchild.parent hchild.ne (by simp) hrest zeroTrapframe
  rw [herase] at h'
  exact ⟨k', hrun, h', henvs, hfree, hcount, hcur'.trans hcur⟩

end InOrder

-- ---------------------------------------------------------------------------
-- A kernel to start from
-- ---------------------------------------------------------------------------

/-- A kernel that uses one megabyte above its stack; the rest of memory is zero. -/
def smallBoot : BootState where
  freemem := KSTACKTOP + 256 * BY2PG
  mem := fun _ _ => 0
  disk := virtioDiskInit 0 fun _ => ⟨0, 0, 0⟩
  kernelPgdir := fun _ => 0
  pages := 1024
  envs := 1071
  kernelLow := fun _ _ => rfl
  kernelPde := fun _ => rfl
  kernelPte := fun _ h => by cases h
  usedLe := by decide
  pagesUsed := by decide
  envsUsed := by decide

/-- Nothing is mapped below `UTOP`, and there is no copy of the directory. -/
structure EmptySpace (k : Kernel) (a : Nat) : Prop where
  copy : (k.envs a).pgdirCopyPa = 0
  slots : ∀ i < PDX UTOP, k.pm.mem (k.envs a).pgdir i = 0

/-- After boot, one env is created and the first tick resumes it. -/
theorem smallBoot_first :
    ∃ k₀ role₀ k₁ k₂ a, smallBoot.boot = .ok k₀ ∧ Booted smallBoot k₀ role₀ ∧
      (KernOp.create (some ⟨UTEXT, []⟩) 1).run k₀ = .ok k₁ ∧
      (KernOp.tick zeroTrapframe).run k₁ = .ok k₂ ∧
      InOrder smallBoot k₀ role₀ k₀ [] [] 101 ∧ InOrder smallBoot k₀ role₀ k₁ [a] [a] 100 ∧
      InOrder smallBoot k₀ role₀ k₂ [a] [a] 100 ∧ k₂.curenv = some a ∧ k₂.mkenvidCount = 1 ∧
      EmptySpace k₂ a := by
  obtain ⟨k₀, role₀, hboot, hb⟩ := boot_ok smallBoot (by decide)
  have h₀ : InOrder smallBoot k₀ role₀ k₀ [] [] 101 := hb.inOrder rfl (by decide)
  have hcur₀ : k₀.curenv = none ∧ k₀.mkenvidCount = 0 := by
    obtain ⟨pm, p, hk⟩ := hb.eq
    rw [hk]
    exact ⟨rfl, rfl⟩
  obtain ⟨a, k₁, hcreate, h₁, -, hborn⟩ := h₀.create hb (by decide) UTEXT 1
  obtain ⟨k₂, htick, h₂, hcur, hres⟩ := h₁.tick zeroTrapframe fun c hc => by
    rw [hborn.curenv, hcur₀.1] at hc
    cases hc
  refine ⟨k₀, role₀, k₁, k₂, a, hboot, hb, hcreate, htick, h₀, h₁, h₂, hcur, ?_, ?_⟩
  · rw [hres.count, hborn.count, hcur₀.2]
    rfl
  · obtain ⟨hcopy, hlow⟩ := hborn.space fun hnil => by
      have hlen := h₀.room
      rw [hnil] at hlen
      exact absurd hlen (by decide)
    refine ⟨?_, fun i hi => ?_⟩
    · rw [hres.field Env.pgdirCopyPa fun _ _ _ => rfl]
      exact hcopy
    · rw [hres.field Env.pgdir fun _ _ _ => rfl, hres.pm, hlow i hi, hb.kernelPgdir_eq]
      rfl

end Mos.Kern
