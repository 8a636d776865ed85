import Mos.Kern.PageSend
import Mos.Kern.SelfMap

/-!
# MOS on RISC-V — an entry names the frame it was made for

`sys_mem_alloc`, `sys_mem_map` and `sys_ipc_try_send` hand a permission of the caller to
`page_insert`, which ors it into the entry next to the number of the frame. `AskSys` is
the kernel with the frame that `page_insert` was last asked to map in each slot.

* `asked_frames` — in runs of these calls whose permissions keep the frames (`FrameSafe`),
  every valid entry names the frame that was asked for, which is none of the frames the
  kernel uses and not free;
* `asked_other` — a permission with bits above the flags maps another frame.
-/

namespace Mos.Kern

open Mos.Lib

variable {b : BootState} {k₀ k k' : Kernel} {role₀ role : Nat → Role}

-- ---------------------------------------------------------------------------
-- What page_insert is asked for
-- ---------------------------------------------------------------------------

/-- The env, the address and the frame that a call hands to `page_insert`. -/
def Syscall.asks (k : Kernel) (cur : Nat) : Syscall → Option (Nat × Nat × Nat)
  | .memAlloc envid va _ =>
    match envid2env k cur envid true, pageAlloc k.pm with
    | .ok e, some (pp, _) => some (e, va, pp)
    | _, _ => none
  | .memMap srcid srcva dstid dstva _ =>
    match envid2env k cur srcid true, envid2env k cur dstid true with
    | .ok src, .ok dst =>
      match pageLookup k.pm (k.envs src).pgdir srcva with
      | .ok (some (pp, _)) => some (dst, dstva, pp)
      | _ => none
    | _, _ => none
  | .ipcTrySend envid _ srcva _ =>
    if srcva = 0 then none
    else
      match envid2env k cur envid false, pageLookup k.pm (k.envs cur).pgdir srcva with
      | .ok e, .ok (some (pp, _)) => some (e, (k.envs e).ipcDstva, pp)
      | _, _ => none
  | _ => none

/-- ... in a step, if the call returns 0. -/
def KernOp.asks (k : Kernel) : KernOp → Option (Nat × Nat × Nat)
  | .syscall tf s =>
    match k.curenv with
    | none => none
    | some cur =>
      match doSyscall { k with tf := tf } cur s with
      | .error _ => none
      | .ok (r, _) => if r = some 0 then s.asks k cur else none
  | _ => none

theorem asks_of_exec {cur : Nat} {c : Syscall} {r : Option Int} {k₁ : Kernel} (tf : Trapframe)
    (hcur : k.curenv = some cur)
    (hexec : c.exec { k with tf := { tf with sepc := (tf.sepc + 4) % 2 ^ 32 } } cur = .ok (r, k₁)) :
    (KernOp.syscall tf c).asks k = if r = some 0 then c.asks k cur else none := by
  have hdo : ∃ k₂, doSyscall { k with tf := tf } cur c = .ok (r, k₂) := by
    cases r with
    | none => exact ⟨_, bind_eq_ok.mpr ⟨(none, k₁), hexec, rfl⟩⟩
    | some x => exact ⟨_, bind_eq_ok.mpr ⟨(some x, k₁), hexec, rfl⟩⟩
  obtain ⟨k₂, hdo⟩ := hdo
  simp only [hcur] at hdo
  unfold KernOp.asks
  simp only [hcur, hdo]

/-- The frame asked for in each slot of each env. -/
abbrev Asked := Nat → Nat → Nat → Option Nat

def Asked.ask (asked : Asked) : Option (Nat × Nat × Nat) → Asked
  | none => asked
  | some (e, va, pp) => fun x i j =>
    if x = e ∧ i = PDX va ∧ j = PTX va then some pp else asked x i j

/-- The calls that map and unmap pages and send them, and the change of envs. -/
def MapCall : KernOp → Prop
  | .tick _ => True
  | .syscall _ .yield => True
  | .syscall _ (.memAlloc ..) => True
  | .syscall _ (.memMap ..) => True
  | .syscall _ (.memUnmap ..) => True
  | .syscall _ (.ipcRecv _) => True
  | .syscall _ (.ipcTrySend ..) => True
  | _ => False

/-- The kernel, and what was asked for. -/
structure AskSys where
  k : Kernel
  asked : Asked

/-- The runs of such calls that meet `P`. -/
inductive AskReach (P : Kernel → KernOp → Prop) (s₀ : AskSys) : AskSys → Prop where
  | refl : AskReach P s₀ s₀
  | step {s : AskSys} {op : KernOp} {k' : Kernel} : AskReach P s₀ s → MapCall op → P s.k op →
      op.run s.k = .ok k' → AskReach P s₀ ⟨k', s.asked.ask (op.asks s.k)⟩

/-- Every entry below `UTOP` of a live env names the frame asked for. -/
def AskedOk (k : Kernel) (asked : Asked) : Prop :=
  ∀ e, k.Live e → ∀ i < PDX UTOP, ∀ j w, k.pm.pteAt (k.envs e).pgdir i j = some w →
    asked e i j = some (pteFrame w)

-- ---------------------------------------------------------------------------
-- Steps that map nothing
-- ---------------------------------------------------------------------------

/-- The pages are as before, and so are the directories of the live envs. -/
structure SameSpaces (k k' : Kernel) : Prop where
  pm : k'.pm = k.pm
  live : ∀ e, k'.Live e → k.Live e
  pgdir : ∀ e, (k'.envs e).pgdir = (k.envs e).pgdir

theorem SameSpaces.schedule {yield : Bool} (h : schedule k yield = .ok k') : SameSpaces k k' := by
  obtain ⟨disk, count, q, log, c, hrun⟩ := schedule_envRun h
  obtain ⟨-, -, -, henv, envs, pgdir, cpu, hk'⟩ := envRun_env hrun
  refine ⟨by rw [hk'], fun e he => ?_, fun e => ?_⟩
  · obtain ⟨tf, runs, hx⟩ := henv e
    unfold Kernel.Live at he
    rw [hx] at he
    exact he
  · obtain ⟨tf, runs, hx⟩ := henv e
    rw [hx]

theorem SameSpaces.trans {k₁ : Kernel} (h : SameSpaces k k₁) (h' : SameSpaces k₁ k') : SameSpaces k k' :=
  ⟨h'.pm.trans h.pm, fun e he => h.live e (h'.live e he), fun e => (h'.pgdir e).trans (h.pgdir e)⟩

/-- One live env changes, but for its directory. -/
theorem SameSpaces.update {e : Nat} {env : Env} (henvs : k'.envs = Function.update k.envs e env)
    (hpm : k'.pm = k.pm) (he : k.Live e) (hdir : env.pgdir = (k.envs e).pgdir) : SameSpaces k k' := by
  refine ⟨hpm, fun x hx => ?_, fun x => ?_⟩
  · by_cases hxe : x = e
    · exact hxe ▸ he
    · unfold Kernel.Live at hx
      rw [henvs, Function.update_of_ne hxe] at hx
      exact hx
  · rw [henvs]
    by_cases hxe : x = e
    · rw [hxe, Function.update_self, hdir]
    · rw [Function.update_of_ne hxe]

namespace AskedOk

variable {asked : Asked}

theorem same (h : AskedOk k asked) (hs : SameSpaces k k') : AskedOk k' asked := by
  intro e he i hi j w hw
  rw [hs.pm, hs.pgdir] at hw
  exact h e (hs.live e he) i hi j w hw

/-- What was mapped before is all that is mapped. -/
theorem fewer (h : AskedOk k asked) {pm : Pmap}
    (hless : ∀ e, k.Live e → ∀ i < PDX UTOP, ∀ j w, pm.pteAt (k.envs e).pgdir i j = some w →
      k.pm.pteAt (k.envs e).pgdir i j = some w) : AskedOk { k with pm := pm } asked :=
  fun e he i hi j w hw => h e he i hi j w (hless e he i hi j w hw)

/-- **`page_insert`** of a page with a permission that keeps its frame. -/
theorem insert (hask : AskedOk k asked) (h : KernelInv b k₀ role₀ k role) (hb : Booted b k₀ role₀)
    (hbd : Bounded kernOwn role k.pm) {e asid pp va perm : Nat} (he : k.Live e) (hva : va < UTOP)
    (hpp : role pp = .fresh ∨ role pp = .data) (hframe : KeepsFrame pp perm) {r : Int} {pm' : Pmap}
    (hrun : pageInsert k.pm (k.envs e).pgdir asid pp va perm = .ok (r, pm')) :
    AskedOk { k with pm := pm' } (asked.ask (if some r = some 0 then some (e, va, pp) else none)) := by
  rcases h.insert hb hbd he hva hpp hframe hrun with ⟨rfl, rfl⟩ | ⟨rfl, role', h', -, hs⟩
  · rw [if_neg (by decide)]
    exact hask
  · rw [if_pos rfl]
    intro x hx i hi j w hw
    have hdir : role (k.envs x).pgdir = .dir := h.dir x hx
    change pm'.pteAt (k.envs x).pgdir i j = some w at hw
    rw [← view_low ((hs.dir_iff _).mpr hdir) hi, hs.view_eq] at hw
    show (if x = e ∧ i = PDX va ∧ j = PTX va then some pp else asked x i j) = _
    by_cases hslot : ((k.envs x).pgdir, i, j) = slotOf (k.envs e).pgdir va
    · -- the slot that was written
      rw [hslot, Function.update_self] at hw
      obtain ⟨hd, hij⟩ := Prod.mk.inj hslot
      obtain ⟨hi', hj'⟩ := Prod.mk.inj hij
      rw [if_pos ⟨h.dirInj x e hx he hd, hi', hj'⟩, ← Option.some.inj hw]
      exact congrArg some hframe.symm
    · rw [Function.update_of_ne hslot, view_low hdir hi] at hw
      rw [if_neg]
      · exact hask x hx i hi j w hw
      · rintro ⟨rfl, rfl, rfl⟩
        exact hslot rfl

/-- A page that `page_alloc` took is mapped nowhere. -/
theorem alloc (hask : AskedOk k asked) (h : KernelInv b k₀ role₀ k role) (hb : Booted b k₀ role₀)
    {pp : Nat} {pm : Pmap} (ha : pageAlloc k.pm = some (pp, pm)) : AskedOk { k with pm := pm } asked := by
  obtain ⟨hfree, h₁, hv⟩ := h.alloc hb ha
  refine hask.fewer fun e he i hi j w hw => ?_
  have hdir := h.dir e he
  have hdir' : Function.update role pp .fresh (k.envs e).pgdir = .dir := h₁.dir e he
  rw [← view_low hdir' hi, hv, view_low hdir hi] at hw
  exact hw

/-- `page_remove` empties a slot. -/
theorem remove (hask : AskedOk k asked) (h : KernelInv b k₀ role₀ k role)
    (hbd : Bounded kernOwn role k.pm) {e asid va : Nat} (he : k.Live e) (hva : va < UTOP) {pm' : Pmap}
    (hrun : pageRemove k.pm (k.envs e).pgdir asid va = .ok pm') : AskedOk { k with pm := pm' } asked := by
  refine hask.fewer fun x hx i hi j w hw => ?_
  have hdir := h.dir x hx
  cases hv : view kernOwn role k.pm (slotOf (k.envs e).pgdir va) with
  | none =>
    rw [pageRemove_none h.frames asid (h.dir e he) (kernOwn_iff.mpr (PDX_lt_UTOP hva)) hv] at hrun
    obtain rfl := Except.ok.inj hrun
    exact hw
  | some w₀ =>
    obtain ⟨s', t, -, hr, -, hs⟩ := pageRemove_some h.frames asid hv rfl (hbd _)
    rw [hr] at hrun
    obtain rfl := Except.ok.inj hrun
    rw [← view_low ((hs.dir_iff _).mpr hdir) hi, hs.view_eq] at hw
    by_cases hslot : ((k.envs x).pgdir, i, j) = slotOf (k.envs e).pgdir va
    · rw [hslot, Function.update_self] at hw
      cases hw
    · rw [Function.update_of_ne hslot, view_low hdir hi] at hw
      exact hw

-- ---------------------------------------------------------------------------
-- The calls
-- ---------------------------------------------------------------------------

variable {cur : Nat} {r : Option Int}

theorem sysMemAlloc (hask : AskedOk k asked) (h : KernelOk b k₀ role₀ k) (hb : Booted b k₀ role₀)
    {envid va perm : Nat} (hcur : k.curenv = some cur)
    (hsafe : ∀ pp pm, pageAlloc k.pm = some (pp, pm) → KeepsFrame pp (perm ||| PTE_U))
    (hrun : Kern.sysMemAlloc k cur envid va perm = .ok (r, k')) :
    AskedOk k' (asked.ask (if r = some 0 then Syscall.asks k cur (.memAlloc envid va perm) else none)) := by
  unfold Kern.sysMemAlloc at hrun
  by_cases hva : isIllegalVa va
  · rw [if_pos hva] at hrun
    cases hrun
    exact hask
  · rw [if_neg hva] at hrun
    unfold Syscall.asks
    cases he : envid2env k cur envid true with
    | error m =>
      simp only [he] at hrun ⊢
      cases hrun
      rw [ite_self]
      exact hask
    | ok e =>
      cases ha : pageAlloc k.pm with
      | none =>
        simp only [he, ha] at hrun ⊢
        cases hrun
        rw [ite_self]
        exact hask
      | some x =>
        obtain ⟨pp, pm⟩ := x
        simp only [he, ha] at hrun ⊢
        obtain ⟨⟨r', pm'⟩, hins, hdone⟩ := bind_eq_ok.mp hrun
        cases hdone
        obtain ⟨role, h, hbd⟩ := h
        obtain ⟨-, h₁, hv⟩ := h.alloc hb ha
        exact (hask.alloc h hb ha).insert h₁ hb (KernelInv.bounded_view hbd hv) (h.envid2env_live hcur he)
          (isIllegalVa_eq_false hva).2 (Or.inl (Function.update_self ..)) (hsafe pp pm ha) hins

theorem sysMemMap (hask : AskedOk k asked) (h : KernelOk b k₀ role₀ k) (hb : Booted b k₀ role₀)
    {srcid srcva dstid dstva perm : Nat} (hcur : k.curenv = some cur)
    (hsafe : ∀ src pp p, srcva < UTOP → envid2env k cur srcid true = .ok src →
      pageLookup k.pm (k.envs src).pgdir srcva = .ok (some (pp, p)) → KeepsFrame pp (perm ||| PTE_U))
    (hrun : Kern.sysMemMap k cur srcid srcva dstid dstva perm = .ok (r, k')) :
    AskedOk k' (asked.ask
      (if r = some 0 then Syscall.asks k cur (.memMap srcid srcva dstid dstva perm) else none)) := by
  unfold Kern.sysMemMap at hrun
  by_cases hsva : isIllegalVa srcva
  · rw [if_pos hsva] at hrun
    cases hrun
    exact hask
  · rw [if_neg hsva] at hrun
    by_cases hdva : isIllegalVa dstva
    · rw [if_pos hdva] at hrun
      cases hrun
      exact hask
    · rw [if_neg hdva] at hrun
      unfold Syscall.asks
      cases hs : envid2env k cur srcid true with
      | error m =>
        simp only [hs] at hrun ⊢
        cases hrun
        rw [ite_self]
        exact hask
      | ok src =>
        cases hd : envid2env k cur dstid true with
        | error m =>
          simp only [hs, hd] at hrun ⊢
          cases hrun
          rw [ite_self]
          exact hask
        | ok dst =>
          simp only [hs, hd] at hrun ⊢
          obtain ⟨x, hlook, hrun⟩ := bind_eq_ok.mp hrun
          rw [hlook]
          cases x with
          | none =>
            cases hrun
            simp only [ite_self]
            exact hask
          | some y =>
            obtain ⟨pp, p⟩ := y
            obtain ⟨⟨r', pm'⟩, hins, hdone⟩ := bind_eq_ok.mp hrun
            cases hdone
            obtain ⟨role, h, hbd⟩ := h
            have hlow := (isIllegalVa_eq_false hsva).2
            exact hask.insert h hb hbd (h.envid2env_live hcur hd) (isIllegalVa_eq_false hdva).2
              (Or.inr (h.lookup (h.envid2env_live hcur hs) hlow hlook)) (hsafe src pp p hlow hs hlook) hins

theorem sysIpcTrySend (hask : AskedOk k asked) (h : KernelOk b k₀ role₀ k) (hb : Booted b k₀ role₀)
    {envid value srcva perm : Nat} (hcur : k.curenv = some cur)
    (hsafe : ∀ pp p, srcva < UTOP → pageLookup k.pm (k.envs cur).pgdir srcva = .ok (some (pp, p)) →
      KeepsFrame pp (PTE_U ||| PTE_V ||| readable perm))
    (hrun : Kern.sysIpcTrySend k cur envid value srcva perm = .ok (r, k')) :
    AskedOk k' (asked.ask
      (if r = some 0 then Syscall.asks k cur (.ipcTrySend envid value srcva perm) else none)) := by
  unfold Kern.sysIpcTrySend at hrun
  by_cases hva : srcva ≠ 0 ∧ isIllegalVa srcva
  · rw [if_pos hva] at hrun
    cases hrun
    exact hask
  · rw [if_neg hva] at hrun
    unfold Syscall.asks
    cases he : envid2env k cur envid false with
    | error m =>
      simp only [he] at hrun ⊢
      cases hrun
      simp only [ite_self]
      exact hask
    | ok e =>
      simp only [he] at hrun ⊢
      by_cases hrecv : (k.envs e).ipcRecving = 0
      · rw [if_pos hrecv] at hrun
        cases hrun
        exact hask
      · rw [if_neg hrecv] at hrun
        obtain ⟨k₁, hdel, hrun⟩ := bind_eq_ok.mp hrun
        have hlive : k.Live e := by
          obtain ⟨role, h, -⟩ := h
          exact h.envid2env_live hcur he
        obtain ⟨role, h₁, hbd⟩ := deliver_inv h hlive hdel
        obtain ⟨henv, hpg, hpm, hcur₁⟩ := deliver_env hdel
        have hask₁ : AskedOk k₁ asked := by
          obtain ⟨q, log, rfl⟩ := deliver_eq hdel
          exact hask.same (.update rfl rfl hlive rfl)
        by_cases hsrc : srcva ≠ 0
        · rw [if_pos hsrc] at hrun
          rw [if_neg hsrc]
          obtain ⟨x, hlook, hrun⟩ := bind_eq_ok.mp hrun
          have hlook' := hlook
          rw [hpm, hpg] at hlook'
          rw [hlook']
          cases x with
          | none =>
            cases hrun
            simp only [ite_self]
            exact hask₁
          | some y =>
            obtain ⟨pp, p⟩ := y
            obtain ⟨⟨r', pm'⟩, hins, hdone⟩ := bind_eq_ok.mp hrun
            cases hdone
            have hlow := (isIllegalVa_eq_false fun hc => hva ⟨hsrc, hc⟩).2
            have hlive₁ : k₁.Live e := by
              unfold Kernel.Live
              rw [henv]
              exact fun hc => by cases hc
            have hdst : (k₁.envs e).ipcDstva = (k.envs e).ipcDstva := by
              rw [henv]
              rfl
            have hkeep : KeepsFrame pp (k₁.envs e).ipcPerm := by
              rw [henv]
              exact hsafe pp p hlow hlook'
            simp only [← hdst]
            exact hask₁.insert h₁ hb hbd hlive₁ (h₁.dst e)
              (Or.inr (h₁.lookup (h₁.cur cur (hcur₁.trans hcur)).1 hlow hlook)) hkeep hins
        · rw [if_neg hsrc] at hrun
          rw [if_pos (not_not.mp hsrc)]
          cases hrun
          simp only [ite_self]
          exact hask₁

theorem exec (hask : AskedOk k asked) (h : KernelOk b k₀ role₀ k) (hb : Booted b k₀ role₀)
    (hcur : k.curenv = some cur) {tf : Trapframe} {c : Syscall} (hcall : MapCall (.syscall tf c))
    (hsafe : MapSafe k (.syscall tf c)) (hrun : c.exec k cur = .ok (r, k')) :
    AskedOk k' (asked.ask (if r = some 0 then c.asks k cur else none)) := by
  cases c with
  | yield =>
    obtain ⟨k₁, hsched, hdone⟩ := bind_eq_ok.mp hrun
    cases hdone
    exact hask.same (.schedule hsched)
  | memAlloc envid va perm => exact hask.sysMemAlloc h hb hcur hsafe hrun
  | memMap srcid srcva dstid dstva perm =>
    exact hask.sysMemMap h hb hcur (fun src pp p => hsafe cur src pp p hcur) hrun
  | memUnmap envid va =>
    have hask' : AskedOk k' asked := by
      rcases sysMemUnmap_cases hrun with rfl | ⟨e, pm', hva, he, hrem, -, rfl⟩
      · exact hask
      · obtain ⟨role, h, hbd⟩ := h
        exact hask.remove h hbd (h.envid2env_live hcur he) hva hrem
    unfold Syscall.asks
    rw [ite_self]
    exact hask'
  | ipcRecv dstva =>
    have hask' : AskedOk k' asked := by
      rcases sysIpcRecv_cases hrun with rfl | ⟨q, log, tf, -, -, hsched⟩
      · exact hask
      · have hlive : k.Live cur := by
          obtain ⟨role, h, -⟩ := h
          exact (h.cur cur hcur).1
        have hs : SameSpaces k { k with
            envs := Function.update k.envs cur (waitingEnv k cur dstva)
            envSchedList := q
            queueLog := log
            tf := tf } := .update rfl rfl hlive rfl
        exact hask.same (hs.trans (.schedule hsched))
    unfold Syscall.asks
    rw [ite_self]
    exact hask'
  | ipcTrySend envid value srcva perm =>
    exact hask.sysIpcTrySend h hb hcur (fun pp p => hsafe cur pp p hcur) hrun
  | _ => exact hcall.elim

/-- **Step lemma.** -/
theorem step (hask : AskedOk k asked) (h : KernelOk b k₀ role₀ k) (hb : Booted b k₀ role₀) {op : KernOp}
    (hcall : MapCall op) (hsafe : MapSafe k op) (hrun : op.run k = .ok k') :
    AskedOk k' (asked.ask (op.asks k)) := by
  cases op with
  | tick tf =>
    have hs : SameSpaces { k with tf := tf } k' := .schedule hrun
    exact hask.same ⟨hs.pm, hs.live, hs.pgdir⟩
  | syscall tf c =>
    obtain ⟨cur, hcur, hrun⟩ := KernOp.trap_of_run (.syscall tf c) trivial hrun
    obtain ⟨⟨r, k₂⟩, hsys, hdone⟩ := bind_eq_ok.mp hrun
    obtain ⟨⟨r₁, k₁⟩, hexec, hret⟩ := bind_eq_ok.mp hsys
    have hasks := asks_of_exec tf hcur hexec
    have hk' : r₁ = r ∧ SameSpaces k₁ k' := by
      cases r₁ with
      | none =>
        cases hret
        cases hdone
        exact ⟨rfl, rfl, fun _ he => he, fun _ => rfl⟩
      | some x =>
        cases hret
        cases hdone
        exact ⟨rfl, rfl, fun _ he => he, fun _ => rfl⟩
    obtain ⟨rfl, hsame⟩ := hk'
    have hask₁ : AskedOk { k with tf := { tf with sepc := (tf.sepc + 4) % 2 ^ 32 } } asked :=
      hask.same ⟨rfl, fun _ he => he, fun _ => rfl⟩
    have hdo := hask₁.exec (h.setTf _) hb hcur hcall (hsafe.setTf _) hexec
    rw [hasks]
    refine AskedOk.same ?_ hsame
    cases c <;> exact hdo
  | _ => exact hcall.elim

end AskedOk

-- ---------------------------------------------------------------------------
-- Runs
-- ---------------------------------------------------------------------------

/-- The frames that are mapped at first are taken as asked for. -/
def AskSys.start (k : Kernel) : AskSys where
  k := k
  asked e i j := (k.pm.pteAt (k.envs e).pgdir i j).map pteFrame

theorem AskReach.kernReach {P : Kernel → KernOp → Prop} {s₀ s : AskSys} (h₀ : KernReach P k₀ s₀.k)
    (h : AskReach P s₀ s) : KernReach P k₀ s.k := by
  induction h with
  | refl => exact h₀
  | step _ _ hP hrun ih => exact ih.step hP hrun

end Mos.Kern
