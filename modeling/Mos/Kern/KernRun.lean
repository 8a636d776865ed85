import Mos.Kern.FreeInv

/-!
# MOS on RISC-V — the kernel invariant along every run

`FrameSafe` names the steps that neither write a wrong frame into an entry nor
map a frame `2 ^ 16` times, and that find a page for a new directory. Each such
step keeps the kernel invariant (`KernelOk.step`), so it holds in every state of
every run of such steps (`KernReach.kernelOk`).
-/

namespace Mos.Kern

open Mos.Lib

variable {b : BootState} {k₀ k : Kernel} {role₀ role : Nat → Role}

-- ---------------------------------------------------------------------------
-- Mappings, without roles
-- ---------------------------------------------------------------------------

open Classical in
/-- The frame that a slot of the directory of a live env maps. -/
noncomputable def Kernel.leaf (k : Kernel) (x : Nat × Nat × Nat) : Option Nat :=
  if (∃ e, k.Live e ∧ (k.envs e).pgdir = x.1) ∧ x.2.1 < PDX UTOP then
    (k.pm.pteAt x.1 x.2.1 x.2.2).map pteFrame
  else none

/-- The number of mappings of the frame `f` below `UTOP`, over all live envs. -/
noncomputable def Kernel.refs (k : Kernel) (f : Nat) : Nat := refCount slots k.leaf f

/-- No frame has `2 ^ 16` references. -/
def Kernel.RefsFit (k : Kernel) : Prop := ∀ f, k.refs f < 2 ^ 16

theorem KernelInv.leaf_eq (h : KernelInv b k₀ role₀ k role) :
    k.leaf = Mos.Kern.leaf kernOwn role k.pm := by
  funext x
  have hdir : (∃ e, k.Live e ∧ (k.envs e).pgdir = x.1) ↔ role x.1 = .dir := by
    constructor
    · rintro ⟨e, he, hx⟩
      rw [← hx]
      exact h.dir e he
    · exact h.dirEnv x.1
  unfold Kernel.leaf Mos.Kern.leaf view
  simp only [hdir, kernOwn_iff]
  split_ifs <;> rfl

theorem KernelInv.bounded_iff (h : KernelInv b k₀ role₀ k role) :
    Bounded kernOwn role k.pm ↔ k.RefsFit := by
  unfold Bounded Kernel.RefsFit leafRefs Kernel.refs
  rw [h.leaf_eq]

/-- The calls that map a frame that is mapped already. -/
def Syscall.Shares : Syscall → Prop
  | .memMap .. => True
  | .ipcTrySend .. => True
  | _ => False

def KernOp.Shares : KernOp → Prop
  | .syscall _ s => s.Shares
  | _ => False

/-- The kernel invariant for some roles; only a step that shares a frame can have
made a count too large. -/
def KernelSound (b : BootState) (k₀ : Kernel) (role₀ : Nat → Role) (shares : Prop) (k : Kernel) :
    Prop :=
  ∃ role, KernelInv b k₀ role₀ k role ∧ (¬ shares → Bounded kernOwn role k.pm)

theorem KernelOk.sound (h : KernelOk b k₀ role₀ k) (shares : Prop) :
    KernelSound b k₀ role₀ shares k := by
  obtain ⟨role, h, hbd⟩ := h
  exact ⟨role, h, fun _ => hbd⟩

theorem KernelOk.refsFit (h : KernelOk b k₀ role₀ k) : k.RefsFit := by
  obtain ⟨role, h, hbd⟩ := h
  exact h.bounded_iff.mp hbd

theorem KernelSound.ok {shares : Prop} (h : KernelSound b k₀ role₀ shares k)
    (hfit : shares → k.RefsFit) : KernelOk b k₀ role₀ k := by
  obtain ⟨role, h, hbd⟩ := h
  by_cases hs : shares
  · exact ⟨role, h, h.bounded_iff.mpr (hfit hs)⟩
  · exact ⟨role, h, hbd hs⟩

-- ---------------------------------------------------------------------------
-- The scheduler
-- ---------------------------------------------------------------------------

theorem envRun_inv (h : KernelInv b k₀ role₀ k role) {c : Nat} {k' : Kernel}
    (hrun : envRun k c = .ok k') : KernelInv b k₀ role₀ k' role := by
  obtain ⟨hst, hcur, hcurd, henv, envs, pgdir, cpu, hk'⟩ := envRun_env hrun
  have hsame : ∀ e, (k'.envs e).status = (k.envs e).status ∧ (k'.envs e).pgdir = (k.envs e).pgdir ∧
      (k'.envs e).pgdirCopyPa = (k.envs e).pgdirCopyPa ∧
      (k'.envs e).ipcDstva = (k.envs e).ipcDstva := by
    intro e
    obtain ⟨tf, n, he⟩ := henv e
    rw [he]
    exact ⟨rfl, rfl, rfl, rfl⟩
  have hlive : ∀ e, k'.Live e ↔ k.Live e := by
    intro e
    unfold Kernel.Live
    rw [(hsame e).1]
  refine h.congr (by rw [hk']) hlive (fun e _ => (hsame e).2.1) (fun e _ => (hsame e).2.2.1)
    (by rw [hk']) (by rw [hk']) (by rw [hk']) ?_ ?_
  · intro c' hc'
    rw [hcur, Option.some.injEq] at hc'
    subst hc'
    refine ⟨(hlive c).mpr ?_, hcurd.trans (hsame c).2.1.symm⟩
    unfold Kernel.Live
    rw [hst]
    simp
  · intro e
    rw [(hsame e).2.2.2]
    exact h.dst e

theorem schedule_inv (h : KernelInv b k₀ role₀ k role) {yield : Bool} {k' : Kernel}
    (hrun : schedule k yield = .ok k') : KernelInv b k₀ role₀ k' role := by
  obtain ⟨disk, count, q, log, c, hrun⟩ := schedule_envRun hrun
  refine envRun_inv (h.congr ?_ ?_ ?_ ?_ ?_ ?_ ?_ ?_ ?_) hrun
  · rfl
  · exact fun _ => Iff.rfl
  · exact fun _ _ => rfl
  · exact fun _ _ => rfl
  · rfl
  · rfl
  · rfl
  · exact h.cur
  · exact h.dst

theorem schedule_ok (h : KernelOk b k₀ role₀ k) {yield : Bool} {k' : Kernel}
    (hrun : schedule k yield = .ok k') : KernelOk b k₀ role₀ k' := by
  obtain ⟨role, h, hbd⟩ := h
  obtain ⟨_, _, _, _, c, hrun'⟩ := schedule_envRun hrun
  obtain ⟨-, -, -, -, _, _, _, hk'⟩ := envRun_env hrun'
  refine ⟨role, schedule_inv h hrun, ?_⟩
  rw [hk']
  exact hbd

/-- `env_free` of a live env; if it runs, it does not run on. -/
theorem envFree_inv (h : KernelOk b k₀ role₀ k) (hb : Booted b k₀ role₀) {e : Nat} (he : k.Live e)
    {k₁ : Kernel} (hfree : envFree k e = .ok k₁) :
    KernelOk b k₀ role₀ { k₁ with curenv := none } ∧
      (k₁.curenv ≠ some e → KernelOk b k₀ role₀ k₁) := by
  obtain ⟨role, h, hbd⟩ := h
  obtain ⟨s, role', hpages, hret⟩ := envFreePages_ok h hbd he
  obtain ⟨s', q, log, hpages', hk₁⟩ := envFree_eq hfree
  rw [hpages] at hpages'
  cases hpages'
  have henv : k₁.envs e = { k.envs e with status := .free } := by
    rw [hk₁]
    exact Function.update_self ..
  have hdead : ∀ cur, ¬ ({ k₁ with curenv := cur } : Kernel).Live e := fun cur hl =>
    hl (congrArg Env.status henv)
  have hother : ∀ x, x ≠ e → k₁.envs x = k.envs x := by
    intro x hx
    rw [hk₁]
    exact Function.update_of_ne hx ..
  have hdst : (k₁.envs e).ipcDstva < UTOP := by
    rw [henv]
    exact h.dst e
  have hbd₁ : Bounded kernOwn role' k₁.pm := by
    rw [hk₁]
    exact hret.bounded
  have hk : ∀ cur, (∀ c, cur = some c → c ≠ e ∧ k.curenv = some c) →
      KernelInv b k₀ role₀ { k₁ with curenv := cur } role' := by
    intro cur hcur
    refine h.retire hb he hret (by rw [hk₁]) (hdead cur) hdst hother (by rw [hk₁])
      (by rw [hk₁]) (by rw [hk₁]) ?_
    intro c hc
    obtain ⟨hce, hc'⟩ := hcur c hc
    exact ⟨hce, hc', by rw [hk₁]⟩
  refine ⟨⟨role', hk none (fun c hc => by cases hc), hbd₁⟩, ?_⟩
  intro hcur
  have hcur' : k₁.curenv = k.curenv := by rw [hk₁]
  refine ⟨role', hk k₁.curenv ?_, hbd₁⟩
  intro c hc
  refine ⟨?_, hcur' ▸ hc⟩
  intro hce
  rw [hce] at hc
  exact hcur hc

-- ---------------------------------------------------------------------------
-- System calls
-- ---------------------------------------------------------------------------

/-- The entry for `pp` under `perm` names `pp`: the bits of `perm` above the
flags add nothing to the frame number. -/
def KeepsFrame (pp perm : Nat) : Prop := pteFrame (mkPte pp (readable perm)) = pp

/-- No step writes a wrong frame into an entry, and a new directory finds a page. -/
def MapSafe (k : Kernel) : KernOp → Prop
  | .create binary _ => UserElf binary ∧ EnvRoom k
  | .syscall _ .exofork => EnvRoom k
  | .syscall _ (.memAlloc _ _ perm) => ∀ pp pm, pageAlloc k.pm = some (pp, pm) →
      KeepsFrame pp (perm ||| PTE_U)
  | .syscall _ (.memMap srcid srcva _ _ perm) => ∀ cur src pp p, k.curenv = some cur →
      srcva < UTOP → envid2env k cur srcid true = .ok src →
      pageLookup k.pm (k.envs src).pgdir srcva = .ok (some (pp, p)) → KeepsFrame pp (perm ||| PTE_U)
  | .syscall _ (.ipcTrySend _ _ srcva perm) => ∀ cur pp p, k.curenv = some cur → srcva < UTOP →
      pageLookup k.pm (k.envs cur).pgdir srcva = .ok (some (pp, p)) →
      KeepsFrame pp (PTE_U ||| PTE_V ||| readable perm)
  | _ => True

/-- ... and no frame is mapped `2 ^ 16` times after a call that shares one. -/
def FrameSafe (k : Kernel) (op : KernOp) : Prop :=
  MapSafe k op ∧ (op.Shares → ∀ k', op.run k = .ok k' → k'.RefsFit)

theorem KernelInv.envid2env_live (h : KernelInv b k₀ role₀ k role) {cur envid e : Nat}
    {checkperm : Bool} (hcur : k.curenv = some cur) (he : envid2env k cur envid checkperm = .ok e) :
    k.Live e := by
  rcases envid2env_cases he with ⟨-, rfl⟩ | ⟨-, -, hlive, -⟩
  · exact (h.cur e hcur).1
  · exact hlive

theorem sysEnvDestroy_inv (h : KernelOk b k₀ role₀ k) (hb : Booted b k₀ role₀) {cur envid : Nat}
    (hcur : k.curenv = some cur) {r : Option Int} {k' : Kernel}
    (hrun : sysEnvDestroy k cur envid = .ok (r, k')) : KernelOk b k₀ role₀ k' := by
  rcases sysEnvDestroy_cases hrun with ⟨rfl, -⟩ | ⟨e, k₁, he, hfree, hend⟩
  · exact h
  · have hlive : k.Live e := by
      obtain ⟨role, h, -⟩ := h
      exact h.envid2env_live hcur he
    obtain ⟨hnone, hsame⟩ := envFree_inv h hb hlive hfree
    rcases hend with ⟨hne, rfl⟩ | ⟨-, hsched⟩
    · exact hsame hne
    · exact schedule_ok hnone hsched

theorem sysMemAlloc_inv (h : KernelOk b k₀ role₀ k) (hb : Booted b k₀ role₀) {cur envid va perm : Nat}
    (hcur : k.curenv = some cur)
    (hsafe : ∀ pp pm, pageAlloc k.pm = some (pp, pm) → KeepsFrame pp (perm ||| PTE_U))
    {r : Option Int} {k' : Kernel} (hrun : sysMemAlloc k cur envid va perm = .ok (r, k')) :
    KernelOk b k₀ role₀ k' := by
  rcases sysMemAlloc_cases hrun with rfl | ⟨e, pp, pm, r', pm', hva, he, ha, hins, -, rfl⟩
  · exact h
  · obtain ⟨role, h, hbd⟩ := h
    obtain ⟨role', h', hbd', -⟩ :=
      h.allocInsert hb hbd (h.envid2env_live hcur he) hva ha (hsafe pp pm ha) hins
    exact ⟨role', h', hbd'⟩

theorem sysMemMap_inv (h : KernelOk b k₀ role₀ k) (hb : Booted b k₀ role₀)
    {cur srcid srcva dstid dstva perm : Nat} (hcur : k.curenv = some cur)
    (hsafe : ∀ src pp p, srcva < UTOP → envid2env k cur srcid true = .ok src →
      pageLookup k.pm (k.envs src).pgdir srcva = .ok (some (pp, p)) → KeepsFrame pp (perm ||| PTE_U))
    {r : Option Int} {k' : Kernel}
    (hrun : sysMemMap k cur srcid srcva dstid dstva perm = .ok (r, k')) :
    KernelSound b k₀ role₀ True k' := by
  rcases sysMemMap_cases hrun with
    rfl | ⟨src, dst, pp, p, r', pm', hsva, hdva, hs, hd, hlook, hins, -, rfl⟩
  · exact h.sound True
  · obtain ⟨role, h, hbd⟩ := h
    have hdata := h.lookup (h.envid2env_live hcur hs) hsva hlook
    rcases h.insert hb hbd (h.envid2env_live hcur hd) hdva (Or.inr hdata)
      (hsafe src pp p hsva hs hlook) hins with ⟨-, rfl⟩ | ⟨-, role', h', -⟩
    · exact ⟨role, h, fun hn => absurd trivial hn⟩
    · exact ⟨role', h', fun hn => absurd trivial hn⟩

theorem sysMemUnmap_inv (h : KernelOk b k₀ role₀ k) (hb : Booted b k₀ role₀) {cur envid va : Nat}
    (hcur : k.curenv = some cur) {r : Option Int} {k' : Kernel}
    (hrun : sysMemUnmap k cur envid va = .ok (r, k')) : KernelOk b k₀ role₀ k' := by
  rcases sysMemUnmap_cases hrun with rfl | ⟨e, pm', hva, he, hrem, -, rfl⟩
  · exact h
  · obtain ⟨role, h, hbd⟩ := h
    obtain ⟨role', h', hbd', -⟩ := h.remove hb hbd (h.envid2env_live hcur he) hva hrem
    exact ⟨role', h', hbd'⟩

theorem sysSetEnvStatus_inv (h : KernelOk b k₀ role₀ k) {cur envid status : Nat}
    (hcur : k.curenv = some cur) {r : Option Int} {k' : Kernel}
    (hrun : sysSetEnvStatus k cur envid status = .ok (r, k')) : KernelOk b k₀ role₀ k' := by
  rcases sysSetEnvStatus_cases hrun with rfl | ⟨e, st, q, log, he, hst, -, rfl⟩
  · exact h
  · obtain ⟨role, hk, -⟩ := id h
    have hlive : (k.envs e).status ≠ .free := hk.envid2env_live hcur he
    have h₁ := h.setEnv e (f := fun env => { env with status := st })
      ⟨fun hc => absurd hc hst, fun hc => absurd hc hlive⟩ rfl rfl (hk.dst e)
    exact h₁.congr rfl rfl rfl rfl rfl rfl rfl

theorem sysSetTrapframe_inv (h : KernelOk b k₀ role₀ k) (hb : Booted b k₀ role₀) {cur envid va : Nat}
    (hcur : k.curenv = some cur) {r : Option Int} {k' : Kernel}
    (hrun : sysSetTrapframe k cur envid va = .ok (r, k')) : KernelOk b k₀ role₀ k' := by
  rcases sysSetTrapframe_cases hrun with rfl | ⟨e, bs, k₁, tf, he, hload, hend⟩
  · exact h
  · have h₁ := (kernelLoads_inv h hb hcur hload).ok
    rcases hend with rfl | rfl
    · exact h₁.setTf tf
    · obtain ⟨role, h₂, -⟩ := id h₁
      exact h₁.setEnv e Iff.rfl rfl rfl (h₂.dst e)

theorem sysIpcRecv_inv (h : KernelOk b k₀ role₀ k) {cur dstva : Nat} (hcur : k.curenv = some cur)
    {r : Option Int} {k' : Kernel} (hrun : sysIpcRecv k cur dstva = .ok (r, k')) :
    KernelOk b k₀ role₀ k' := by
  rcases sysIpcRecv_cases hrun with rfl | ⟨q, log, tf, hlow, -, hsched⟩
  · exact h
  · have hlive : (k.envs cur).status ≠ .free := by
      obtain ⟨role, h, -⟩ := h
      exact (h.cur cur hcur).1
    have h₁ := h.setEnv cur (f := fun _ => waitingEnv k cur dstva)
      ⟨fun hc => (by cases hc), fun hc => absurd hc hlive⟩ rfl rfl hlow
    refine schedule_ok (h₁.congr ?_ ?_ ?_ ?_ ?_ ?_ ?_) hsched <;> rfl

/-- A message leaves the pages and the directories alone. -/
theorem deliver_inv (h : KernelOk b k₀ role₀ k) {cur e value perm : Nat} (he : k.Live e) {k₁ : Kernel}
    (hdel : deliver k cur e value perm = .ok k₁) : KernelOk b k₀ role₀ k₁ := by
  obtain ⟨q, log, rfl⟩ := deliver_eq hdel
  obtain ⟨role, hk, -⟩ := id h
  have h₁ := h.setEnv e (f := fun _ => deliveredEnv k cur e value perm)
    ⟨fun hc => (by cases hc), fun hc => absurd hc he⟩ rfl rfl (hk.dst e)
  exact h₁.congr rfl rfl rfl rfl rfl rfl rfl

theorem deliver_env {cur e value perm : Nat} {k₁ : Kernel}
    (hdel : deliver k cur e value perm = .ok k₁) :
    k₁.envs e = deliveredEnv k cur e value perm ∧ (∀ x, (k₁.envs x).pgdir = (k.envs x).pgdir) ∧
      k₁.pm = k.pm ∧ k₁.curenv = k.curenv := by
  obtain ⟨q, log, rfl⟩ := deliver_eq hdel
  refine ⟨Function.update_self .., ?_, rfl, rfl⟩
  intro x
  show (Function.update k.envs e (deliveredEnv k cur e value perm) x).pgdir = _
  by_cases hx : x = e
  · rw [hx, Function.update_self]
    rfl
  · rw [Function.update_of_ne hx]

theorem sysIpcTrySend_inv (h : KernelOk b k₀ role₀ k) (hb : Booted b k₀ role₀)
    {cur envid value srcva perm : Nat} (hcur : k.curenv = some cur)
    (hsafe : ∀ pp p, srcva < UTOP → pageLookup k.pm (k.envs cur).pgdir srcva = .ok (some (pp, p)) →
      KeepsFrame pp (PTE_U ||| PTE_V ||| readable perm))
    {r : Option Int} {k' : Kernel}
    (hrun : sysIpcTrySend k cur envid value srcva perm = .ok (r, k')) :
    KernelSound b k₀ role₀ True k' := by
  rcases sysIpcTrySend_cases hrun with rfl | ⟨e, k₁, he, -, hdel, hend⟩
  · exact h.sound True
  · have hlive : k.Live e := by
      obtain ⟨role, h, -⟩ := h
      exact h.envid2env_live hcur he
    have h₁ := deliver_inv h hlive hdel
    obtain ⟨henv, hpg, hpm, hcur₁⟩ := deliver_env hdel
    rcases hend with rfl | ⟨pp, p, r', pm', hlow, -, hlook, hins, -, rfl⟩
    · exact h₁.sound True
    · obtain ⟨role₁, h₁, hbd₁⟩ := h₁
      have hdata := h₁.lookup (h₁.cur cur (hcur₁.trans hcur)).1 hlow hlook
      rw [hpm, hpg] at hlook
      have hkeep : KeepsFrame pp (k₁.envs e).ipcPerm := by
        rw [henv]
        exact hsafe pp p hlow hlook
      have hlive₁ : k₁.Live e := by
        unfold Kernel.Live
        rw [henv]
        exact fun hc => by cases hc
      rcases h₁.insert hb hbd₁ hlive₁ (h₁.dst e) (Or.inr hdata) hkeep hins
        with ⟨-, rfl⟩ | ⟨-, role', h', -⟩
      · exact ⟨role₁, h₁, fun hn => absurd trivial hn⟩
      · exact ⟨role', h', fun hn => absurd trivial hn⟩

-- ---------------------------------------------------------------------------
-- Steps and runs
-- ---------------------------------------------------------------------------

theorem exec_inv (h : KernelOk b k₀ role₀ k) (hb : Booted b k₀ role₀) {cur : Nat}
    (hcur : k.curenv = some cur) (tf : Trapframe) {s : Syscall} (hsafe : MapSafe k (.syscall tf s))
    {r : Option Int} {k' : Kernel} (hrun : s.exec k cur = .ok (r, k')) :
    KernelSound b k₀ role₀ s.Shares k' := by
  cases s with
  | putchar left | getenvid | cgetc ch =>
    cases hrun
    exact h.sound _
  | printCons s num =>
    change sysPrintCons k cur s num = _ at hrun
    unfold sysPrintCons at hrun
    split_ifs at hrun
    · cases hrun
      exact h.sound _
    · obtain ⟨⟨bs, k₁⟩, hload, hdone⟩ := bind_eq_ok.mp hrun
      cases hdone
      exact (kernelLoads_inv h hb hcur hload).ok.sound _
  | yield =>
    obtain ⟨k₁, hsched, hdone⟩ := bind_eq_ok.mp hrun
    cases hdone
    exact (schedule_ok h hsched).sound _
  | envDestroy envid => exact (sysEnvDestroy_inv h hb hcur hrun).sound _
  | setTlbModEntry envid func =>
    change sysSetTlbModEntry k cur envid func = _ at hrun
    unfold sysSetTlbModEntry at hrun
    split at hrun
    · cases hrun
      exact h.sound _
    · cases hrun
      obtain ⟨role, hk, -⟩ := id h
      exact (h.setEnv _ Iff.rfl rfl rfl (hk.dst _)).sound _
  | memAlloc envid va perm => exact (sysMemAlloc_inv h hb hcur hsafe hrun).sound _
  | memMap srcid srcva dstid dstva perm =>
    exact sysMemMap_inv h hb hcur (fun src pp p => hsafe cur src pp p hcur) hrun
  | memUnmap envid va => exact (sysMemUnmap_inv h hb hcur hrun).sound _
  | exofork => exact (sysExofork_inv h hb hsafe hrun).1.sound _
  | setEnvStatus envid status => exact (sysSetEnvStatus_inv h hcur hrun).sound _
  | setTrapframe envid va => exact (sysSetTrapframe_inv h hb hcur hrun).sound _
  | panic => cases hrun
  | ipcTrySend envid value srcva perm =>
    exact sysIpcTrySend_inv h hb hcur (fun pp p => hsafe cur pp p hcur) hrun
  | ipcRecv dstva => exact (sysIpcRecv_inv h hcur hrun).sound _
  | devReq dev req =>
    obtain ⟨disk, rfl⟩ := sysDevReq_cases hrun
    refine KernelOk.sound (h.congr ?_ ?_ ?_ ?_ ?_ ?_ ?_) _ <;> rfl

/-- The registers a trap stores do not matter for the condition. -/
theorem MapSafe.setTf {op : KernOp} (hsafe : MapSafe k op) (tf : Trapframe) :
    MapSafe { k with tf := tf } op := by
  cases op with
  | syscall tf' s => cases s <;> exact hsafe
  | create _ _ | device _ | tick _ | fault _ | store _ _ => exact hsafe

/-- **Step lemma.** -/
theorem KernelOk.step (h : KernelOk b k₀ role₀ k) (hb : Booted b k₀ role₀) {op : KernOp}
    (hsafe : MapSafe k op) {k' : Kernel} (hrun : op.run k = .ok k') :
    KernelSound b k₀ role₀ op.Shares k' := by
  cases op with
  | create binary priority =>
    obtain ⟨e, hcreate⟩ := run_create hrun
    exact (envCreate_inv h hb hsafe.2 hsafe.1 hcreate).1.sound _
  | device disk =>
    cases hrun
    refine KernelOk.sound (h.congr ?_ ?_ ?_ ?_ ?_ ?_ ?_) _ <;> rfl
  | tick tf => exact (schedule_ok (h.setTf tf) hrun).sound _
  | store va x =>
    obtain ⟨cur, hcur, rfl⟩ := run_store hrun
    exact (userStore_inv h hb hcur va x).ok.sound _
  | fault tf =>
    obtain ⟨cur, k₁, cpu, hcur, hmiss, rfl⟩ := run_fault hrun
    have h₁ := (doTlbMiss_inv (h.setTf tf) hb hcur hmiss).ok
    refine KernelOk.sound (h₁.congr ?_ ?_ ?_ ?_ ?_ ?_ ?_) _ <;> rfl
  | syscall tf s =>
    obtain ⟨cur, tf₁, r, k₁, tf₂, cpu, hcur, hexec, rfl⟩ := run_syscall hrun
    obtain ⟨role, h₁, hbd⟩ := exec_inv (h.setTf tf₁) hb hcur tf (hsafe.setTf tf₁) hexec
    exact ⟨role, h₁.congr rfl (fun _ => Iff.rfl) (fun _ _ => rfl) (fun _ _ => rfl) rfl rfl rfl h₁.cur
      h₁.dst, hbd⟩

/-- The invariant after boot: no env is live yet. -/
theorem Booted.kernelOk (hb : Booted b k₀ role₀) : KernelOk b k₀ role₀ k₀ := by
  obtain ⟨pm, p, hk⟩ := hb.eq
  have henv : ∀ e, k₀.envs e = zeroEnv := by
    intro e
    rw [hk]
    rfl
  have hdead : ∀ e, ¬ k₀.Live e := by
    intro e he
    unfold Kernel.Live at he
    rw [henv] at he
    exact he rfl
  have hdir : ∀ f, role₀ f ≠ .dir := by
    intro f hf
    rcases hb.roles f with h | h | h <;> simp [h] at hf
  have hfree : k₀.envFreeList = List.range NENV := by
    rw [hk, firstKernel]
  have hcur : k₀.curenv = none := by
    rw [hk]
    rfl
  have hk₀ : KernelInv b k₀ role₀ k₀ role₀ := by
    refine ⟨hb.inv, fun _ hf => hf, fun _ _ _ => rfl, rfl, rfl, ?_, ?_, ?_, ?_, ?_, ?_, ?_, ?_, ?_, ?_,
      ?_, ?_⟩
    · rw [hfree]
      exact List.nodup_range
    · intro e
      rw [hfree, List.mem_range]
      exact ⟨fun he => ⟨he, hdead e⟩, fun he => he.1⟩
    · exact fun e he => absurd he (hdead e)
    · exact fun e he => absurd he (hdead e)
    · exact fun d hd => absurd hd (hdir d)
    · exact fun e _ he => absurd he (hdead e)
    · exact fun e he => absurd he (hdead e)
    · exact fun e he => absurd he (hdead e)
    · exact fun e _ _ he => absurd he (hdead e)
    · exact fun e he => absurd he (hdead e)
    · intro c hc
      rw [hcur] at hc
      cases hc
    · intro e
      rw [henv]
      decide
  refine ⟨role₀, hk₀, ?_⟩
  intro f
  have hzero : leafRefs kernOwn role₀ k₀.pm f = 0 := by
    refine refCount_eq_zero.mpr ?_
    intro x _ hx
    unfold leaf view at hx
    rw [if_neg (fun hc => hdir x.1 hc.1)] at hx
    cases hx
  rw [hzero]
  exact Nat.two_pow_pos 16

/-- **Run lemma.** -/
theorem KernReach.kernelOk (hb : Booted b k₀ role₀) (h : KernReach FrameSafe k₀ k) :
    KernelOk b k₀ role₀ k := by
  induction h with
  | refl => exact hb.kernelOk
  | step _ hP hrun ih => exact (ih.step hb hP.1 hrun).ok fun hs => hP.2 hs _ hrun

end Mos.Kern
