import Mos.Kern.DiskRing
import Mos.Kern.RefWrap

/-!
# MOS on RISC-V — the frames of disk requests

The device writes the buffer and the status of a request long after
`sys_dev_req` returned. `DiskRun` is the kernel with the requests the device has
not completed, by the address that was posted.

`virtio_disk_req` takes no reference to the page of the request, and neither
`page_remove` nor `env_free` asks whether one is in flight (`diskFrame_freed`).
What keeps the frame is its mappings: `leaf_step` says that a step takes away the
mappings it is asked to take away and no other, so the frame stays in use in every
run whose steps leave one mapping of it (`diskFrames_inUse`).
-/

namespace Mos.Kern

open Mos.Lib

variable {b : BootState} {k₀ k k' : Kernel} {role₀ role : Nat → Role} {x : Nat × Nat × Nat} {f : Nat}

-- ---------------------------------------------------------------------------
-- The mappings a step takes away
-- ---------------------------------------------------------------------------

/-- The step is a call that takes the mapping at slot `x` away, or puts another
frame there. -/
def Clears (k : Kernel) (op : KernOp) (x : Nat × Nat × Nat) : Prop :=
  match op with
  | .syscall _ (.memAlloc envid va _) => ∃ cur e, k.curenv = some cur ∧ isIllegalVa va = false ∧
      envid2env k cur envid true = .ok e ∧ k.pm.pageFreeList ≠ [] ∧ x = slotOf (k.envs e).pgdir va
  | .syscall _ (.memMap srcid srcva dstid dstva _) => ∃ cur src dst pp p, k.curenv = some cur ∧
      isIllegalVa srcva = false ∧ isIllegalVa dstva = false ∧
      envid2env k cur srcid true = .ok src ∧ envid2env k cur dstid true = .ok dst ∧
      pageLookup k.pm (k.envs src).pgdir srcva = .ok (some (pp, p)) ∧
      x = slotOf (k.envs dst).pgdir dstva ∧ k.leaf x ≠ some pp
  | .syscall _ (.memUnmap envid va) => ∃ cur e, k.curenv = some cur ∧ isIllegalVa va = false ∧
      envid2env k cur envid true = .ok e ∧ x = slotOf (k.envs e).pgdir va
  | .syscall _ (.ipcTrySend envid _ srcva _) => ∃ cur e pp p, k.curenv = some cur ∧
      isIllegalVa srcva = false ∧ envid2env k cur envid false = .ok e ∧ (k.envs e).ipcRecving ≠ 0 ∧
      pageLookup k.pm (k.envs cur).pgdir srcva = .ok (some (pp, p)) ∧
      x = slotOf (k.envs e).pgdir (k.envs e).ipcDstva ∧ k.leaf x ≠ some pp
  | .syscall _ (.envDestroy envid) => ∃ cur e, k.curenv = some cur ∧
      envid2env k cur envid true = .ok e ∧ x.1 = (k.envs e).pgdir
  | _ => False

open Classical in
theorem leaf_eq_some : k.leaf x = some f ↔
    ∃ e w, k.Live e ∧ (k.envs e).pgdir = x.1 ∧ x.2.1 < PDX UTOP ∧
      k.pm.pteAt (k.envs e).pgdir x.2.1 x.2.2 = some w ∧ pteFrame w = f := by
  unfold Kernel.leaf
  constructor
  · intro hx
    split_ifs at hx with hc
    obtain ⟨⟨e, he, hd⟩, hlow⟩ := hc
    obtain ⟨w, hw, hf⟩ := Option.map_eq_some_iff.mp hx
    exact ⟨e, w, he, hd, hlow, by rw [hd]; exact hw, hf⟩
  · rintro ⟨e, w, he, hd, hlow, hw, hf⟩
    rw [if_pos ⟨⟨e, he, hd⟩, hlow⟩, ← hd, hw, Option.map_some, hf]

theorem KeepsMaps.leaf (h : KeepsMaps k k') (hx : k.leaf x = some f) : k'.leaf x = some f := by
  obtain ⟨e, w, he, hd, hlow, hw, hf⟩ := leaf_eq_some.mp hx
  obtain ⟨hlive, hpg, hmaps⟩ := h e he
  refine leaf_eq_some.mpr ⟨e, w, hlive, hpg.trans hd, hlow, ?_, hf⟩
  rw [hpg]
  exact hmaps _ hlow _ _ hw

/-- Pages change, and the view of one slot. -/
theorem KernelInv.leaf_other (h : KernelInv b k₀ role₀ k role) {pm' : Pmap} {role' : Nat → Role}
    (h' : KernelInv b k₀ role₀ { k with pm := pm' } role') {y : Nat × Nat × Nat}
    (hview : ∀ x, x ≠ y → view kernOwn role' pm' x = view kernOwn role k.pm x) (hxy : x ≠ y) :
    Kernel.leaf { k with pm := pm' } x = k.leaf x := by
  rw [h'.leaf_eq, h.leaf_eq]
  unfold Mos.Kern.leaf
  rw [hview x hxy]

/-- `page_insert` of `pp` leaves the other slots alone, and its own if it held `pp`. -/
theorem KernelInv.leaf_insert (h : KernelInv b k₀ role₀ k role) {pm' : Pmap} {role' : Nat → Role}
    (h' : KernelInv b k₀ role₀ { k with pm := pm' } role') {d va w pp : Nat} (hw : pteFrame w = pp)
    (hs : MapStep kernOwn (usedFrames b.freemem) k.pm role (slotOf d va) (some w) pm' role')
    (hx : k.leaf x = some f) (hkeep : ¬ (x = slotOf d va ∧ k.leaf x ≠ some pp)) :
    Kernel.leaf { k with pm := pm' } x = some f := by
  rw [h'.leaf_eq, leaf_mapStep hs, Option.map_some, hw]
  by_cases hxs : x = slotOf d va
  · rw [hxs, Function.update_self, ← hx]
    by_contra hne
    exact hkeep ⟨hxs, fun hc => hne hc.symm⟩
  · rw [Function.update_of_ne hxs, ← h.leaf_eq]
    exact hx

theorem sysMemAlloc_leaf (h : KernelOk b k₀ role₀ k) (hb : Booted b k₀ role₀) {cur envid va perm : Nat}
    (hcur : k.curenv = some cur) (tf : Trapframe)
    (hsafe : MapSafe k (.syscall tf (.memAlloc envid va perm)))
    {r : Option Int} (hrun : sysMemAlloc k cur envid va perm = .ok (r, k')) (hx : k.leaf x = some f)
    (hkeep : ¬ Clears k (.syscall tf (.memAlloc envid va perm)) x) : k'.leaf x = some f := by
  by_cases hva : isIllegalVa va = true
  · unfold sysMemAlloc at hrun
    rw [if_pos hva] at hrun
    cases hrun
    exact hx
  rw [Bool.not_eq_true] at hva
  rcases sysMemAlloc_cases hrun with rfl | ⟨e, pp, pm, r', pm', hlow, he, ha, hins, -, rfl⟩
  · exact hx
  · obtain ⟨role, h, hbd⟩ := h
    obtain ⟨role', h', -, hview⟩ :=
      h.allocInsert hb hbd (h.envid2env_live hcur he) hlow ha (hsafe pp pm ha) hins
    have hpages : k.pm.pageFreeList ≠ [] := by
      intro hnil
      unfold pageAlloc at ha
      rw [hnil] at ha
      cases ha
    rw [h.leaf_other h' hview fun hxs => hkeep ⟨cur, e, hcur, hva, he, hpages, hxs⟩]
    exact hx

theorem sysMemMap_leaf (h : KernelOk b k₀ role₀ k) (hb : Booted b k₀ role₀)
    {cur srcid srcva dstid dstva perm : Nat} (hcur : k.curenv = some cur) (tf : Trapframe)
    (hsafe : MapSafe k (.syscall tf (.memMap srcid srcva dstid dstva perm)))
    {r : Option Int} (hrun : sysMemMap k cur srcid srcva dstid dstva perm = .ok (r, k'))
    (hx : k.leaf x = some f)
    (hkeep : ¬ Clears k (.syscall tf (.memMap srcid srcva dstid dstva perm)) x) :
    k'.leaf x = some f := by
  by_cases hs : isIllegalVa srcva = true
  · unfold sysMemMap at hrun
    rw [if_pos hs] at hrun
    cases hrun
    exact hx
  by_cases hd : isIllegalVa dstva = true
  · unfold sysMemMap at hrun
    rw [if_neg hs, if_pos hd] at hrun
    cases hrun
    exact hx
  rw [Bool.not_eq_true] at hs hd
  rcases sysMemMap_cases hrun with
    rfl | ⟨src, dst, pp, p, r', pm', hslow, hdlow, hsrc, hdst, hlook, hins, -, rfl⟩
  · exact hx
  · obtain ⟨role, h, hbd⟩ := h
    have hdata := h.lookup (h.envid2env_live hcur hsrc) hslow hlook
    have hframe := hsafe cur src pp p hcur hslow hsrc hlook
    rcases h.insert hb hbd (h.envid2env_live hcur hdst) hdlow (Or.inr hdata) hframe hins with
      ⟨-, rfl⟩ | ⟨-, role', h', -, hstep⟩
    · exact hx
    · exact h.leaf_insert h' hframe hstep hx fun hxs =>
        hkeep ⟨cur, src, dst, pp, p, hcur, hs, hd, hsrc, hdst, hlook, hxs⟩

theorem sysMemUnmap_leaf (h : KernelOk b k₀ role₀ k) (hb : Booted b k₀ role₀) {cur envid va : Nat}
    (hcur : k.curenv = some cur) (tf : Trapframe) {r : Option Int}
    (hrun : sysMemUnmap k cur envid va = .ok (r, k')) (hx : k.leaf x = some f)
    (hkeep : ¬ Clears k (.syscall tf (.memUnmap envid va)) x) : k'.leaf x = some f := by
  by_cases hva : isIllegalVa va = true
  · unfold sysMemUnmap at hrun
    rw [if_pos hva] at hrun
    cases hrun
    exact hx
  rw [Bool.not_eq_true] at hva
  rcases sysMemUnmap_cases hrun with rfl | ⟨e, pm', hlow, he, hrem, -, rfl⟩
  · exact hx
  · obtain ⟨role, h, hbd⟩ := h
    obtain ⟨role', h', -, hview⟩ := h.remove hb hbd (h.envid2env_live hcur he) hlow hrem
    rw [h.leaf_other h' hview fun hxs => hkeep ⟨cur, e, hcur, hva, he, hxs⟩]
    exact hx

theorem sysIpcTrySend_leaf (h : KernelOk b k₀ role₀ k) (hb : Booted b k₀ role₀)
    {cur envid value srcva perm : Nat} (hcur : k.curenv = some cur) (tf : Trapframe)
    (hsafe : MapSafe k (.syscall tf (.ipcTrySend envid value srcva perm)))
    {r : Option Int} (hrun : sysIpcTrySend k cur envid value srcva perm = .ok (r, k'))
    (hx : k.leaf x = some f)
    (hkeep : ¬ Clears k (.syscall tf (.ipcTrySend envid value srcva perm)) x) :
    k'.leaf x = some f := by
  by_cases hs : srcva ≠ 0 ∧ isIllegalVa srcva = true
  · unfold sysIpcTrySend at hrun
    rw [if_pos hs] at hrun
    cases hrun
    exact hx
  rcases sysIpcTrySend_cases hrun with rfl | ⟨e, k₁, he, hrecv, hdel, hend⟩
  · exact hx
  · have hlive : k.Live e := by
      obtain ⟨role, h, -⟩ := h
      exact h.envid2env_live hcur he
    have hleaf := deliver_leaf hlive hdel
    have hx₁ : k₁.leaf x = some f := by rw [hleaf, hx]
    obtain ⟨henv, hpg, hpm, hcur₁⟩ := deliver_env hdel
    rcases hend with rfl | ⟨pp, p, r', pm', hlow, hne, hlook, hins, -, rfl⟩
    · exact hx₁
    · have hlegal : isIllegalVa srcva = false := by
        rw [← Bool.not_eq_true]
        exact fun hc => hs ⟨hne, hc⟩
      obtain ⟨role₁, h₁, hbd₁⟩ := deliver_inv h hlive hdel
      have hdata := h₁.lookup (h₁.cur cur (hcur₁.trans hcur)).1 hlow hlook
      rw [hpm, hpg] at hlook
      have hframe : KeepsFrame pp (k₁.envs e).ipcPerm := by
        rw [henv]
        exact hsafe cur pp p hcur hlow hlook
      have hlive₁ : k₁.Live e := by
        unfold Kernel.Live
        rw [henv]
        exact nofun
      rcases h₁.insert hb hbd₁ hlive₁ (h₁.dst e) (Or.inr hdata) hframe hins
        with ⟨-, rfl⟩ | ⟨-, role', h', -, hstep⟩
      · exact hx₁
      · refine h₁.leaf_insert h' hframe hstep hx₁ fun hxs => hkeep ?_
        rw [hpg, hleaf, henv] at hxs
        exact ⟨cur, e, pp, p, hcur, hlegal, he, hrecv, hlook, hxs⟩

theorem schedule_leaf {yield : Bool} (hrun : schedule k yield = .ok k') : k'.leaf = k.leaf := by
  obtain ⟨disk, count, q, log, c, hrun⟩ := schedule_envRun hrun
  obtain ⟨-, -, -, henv, envs, pgdir, cpu, hk'⟩ := envRun_env hrun
  have hsame : ∀ e, (k'.envs e).status = (k.envs e).status ∧ (k'.envs e).pgdir = (k.envs e).pgdir := by
    intro e
    obtain ⟨tf, n, he⟩ := henv e
    rw [he]
    exact ⟨rfl, rfl⟩
  refine Kernel.leaf_congr (by rw [hk']) ?_ fun e _ => (hsame e).2
  intro e
  unfold Kernel.Live
  rw [(hsame e).1]

/-- `env_free` leaves the mappings of the other envs. -/
theorem envFree_leaf (h : KernelOk b k₀ role₀ k) {e : Nat} (he : k.Live e) {k₁ : Kernel}
    (hfree : envFree k e = .ok k₁) (hx : k.leaf x = some f) (hne : x.1 ≠ (k.envs e).pgdir) :
    k₁.leaf x = some f := by
  obtain ⟨role, h, hbd⟩ := h
  obtain ⟨s, role', hpages, hret⟩ := envFreePages_ok h hbd he
  obtain ⟨s', q, log, hpages', hk₁⟩ := envFree_eq hfree
  rw [hpages] at hpages'
  cases hpages'
  obtain ⟨y, w, hy, hd, hlow, hw, hf⟩ := leaf_eq_some.mp hx
  have hye : y ≠ e := by
    rintro rfl
    exact hne hd.symm
  have henv : k₁.envs y = k.envs y := by
    rw [hk₁]
    exact Function.update_of_ne hye ..
  have hview := hret.view_eq h.frames hne x.2.1 x.2.2
  rw [← hd] at hview
  have hdir : role (k.envs y).pgdir = .dir := h.dir y hy
  have hdir' : role' (k.envs y).pgdir = .dir := (hret.dir_iff _).mpr ⟨hdir, by rw [hd]; exact hne⟩
  have hown := kernOwn_iff.mpr hlow
  unfold view at hview
  rw [if_pos ⟨hdir', hown⟩, if_pos ⟨hdir, hown⟩, hw] at hview
  refine leaf_eq_some.mpr ⟨y, w, live_congr henv hy, by rw [henv]; exact hd, hlow, ?_, hf⟩
  rw [henv, hk₁]
  exact hview

theorem sysEnvDestroy_leaf (h : KernelOk b k₀ role₀ k) {cur envid : Nat} (hcur : k.curenv = some cur)
    (tf : Trapframe) {r : Option Int} (hrun : sysEnvDestroy k cur envid = .ok (r, k'))
    (hx : k.leaf x = some f) (hkeep : ¬ Clears k (.syscall tf (.envDestroy envid)) x) :
    k'.leaf x = some f := by
  rcases sysEnvDestroy_cases hrun with ⟨rfl, -⟩ | ⟨e, k₁, he, hfree, hend⟩
  · exact hx
  · have hlive : k.Live e := by
      obtain ⟨role, h, -⟩ := h
      exact h.envid2env_live hcur he
    have hx₁ := envFree_leaf h hlive hfree hx fun hd => hkeep ⟨cur, e, hcur, he, hd⟩
    rcases hend with ⟨-, rfl⟩ | ⟨-, hsched⟩
    · exact hx₁
    · rw [schedule_leaf hsched]
      exact hx₁

/-- Fields of an env that have nothing to do with its pages. -/
theorem setEnv_leaf {e : Nat} {g : Env → Env} (hst : (g (k.envs e)).status = .free ↔ (k.envs e).status = .free)
    (hpg : (g (k.envs e)).pgdir = (k.envs e).pgdir) : (k.setEnv e g).leaf = k.leaf := by
  refine Kernel.leaf_congr rfl ?_ ?_
  · intro y
    unfold Kernel.Live
    by_cases hy : y = e
    · rw [hy, Kernel.setEnv_self]
      exact not_congr hst
    · rw [Kernel.setEnv_of_ne _ _ _ hy]
  · intro y _
    by_cases hy : y = e
    · rw [hy, Kernel.setEnv_self, hpg]
    · rw [Kernel.setEnv_of_ne _ _ _ hy]

theorem exec_leaf (h : KernelOk b k₀ role₀ k) (hb : Booted b k₀ role₀) {cur : Nat}
    (hcur : k.curenv = some cur) (tf : Trapframe) {s : Syscall} (hsafe : MapSafe k (.syscall tf s))
    {r : Option Int} (hrun : s.exec k cur = .ok (r, k')) (hx : k.leaf x = some f)
    (hkeep : ¬ Clears k (.syscall tf s) x) : k'.leaf x = some f := by
  cases s with
  | putchar left | getenvid | cgetc ch =>
    cases hrun
    exact hx
  | panic => cases hrun
  | printCons s num =>
    change sysPrintCons k cur s num = _ at hrun
    unfold sysPrintCons at hrun
    split_ifs at hrun
    · cases hrun
      exact hx
    · obtain ⟨⟨bs, k₁⟩, hload, hdone⟩ := bind_eq_ok.mp hrun
      cases hdone
      exact (kernelLoads_inv h hb hcur hload).maps.leaf hx
  | yield =>
    obtain ⟨k₁, hsched, hdone⟩ := bind_eq_ok.mp hrun
    cases hdone
    rw [schedule_leaf hsched]
    exact hx
  | envDestroy envid => exact sysEnvDestroy_leaf h hcur tf hrun hx hkeep
  | setTlbModEntry envid func =>
    change sysSetTlbModEntry k cur envid func = _ at hrun
    unfold sysSetTlbModEntry at hrun
    split at hrun
    · cases hrun
      exact hx
    · cases hrun
      rw [setEnv_leaf Iff.rfl rfl]
      exact hx
  | memAlloc envid va perm => exact sysMemAlloc_leaf h hb hcur tf hsafe hrun hx hkeep
  | memMap srcid srcva dstid dstva perm => exact sysMemMap_leaf h hb hcur tf hsafe hrun hx hkeep
  | memUnmap envid va => exact sysMemUnmap_leaf h hb hcur tf hrun hx hkeep
  | exofork => exact (sysExofork_inv h hb hsafe hrun).2.leaf hx
  | setEnvStatus envid status =>
    rcases sysSetEnvStatus_cases hrun with rfl | ⟨e, st, q, log, he, hst, -, rfl⟩
    · exact hx
    · have hlive : (k.envs e).status ≠ .free := by
        obtain ⟨role, h, -⟩ := h
        exact h.envid2env_live hcur he
      have hleaf := setEnv_leaf (k := k) (e := e) (g := fun env => { env with status := st })
        ⟨fun hc => absurd hc hst, fun hc => absurd hc hlive⟩ rfl
      exact (congrFun hleaf x).trans hx
  | setTrapframe envid va =>
    rcases sysSetTrapframe_cases hrun with rfl | ⟨e, bs, k₁, tf', he, hload, hend⟩
    · exact hx
    · have hx₁ := (kernelLoads_inv h hb hcur hload).maps.leaf hx
      rcases hend with rfl | rfl
      · exact hx₁
      · rw [setEnv_leaf Iff.rfl rfl]
        exact hx₁
  | ipcTrySend envid value srcva perm => exact sysIpcTrySend_leaf h hb hcur tf hsafe hrun hx hkeep
  | ipcRecv dstva =>
    rcases sysIpcRecv_cases hrun with rfl | ⟨q, log, tf', hlow, -, hsched⟩
    · exact hx
    · have hlive : (k.envs cur).status ≠ .free := by
        obtain ⟨role, h, -⟩ := h
        exact (h.cur cur hcur).1
      have hleaf := setEnv_leaf (k := k) (e := cur) (g := fun _ => waitingEnv k cur dstva)
        ⟨fun hc => (by cases hc), fun hc => absurd hc hlive⟩ rfl
      rw [schedule_leaf hsched]
      exact (congrFun hleaf x).trans hx
  | devReq dev req =>
    obtain ⟨disk, rfl⟩ := sysDevReq_cases hrun
    exact hx

/-- **Step lemma.** A step takes away the mappings it is asked to take away, and no
other. -/
theorem KernelOk.leaf_step (h : KernelOk b k₀ role₀ k) (hb : Booted b k₀ role₀) {op : KernOp}
    (hsafe : MapSafe k op) (hrun : op.run k = .ok k') (hx : k.leaf x = some f)
    (hkeep : ¬ Clears k op x) : k'.leaf x = some f := by
  cases op with
  | create binary priority =>
    obtain ⟨e, hcreate⟩ := run_create hrun
    exact (envCreate_inv h hb hsafe.2 hsafe.1 hcreate).2.leaf hx
  | device disk =>
    cases hrun
    exact hx
  | tick tf =>
    rw [schedule_leaf hrun]
    exact hx
  | store va y =>
    obtain ⟨cur, hcur, rfl⟩ := run_store hrun
    exact (userStore_inv h hb hcur va y).maps.leaf hx
  | fault tf =>
    obtain ⟨cur, k₁, cpu, hcur, hmiss, rfl⟩ := run_fault hrun
    exact (doTlbMiss_inv (h.setTf tf) hb hcur hmiss).maps.leaf hx
  | syscall tf s =>
    obtain ⟨cur, tf₁, r, k₁, tf₂, cpu, hcur, hexec, rfl⟩ := run_syscall hrun
    have hkeep₁ : ¬ Clears { k with tf := tf₁ } (.syscall tf s) x := by
      intro hc
      apply hkeep
      cases s <;> exact hc
    have hx₁ : k₁.leaf x = some f := exec_leaf (h.setTf tf₁) hb hcur tf (hsafe.setTf tf₁) hexec hx hkeep₁
    exact hx₁

-- ---------------------------------------------------------------------------
-- The requests in flight
-- ---------------------------------------------------------------------------

/-- A posted request: its address, and whether `page_alloc` has handed out its
frame since. -/
structure DiskReq where
  pa : Nat
  handedOut : Bool
  deriving DecidableEq, Repr

def DiskReq.frame (r : DiskReq) : Nat := pa2idx r.pa

/-- `page_alloc` hands out frames of the free list. -/
def DiskReq.after (k k' : Kernel) (r : DiskReq) : DiskReq :=
  { r with handedOut :=
      r.handedOut || decide (r.frame ∈ k.pm.pageFreeList ∧ r.frame ∉ k'.pm.pageFreeList) }

/-- The request a step posts: `sys_dev_req` for the disk, when `virtio_disk_req`
returns 0. -/
def posted (k : Kernel) : KernOp → List DiskReq
  | .syscall _ (.devReq dev req) =>
    if dev = 8 ∧ req % 2 ^ 12 = 0 ∧ isIllegalVa req = false then
      match va2pa k.pm k.curPgdir req with
      | .error _ => []
      | .ok pa =>
        match virtioDiskReq k.disk pa with
        | .error _ => []
        | .ok (r, _) => if r = 0 then [⟨pa, false⟩] else []
    else []
  | _ => []

/-- The kernel and the requests in flight. -/
structure DiskRun where
  k : Kernel
  flight : List DiskReq

/-- Runs in which the device completes the requests in any order. -/
inductive DiskReach (P : DiskRun → KernOp → Prop) (k₀ : Kernel) : DiskRun → Prop where
  | refl : DiskReach P k₀ ⟨k₀, []⟩
  | step {s : DiskRun} {k' : Kernel} {op : KernOp} : DiskReach P k₀ s → P s op → op.run s.k = .ok k' →
      DiskReach P k₀ ⟨k', posted s.k op ++ s.flight.map (·.after s.k k')⟩
  | complete {s : DiskRun} {r : DiskReq} (disk : Vring) : DiskReach P k₀ s → r ∈ s.flight →
      DiskReach P k₀ ⟨{ s.k with disk := disk }, s.flight.erase r⟩

/-- The step maps and shares as it should, and every frame in flight keeps a mapping
that the step does not take away. -/
def KeepsFrames (s : DiskRun) (op : KernOp) : Prop :=
  MapSafe s.k op ∧ ShareRoom s.k op ∧
    ∀ r ∈ s.flight, r.frame < npage → ∃ x ∈ slots, s.k.leaf x = some r.frame ∧ ¬ Clears s.k op x

/-- The frame of a request is mapped by a live env, or there is no such frame: then
`va2pa` found no page. -/
structure DiskReq.Mapped (k : Kernel) (r : DiskReq) : Prop where
  leaf : r.frame < npage → ∃ x ∈ slots, k.leaf x = some r.frame
  kept : r.handedOut = false

/-- A mapped frame is not free. -/
theorem DiskReq.Mapped.not_free {r : DiskReq} (h : r.Mapped k) (hk : KernelOk b k₀ role₀ k) :
    r.frame ∉ k.pm.pageFreeList := by
  intro hfree
  obtain ⟨role, hk, -⟩ := hk
  have hrole := (hk.frames.freeIff _).mp hfree
  obtain ⟨⟨d, i, j⟩, hs, hx⟩ := h.leaf (hk.frames.lt_npage (by simp [hrole]))
  rw [hk.leaf_eq] at hx
  have hdata := hk.frames.data_of_leaf (mem_slots.mp hs).2.2 hx
  rw [hrole] at hdata
  cases hdata

/-- ... so it is not handed out by a step. -/
theorem DiskReq.Mapped.after {r : DiskReq} (h : r.Mapped k) (hk : KernelOk b k₀ role₀ k)
    (hleaf : r.frame < npage → ∃ x ∈ slots, k'.leaf x = some r.frame) : (r.after k k').Mapped k' := by
  refine ⟨hleaf, ?_⟩
  show (r.handedOut || decide (r.frame ∈ k.pm.pageFreeList ∧ r.frame ∉ k'.pm.pageFreeList)) = false
  rw [h.kept, decide_eq_false fun hc => h.not_free hk hc.1]
  rfl

/-- What `posted` adds is what `va2pa` found for the page of the caller. -/
theorem mem_posted {op : KernOp} {r : DiskReq} (hr : r ∈ posted k op) :
    ∃ tf dev req, op = .syscall tf (.devReq dev req) ∧ isIllegalVa req = false ∧
      va2pa k.pm k.curPgdir req = .ok r.pa ∧ r.handedOut = false := by
  cases op with
  | syscall tf s =>
    cases s with
    | devReq dev req =>
      change r ∈ ite _ _ _ at hr
      split_ifs at hr with hc
      · split at hr
        · cases hr
        · rename_i pa hpa
          split at hr
          · cases hr
          · split_ifs at hr
            · rw [List.mem_singleton] at hr
              rw [hr]
              exact ⟨tf, dev, req, rfl, hc.2.2, hpa, rfl⟩
            · cases hr
      · cases hr
    | _ => cases hr
  | _ => cases hr

theorem posted_mapped (h : KernelOk b k₀ role₀ k) {op : KernOp} {k' : Kernel} (hrun : op.run k = .ok k')
    {r : DiskReq} (hr : r ∈ posted k op) : r.Mapped k' := by
  obtain ⟨tf, dev, req, rfl, hva, hpa, hkept⟩ := mem_posted hr
  obtain ⟨cur, tf₁, r', k₁, tf₂, cpu, hcur, hexec, rfl⟩ := run_syscall hrun
  obtain ⟨disk, rfl⟩ := sysDevReq_cases hexec
  refine ⟨fun hlt => ?_, hkept⟩
  have hlow := low_of_legal hva
  obtain ⟨role, h, -⟩ := h
  obtain ⟨hlive, hd⟩ := h.cur cur hcur
  rw [hd] at hpa
  have hdir := h.dir cur hlive
  cases hv : view kernOwn role k.pm (slotOf (k.envs cur).pgdir req) with
  | none =>
    rw [va2pa_none h.frames hdir (kernOwn_iff.mpr (PDX_lt_UTOP hlow)) hv] at hpa
    unfold DiskReq.frame at hlt
    rw [← Except.ok.inj hpa] at hlt
    exact absurd hlt (by decide)
  | some w =>
    rw [va2pa_some h.frames hv] at hpa
    have hdlt : (k.envs cur).pgdir < npage := h.frames.lt_npage (by simp [hdir])
    have hleaf : Mos.Kern.leaf kernOwn role k.pm (slotOf (k.envs cur).pgdir req) = some (pteFrame w) := by
      unfold Mos.Kern.leaf
      rw [hv]
      rfl
    have hdata := h.frames.data_of_leaf (PTX_lt req) hleaf
    have hframe : r.frame = pteFrame w := by
      unfold DiskReq.frame
      rw [← Except.ok.inj hpa, pa2idx_page2pa (h.frames.lt_npage (by simp [hdata]))]
    have hslot : slotOf (k.envs cur).pgdir req ∈ slots :=
      mem_slots.mpr ⟨hdlt, PDX_lt req, PTX_lt req⟩
    refine ⟨_, hslot, ?_⟩
    rw [hframe, ← hleaf, ← h.leaf_eq]
    rfl

/-- **Run lemma.** -/
theorem DiskReach.mapped (hb : Booted b k₀ role₀) {s : DiskRun} (hrun : DiskReach KeepsFrames k₀ s) :
    KernelOk b k₀ role₀ s.k ∧ ∀ r ∈ s.flight, r.Mapped s.k := by
  induction hrun with
  | refl => exact ⟨hb.kernelOk, fun r hr => by cases hr⟩
  | @step s k' op _ hP hop ih =>
    obtain ⟨hok, hmap⟩ := ih
    obtain ⟨hsafe, hroom, hkeep⟩ := hP
    refine ⟨(hok.step hb hsafe hop).ok fun hshare => hroom.refsFit hok hb hsafe hshare hop, ?_⟩
    intro r hr
    rcases List.mem_append.mp hr with hr | hr
    · exact posted_mapped hok hop hr
    · obtain ⟨q, hq, rfl⟩ := List.mem_map.mp hr
      refine (hmap q hq).after hok fun hlt => ?_
      obtain ⟨x, hx, hleaf, hclear⟩ := hkeep q hq hlt
      exact ⟨x, hx, hok.leaf_step hb hsafe hop hleaf hclear⟩
  | complete disk _ _ ih =>
    refine ⟨ih.1.congr rfl rfl rfl rfl rfl rfl rfl, fun r hr => ?_⟩
    obtain ⟨hleaf, hkept⟩ := ih.2 r (List.mem_of_mem_erase hr)
    exact ⟨hleaf, hkept⟩

theorem DiskReach.mono {P Q : DiskRun → KernOp → Prop} {s : DiskRun} (hPQ : ∀ s op, P s op → Q s op)
    (h : DiskReach P k₀ s) : DiskReach Q k₀ s := by
  induction h with
  | refl => exact .refl
  | step _ hP hrun ih => exact ih.step (hPQ _ _ hP) hrun
  | complete disk _ hr ih => exact ih.complete disk hr

theorem posted_devReq {req pa : Nat} {disk : Vring} (tf : Trapframe) (hal : req % 2 ^ 12 = 0)
    (hva : isIllegalVa req = false) (hpa : va2pa k.pm k.curPgdir req = .ok pa)
    (hreq : virtioDiskReq k.disk pa = .ok (0, disk)) :
    posted k (.syscall tf (.devReq 8 req)) = [⟨pa, false⟩] := by
  unfold posted
  simp only [hal, hva, hpa, hreq, and_self, if_true]

theorem sysDevReq_ok {req pa : Nat} {disk : Vring}
    (hva : ¬ (req % 2 ^ 12 ≠ 0 ∨ isIllegalVa req = true)) (hpa : va2pa k.pm k.curPgdir req = .ok pa)
    (hreq : virtioDiskReq k.disk pa = .ok (0, disk)) :
    sysDevReq k 8 req = .ok (some 0, { k with disk := disk }) := by
  unfold sysDevReq
  rw [if_neg hva, hpa, ok_bind, if_pos rfl, hreq, ok_bind]
  rfl

/-- A request on fresh rings finds its descriptors. -/
theorem virtioDiskReq_init {pa : Nat} (hpa : KSTACKTOP ≤ pa) :
    ∃ d, virtioDiskReq (virtioDiskInit KERNBASE fun _ => ⟨0, 0, 0⟩) pa = .ok (0, d) := by
  unfold virtioDiskReq
  rw [if_neg (Nat.not_lt.mpr hpa)]
  exact ⟨_, rfl⟩

namespace Sharing

variable {a n : Nat}

/-- The pages do not depend on the disk and the registers. -/
theorem setDisk (h : Sharing b k₀ role₀ k role a f n) (disk : Vring) (tf cpu : Trapframe) :
    Sharing b k₀ role₀ { k with disk := disk, tf := tf, cpu := cpu } role a f n := by
  refine ⟨⟨h.run.inv.congr rfl (fun _ => Iff.rfl) (fun _ _ => rfl) (fun _ _ => rfl) rfl rfl rfl
    h.run.inv.cur h.run.inv.dst, h.run.cur⟩, h.shared, h.empty, h.refs, h.room⟩

/-- The env posts its first page to an idle disk. -/
theorem post (h : Sharing b k₀ role₀ k role a f n) (hlow : KSTACKTOP ≤ page2pa f)
    (hdisk : k.disk = virtioDiskInit KERNBASE fun _ => ⟨0, 0, 0⟩) :
    ∃ disk tf cpu, (KernOp.syscall zeroTrapframe (.devReq 8 (pageVa 0))).run k =
        .ok { k with disk := disk, tf := tf, cpu := cpu } ∧
      posted k (.syscall zeroTrapframe (.devReq 8 (pageVa 0))) = [⟨page2pa f, false⟩] := by
  have hzero : 0 < ownPages := by decide
  obtain ⟨disk, hreq⟩ := virtioDiskReq_init hlow
  rw [← hdisk] at hreq
  have hpa : va2pa k.pm k.curPgdir (pageVa 0) = .ok (page2pa f) := by
    rw [(h.run.inv.cur a h.run.cur).2, va2pa_some h.run.inv.frames (h.shared 0 (Nat.zero_le n)), h.frame]
  have hcall : Syscall.exec { k with tf := { zeroTrapframe with
      sepc := (zeroTrapframe.sepc + 4) % 2 ^ 32 } } a (.devReq 8 (pageVa 0)) =
      .ok (some 0, { k with disk := disk, tf := { zeroTrapframe with
        sepc := (zeroTrapframe.sepc + 4) % 2 ^ 32 } }) := by
    refine sysDevReq_ok ?_ hpa hreq
    rw [pageVa_legal hzero, show pageVa 0 % 2 ^ 12 = 0 from pageVa_aligned 0]
    simp
  obtain ⟨tf₂, cpu, hrun⟩ := run_syscall_ok zeroTrapframe h.run.cur hcall
  refine ⟨disk, tf₂, cpu, hrun, ?_⟩
  exact posted_devReq zeroTrapframe (pageVa_aligned 0) (pageVa_legal hzero) hpa hreq

end Sharing

end Mos.Kern
