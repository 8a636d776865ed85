import Mos.Kern.OwnPages

/-!
# MOS on RISC-V — the 16-bit reference counters

`pp_ref` is a `u_short`, and an address space has room for more than `2 ^ 16`
mappings of one page. `pageRefs_exact` says that the counters are right, and no
mapped page is free, in every run in which a page is shared only while it has
fewer than `2 ^ 16 - 1` mappings. `pageRefs_wrap` is the run that goes on: one env
maps one page `2 ^ 16 + 1` times, takes one mapping away, and the page is freed.
-/

namespace Mos.Kern

open Mos.Lib

variable {b : BootState} {k₀ k : Kernel} {role₀ role : Nat → Role}

/-- `pp` can take another mapping at `va` of directory `d`: its counter has room,
or it is what is mapped there already. -/
def CanShare (k : Kernel) (pp d va : Nat) : Prop :=
  k.refs pp + 1 < 2 ^ 16 ∨ ∃ p, pageLookup k.pm d va = .ok (some (pp, p))

/-- A page is shared only if its counter has room. -/
def ShareRoom (k : Kernel) : KernOp → Prop
  | .syscall _ (.memMap srcid srcva dstid dstva _) => ∀ cur src dst pp p, k.curenv = some cur →
      isIllegalVa srcva = false → isIllegalVa dstva = false →
      envid2env k cur srcid true = .ok src → envid2env k cur dstid true = .ok dst →
      pageLookup k.pm (k.envs src).pgdir srcva = .ok (some (pp, p)) →
      CanShare k pp (k.envs dst).pgdir dstva
  | .syscall _ (.ipcTrySend envid _ srcva _) => ∀ cur e pp p, k.curenv = some cur →
      isIllegalVa srcva = false → envid2env k cur envid false = .ok e → (k.envs e).ipcRecving ≠ 0 →
      pageLookup k.pm (k.envs cur).pgdir srcva = .ok (some (pp, p)) →
      CanShare k pp (k.envs e).pgdir (k.envs e).ipcDstva
  | _ => True

/-- Permissions are flags, a new directory finds a page, and shared pages have
room in their counters. -/
def CountSafe (k : Kernel) (op : KernOp) : Prop :=
  SmallPerm op ∧ SetupRoom k op ∧ ShareRoom k op

namespace KernelInv

theorem refs_eq (h : KernelInv b k₀ role₀ k role) (f : Nat) :
    k.refs f = leafRefs kernOwn role k.pm f := by
  unfold Kernel.refs
  rw [h.leaf_eq]
  rfl

/-- Mapping a page that can take it keeps the counters in range. -/
theorem share_bounded (h : KernelInv b k₀ role₀ k role) (hbd : Bounded kernOwn role k.pm)
    {e va w : Nat} (he : k.Live e) (hva : va < UTOP)
    (hcan : CanShare k (pteFrame w) (k.envs e).pgdir va) {pm' : Pmap} {role' : Nat → Role}
    (hs : MapStep kernOwn (usedFrames b.freemem) k.pm role (slotOf (k.envs e).pgdir va) (some w)
      pm' role') : Bounded kernOwn role' pm' := by
  intro f
  have hle := leafRefs_mapStep hs f
  have hf := hbd f
  by_cases hw : pteFrame w = f
  · subst hw
    rcases hcan with hroom | ⟨p, hlook⟩
    · rw [h.refs_eq] at hroom
      rw [Option.map_some, if_pos rfl] at hle
      omega
    · -- the slot holds the page already, so no reference is added
      have hdir := h.dir e he
      have hlt : (k.envs e).pgdir < npage := h.frames.lt_npage (by simp [hdir])
      have hx : slotOf (k.envs e).pgdir va ∈ slots := mem_slots.mpr ⟨hlt, PDX_lt va, PTX_lt va⟩
      have hleaf : leaf kernOwn role k.pm (slotOf (k.envs e).pgdir va) = some (pteFrame w) := by
        unfold leaf
        cases hv : view kernOwn role k.pm (slotOf (k.envs e).pgdir va) with
        | none =>
          rw [pageLookup_none h.frames hdir (kernOwn_iff.mpr (PDX_lt_UTOP hva)) hv] at hlook
          cases hlook
        | some w' =>
          obtain ⟨t, -, -, hr⟩ := pageLookup_some h.frames hv
          rw [hr] at hlook
          have hpp := congrArg Prod.fst (Option.some.inj (Except.ok.inj hlook))
          exact congrArg some hpp
      have hcount := refCount_update hx (some (pteFrame w)) (pteFrame w) (g := leaf kernOwn role k.pm)
      rw [if_pos hleaf, if_pos rfl] at hcount
      unfold leafRefs at hf ⊢
      rw [leaf_mapStep hs, Option.map_some]
      omega
  · rw [Option.map_some, if_neg fun hc => hw (Option.some.inj hc)] at hle
    omega

end KernelInv

theorem sysMemMap_fits (h : KernelOk b k₀ role₀ k) (hb : Booted b k₀ role₀)
    {cur srcid srcva dstid dstva perm : Nat} (hcur : k.curenv = some cur) (tf : Trapframe)
    (hsafe : MapSafe k (.syscall tf (.memMap srcid srcva dstid dstva perm)))
    (hroom : ShareRoom k (.syscall tf (.memMap srcid srcva dstid dstva perm)))
    {r : Option Int} {k' : Kernel}
    (hrun : sysMemMap k cur srcid srcva dstid dstva perm = .ok (r, k')) : k'.RefsFit := by
  by_cases hs : isIllegalVa srcva = true
  · unfold sysMemMap at hrun
    rw [if_pos hs] at hrun
    cases hrun
    exact h.refsFit
  by_cases hd : isIllegalVa dstva = true
  · unfold sysMemMap at hrun
    rw [if_neg hs, if_pos hd] at hrun
    cases hrun
    exact h.refsFit
  rw [Bool.not_eq_true] at hs hd
  rcases sysMemMap_cases hrun with
    rfl | ⟨src, dst, pp, p, r', pm', hsva, hdva, hsrc, hdst, hlook, hins, -, rfl⟩
  · exact h.refsFit
  · obtain ⟨role, h, hbd⟩ := h
    have hlive := h.envid2env_live hcur hdst
    have hdata := h.lookup (h.envid2env_live hcur hsrc) hsva hlook
    have hframe := hsafe cur src pp p hcur hsva hsrc hlook
    rcases h.insert hb hbd hlive hdva (Or.inr hdata) hframe hins with ⟨-, rfl⟩ | ⟨-, role', h', -, hstep⟩
    · exact h.bounded_iff.mp hbd
    · refine h'.bounded_iff.mp (h.share_bounded hbd hlive hdva ?_ hstep)
      rw [hframe]
      exact hroom cur src dst pp p hcur hs hd hsrc hdst hlook

open Classical in
/-- The mappings are those of the pages and the directories of the live envs. -/
theorem Kernel.leaf_congr {k' : Kernel} (hpm : k'.pm = k.pm) (hlive : ∀ e, k'.Live e ↔ k.Live e)
    (hpg : ∀ e, k.Live e → (k'.envs e).pgdir = (k.envs e).pgdir) : k'.leaf = k.leaf := by
  funext x
  have hdir : (∃ e, k'.Live e ∧ (k'.envs e).pgdir = x.1) ↔ ∃ e, k.Live e ∧ (k.envs e).pgdir = x.1 := by
    refine exists_congr fun e => ?_
    rw [hlive]
    exact and_congr_right fun he => by rw [hpg e he]
  unfold Kernel.leaf
  rw [hpm]
  exact if_congr (and_congr_left' hdir) rfl rfl

/-- A message moves no mapping. -/
theorem deliver_leaf {cur e value perm : Nat} (he : k.Live e) {k₁ : Kernel}
    (hdel : deliver k cur e value perm = .ok k₁) : k₁.leaf = k.leaf := by
  obtain ⟨henv, hpg, hpm, -⟩ := deliver_env hdel
  refine Kernel.leaf_congr hpm ?_ fun x _ => hpg x
  intro x
  obtain ⟨q, log, rfl⟩ := deliver_eq hdel
  by_cases hx : x = e
  · subst hx
    refine ⟨fun _ => he, fun _ => ?_⟩
    unfold Kernel.Live
    rw [henv]
    exact nofun
  · unfold Kernel.Live
    show (Function.update k.envs e _ x).status ≠ _ ↔ _
    rw [Function.update_of_ne hx]

theorem deliver_refs {cur e value perm : Nat} (he : k.Live e) {k₁ : Kernel}
    (hdel : deliver k cur e value perm = .ok k₁) : k₁.refs = k.refs := by
  funext f
  unfold Kernel.refs
  rw [deliver_leaf he hdel]

theorem sysIpcTrySend_fits (h : KernelOk b k₀ role₀ k) (hb : Booted b k₀ role₀)
    {cur envid value srcva perm : Nat} (hcur : k.curenv = some cur) (tf : Trapframe)
    (hsafe : MapSafe k (.syscall tf (.ipcTrySend envid value srcva perm)))
    (hroom : ShareRoom k (.syscall tf (.ipcTrySend envid value srcva perm)))
    {r : Option Int} {k' : Kernel}
    (hrun : sysIpcTrySend k cur envid value srcva perm = .ok (r, k')) : k'.RefsFit := by
  by_cases hs : srcva ≠ 0 ∧ isIllegalVa srcva = true
  · unfold sysIpcTrySend at hrun
    rw [if_pos hs] at hrun
    cases hrun
    exact h.refsFit
  rcases sysIpcTrySend_cases hrun with rfl | ⟨e, k₁, he, hrecv, hdel, hend⟩
  · exact h.refsFit
  · have hlive : k.Live e := by
      obtain ⟨role, h, -⟩ := h
      exact h.envid2env_live hcur he
    have h₁ := deliver_inv h hlive hdel
    obtain ⟨henv, hpg, hpm, hcur₁⟩ := deliver_env hdel
    rcases hend with rfl | ⟨pp, p, r', pm', hlow, hne, hlook, hins, -, rfl⟩
    · exact h₁.refsFit
    · have hlegal : isIllegalVa srcva = false := by
        rw [← Bool.not_eq_true]
        exact fun hc => hs ⟨hne, hc⟩
      obtain ⟨role₁, h₁, hbd₁⟩ := h₁
      have hdata := h₁.lookup (h₁.cur cur (hcur₁.trans hcur)).1 hlow hlook
      rw [hpm, hpg] at hlook
      have hframe : KeepsFrame pp (k₁.envs e).ipcPerm := by
        rw [henv]
        exact hsafe cur pp p hcur hlow hlook
      have hlive₁ : k₁.Live e := by
        unfold Kernel.Live
        rw [henv]
        exact nofun
      rcases h₁.insert hb hbd₁ hlive₁ (h₁.dst e) (Or.inr hdata) hframe hins
        with ⟨-, rfl⟩ | ⟨-, role', h', -, hstep⟩
      · exact h₁.bounded_iff.mp hbd₁
      · refine h'.bounded_iff.mp (h₁.share_bounded hbd₁ hlive₁ (h₁.dst e) ?_ hstep)
        have hcan := hroom cur e pp p hcur hlegal he hrecv hlook
        unfold CanShare at hcan ⊢
        rw [hframe, deliver_refs hlive hdel, hpm, henv]
        exact hcan

/-- A share for which there was room keeps the counters in range. -/
theorem ShareRoom.refsFit (h : KernelOk b k₀ role₀ k) (hb : Booted b k₀ role₀) {op : KernOp}
    (hsafe : MapSafe k op) (hroom : ShareRoom k op) (hshare : op.Shares) {k' : Kernel}
    (hrun : op.run k = .ok k') : k'.RefsFit := by
  cases op with
  | create _ _ | device _ | tick _ | fault _ | store _ _ => exact hshare.elim
  | syscall tf s =>
    obtain ⟨cur, tf₁, r, k₁, tf₂, cpu, hcur, hexec, rfl⟩ := run_syscall hrun
    cases s with
    | memMap srcid srcva dstid dstva perm =>
      have hfit : k₁.RefsFit := sysMemMap_fits (h.setTf tf₁) hb hcur tf (hsafe.setTf tf₁) hroom hexec
      exact hfit
    | ipcTrySend envid value srcva perm =>
      have hfit : k₁.RefsFit :=
        sysIpcTrySend_fits (h.setTf tf₁) hb hcur tf (hsafe.setTf tf₁) hroom hexec
      exact hfit
    | _ => exact hshare.elim

theorem KernReach.kernelOk_counted (hb : Booted b k₀ role₀) (h : KernReach CountSafe k₀ k) :
    KernelOk b k₀ role₀ k := by
  induction h with
  | refl => exact hb.kernelOk
  | step _ hP hrun ih =>
    have hsafe := MapSafe.of_small ih hb hP.1 hP.2.1
    exact (ih.step hb hsafe hrun).ok fun hshare => hP.2.2.refsFit ih hb hsafe hshare hrun

/-- **The counters keep track.** In every state of every run in which pages are
shared only while their counters have room, each mapped page has its number of
mappings in `pp_ref`, and none of them is on the free list. -/
theorem pageRefs_exact (b : BootState) (hroom : usedFrames b.freemem + 3 ≤ npage) {k₀ k : Kernel}
    (hboot : b.boot = .ok k₀) (hrun : KernReach CountSafe k₀ k) :
    (∀ e, k.Live e → ∀ i < PDX UTOP, ∀ j < 1024, ∀ w, k.pm.pteAt (k.envs e).pgdir i j = some w →
      pteFrame w ∉ k.pm.pageFreeList) ∧
    ∀ f, 0 < k.refs f → k.pm.ppRef f = k.refs f := by
  obtain ⟨k₁, role₀, hboot', hb⟩ := boot_ok b hroom
  rw [hboot] at hboot'
  cases hboot'
  obtain ⟨role, h, hbd⟩ := hrun.kernelOk_counted hb
  refine ⟨?_, ?_⟩
  · intro e he i hi j hj w hw hfree
    have hdata : role (pteFrame w) = .data := by
      refine h.frames.data_of_leaf (d := (k.envs e).pgdir) (i := i) hj ?_
      unfold leaf view
      rw [if_pos ⟨h.dir e he, kernOwn_iff.mpr hi⟩, hw]
      rfl
    rw [(h.frames.freeIff _).mp hfree] at hdata
    cases hdata
  · intro f hpos
    rw [h.refs_eq] at hpos ⊢
    have hdata : role f = .data := by
      by_contra hne
      rw [h.frames.leafRefs_eq_zero hne] at hpos
      exact Nat.lt_irrefl 0 hpos
    have hok := h.frames.refOk f
    rw [hdata] at hok
    rw [hok.1, Nat.mod_eq_of_lt (hbd f)]

/-- One env with one page: the counter of the page stands at its one mapping. -/
theorem pageRefs_exact_onePage :
    ∃ k₀ k f, smallBoot.boot = .ok k₀ ∧ KernReach CountSafe k₀ k ∧ k.refs f = 1 ∧
      k.pm.ppRef f = k.refs f := by
  have hcreate : ∀ k, EnvRoom k → CountSafe k (.create (some ⟨UTEXT, []⟩) 1) :=
    fun _ hroom => ⟨userElf_nil UTEXT, hroom, trivial⟩
  have htick : ∀ k, CountSafe k (.tick zeroTrapframe) := fun _ => ⟨trivial, trivial, trivial⟩
  have halloc : ∀ k, CountSafe k (.syscall zeroTrapframe (.memAlloc 0 (pageVa 0) 0)) :=
    fun _ => ⟨show 0 < 2 ^ 10 by decide, trivial, trivial⟩
  obtain ⟨k₀, role₀, k, role, a, f, hboot, hb, hreach, hR, -, -, -, -, hrefs, -⟩ :=
    smallBoot_onePage hcreate htick fun _ _ => halloc _
  have hone : k.refs f = 1 := by rw [hR.inv.refs_eq, hrefs]
  exact ⟨k₀, k, f, hboot, hreach, hone,
    (pageRefs_exact smallBoot (by decide) hboot hreach).2 f (by rw [hone]; decide)⟩

-- ---------------------------------------------------------------------------
-- A page with more than 2^16 mappings
-- ---------------------------------------------------------------------------

/-- Envs are created and scheduled, and call `sys_mem_alloc`, `sys_mem_map` and
`sys_mem_unmap` on their own pages, with flags and nothing else. -/
def OwnPageCall (k : Kernel) : KernOp → Prop
  | .create binary _ => UserElf binary ∧ EnvRoom k
  | .tick _ => True
  | .syscall _ (.memAlloc envid va perm) =>
    envid = 0 ∧ va % BY2PG = 0 ∧ isIllegalVa va = false ∧ perm < 2 ^ 10
  | .syscall _ (.memMap srcid srcva dstid dstva perm) =>
    srcid = 0 ∧ dstid = 0 ∧ srcva % BY2PG = 0 ∧ dstva % BY2PG = 0 ∧
      isIllegalVa srcva = false ∧ isIllegalVa dstva = false ∧ perm < 2 ^ 10
  | .syscall _ (.memUnmap envid va) => envid = 0 ∧ va % BY2PG = 0 ∧ isIllegalVa va = false
  | _ => False

theorem pageVa_aligned (i : Nat) : pageVa i % BY2PG = 0 := by
  have hX : UTEXT = 1024 * 4096 := by decide
  unfold pageVa BY2PG
  rw [hX]
  omega

/-- The running env has the page `f` mapped at its first `n + 1` pages, and
nothing else. -/
structure Sharing (b : BootState) (k₀ : Kernel) (role₀ : Nat → Role) (k : Kernel) (role : Nat → Role)
    (a f n : Nat) : Prop where
  run : Running b k₀ role₀ k role a
  shared : ∀ i ≤ n, view kernOwn role k.pm (slotOf (k.envs a).pgdir (pageVa i)) = some (mkPte f PTE_U)
  empty : EmptyFrom role k a (n + 1)
  refs : leafRefs kernOwn role k.pm f = n + 1
  room : 98 ≤ k.pm.pageFreeList.length + n / 1024

namespace Sharing

variable {a f n : Nat}

theorem data (h : Sharing b k₀ role₀ k role a f n) : role f = .data := by
  by_contra hne
  have hz := h.run.inv.frames.leafRefs_eq_zero hne
  rw [h.refs] at hz
  cases hz

theorem frame (h : Sharing b k₀ role₀ k role a f n) : pteFrame (mkPte f PTE_U) = f := by
  have hperm : readable (0 ||| PTE_U) = PTE_U := by decide
  have hframe : pteFrame (mkPte f (readable (0 ||| PTE_U))) = f :=
    h.run.inv.frame_of_perm (by simp [h.data]) (by decide)
  rwa [hperm] at hframe

/-- Another `sys_mem_map` of the first page. -/
theorem more (h : Sharing b k₀ role₀ k role a f n) (hb : Booted b k₀ role₀) (hn : n < 2 ^ 16) :
    ∃ k' role', (KernOp.syscall zeroTrapframe (.memMap 0 (pageVa 0) 0 (pageVa (n + 1)) 0)).run k =
      .ok k' ∧ Sharing b k₀ role₀ k' role' a f (n + 1) := by
  have hroom := h.room
  have hzero : 0 < ownPages := by decide
  have hnext : n + 1 < ownPages := lt_of_le_of_lt hn (by decide)
  have hfree : ¬ NoTable k.pm (k.envs a).pgdir (pageVa (n + 1)) := by
    rintro ⟨-, hnil⟩
    rw [hnil, List.length_nil] at hroom
    omega
  obtain ⟨k', role', hrun, hR, henvs, hstep, hleft⟩ := h.run.memMap hb (pageVa_legal hzero)
    (pageVa_legal hnext) (show 0 < 2 ^ 10 by decide) (h.shared 0 (Nat.zero_le n))
    (h.empty (n + 1) (Nat.le_refl _) hnext) hfree zeroTrapframe
  have hperm : readable (0 ||| PTE_U) = PTE_U := by decide
  rw [hperm, h.frame] at hstep
  refine ⟨k', role', hrun, hR, ?_, ?_, ?_, ?_⟩
  · intro i hi
    rw [henvs, hstep.view_eq]
    by_cases hin : i = n + 1
    · rw [hin, Function.update_self]
    · rw [Function.update_of_ne (slotOf_pageVa_ne _ (by omega) hnext hin)]
      exact h.shared i (by omega)
  · intro j hj hlt
    rw [henvs, hstep.view_eq, Function.update_of_ne (slotOf_pageVa_ne _ hlt hnext (by omega))]
    exact h.empty j (by omega) hlt
  · rw [KernelInv.leafRefs_fill h.run.inv.frames (h.run.inv.dir a h.run.live)
      (h.empty (n + 1) (Nat.le_refl _) hnext) hstep, h.frame, if_pos rfl, h.refs]
  · -- a page table is taken only when page `n + 1` is the first behind its slot
    have hlen : k.pm.pageFreeList.length ≤ k'.pm.pageFreeList.length + 1 := by
      rw [hleft]
      split_ifs
      · omega
      · rw [List.length_tail]
        omega
    by_cases hsame : (n + 1) / 1024 = n / 1024
    · have hV := h.run.inv.pde_of_view (h.shared n (Nat.le_refl n))
      rw [(pageVa_slot (Nat.lt_of_succ_lt hnext)).1, ← hsame, ← (pageVa_slot hnext).1] at hV
      rw [if_pos hV] at hleft
      rw [hleft, hsame]
      exact hroom
    · omega

/-- ... and another, as often as the env likes. -/
theorem upTo (h : Sharing b k₀ role₀ k role a f 0) (hb : Booted b k₀ role₀)
    (hreach : KernReach OwnPageCall k₀ k) (n : Nat) (hn : n ≤ 2 ^ 16) :
    ∃ k' role', KernReach OwnPageCall k₀ k' ∧ Sharing b k₀ role₀ k' role' a f n := by
  induction n with
  | zero => exact ⟨k, role, hreach, h⟩
  | succ n ih =>
    obtain ⟨k₁, role₁, hreach₁, h₁⟩ := ih (Nat.le_of_succ_le hn)
    obtain ⟨k', role', hrun, h'⟩ := h₁.more hb hn
    have hzero : 0 < ownPages := by decide
    have hnext : n + 1 < ownPages := lt_of_le_of_lt hn (by decide)
    refine ⟨k', role', hreach₁.step ?_ hrun, h'⟩
    exact ⟨rfl, rfl, pageVa_aligned 0, pageVa_aligned _, pageVa_legal hzero, pageVa_legal hnext,
      by decide⟩

/-- `sys_mem_unmap` of the first page, when the counter stands at one: the page is
freed, and the entry goes. -/
theorem unmapFirst (h : Sharing b k₀ role₀ k role a f n) (href : k.pm.ppRef f = 1) :
    ∃ k' t, (KernOp.syscall zeroTrapframe (.memUnmap 0 (pageVa 0))).run k = .ok k' ∧
      k'.envs = k.envs ∧ f ∈ k'.pm.pageFreeList ∧ role t = .table (k.envs a).pgdir 1 ∧
      k'.pm.mem = (k.pm.store t 0 0).mem := by
  have hzero : 0 < ownPages := by decide
  obtain ⟨t, ht, -, hlook⟩ := pageLookup_some h.run.inv.frames (h.shared 0 (Nat.zero_le n))
  have hslot := pageVa_slot hzero
  rw [hslot.1] at ht
  obtain ⟨pm', hpm'⟩ : ∃ pm', pm' = tlbFlush (({ k.pm.setRef f 0 with
      pageFreeList := f :: k.pm.pageFreeList }).store t (PTX (pageVa 0)) 0) (k.envs a).asid
        (pageVa 0) := ⟨_, rfl⟩
  have hrem : pageRemove k.pm (k.envs a).pgdir (k.envs a).asid (pageVa 0) = .ok pm' := by
    unfold pageRemove
    rw [hlook, ok_bind, h.frame]
    simp only [pageDecref_last href, ok_bind]
    rw [hpm']
    rfl
  have hcall : Syscall.exec { k with tf := { zeroTrapframe with
      sepc := (zeroTrapframe.sepc + 4) % 2 ^ 32 } } a (.memUnmap 0 (pageVa 0)) =
      .ok (some 0, { k with pm := pm', tf := { zeroTrapframe with
        sepc := (zeroTrapframe.sepc + 4) % 2 ^ 32 } }) := by
    show sysMemUnmap _ a 0 (pageVa 0) = _
    unfold sysMemUnmap
    rw [pageVa_legal hzero, if_neg (by simp), envid2env_self]
    simp only [hrem, ok_bind]
    rfl
  obtain ⟨tf₂, cpu, hrun⟩ := run_syscall_ok zeroTrapframe h.run.cur hcall
  refine ⟨_, t, hrun, rfl, ?_, ht, ?_⟩
  · show f ∈ pm'.pageFreeList
    rw [hpm']
    exact List.mem_cons_self
  · show pm'.mem = _
    rw [hpm', tlbFlush_mem, hslot.2]
    rfl

/-- The second mapping is still there. -/
theorem second_stays (h : Sharing b k₀ role₀ k role a f n) (hn : 0 < n) {t : Nat} {pm' : Pmap}
    (ht : role t = .table (k.envs a).pgdir 1) (hmem : pm'.mem = (k.pm.store t 0 0).mem) :
    pm'.pteAt (k.envs a).pgdir 1 1 = some (mkPte f PTE_U) := by
  have hslot₁ := pageVa_slot (show 1 < ownPages by decide)
  have hnext := h.shared 1 hn
  unfold slotOf at hnext
  rw [hslot₁.1, hslot₁.2] at hnext
  obtain ⟨t₁, ht₁, hword, hV⟩ := h.run.inv.frames.view_eq_some.mp hnext
  obtain rfl := h.run.inv.frames.table_unique ht ht₁
  have hdir := h.run.inv.dir a h.run.live
  have hne : (k.envs a).pgdir ≠ t := by
    intro heq
    rw [heq, ht] at hdir
    cases hdir
  have hpde := (h.run.inv.frames.tablePde t _ _ ht).2.2
  have hframe := h.run.inv.frames.pteFrame_pde ht
  have hmemd : pm'.mem (k.envs a).pgdir 1 = k.pm.mem (k.envs a).pgdir 1 := by
    rw [hmem, Pmap.store_mem_frame _ hne]
  have hmemt : pm'.mem t 1 = mkPte f PTE_U := by
    rw [hmem, Pmap.store_mem, if_neg (by simp)]
    exact hword
  unfold Pmap.pteAt
  rw [hmemd, hframe, hmemt, hpde, if_pos (testFlag_V_mkPde t), if_pos hV]

end Sharing

/-- The first env of a small kernel, with one page mapped. -/
theorem smallBoot_sharing :
    ∃ k₀ role₀ k role a f, smallBoot.boot = .ok k₀ ∧ Booted smallBoot k₀ role₀ ∧
      KernReach OwnPageCall k₀ k ∧ Sharing smallBoot k₀ role₀ k role a f 0 := by
  have hcreate : ∀ k, EnvRoom k → OwnPageCall k (.create (some ⟨UTEXT, []⟩) 1) :=
    fun _ hroom => ⟨userElf_nil UTEXT, hroom⟩
  have halloc : ∀ k, OwnPageCall k (.syscall zeroTrapframe (.memAlloc 0 (pageVa 0) 0)) :=
    fun _ => ⟨rfl, pageVa_aligned 0, pageVa_legal (by decide), by decide⟩
  obtain ⟨k₀, role₀, k, role, a, f, hboot, hb, hreach, hR, -, hempty, hw, -, hrefs, hlen⟩ :=
    smallBoot_onePage hcreate (fun _ => trivial) fun _ _ => halloc _
  refine ⟨k₀, role₀, k, role, a, f, hboot, hb, hreach, hR, ?_, hempty, hrefs, hlen⟩
  intro i hi
  rw [Nat.le_zero.mp hi]
  exact hw

/-- An env allocates one page, maps it at `2 ^ 16` further addresses and takes the
first mapping away: the page is free while the others stand. -/
theorem pageRefs_wrap :
    ∃ k₀ k e i j w, smallBoot.boot = .ok k₀ ∧ KernReach OwnPageCall k₀ k ∧ k.Live e ∧ i < PDX UTOP ∧
      j < 1024 ∧ k.pm.pteAt (k.envs e).pgdir i j = some w ∧ pteFrame w ∈ k.pm.pageFreeList := by
  obtain ⟨k₀, role₀, k₁, role₁, a, f, hboot, hb, hreach₁, h₁⟩ := smallBoot_sharing
  obtain ⟨k, role, hreach, h⟩ := h₁.upTo hb hreach₁ (2 ^ 16) (Nat.le_refl _)
  have href : k.pm.ppRef f = 1 := by
    have hok := h.run.inv.frames.refOk f
    rw [h.data] at hok
    rw [hok.1, h.refs]
    decide
  obtain ⟨k', t, hrun, henvs, hfree, ht, hmem⟩ := h.unmapFirst href
  have hpte := h.second_stays (by decide) ht hmem
  have hlive : k'.Live a := by
    unfold Kernel.Live
    rw [henvs]
    exact h.run.live
  have hcall : OwnPageCall k (.syscall zeroTrapframe (.memUnmap 0 (pageVa 0))) :=
    ⟨rfl, pageVa_aligned 0, pageVa_legal (by decide)⟩
  refine ⟨k₀, k', a, 1, 1, mkPte f PTE_U, hboot, hreach.step hcall hrun, hlive, by decide, by decide,
    ?_, ?_⟩
  · rw [henvs]
    exact hpte
  · rw [h.frame]
    exact hfree

end Mos.Kern
