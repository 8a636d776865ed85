import Mos.Kern.KernelHalf

/-!
# MOS on RISC-V — an env that fills its own address space

`sys_mem_alloc` and `sys_mem_map` of the running env on itself, at addresses
where nothing is mapped yet. Both are carried out when pages are left
(`KernelInv.memAlloc`, `KernelInv.memMap`), also in states in which a counter of
references has wrapped around. `exhaust` is the run that uses up all pages.
-/

namespace Mos.Kern

open Mos.Lib

variable {b : BootState} {k₀ k : Kernel} {role₀ role : Nat → Role} {a : Nat}

/-- Env id 0 is the caller. -/
theorem envid2env_self (k : Kernel) (cur : Nat) (checkperm : Bool) :
    envid2env k cur 0 checkperm = .ok cur := by
  unfold envid2env
  rw [if_pos rfl]

theorem low_of_legal {va : Nat} (h : isIllegalVa va = false) : va < UTOP := by
  unfold isIllegalVa at h
  simp only [decide_eq_false_iff_not] at h
  omega

namespace KernelInv

theorem setRegs (h : KernelInv b k₀ role₀ k role) (tf cpu : Trapframe) :
    KernelInv b k₀ role₀ { k with tf := tf, cpu := cpu } role :=
  h.congr rfl (fun _ => Iff.rfl) (fun _ _ => rfl) (fun _ _ => rfl) rfl rfl rfl h.cur h.dst

/-- `page_insert` into an empty slot, whatever the counters are. -/
theorem insertEmpty (h : KernelInv b k₀ role₀ k role) (hb : Booted b k₀ role₀) {e pp va perm : Nat}
    (asid : Nat) (he : k.Live e) (hva : va < UTOP) (hpp : role pp = .fresh ∨ role pp = .data)
    (hperm : perm < 2 ^ 10) (hv : view kernOwn role k.pm (slotOf (k.envs e).pgdir va) = none)
    (hroom : ¬ NoTable k.pm (k.envs e).pgdir va) :
    ∃ pm' role', pageInsert k.pm (k.envs e).pgdir asid pp va perm = .ok (0, pm') ∧
      KernelInv b k₀ role₀ { k with pm := pm' } role' ∧ role' pp = .data ∧
      MapStep kernOwn (usedFrames b.freemem) k.pm role (slotOf (k.envs e).pgdir va)
        (some (mkPte pp (readable perm))) pm' role' ∧
      pm'.pageFreeList = if testFlag (k.pm.mem (k.envs e).pgdir (PDX va)) PTE_V then
        k.pm.pageFreeList else k.pm.pageFreeList.tail := by
  have hown : kernOwn (PDX va) = true := kernOwn_iff.mpr (PDX_lt_UTOP hva)
  have hres : role pp ≠ .reserved := by rcases hpp with hpp | hpp <;> simp [hpp]
  rcases pageInsertNew_spec h.frames asid (h.dir e he) hown kernOwn_UVPT hv hpp
    (h.frame_of_perm hres hperm) with ⟨hno, -⟩ | ⟨-, pm', role', hins, hdata, hstep⟩
  · exact absurd hno hroom
  · refine ⟨pm', role', ?_, h.mapStep hb hva hstep, hdata, hstep, pageInsertNew_free hins⟩
    rw [pageInsert_empty h.frames asid (h.dir e he) hown hv]
    exact hins

end KernelInv

/-- The slot of a mapped page is valid. -/
theorem KernelInv.pde_of_view (h : KernelInv b k₀ role₀ k role) {d va w : Nat}
    (hw : view kernOwn role k.pm (slotOf d va) = some w) :
    testFlag (k.pm.mem d (PDX va)) PTE_V = true := by
  obtain ⟨t, ht, -, -⟩ := h.frames.view_eq_some.mp hw
  rw [(h.frames.tablePde t d _ ht).2.2]
  exact testFlag_V_mkPde t

/-- The running env is `a`. -/
structure Running (b : BootState) (k₀ : Kernel) (role₀ : Nat → Role) (k : Kernel) (role : Nat → Role)
    (a : Nat) : Prop where
  inv : KernelInv b k₀ role₀ k role
  cur : k.curenv = some a

namespace Running

variable {va perm : Nat}

theorem live (h : Running b k₀ role₀ k role a) : k.Live a := (h.inv.cur a h.cur).1

/-- A system call that replaced the pages and returned. -/
theorem after (h : Running b k₀ role₀ k role a) {pm : Pmap} {role' : Nat → Role}
    (hinv : KernelInv b k₀ role₀ { k with pm := pm } role') (tf cpu : Trapframe) :
    Running b k₀ role₀ { k with pm := pm, tf := tf, cpu := cpu } role' a :=
  ⟨hinv.setRegs tf cpu, h.cur⟩

/-- `sys_mem_alloc(0, va, perm)` where nothing is mapped: the call returns, pages
are used up, and no other slot changes; with two pages left, a new page is mapped
at `va`. -/
theorem memAlloc (h : Running b k₀ role₀ k role a) (hb : Booted b k₀ role₀)
    (hlegal : isIllegalVa va = false) (hperm : perm < 2 ^ 10)
    (hv : view kernOwn role k.pm (slotOf (k.envs a).pgdir va) = none) {pp : Nat} {rest : List Nat}
    (hfree : k.pm.pageFreeList = pp :: rest) (tf : Trapframe) :
    ∃ k' role', (KernOp.syscall tf (.memAlloc 0 va perm)).run k = .ok k' ∧
      Running b k₀ role₀ k' role' a ∧ k'.envs = k.envs ∧
      (k'.pm.pageFreeList = if testFlag (k.pm.mem (k.envs a).pgdir (PDX va)) PTE_V then rest
        else rest.tail) ∧
      (∀ x, x ≠ slotOf (k.envs a).pgdir va →
        view kernOwn role' k'.pm x = view kernOwn role k.pm x) ∧
      (∀ i, i ≠ PDX va → i ≠ PDX UVPT →
        k'.pm.mem (k.envs a).pgdir i = k.pm.mem (k.envs a).pgdir i) ∧
      (rest ≠ [] → role pp = .free ∧ role' pp = .data ∧
        MapStep kernOwn (usedFrames b.freemem) ({ k.pm with pageFreeList := rest }.clear pp)
          (Function.update role pp .fresh) (slotOf (k.envs a).pgdir va)
          (some (mkPte pp (readable (perm ||| PTE_U)))) k'.pm role') := by
  have hlow : va < UTOP := low_of_legal hlegal
  have hflags : perm ||| PTE_U < 2 ^ 10 := Nat.or_lt_two_pow hperm (by decide)
  obtain ⟨pm₁, hpm₁⟩ : ∃ pm₁, pm₁ = { k.pm with pageFreeList := rest }.clear pp := ⟨_, rfl⟩
  have ha : pageAlloc k.pm = some (pp, pm₁) := by rw [hpm₁, pageAlloc_cons hfree]
  have hrest : pm₁.pageFreeList = rest := by rw [hpm₁]; rfl
  obtain ⟨hpp, h₁, hview⟩ := h.inv.alloc hb ha
  have hv₁ : view kernOwn (Function.update role pp .fresh) pm₁ (slotOf (k.envs a).pgdir va) = none := by
    rw [hview]
    exact hv
  have hdir : role (k.envs a).pgdir = .dir := h.inv.dir a h.live
  have hword : ∀ i, pm₁.mem (k.envs a).pgdir i = k.pm.mem (k.envs a).pgdir i := by
    intro i
    rw [hpm₁, Pmap.clear_mem, if_neg]
    intro hc
    rw [hc, hpp] at hdir
    cases hdir
  have hexec : ∀ r pm', pageInsert pm₁ (k.envs a).pgdir (k.envs a).asid pp va (perm ||| PTE_U) =
      .ok (r, pm') → ∃ tf₂ cpu, (KernOp.syscall tf (.memAlloc 0 va perm)).run k =
        .ok { k with pm := pm', tf := tf₂, cpu := cpu } := by
    intro r pm' hins
    have hcall : Syscall.exec { k with tf := { tf with sepc := (tf.sepc + 4) % 2 ^ 32 } } a
        (.memAlloc 0 va perm) =
          .ok (some r, { k with pm := pm', tf := { tf with sepc := (tf.sepc + 4) % 2 ^ 32 } }) := by
      show sysMemAlloc _ a 0 va perm = _
      unfold sysMemAlloc
      rw [hlegal, if_neg (by simp), envid2env_self]
      simp only [ha, hins, ok_bind]
      rfl
    exact run_syscall_ok tf h.cur hcall
  by_cases hno : NoTable pm₁ (k.envs a).pgdir va
  · -- the page is gone, and there is none for the page table
    have hins : pageInsert pm₁ (k.envs a).pgdir (k.envs a).asid pp va (perm ||| PTE_U) =
        .ok (-E_NO_MEM, pm₁) := by
      have hown : kernOwn (PDX va) = true := kernOwn_iff.mpr (PDX_lt_UTOP hlow)
      rw [pageInsert_empty h₁.frames _ (h₁.dir a h.live) hown hv₁]
      unfold pageInsertNew
      rw [pgdirWalk_noMem hno.1 hno.2]
      rfl
    obtain ⟨tf₂, cpu, hrun⟩ := hexec _ _ hins
    refine ⟨_, _, hrun, h.after h₁ tf₂ cpu, rfl, ?_, ?_, fun i _ _ => hword i, ?_⟩
    · have hnil : rest = [] := hrest.symm.trans hno.2
      show pm₁.pageFreeList = _
      rw [hno.2, hnil]
      split_ifs <;> rfl
    · intro x _
      rw [← hview]
    · intro hne
      exact absurd (hrest.symm.trans hno.2) hne
  · obtain ⟨pm', role', hins, h', hdata, hstep, hleft⟩ := h₁.insertEmpty hb (k.envs a).asid h.live hlow
      (Or.inl (Function.update_self ..)) hflags hv₁ hno
    obtain ⟨tf₂, cpu, hrun⟩ := hexec _ _ hins
    refine ⟨_, role', hrun, h.after h' tf₂ cpu, rfl, ?_, ?_, ?_, fun _ => ⟨hpp, hdata, ?_⟩⟩
    · show pm'.pageFreeList = _
      rw [hleft]
      show (if testFlag (pm₁.mem (k.envs a).pgdir (PDX va)) PTE_V then pm₁.pageFreeList
        else pm₁.pageFreeList.tail) = _
      rw [hword, hrest]
    · intro x hx
      show view kernOwn role' pm' x = _
      rw [hstep.view_eq, Function.update_of_ne hx, ← hview]
    · intro i hi hi'
      rw [← hword i]
      refine hstep.mem_dir _ i (h₁.dir a h.live) ?_ ?_
      · exact fun hc => hi (Prod.mk.inj hc).2
      · exact fun hc => hi' (Prod.mk.inj hc).2
    · rw [← hpm₁]
      exact hstep

/-- `sys_mem_map(0, srcva, 0, va, perm)` where nothing is mapped at `va`. -/
theorem memMap (h : Running b k₀ role₀ k role a) (hb : Booted b k₀ role₀) {srcva w : Nat}
    (hsrc : isIllegalVa srcva = false) (hlegal : isIllegalVa va = false) (hperm : perm < 2 ^ 10)
    (hw : view kernOwn role k.pm (slotOf (k.envs a).pgdir srcva) = some w)
    (hv : view kernOwn role k.pm (slotOf (k.envs a).pgdir va) = none)
    (hroom : ¬ NoTable k.pm (k.envs a).pgdir va) (tf : Trapframe) :
    ∃ k' role', (KernOp.syscall tf (.memMap 0 srcva 0 va perm)).run k = .ok k' ∧
      Running b k₀ role₀ k' role' a ∧ k'.envs = k.envs ∧
      MapStep kernOwn (usedFrames b.freemem) k.pm role (slotOf (k.envs a).pgdir va)
        (some (mkPte (pteFrame w) (readable (perm ||| PTE_U)))) k'.pm role' ∧
      k'.pm.pageFreeList = if testFlag (k.pm.mem (k.envs a).pgdir (PDX va)) PTE_V then
        k.pm.pageFreeList else k.pm.pageFreeList.tail := by
  have hlow : va < UTOP := low_of_legal hlegal
  have hflags : perm ||| PTE_U < 2 ^ 10 := Nat.or_lt_two_pow hperm (by decide)
  obtain ⟨t, ht, hm, hlook⟩ := pageLookup_some h.inv.frames hw
  obtain ⟨-, -, -, hV⟩ := h.inv.frames.view_eq_some.mp hw
  have hdata : role (pteFrame w) = .data := by
    rw [← hm]
    refine h.inv.frames.leafData t _ _ _ ht (PTX_lt srcva) ?_
    rw [hm]
    exact hV
  obtain ⟨pm', role', hins, h', -, hstep, hleft⟩ := h.inv.insertEmpty hb (k.envs a).asid h.live hlow
    (Or.inr hdata) hflags hv hroom
  have hcall : Syscall.exec { k with tf := { tf with sepc := (tf.sepc + 4) % 2 ^ 32 } } a
      (.memMap 0 srcva 0 va perm) =
        .ok (some 0, { k with pm := pm', tf := { tf with sepc := (tf.sepc + 4) % 2 ^ 32 } }) := by
    show sysMemMap _ a 0 srcva 0 va perm = _
    unfold sysMemMap
    rw [hsrc, if_neg (by simp), hlegal, if_neg (by simp), envid2env_self]
    simp only [hlook, hins, ok_bind]
    rfl
  obtain ⟨tf₂, cpu, hrun⟩ := run_syscall_ok tf h.cur hcall
  exact ⟨_, role', hrun, h.after h' tf₂ cpu, rfl, hstep, hleft⟩

end Running

-- ---------------------------------------------------------------------------
-- Consecutive pages
-- ---------------------------------------------------------------------------

/-- The pages an env may map, from `UTEXT` on. -/
def ownPages : Nat := 508 * 1024

/-- `sys_mem_alloc` takes a page or two. -/
theorem taken_length {rest l : List Nat} {c : Bool} (h : l = if c then rest else rest.tail) :
    l.length ≤ rest.length ∧ rest.length ≤ l.length + 1 := by
  rw [h]
  split_ifs
  · omega
  · rw [List.length_tail]
    omega

/-- The address of page `i`. -/
def pageVa (i : Nat) : Nat := UTEXT + i * BY2PG

theorem pageVa_legal {i : Nat} (hi : i < ownPages) : isIllegalVa (pageVa i) = false := by
  have hE : UTEMP = 0x3fe000 := by decide
  have hX : UTEXT = 0x400000 := by decide
  have hT : UTOP = 0x7f400000 := by decide
  unfold ownPages at hi
  unfold isIllegalVa pageVa BY2PG
  rw [hE, hX, hT]
  simp only [decide_eq_false_iff_not]
  omega

theorem pageVa_slot {i : Nat} (hi : i < ownPages) :
    PDX (pageVa i) = i / 1024 + 1 ∧ PTX (pageVa i) = i % 1024 := by
  have hX : UTEXT = 0x400000 := by decide
  unfold ownPages at hi
  unfold pageVa BY2PG
  rw [PDX_eq, PTX_eq, hX]
  omega

theorem slotOf_pageVa_ne (d : Nat) {i j : Nat} (hi : i < ownPages) (hj : j < ownPages) (hne : i ≠ j) :
    slotOf d (pageVa i) ≠ slotOf d (pageVa j) := by
  intro heq
  unfold slotOf at heq
  rw [(pageVa_slot hi).1, (pageVa_slot hi).2, (pageVa_slot hj).1, (pageVa_slot hj).2] at heq
  simp only [Prod.mk.injEq, true_and] at heq
  omega

/-- Nothing is mapped from page `i` on. -/
def EmptyFrom (role : Nat → Role) (k : Kernel) (a i : Nat) : Prop :=
  ∀ j, i ≤ j → j < ownPages → view kernOwn role k.pm (slotOf (k.envs a).pgdir (pageVa j)) = none

theorem EmptySpace.emptyFrom (h : EmptySpace k a) (role : Nat → Role) : EmptyFrom role k a 0 := by
  intro j _ hj
  refine FrameInv.view_absent ?_ _
  have hlow : PDX (pageVa j) < PDX UTOP := PDX_lt_UTOP (low_of_legal (pageVa_legal hj))
  rw [h.slots _ hlow]
  exact testFlag_zero_left PTE_V

/-- There are no more free pages than frames. -/
theorem KernelInv.free_le (h : KernelInv b k₀ role₀ k role) : k.pm.pageFreeList.length ≤ npage := by
  have hsub : k.pm.pageFreeList ⊆ List.range npage := by
    intro f hf
    rw [List.mem_range]
    exact h.frames.lt_npage (by simp [(h.frames.freeIff f).mp hf])
  have hlen := (List.Nodup.subperm h.frames.freeNodup hsub).length_le
  rw [List.length_range] at hlen
  exact hlen

/-- **Exhaustion.** The running env allocates page after page until none is left. -/
theorem Running.exhaust {P : Kernel → KernOp → Prop} (hb : Booted b k₀ role₀)
    (hP : ∀ k role va, Running b k₀ role₀ k role a →
      P k (.syscall zeroTrapframe (.memAlloc 0 va 0))) (n i : Nat) {k : Kernel} {role : Nat → Role}
    (h : Running b k₀ role₀ k role a) (hreach : KernReach P k₀ k)
    (hlen : k.pm.pageFreeList.length ≤ n) (hroom : i + n ≤ ownPages) (hempty : EmptyFrom role k a i) :
    ∃ k' role', KernReach P k₀ k' ∧ Running b k₀ role₀ k' role' a ∧ k'.envs = k.envs ∧
      k'.pm.pageFreeList = [] ∧
      ∀ j < i, view kernOwn role' k'.pm (slotOf (k.envs a).pgdir (pageVa j)) =
        view kernOwn role k.pm (slotOf (k.envs a).pgdir (pageVa j)) := by
  induction n generalizing i k role with
  | zero =>
    have hnil := List.length_eq_zero_iff.mp (Nat.le_zero.mp hlen)
    exact ⟨k, role, hreach, h, rfl, hnil, fun _ _ => rfl⟩
  | succ n ih =>
    cases hfree : k.pm.pageFreeList with
    | nil => exact ⟨k, role, hreach, h, rfl, hfree, fun _ _ => rfl⟩
    | cons pp rest =>
      have hi : i < ownPages := by omega
      obtain ⟨k₁, role₁, hrun, h₁, henvs, hleft, hother, -⟩ := h.memAlloc hb (pageVa_legal hi)
        (show 0 < 2 ^ 10 by decide) (hempty i (Nat.le_refl i) hi) hfree zeroTrapframe
      have hless := (taken_length hleft).1
      rw [hfree, List.length_cons] at hlen
      obtain ⟨k', role', hreach', h', henvs', hnil, hkept⟩ := ih (i + 1) h₁
        (hreach.step (hP k role _ h) hrun) (by omega) (by omega) (by
          intro j hij hj
          rw [henvs, hother _ (slotOf_pageVa_ne _ hj hi (by omega))]
          exact hempty j (by omega) hj)
      refine ⟨k', role', hreach', h', henvs'.trans henvs, hnil, fun j hj => ?_⟩
      rw [henvs] at hkept
      rw [hkept j (by omega), hother _ (slotOf_pageVa_ne _ (by omega) hi (by omega))]

theorem userElf_nil (entry : Nat) : UserElf (some ⟨entry, []⟩) := by
  intro elf helf ph hph
  cases helf
  exact absurd hph List.not_mem_nil

/-- The first env of a small kernel, after it has mapped one page, `f`, with the
flags `perm`. -/
theorem smallBoot_page {P : Kernel → KernOp → Prop} {perm w : Nat} (hperm : perm < 2 ^ 10)
    (hw : readable (perm ||| PTE_U) = w)
    (hcreate : ∀ k, EnvRoom k → P k (.create (some ⟨UTEXT, []⟩) 1))
    (htick : ∀ k, P k (.tick zeroTrapframe))
    (halloc : ∀ {b k₀ role₀ k role a}, Booted b k₀ role₀ → Running b k₀ role₀ k role a →
      P k (.syscall zeroTrapframe (.memAlloc 0 (pageVa 0) perm))) :
    ∃ k₀ role₀ k role a f, smallBoot.boot = .ok k₀ ∧ Booted smallBoot k₀ role₀ ∧
      KernReach P k₀ k ∧ Running smallBoot k₀ role₀ k role a ∧
      (k.envs a).pgdirCopyPa = 0 ∧ EmptyFrom role k a 1 ∧
      view kernOwn role k.pm (slotOf (k.envs a).pgdir (pageVa 0)) = some (mkPte f w) ∧
      role f = .data ∧ leafRefs kernOwn role k.pm f = 1 ∧ 98 ≤ k.pm.pageFreeList.length := by
  obtain ⟨k₀, role₀, k₁, k₂, a, hboot, hb, hrun₁, hrun₂, h₀, -, h₂, hcur, -, hspace⟩ :=
    smallBoot_first
  obtain ⟨role, hinv, -⟩ := h₂.ok
  have hR : Running smallBoot k₀ role₀ k₂ role a := ⟨hinv, hcur⟩
  have hreach : KernReach P k₀ k₂ :=
    .step (.step .refl (hcreate k₀ h₀.envRoom) hrun₁) (htick k₁) hrun₂
  have hempty := hspace.emptyFrom role
  have hzero : 0 < ownPages := by decide
  have hroom := h₂.room
  cases hfree : k₂.pm.pageFreeList with
  | nil =>
    rw [hfree] at hroom
    exact absurd hroom (by decide)
  | cons f rest =>
    rw [hfree, List.length_cons] at hroom
    obtain ⟨k, role', hrun, hR', henvs, hleft, hother, -, hdone⟩ := hR.memAlloc hb
      (pageVa_legal hzero) hperm (hempty 0 (Nat.le_refl 0) hzero) hfree zeroTrapframe
    obtain ⟨hf, hdata, hstep⟩ := hdone (by rintro rfl; simp at hroom)
    have hlen := (taken_length hleft).2
    have hframe : pteFrame (mkPte f (readable (perm ||| PTE_U))) = f :=
      hR.inv.frame_of_perm (by simp [hf]) (Nat.or_lt_two_pow hperm (by decide))
    rw [hw] at hstep hframe
    have hview := hstep.view_eq
    refine ⟨k₀, role₀, k, role', a, f, hboot, hb, hreach.step (halloc hb hR) hrun, hR', ?_, ?_, ?_,
      hdata, ?_, ?_⟩
    · rw [henvs]
      exact hspace.copy
    · intro j hj hlt
      rw [henvs, hother _ (slotOf_pageVa_ne _ hlt hzero (by omega))]
      exact hempty j (Nat.zero_le j) hlt
    · rw [henvs, hview, Function.update_self]
    · obtain ⟨-, hinv₁, hview₁⟩ := hR.inv.alloc hb (pageAlloc_cons hfree)
      rw [KernelInv.leafRefs_fill hinv₁.frames (hinv₁.dir a hR.live)
        (by rw [hview₁]; exact hempty 0 (Nat.le_refl 0) hzero) hstep, hframe, if_pos rfl,
        hinv₁.frames.leafRefs_eq_zero (by simp)]
    · omega

theorem smallBoot_onePage {P : Kernel → KernOp → Prop}
    (hcreate : ∀ k, EnvRoom k → P k (.create (some ⟨UTEXT, []⟩) 1))
    (htick : ∀ k, P k (.tick zeroTrapframe))
    (halloc : ∀ {b k₀ role₀ k role a}, Booted b k₀ role₀ → Running b k₀ role₀ k role a →
      P k (.syscall zeroTrapframe (.memAlloc 0 (pageVa 0) 0))) :
    ∃ k₀ role₀ k role a f, smallBoot.boot = .ok k₀ ∧ Booted smallBoot k₀ role₀ ∧
      KernReach P k₀ k ∧ Running smallBoot k₀ role₀ k role a ∧
      (k.envs a).pgdirCopyPa = 0 ∧ EmptyFrom role k a 1 ∧
      view kernOwn role k.pm (slotOf (k.envs a).pgdir (pageVa 0)) = some (mkPte f PTE_U) ∧
      role f = .data ∧ leafRefs kernOwn role k.pm f = 1 ∧ 98 ≤ k.pm.pageFreeList.length :=
  smallBoot_page (show 0 < 2 ^ 10 by decide) (by decide) hcreate htick halloc

end Mos.Kern
