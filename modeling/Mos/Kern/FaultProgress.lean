import Mos.Kern.LoadSeg
import Mos.Kern.SelfMap

/-!
# MOS on RISC-V — what a page fault achieves

A fault that does not panic should get the env further, and should cost it only
pages it can name: `FaultProgress`. Either the env goes on in its own handler,
or the page of the fault is mapped for the access that faulted; and every frame
that left the free list is a page table or a page of the env, or the copy of its
directory.

One fault does neither. A store into the `UVPT` window is not among the ranges
`passive_alloc` refuses; the page goes behind the window, and the `page_insert`
that put it there closes the window. `faultProgress_iff` says that this is the
only one, `faultProgress_window` shows it on the first env.
-/

namespace Mos.Kern

open Mos.Lib

variable {b : BootState} {k₀ k k' : Kernel} {role₀ role : Nat → Role} {d c : Nat} {s s' : Pmap}

-- ---------------------------------------------------------------------------
-- The frames of an env
-- ---------------------------------------------------------------------------

/-- Frame `f` is a page table of `d` below `UTOP`, or mapped there. -/
def Pmap.Holds (s : Pmap) (d f : Nat) : Prop :=
  (∃ i < PDX UTOP, testFlag (s.mem d i) PTE_V = true ∧ pteFrame (s.mem d i) = f) ∨
  ∃ i < PDX UTOP, ∃ j w, s.pteAt d i j = some w ∧ pteFrame w = f

/-- The env refers to frame `f`, by its directory, a page table or
`env_pgdir_copy_pa`. -/
def Kernel.Owns (k : Kernel) (e f : Nat) : Prop :=
  f = (k.envs e).pgdir ∨ k.pm.Holds (k.envs e).pgdir f ∨
    ((k.envs e).pgdirCopyPa ≠ 0 ∧ pa2idx (k.envs e).pgdirCopyPa = f)

/-- Page work on directory `d` that only adds: tables and pages stay, and `d` holds
what left the free list. -/
structure Grows (d : Nat) (s s' : Pmap) : Prop where
  dir : ∀ i < PDX UTOP, testFlag (s.mem d i) PTE_V = true → s'.mem d i = s.mem d i
  maps : ∀ i < PDX UTOP, ∀ j w, s.pteAt d i j = some w → s'.pteAt d i j = some w
  taken : ∀ f ∈ s.pageFreeList, f ∉ s'.pageFreeList → s'.Holds d f

namespace Grows

theorem holds (h : Grows d s s') {f : Nat} (hf : s.Holds d f) : s'.Holds d f := by
  rcases hf with ⟨i, hi, hV, hf⟩ | ⟨i, hi, j, w, hw, hf⟩
  · refine Or.inl ⟨i, hi, ?_⟩
    rw [h.dir i hi hV]
    exact ⟨hV, hf⟩
  · exact Or.inr ⟨i, hi, j, w, h.maps i hi j w hw, hf⟩

theorem refl (d : Nat) (s : Pmap) : Grows d s s :=
  ⟨fun _ _ _ => rfl, fun _ _ _ _ hw => hw, fun _ hf hn => absurd hf hn⟩

theorem trans {s₁ : Pmap} (h : Grows d s s₁) (h' : Grows d s₁ s') : Grows d s s' where
  dir i hi hV := by
    have h₁ := h.dir i hi hV
    rw [h'.dir i hi (by rw [h₁]; exact hV), h₁]
  maps i hi j w hw := h'.maps i hi j w (h.maps i hi j w hw)
  taken f hf hn := by
    by_cases hf₁ : f ∈ s₁.pageFreeList
    · exact h'.taken f hf₁ hn
    · exact h'.holds (h.taken f hf hf₁)

end Grows

-- ---------------------------------------------------------------------------
-- page_insert into an empty slot
-- ---------------------------------------------------------------------------

/-- Nothing is there to be removed. -/
theorem pageInsert_run {asid pp va perm : Nat} {x : Int × Pmap}
    (hnone : s.pteAt d (PDX va) (PTX va) = none) (hrun : pageInsert s d asid pp va perm = .ok x) :
    pageInsertNew s d asid pp va (readable perm) = .ok x := by
  obtain ⟨⟨r₁, pte, s₁⟩, hwalk, hrun⟩ := bind_eq_ok.mp hrun
  obtain ⟨rfl, ⟨hV, rfl⟩ | ⟨-, rfl⟩⟩ := pgdirWalk_false hwalk
  · simp only at hrun
    split_ifs at hrun with hW
    · unfold Pmap.pteAt at hnone
      rw [if_pos hV, if_pos hW] at hnone
      cases hnone
    · exact hrun
  · exact hrun

/-- `pgdir_walk` keeps the page tables, and takes a frame for a new one only. -/
theorem pgdirWalk_grows (h : Apart (fun _ => False) d s) {va : Nat} {r : Int} {pte : Option PtePtr}
    (hrun : pgdirWalk s d va true = .ok (r, pte, s')) :
    (∀ i, testFlag (s.mem d i) PTE_V = true → s'.mem d i = s.mem d i) ∧
      ∀ f ∈ s.pageFreeList, f ∉ s'.pageFreeList →
        testFlag (s'.mem d (PDX va)) PTE_V = true ∧ pteFrame (s'.mem d (PDX va)) = f := by
  unfold pgdirWalk at hrun
  by_cases hV : testFlag (s.mem d (PDX va)) PTE_V = true
  · rw [if_pos hV] at hrun
    obtain ⟨t, -, hrun⟩ := bind_eq_ok.mp hrun
    cases hrun
    exact ⟨fun _ _ => rfl, fun f hf hn => absurd hf hn⟩
  · rw [if_neg hV, if_pos rfl] at hrun
    cases hl : s.pageFreeList with
    | nil =>
      unfold pageAlloc at hrun
      rw [hl] at hrun
      cases hrun
      exact ⟨fun _ _ => rfl, fun f hf => absurd hf List.not_mem_nil⟩
    | cons q rest =>
      obtain ⟨-, hqd, hlt⟩ := h.free q (by rw [hl]; exact List.mem_cons_self)
      rw [pageAlloc_cons hl] at hrun
      obtain ⟨t, -, hrun⟩ := bind_eq_ok.mp hrun
      cases hrun
      constructor
      · intro i hi
        rw [Pmap.store_mem, if_neg (by rintro ⟨-, rfl⟩; exact hV hi), Pmap.setRef_mem,
          Pmap.clear_mem, if_neg (Ne.symm hqd)]
      · intro f hf hn
        obtain rfl : f = q := by
          rcases List.mem_cons.mp hf with rfl | hf
          · rfl
          · exact absurd hf hn
        rw [Pmap.store_mem_self]
        exact ⟨testFlag_V_mkPde f, pteFrame_mkPde hlt⟩

theorem pageInsertNew_grows (h : Apart (fun _ => False) d s) {asid pp va perm : Nat} {r : Int}
    (hva : va < UTOP) (hrun : pageInsertNew s d asid pp va perm = .ok (r, s')) :
    (∀ i < PDX UTOP, testFlag (s.mem d i) PTE_V = true → s'.mem d i = s.mem d i) ∧
      ∀ f ∈ s.pageFreeList, f ∉ s'.pageFreeList →
        testFlag (s'.mem d (PDX va)) PTE_V = true ∧ pteFrame (s'.mem d (PDX va)) = f := by
  obtain ⟨⟨r₁, pte, s₁⟩, hwalk, hrun⟩ := bind_eq_ok.mp hrun
  obtain ⟨hdir, htaken⟩ := pgdirWalk_grows h hwalk
  cases pte with
  | none =>
    cases hrun
    exact ⟨fun i _ => hdir i, htaken⟩
  | some p =>
    cases hrun
    -- the stores behind the walk hit the page table and the slot of the window
    have hpd := ((h.pgdirWalk hva hwalk).2 p rfl).2
    have hwords : ∀ i < PDX UTOP,
        (tlbFlush (((s₁.store p.1 p.2 (mkPte pp perm)).setRef pp
          (((s₁.store p.1 p.2 (mkPte pp perm)).ppRef pp + 1) % 2 ^ 16)).store d (PDX UVPT) 0)
            asid 0).mem d i = s₁.mem d i := by
      intro i hi
      have hne : i ≠ PDX UVPT := by
        rw [PDX_UTOP] at hi
        rw [PDX_UVPT]
        omega
      rw [tlbFlush_mem, Pmap.store_mem, if_neg (fun hc => hne hc.2), Pmap.setRef_mem,
        Pmap.store_mem_frame _ (Ne.symm hpd)]
    constructor
    · intro i hi hV
      rw [hwords i hi, hdir i hV]
    · intro f hf hn
      rw [hwords _ (PDX_lt_UTOP hva)]
      exact htaken f hf hn

-- ---------------------------------------------------------------------------
-- Pages below UTOP
-- ---------------------------------------------------------------------------

/-- The directory of the running env, without any other in view. -/
theorem KernelOk.curApart (h : KernelOk b k₀ role₀ k) (hcur : k.curenv = some c) :
    Apart (fun _ => False) k.curPgdir k.pm := by
  obtain ⟨role, h, hbd⟩ := h
  obtain ⟨hc, hd⟩ := h.cur c hcur
  rw [hd]
  exact (h.accounted hbd).walk hc

/-- The mappings of the running env stay across a fault. -/
theorem FaultOk.curMaps (h : FaultOk b k₀ role₀ k k') (hc : k.Live c)
    (hd : k.curPgdir = (k.envs c).pgdir) : ∀ i < PDX UTOP, ∀ j w,
    k.pm.pteAt k.curPgdir i j = some w → k'.pm.pteAt k.curPgdir i j = some w := by
  rw [hd]
  exact (h.maps c hc).maps

/-- **`passive_alloc` below `UTOP`.** The page is mapped with all the rights a user
page can have but `PTE_X`. -/
theorem passiveAlloc_low (h : KernelOk b k₀ role₀ k) (hb : Booted b k₀ role₀)
    (hcur : k.curenv = some c) {va : Nat} (hva : va < UTOP)
    (hnone : k.pm.pteAt k.curPgdir (PDX va) (PTX va) = none) (hrun : passiveAlloc k c va = .ok k') :
    k'.envs = k.envs ∧ k'.tf = k.tf ∧ Grows k.curPgdir k.pm k'.pm ∧
      ∃ f, k'.pm.pteAt k.curPgdir (PDX va) (PTX va) = some (mkPte f (PTE_R ||| PTE_W ||| PTE_U)) := by
  have hfault := passiveAlloc_inv h hb hcur hnone hrun
  have hapart := h.curApart hcur
  obtain ⟨role, hinv, -⟩ := h
  obtain ⟨hc, hd⟩ := hinv.cur c hcur
  unfold passiveAlloc at hrun
  split_ifs at hrun
  cases hl : k.pm.pageFreeList with
  | nil =>
    unfold pageAlloc at hrun
    rw [hl] at hrun
    cases hrun
  | cons p rest =>
    have ha := pageAlloc_cons hl
    rw [ha] at hrun
    obtain ⟨s₁, hs₁⟩ : ∃ s₁, s₁ = { k.pm with pageFreeList := rest }.clear p := ⟨_, rfl⟩
    rw [← hs₁] at hrun ha
    obtain ⟨⟨r, pm'⟩, hins, hrun⟩ := bind_eq_ok.mp hrun
    change (if r ≠ 0 then _ else _) = _ at hrun
    split_ifs at hrun with hr
    obtain rfl := Except.ok.inj hrun
    rw [ne_eq, not_not] at hr
    subst hr
    obtain ⟨h₁, -, hpd, hlt⟩ := hapart.alloc ha
    have hlow : ROUNDDOWN va BY2PG < UTOP := Nat.lt_of_le_of_lt (ROUNDDOWN_le va) hva
    have hnone₁ : s₁.pteAt k.curPgdir (PDX (ROUNDDOWN va BY2PG)) (PTX (ROUNDDOWN va BY2PG)) = none := by
      rw [PDX_ROUNDDOWN, PTX_ROUNDDOWN, Option.eq_none_iff_forall_ne_some]
      intro w hw
      rw [pageAlloc_pteAt ha hpd hw] at hnone
      cases hnone
    have hnew := pageInsert_run hnone₁ hins
    have hentry := pageInsertNew_pteAt h₁.apart hlow hnew
    rw [PDX_ROUNDDOWN, PTX_ROUNDDOWN, show readable (PTE_R ||| PTE_W ||| PTE_U) =
      PTE_R ||| PTE_W ||| PTE_U by decide] at hentry
    obtain ⟨hdir, htaken⟩ := pageInsertNew_grows h₁.apart hlow hnew
    refine ⟨rfl, rfl, ⟨?_, hfault.curMaps hc hd, ?_⟩, p, hentry⟩
    · intro i hi hV
      have hword : s₁.mem k.curPgdir i = k.pm.mem k.curPgdir i := by
        rw [hs₁, Pmap.clear_mem, if_neg (Ne.symm hpd)]
      rw [← hword] at hV ⊢
      exact hdir i hi hV
    · intro f hf hn
      rw [hl] at hf
      rcases List.mem_cons.mp hf with rfl | hf
      · -- the page itself
        refine Or.inr ⟨_, PDX_lt_UTOP hva, _, _, hentry, ?_⟩
        unfold pteFrame
        rw [PTE_ADDR_mkPte hlt (by decide), pa2idx_page2pa hlt]
      · -- a page table for it
        rw [PDX_ROUNDDOWN] at htaken
        exact Or.inl ⟨_, PDX_lt_UTOP hva, htaken f (by rw [hs₁]; exact hf) hn⟩

/-- A byte of a page the running env maps below `UTOP` is written. -/
theorem storeByte_grows (h : KernelOk b k₀ role₀ k) (hb : Booted b k₀ role₀)
    (hcur : k.curenv = some c) {va w : Nat} (hva : PDX va < PDX UTOP)
    (hw : k.pm.pteAt k.curPgdir (PDX va) (PTX va) = some w) (a x : Nat) :
    Grows k.curPgdir k.pm (k.pm.storeByte (pteFrame w) a x) := by
  have hfault := storeByte_inv h hb hcur hva hw a x
  obtain ⟨role, hinv, -⟩ := h
  obtain ⟨hc, hd⟩ := hinv.cur c hcur
  have hdata : role (pteFrame w) = .data := by
    rw [hd] at hw
    exact hinv.pteAt_data hc hva hw
  have hne : k.curPgdir ≠ pteFrame w := by
    intro heq
    have hdir := hinv.dir c hc
    rw [← hd, heq, hdata] at hdir
    cases hdir
  exact ⟨fun i _ _ => Pmap.store_mem_frame _ hne i, hfault.curMaps hc hd,
    fun f hf hn => absurd hf hn⟩

theorem kernelStore_grows (h : KernelOk b k₀ role₀ k) (hb : Booted b k₀ role₀)
    (hcur : k.curenv = some c) {va x : Nat} (hva : va < UTOP) (hrun : kernelStore k c va x = .ok k') :
    k'.envs = k.envs ∧ Grows k.curPgdir k.pm k'.pm := by
  unfold kernelStore at hrun
  obtain ⟨k₁, hpage, hrun⟩ := bind_eq_ok.mp hrun
  have h₁ : KernelOk b k₀ role₀ k₁ ∧ k₁.curenv = some c ∧ k₁.curPgdir = k.curPgdir ∧
      k₁.envs = k.envs ∧ Grows k.curPgdir k.pm k₁.pm := by
    unfold withPage at hpage
    cases hw : k.pm.pteAt k.curPgdir (PDX va) (PTX va) with
    | some w =>
      rw [hw] at hpage
      cases hpage
      exact ⟨h, hcur, rfl, rfl, .refl ..⟩
    | none =>
      rw [hw] at hpage
      have hnone : k.pm.pteAt k.curPgdir (PDX (ROUNDDOWN va BY2PG)) (PTX (ROUNDDOWN va BY2PG)) = none := by
        rw [PDX_ROUNDDOWN, PTX_ROUNDDOWN]
        exact hw
      have hfault := passiveAlloc_inv h hb hcur hnone hpage
      obtain ⟨henvs, -, hgrows, -⟩ := passiveAlloc_low h hb hcur
        (Nat.lt_of_le_of_lt (ROUNDDOWN_le va) hva) hnone hpage
      exact ⟨hfault.ok, hfault.same.curenv.trans hcur, hfault.same.curPgdir, henvs, hgrows⟩
  obtain ⟨hok, hcur₁, hd₁, henvs, hgrows⟩ := h₁
  cases hw : k₁.pm.pteAt k₁.curPgdir (PDX va) (PTX va) with
  | none =>
    rw [hw] at hrun
    cases hrun
  | some w =>
    rw [hw] at hrun
    change (if testFlag w PTE_W = true then _ else _) = _ at hrun
    split_ifs at hrun
    obtain rfl := Except.ok.inj hrun
    have hstore := storeByte_grows hok hb hcur₁ (PDX_lt_UTOP hva) hw (va % BY2PG) x
    rw [hd₁] at hstore
    exact ⟨henvs, hgrows.trans hstore⟩

/-- **A run of stores**, by induction on the bytes. -/
theorem kernelStores_grows {bs : List Nat} (h : KernelOk b k₀ role₀ k) (hb : Booted b k₀ role₀)
    (hcur : k.curenv = some c) {va : Nat} (hva : va + bs.length ≤ UTOP)
    (hrun : kernelStores k c va bs = .ok k') : k'.envs = k.envs ∧ Grows k.curPgdir k.pm k'.pm := by
  induction bs generalizing k va with
  | nil =>
    obtain rfl := Except.ok.inj hrun
    exact ⟨rfl, .refl ..⟩
  | cons x bs ih =>
    rw [List.length_cons] at hva
    obtain ⟨k₁, hstore, hrun⟩ := bind_eq_ok.mp hrun
    have hfault := kernelStore_inv h hb hcur (show va < UTOP by omega) hstore
    obtain ⟨henvs, hgrows⟩ := kernelStore_grows h hb hcur (show va < UTOP by omega) hstore
    obtain ⟨henvs', hgrows'⟩ := ih hfault.ok (hfault.same.curenv.trans hcur) (by omega) hrun
    rw [hfault.same.curPgdir] at hgrows'
    exact ⟨henvs'.trans henvs, hgrows.trans hgrows'⟩

-- ---------------------------------------------------------------------------
-- The window
-- ---------------------------------------------------------------------------

/-- `copyFrame` takes a frame for `env_pgdir_copy_pa` only. -/
theorem copyFrame_owns (h : KernelInv b k₀ role₀ k role) (hb : Booted b k₀ role₀) {p : Nat}
    (hrun : copyFrame k c = .ok (p, k')) {f : Nat} (hf : f ∈ k.pm.pageFreeList)
    (hn : f ∉ k'.pm.pageFreeList) : (k'.envs c).pgdirCopyPa ≠ 0 ∧ pa2idx (k'.envs c).pgdirCopyPa = f := by
  unfold copyFrame at hrun
  split_ifs at hrun with hz
  · cases hl : k.pm.pageFreeList with
    | nil =>
      rw [hl] at hf
      cases hf
    | cons q rest =>
      have hlt : q < npage := h.frames.lt_npage (by
        rw [(h.alloc hb (pageAlloc_cons hl)).1]
        simp)
      rw [pageAlloc_cons hl] at hrun
      cases hrun
      rw [hl] at hf
      obtain rfl : f = p := by
        rcases List.mem_cons.mp hf with rfl | hf
        · rfl
        · exact absurd hf hn
      rw [Kernel.setEnv_self]
      exact ⟨page2pa_ne_zero hlt, pa2idx_page2pa hlt⟩
  · obtain ⟨q, -, hrun⟩ := bind_eq_ok.mp hrun
    cases hrun
    exact absurd hf hn

/-- **A load fault in the window.** The entry of the copy is there for the env to
read, and the only frame it cost is that of the copy. -/
theorem loadFault_window (h : KernelOk b k₀ role₀ k) (hb : Booted b k₀ role₀)
    (hcur : k.curenv = some c) {addr : Nat} (hlo : UVPT ≤ addr) (hhi : addr < ULIM)
    (hrun : loadFault k c addr = .ok k') :
    k'.curPgdir = k.curPgdir ∧
      (∃ w, k'.pm.pteAt k.curPgdir (PDX addr) (PTX addr) = some w ∧ testFlag w PTE_U = true ∧
        testFlag w PTE_R = true) ∧
      ∀ f ∈ k.pm.pageFreeList, f ∉ k'.pm.pageFreeList → k'.Owns c f := by
  obtain ⟨role, hinv, -⟩ := h
  have hU : UVPT = 0x7fc00000 := by decide
  have hL : ULIM = 0x80000000 := by decide
  have hS : USTACKTOP = 0x7f3fe000 := by decide
  unfold loadFault at hrun
  rw [if_neg (by omega), if_neg (by omega)] at hrun
  obtain ⟨k₁, hmap, hrun⟩ := bind_eq_ok.mp hrun
  change (if testFlag (k₁.pm.mem k₁.curPgdir ((addr - UVPT) / BY2PG)) PTE_V = true then _ else _) = _ at hrun
  split_ifs at hrun with hV
  obtain rfl := Except.ok.inj hrun
  obtain ⟨role', h', hsame, -⟩ := hinv.mapWindow_inv hb hcur hmap
  have hcur' := hsame.curenv.trans hcur
  obtain ⟨hc, hd⟩ := h'.cur c hcur'
  obtain ⟨⟨p, k₂⟩, hframe, hdone⟩ := bind_eq_ok.mp hmap
  refine ⟨hsame.curPgdir, ?_, ?_⟩
  · rw [← hsame.curPgdir]
    have hidx : (addr - UVPT) / BY2PG = PTX addr := by
      rw [PTX_eq, hU]
      unfold BY2PG
      omega
    have hopen : k₁.pm.mem (k₁.envs c).pgdir (PDX UVPT) ≠ 0 := by
      rw [← hd]
      have hVp := testFlag_V_mkPde p
      intro hz
      have hwin : k₁.pm.mem k₁.curPgdir (PDX UVPT) = mkPde p := by
        cases hdone
        exact Pmap.store_mem_self ..
      rw [← hwin, hz, testFlag_zero_left] at hVp
      cases hVp
    obtain ⟨f, hf, -, hwin, hword⟩ := (h'.window c hc).resolve_left hopen
    have hlt : f < npage := h'.frames.lt_npage (by simp [hf])
    rw [hidx, hd] at hV
    obtain ⟨hVw, hUw, hRw⟩ := copyWord_readable (Or.inr hV)
    refine ⟨_, ?_, hUw, hRw⟩
    unfold Pmap.pteAt
    rw [PDX_of_window hlo hhi, hd, hwin, if_pos (testFlag_V_mkPde f), pteFrame_mkPde hlt,
      hword _ (PTX_lt addr), if_pos hVw]
  · intro f hf hn
    have hown : (k₂.envs c).pgdirCopyPa ≠ 0 ∧ pa2idx (k₂.envs c).pgdirCopyPa = f := by
      refine copyFrame_owns hinv hb hframe hf ?_
      cases hdone
      exact hn
    cases hdone
    exact Or.inr (Or.inr hown)

-- ---------------------------------------------------------------------------
-- do_tlb_miss
-- ---------------------------------------------------------------------------

/-- The right a fault with this cause is about. -/
def accessFlag (scause : Nat) : Nat :=
  if scause = 15 then PTE_W else if scause = 13 then PTE_R else PTE_X

/-- The env goes on in the handler it has registered, with its frame saved. -/
structure Redirected (k k' : Kernel) (c : Nat) : Prop where
  store : k.tf.scause = 15
  cow : ∃ w, k.pm.pteAt k.curPgdir (PDX k.tf.stval) (PTX k.tf.stval) = some w ∧
    testFlag w PTE_COW = true
  handler : (k.envs c).userTlbModEntry ≠ 0
  sepc : k'.tf.sepc = (k.envs c).userTlbModEntry
  frame : k'.tf.regs 10 = modFrameVa k.tf

/-- The page of the fault is mapped for the access that faulted. -/
def Accessible (k k' : Kernel) : Prop :=
  ∃ w, k'.pm.pteAt k'.curPgdir (PDX k.tf.stval) (PTX k.tf.stval) = some w ∧
    testFlag w PTE_U = true ∧ testFlag w (accessFlag k.tf.scause) = true

/-- What a fault from `k` to `k'` should achieve. -/
structure FaultProgress (k k' : Kernel) (c : Nat) : Prop where
  served : Redirected k k' c ∨ Accessible k k'
  kept : ∀ f ∈ k.pm.pageFreeList, f ∉ k'.pm.pageFreeList → k'.Owns c f

/-- A store fault in the window, at a page that is not mapped there. -/
def WindowStore (k : Kernel) : Prop :=
  k.tf.scause = 15 ∧ UVPT ≤ k.tf.stval ∧ k.tf.stval < ULIM ∧
    k.pm.pteAt k.curPgdir (PDX k.tf.stval) (PTX k.tf.stval) = none

theorem doTlbMod_progress (h : KernelOk b k₀ role₀ k) (hb : Booted b k₀ role₀)
    (hcur : k.curenv = some c) (hcause : k.tf.scause = 15) {w : Nat}
    (hw : k.pm.pteAt k.curPgdir (PDX k.tf.stval) (PTX k.tf.stval) = some w)
    (hcow : testFlag w PTE_COW = true) (hrun : doTlbMod k c = .ok k') : FaultProgress k k' c := by
  obtain ⟨hc, hd⟩ : k.Live c ∧ k.curPgdir = (k.envs c).pgdir := by
    obtain ⟨role, hinv, -⟩ := h
    exact hinv.cur c hcur
  unfold doTlbMod at hrun
  obtain ⟨k₁, hstores, hrun⟩ := bind_eq_ok.mp hrun
  obtain ⟨henvs, hgrows⟩ := kernelStores_grows h hb hcur
    (by rw [Trapframe.bytes_length]; exact modFrameVa_le k.tf) hstores
  split_ifs at hrun with hentry
  obtain rfl := Except.ok.inj hrun
  rw [henvs] at hentry
  refine ⟨Or.inl ⟨hcause, ⟨w, hw, hcow⟩, hentry, ?_, ?_⟩, ?_⟩
  · exact congrArg (fun g => (g c).userTlbModEntry) henvs
  · exact Function.update_self 10 (modFrameVa k.tf) k.tf.regs
  · intro f hf hn
    refine Or.inr (Or.inl ?_)
    show k₁.pm.Holds (k₁.envs c).pgdir f
    rw [henvs, ← hd]
    exact hgrows.taken f hf hn

/-- The ranges `passive_alloc` lets through. -/
theorem passiveAlloc_range {va : Nat} (hrun : passiveAlloc k c va = .ok k') :
    va < UTOP ∨ UVPT ≤ va ∧ va < ULIM := by
  unfold passiveAlloc at hrun
  split_ifs at hrun with h1 h2 h3 h4 h5
  have hU : UENVS = UTOP := rfl
  omega

/-- Where `passive_alloc` lets an address through, it is the mapper of the loader,
without any bytes to copy. -/
theorem passiveAlloc_mapper {va : Nat} (hlo : UVPT ≤ va) (hhi : va < ULIM) :
    passiveAlloc k c va =
      loadIcodeMapper k.curPgdir (k.envs c).asid (ROUNDDOWN va BY2PG) 0 (PTE_R ||| PTE_W ||| PTE_U)
        none k.pm >>= fun x => if x.1 ≠ 0 then .error .passiveAlloc else .ok { k with pm := x.2 } := by
  have hU : UVPT = 0x7fc00000 := by decide
  have hP : UPAGES = 0x7f800000 := by decide
  have hS : USTACKTOP = 0x7f3fe000 := by decide
  have hT : UTEMP = 0x3fe000 := by decide
  have hB : BY2PG = 4096 := rfl
  unfold passiveAlloc loadIcodeMapper
  rw [if_neg (by omega), if_neg (by omega), if_neg (by omega), if_neg (by omega), if_neg (by omega)]
  cases pageAlloc k.pm with
  | none => rfl
  | some x => rfl

/-- `passive_alloc` in the window: the `page_insert` closes it. -/
theorem passiveAlloc_window (h : KernelOk b k₀ role₀ k) (hcur : k.curenv = some c) {va : Nat}
    (hlo : UVPT ≤ va) (hhi : va < ULIM)
    (hnone : k.pm.pteAt k.curPgdir (PDX va) (PTX va) = none) :
    (∀ k', passiveAlloc k c va = .ok k' → ∀ j, k'.pm.pteAt k'.curPgdir (PDX UVPT) j = none) ∧
      (2 ≤ k.pm.pageFreeList.length → ∃ k', passiveAlloc k c va = .ok k') := by
  obtain ⟨role, hinv, -⟩ := h
  obtain ⟨hc, hd⟩ := hinv.cur c hcur
  have hlaid : Laid EnvSlot (fun i j => i = PDX va ∧ j = PTX va) k.curPgdir k.pm := by
    rw [hd]
    refine (hinv.laid hc).follow (fun i j hij => Or.inr (hij.1.trans (PDX_of_window hlo hhi))) ?_
    rintro i j ⟨rfl, rfl⟩
    rw [← hd]
    exact hnone
  have hslot : PDX (ROUNDDOWN va BY2PG) = PDX va ∧ PTX (ROUNDDOWN va BY2PG) = PTX va :=
    ⟨PDX_ROUNDDOWN va, PTX_ROUNDDOWN va⟩
  obtain ⟨r, pm, hmap, hlays, hroom⟩ := hlaid.mapper (k.envs c).asid 0 none hslot
    (show PTE_R ||| PTE_W ||| PTE_U < 2 ^ 10 by decide)
  rw [passiveAlloc_mapper hlo hhi, hmap, ok_bind]
  constructor
  · intro k' hrun j
    split_ifs at hrun with hr
    obtain rfl := Except.ok.inj hrun
    rw [ne_eq, not_not] at hr
    exact pteAt_of_empty (hlays hr).window j
  · intro hlen
    exact ⟨_, if_neg fun hc => hc (hroom hlen).1⟩

/-- The entry `passive_alloc` makes lets the env load and store. -/
theorem passivePte_flags (f : Nat) :
    testFlag (mkPte f (PTE_R ||| PTE_W ||| PTE_U)) PTE_U = true ∧
      testFlag (mkPte f (PTE_R ||| PTE_W ||| PTE_U)) PTE_R = true ∧
      testFlag (mkPte f (PTE_R ||| PTE_W ||| PTE_U)) PTE_W = true := by
  refine ⟨?_, ?_, ?_⟩
  · exact (testFlag_mkPte f _ (show 4 < 10 by decide) (by decide)).trans (by decide)
  · exact (testFlag_mkPte f _ (show 1 < 10 by decide) (by decide)).trans (by decide)
  · exact (testFlag_mkPte f _ (show 2 < 10 by decide) (by decide)).trans (by decide)

theorem window_page {va : Nat} :
    UVPT ≤ ROUNDDOWN va BY2PG ∧ ROUNDDOWN va BY2PG < ULIM ↔ UVPT ≤ va ∧ va < ULIM := by
  have hU : UVPT = 0x7fc00000 := by decide
  have hL : ULIM = 0x80000000 := by decide
  rw [hU, hL]
  unfold ROUNDDOWN BY2PG
  omega

/-- A new page below `UTOP`, for a load or a store. -/
theorem passiveAlloc_progress (h : KernelOk b k₀ role₀ k) (hb : Booted b k₀ role₀)
    (hcur : k.curenv = some c) (hcause : k.tf.scause = 15 ∨ k.tf.scause = 13)
    (hlow : ROUNDDOWN k.tf.stval BY2PG < UTOP)
    (hnone : k.pm.pteAt k.curPgdir (PDX (ROUNDDOWN k.tf.stval BY2PG))
      (PTX (ROUNDDOWN k.tf.stval BY2PG)) = none)
    (hrun : passiveAlloc k c (ROUNDDOWN k.tf.stval BY2PG) = .ok k') : FaultProgress k k' c := by
  have hd : k.curPgdir = (k.envs c).pgdir := by
    obtain ⟨role, hinv, -⟩ := h
    exact (hinv.cur c hcur).2
  have hfault := passiveAlloc_inv h hb hcur hnone hrun
  obtain ⟨henvs, -, hgrows, f, hentry⟩ := passiveAlloc_low h hb hcur hlow hnone hrun
  rw [PDX_ROUNDDOWN, PTX_ROUNDDOWN] at hentry
  obtain ⟨hU, hR, hW⟩ := passivePte_flags f
  refine ⟨Or.inr ⟨_, by rw [hfault.same.curPgdir]; exact hentry, hU, ?_⟩, ?_⟩
  · unfold accessFlag
    rcases hcause with hs | hs
    · rw [if_pos hs]
      exact hW
    · rw [hs, if_neg (by decide), if_pos rfl]
      exact hR
  · intro g hg hn
    refine Or.inr (Or.inl ?_)
    rw [henvs, ← hd]
    exact hgrows.taken g hg hn

/-- **A page fault gets the env further**, except for a store into the window. -/
theorem faultProgress_iff (hb : Booted b k₀ role₀) (h : KernelOk b k₀ role₀ k)
    (hcur : k.curenv = some c) (hrun : doTlbMiss k c = .ok k') :
    FaultProgress k k' c ↔ ¬ WindowStore k := by
  obtain ⟨hc, hd⟩ : k.Live c ∧ k.curPgdir = (k.envs c).pgdir := by
    obtain ⟨role, hinv, -⟩ := h
    exact hinv.cur c hcur
  unfold doTlbMiss at hrun
  obtain ⟨x, hlook, hrun⟩ := bind_eq_ok.mp hrun
  cases x with
  | some y =>
    obtain ⟨pp, p⟩ := y
    obtain ⟨w, hw, -, -, hV, rfl⟩ := pageLookup_pteAt hlook
    rw [PDX_ROUNDDOWN, PTX_ROUNDDOWN] at hw
    obtain ⟨-, hword⟩ := pteAt_entry hw
    change (if k.tf.scause = 15 ∧ testFlag (k.pm.mem (pteFrame (k.pm.mem k.curPgdir
      (PDX (ROUNDDOWN k.tf.stval BY2PG)))) (PTX (ROUNDDOWN k.tf.stval BY2PG))) PTE_COW = true
        then _ else _) = _ at hrun
    rw [PDX_ROUNDDOWN, PTX_ROUNDDOWN, ← hword] at hrun
    split_ifs at hrun with hcow
    refine iff_of_true (doTlbMod_progress h hb hcur hcow.1 hw hcow.2 hrun) ?_
    rintro ⟨-, -, -, hnone⟩
    rw [hw] at hnone
    cases hnone
  | none =>
    have hnone := pteAt_of_lookup_none hlook
    change (if k.tf.scause = 15 then _ else _) = _ at hrun
    have hnone' := hnone
    rw [PDX_ROUNDDOWN, PTX_ROUNDDOWN] at hnone'
    have hlow_window : ROUNDDOWN k.tf.stval BY2PG < UTOP → ¬ WindowStore k := by
      rintro hlow ⟨-, hlo, hhi, -⟩
      have hUT : UTOP < UVPT := by decide
      have := (window_page.mpr ⟨hlo, hhi⟩).1
      omega
    split_ifs at hrun with hstore hload
    · rcases passiveAlloc_range hrun with hlow | hwin
      · exact iff_of_true (passiveAlloc_progress h hb hcur (Or.inl hstore) hlow hnone hrun)
          (hlow_window hlow)
      · -- the page went behind the window, which is closed now
        obtain ⟨hlo, hhi⟩ := window_page.mp hwin
        refine iff_of_false ?_ (fun hn => hn ⟨hstore, hlo, hhi, hnone'⟩)
        rintro ⟨hred | ⟨w, hw, -⟩, -⟩
        · obtain ⟨w, hw, -⟩ := hred.cow
          rw [hnone'] at hw
          cases hw
        · rw [PDX_of_window hlo hhi,
            (passiveAlloc_window h hcur hwin.1 hwin.2 hnone).1 k' hrun] at hw
          cases hw
    · by_cases hstack : UTEMP ≤ ROUNDDOWN k.tf.stval BY2PG ∧ ROUNDDOWN k.tf.stval BY2PG < USTACKTOP
      · have hlow : ROUNDDOWN k.tf.stval BY2PG < UTOP := Nat.lt_trans hstack.2 (by decide)
        unfold loadFault at hrun
        rw [if_pos hstack] at hrun
        exact iff_of_true (passiveAlloc_progress h hb hcur (Or.inr hload) hlow hnone hrun)
          (hlow_window hlow)
      · have hwin : UVPT ≤ ROUNDDOWN k.tf.stval BY2PG ∧ ROUNDDOWN k.tf.stval BY2PG < ULIM := by
          unfold loadFault at hrun
          rw [if_neg hstack] at hrun
          split_ifs at hrun with hbad
          omega
        obtain ⟨hpg, ⟨w, hw, hU, hR⟩, hkept⟩ := loadFault_window h hb hcur hwin.1 hwin.2 hrun
        rw [PDX_ROUNDDOWN, PTX_ROUNDDOWN] at hw
        refine iff_of_true ⟨Or.inr ⟨w, by rw [hpg]; exact hw, hU, ?_⟩, hkept⟩ (fun hs => hstore hs.1)
        unfold accessFlag
        rw [if_neg hstore, if_pos hload]
        exact hR

/-- A store fault where no page is. -/
theorem doTlbMiss_store (hcause : k.tf.scause = 15)
    (hlookup : pageLookup k.pm k.curPgdir (ROUNDDOWN k.tf.stval BY2PG) = .ok none) :
    doTlbMiss k c = passiveAlloc k c (ROUNDDOWN k.tf.stval BY2PG) := by
  unfold doTlbMiss
  simp only [hlookup, ok_bind]
  rw [if_pos hcause]

/-- A store fault at the first address of the window. -/
def windowFrame : Trapframe := { zeroTrapframe with scause := 15, stval := UVPT }

/-- The first env takes it: nothing is mapped there, and the kernel does not panic. -/
theorem smallBoot_windowFault :
    ∃ (k₀ : Kernel) (role₀ : Nat → Role) (k : Kernel) (a : Nat) (k' : Kernel),
      smallBoot.boot = .ok k₀ ∧ Booted smallBoot k₀ role₀ ∧ KernReach (fun _ _ => True) k₀ k ∧
      k.curenv = some a ∧ KernelOk smallBoot k₀ role₀ { k with tf := windowFrame } ∧
      k.pm.pteAt k.curPgdir (PDX UVPT) (PTX UVPT) = none ∧
      doTlbMiss { k with tf := windowFrame } a = .ok k' ∧
      ∀ j, k'.pm.pteAt k'.curPgdir (PDX UVPT) j = none := by
  obtain ⟨k₀, role₀, k₁, k, a, hboot, hb, hcreate, htick, -, -, h, hcur, -, hspace⟩ := smallBoot_first
  have hok := h.ok.setTf windowFrame
  obtain ⟨role, hinv, -⟩ := h.ok
  obtain ⟨hlive, hd⟩ := hinv.cur a hcur
  have hzero : k.pm.mem k.curPgdir (PDX UVPT) = 0 := by
    rw [hd]
    exact hinv.closed hlive hspace.copy
  have hnone : k.pm.pteAt k.curPgdir (PDX UVPT) (PTX UVPT) = none := pteAt_of_empty hzero _
  have hpage : ROUNDDOWN windowFrame.stval BY2PG = UVPT := by decide
  obtain ⟨hclosed, hroom⟩ := passiveAlloc_window hok hcur (Nat.le_refl UVPT) (by decide) hnone
  obtain ⟨k', hrun⟩ := hroom (Nat.le_trans (by decide) h.room)
  refine ⟨k₀, role₀, k, a, k', hboot, hb, .step (.step .refl trivial hcreate) trivial htick, hcur, hok,
    hnone, ?_, hclosed k' hrun⟩
  have hlook : pageLookup k.pm k.curPgdir (ROUNDDOWN windowFrame.stval BY2PG) = .ok none := by
    rw [hpage]
    unfold pageLookup
    rw [pgdirWalk_absent (by rw [hzero]; exact testFlag_zero_left _)]
    rfl
  refine (doTlbMiss_store rfl hlook).trans ?_
  show passiveAlloc { k with tf := windowFrame } a (ROUNDDOWN windowFrame.stval BY2PG) = _
  rw [hpage]
  exact hrun

/-- The fault of `windowFrame`. -/
theorem faultProgress_iff_window :
    ∃ (k : Kernel) (a : Nat) (k' : Kernel), doTlbMiss { k with tf := windowFrame } a = .ok k' ∧
      (FaultProgress { k with tf := windowFrame } k' a ↔ ¬ WindowStore { k with tf := windowFrame }) := by
  obtain ⟨k₀, role₀, k, a, k', -, hb, -, hcur, hok, -, hrun, -⟩ := smallBoot_windowFault
  exact ⟨k, a, k', hrun, faultProgress_iff hb hok hcur hrun⟩

/-- **The window is closed again.** The first env stores at `UVPT`: the fault is
handled without a panic, and nothing is mapped there afterwards. -/
theorem faultProgress_window :
    ∃ (k₀ k : Kernel) (a : Nat) (k' : Kernel), smallBoot.boot = .ok k₀ ∧
      KernReach (fun _ _ => True) k₀ k ∧ k.curenv = some a ∧ doTlbMiss { k with tf := windowFrame } a = .ok k' ∧
      ¬ FaultProgress { k with tf := windowFrame } k' a := by
  obtain ⟨k₀, role₀, k, a, k', hboot, -, hreach, hcur, -, hnone, hrun, hclosed⟩ := smallBoot_windowFault
  refine ⟨k₀, k, a, k', hboot, hreach, hcur, hrun, ?_⟩
  rintro ⟨hred | ⟨w, hw, -⟩, -⟩
  · obtain ⟨w, hw, -⟩ := hred.cow
    rw [show k.pm.pteAt k.curPgdir (PDX windowFrame.stval) (PTX windowFrame.stval) = none from hnone] at hw
    cases hw
  · rw [show k'.pm.pteAt k'.curPgdir (PDX windowFrame.stval) (PTX windowFrame.stval) = none from
      hclosed _] at hw
    cases hw

end Mos.Kern
