import Mos.Lib.Except
import Mos.Kern.FrameInv

/-!
# MOS on RISC-V — the page-table operations as operations on a map

Under the frame invariant every function of `kern/pmap.c` that takes a
directory acts on `view`, the map from directory slots to entries, and on
nothing else a caller can see. Each function has one specification lemma here:

* `pageLookup_none`, `pageLookup_some` — `page_lookup` reads the map;
* `pageRemove_none`, `pageRemove_some` — `page_remove` clears one slot;
* `pageInsert_spec` — `page_insert` sets one slot, or fails for want of a page
  table and changes nothing.

None of them panics. What else such a step keeps (the directories, the fresh
frames, the words of every data frame) is collected in `MapStep`.
-/

namespace Mos.Kern

open Mos.Lib

/-- One map update: slot `x` now holds `v`, and nothing else moved. -/
structure MapStep (own : Nat → Bool) (lo : Nat) (s : Pmap) (role : Nat → Role)
    (x : Nat × Nat × Nat) (v : Option Nat) (s' : Pmap) (role' : Nat → Role) : Prop where
  inv : FrameInv own lo s' role'
  view_eq : view own role' s' = Function.update (view own role s) x v
  dir_iff : ∀ f, role' f = .dir ↔ role f = .dir
  held_iff : ∀ f, role' f = .held ↔ role f = .held
  fresh_iff : ∀ f, role' f = .fresh ↔ role f = .fresh ∧ v.map pteFrame ≠ some f
  mem_other : ∀ f i, role f ≠ .free → (∀ d i', role f ≠ .table d i') → role f ≠ .dir →
    s'.mem f i = s.mem f i
  mem_dir : ∀ f i, role f = .dir → (f, i) ≠ (x.1, x.2.1) → (f, i) ≠ (x.1, PDX UVPT) →
    s'.mem f i = s.mem f i
  mem_uvpt : s'.mem x.1 (PDX UVPT) = 0 ∨ ∀ i, s'.mem x.1 i = s.mem x.1 i

/-- The slot of a virtual address. -/
def slotOf (pgdir va : Nat) : Nat × Nat × Nat := (pgdir, PDX va, PTX va)

/-- No frame is mapped `2 ^ 16` times. -/
def Bounded (own : Nat → Bool) (role : Nat → Role) (s : Pmap) : Prop :=
  ∀ f, leafRefs own role s f < 2 ^ 16

section

variable {own : Nat → Bool} {lo : Nat} {s : Pmap} {role : Nat → Role} {d pp va perm : Nat}

/-- A TLB flush is invisible to the map. -/
theorem FrameInv.flush (h : FrameInv own lo s role) (asid va : Nat) :
    FrameInv own lo (tlbFlush s asid va) role ∧
      view own role (tlbFlush s asid va) = view own role s :=
  h.of_eq rfl rfl rfl

theorem kaddr_ok {pa : Nat} (h : pa2idx pa < npage) : kaddr pa = .ok (pa2idx pa) :=
  if_neg (by omega)

theorem pa2page_ok {pa : Nat} (h : pa2idx pa < npage) : pa2page pa = .ok (pa2idx pa) :=
  if_neg (by omega)

-- ---------------------------------------------------------------------------
-- pgdir_walk
-- ---------------------------------------------------------------------------

theorem pgdirWalk_table (h : FrameInv own lo s role) {t : Nat} (ht : role t = .table d (PDX va))
    (create : Bool) : pgdirWalk s d va create = .ok (0, some (t, PTX va), s) := by
  obtain ⟨-, -, hpde⟩ := h.tablePde t d (PDX va) ht
  have hlt := h.tableLt t d (PDX va) ht
  unfold pgdirWalk
  rw [hpde, if_pos (testFlag_V_mkPde t), PTE_ADDR_mkPde hlt,
    kaddr_ok (by rw [pa2idx_page2pa hlt]; exact hlt), pa2idx_page2pa hlt]
  rfl

theorem pgdirWalk_absent (hpde : testFlag (s.mem d (PDX va)) PTE_V = false) :
    pgdirWalk s d va false = .ok (0, none, s) := by
  unfold pgdirWalk
  rw [hpde]
  rfl

theorem pgdirWalk_noMem (hpde : testFlag (s.mem d (PDX va)) PTE_V = false)
    (hfree : s.pageFreeList = []) : pgdirWalk s d va true = .ok (-E_NO_MEM, none, s) := by
  unfold pgdirWalk pageAlloc
  rw [hpde, hfree]
  rfl

/-- The state after `pgdir_walk` made frame `pp` the table of slot `i` of `d`. -/
def withTable (s : Pmap) (rest : List Nat) (d i pp : Nat) : Pmap :=
  (({ s with pageFreeList := rest }.clear pp).setRef pp 1).store d i (mkPde pp)

theorem pgdirWalk_create (hpde : testFlag (s.mem d (PDX va)) PTE_V = false)
    {rest : List Nat} (hfree : s.pageFreeList = pp :: rest) (hlt : pp < npage) :
    pgdirWalk s d va true = .ok (0, some (pp, PTX va), withTable s rest d (PDX va) pp) := by
  unfold pgdirWalk pageAlloc
  rw [hpde, hfree]
  simp only [Bool.false_eq_true, if_false, if_true, Pmap.store_mem_self]
  rw [PTE_ADDR_mkPde hlt, kaddr_ok (by rw [pa2idx_page2pa hlt]; exact hlt), pa2idx_page2pa hlt]
  rfl

/-- Making a page table leaves the map alone. -/
theorem FrameInv.withTable (h : FrameInv own lo s role) (hd : role d = .dir)
    {i : Nat} (hown : own i = true) (hpde : testFlag (s.mem d i) PTE_V = false)
    {rest : List Nat} (hfree : s.pageFreeList = pp :: rest) :
    FrameInv own lo (withTable s rest d i pp) (Function.update role pp (.table d i)) ∧
      view own (Function.update role pp (.table d i)) (withTable s rest d i pp) =
        view own role s := by
  obtain ⟨h₁, hv₁⟩ := h.alloc hfree
  have hpp : role pp = .free := (h.freeIff pp).mp (by simp [hfree])
  have hdp : d ≠ pp := by rintro rfl; simp [hpp] at hd
  obtain ⟨h₂, hv₂⟩ := h₁.addTable (Function.update_self ..)
    (fun j => by simp [Pmap.clear_mem])
    (by rw [Function.update_of_ne hdp]; exact hd) hown
    (by simpa [Pmap.clear_mem, hdp] using hpde)
  rw [Function.update_idem] at h₂ hv₂
  exact ⟨h₂, hv₂.trans hv₁⟩

-- ---------------------------------------------------------------------------
-- page_lookup and va2pa
-- ---------------------------------------------------------------------------

/-- An owned slot without a page table maps nothing. -/
theorem FrameInv.view_absent {i : Nat} (hpde : testFlag (s.mem d i) PTE_V = false) (j : Nat) :
    view own role s (d, i, j) = none := by
  unfold view Pmap.pteAt
  simp [hpde]

/-- The table behind an owned slot of a directory, if its PDE is valid. -/
theorem FrameInv.pde_cases (h : FrameInv own lo s role) (hd : role d = .dir) {i : Nat}
    (hown : own i = true) :
    (∃ t, role t = .table d i) ∨ testFlag (s.mem d i) PTE_V = false := by
  cases hV : testFlag (s.mem d i) PTE_V with
  | true => exact Or.inl (h.pdeTable d i hd hown hV)
  | false => exact Or.inr rfl

theorem pageLookup_none (h : FrameInv own lo s role) (hd : role d = .dir)
    (hown : own (PDX va) = true) (hv : view own role s (slotOf d va) = none) :
    pageLookup s d va = .ok none := by
  unfold pageLookup
  rcases h.pde_cases hd hown with ⟨t, ht⟩ | hpde
  · rw [pgdirWalk_table h ht]
    rw [slotOf, h.view_table ht] at hv
    have hV : testFlag (s.mem t (PTX va)) PTE_V = false := by
      by_contra hV
      rw [if_pos (by simpa using hV)] at hv
      simp at hv
    show (if testFlag (s.mem t (PTX va)) PTE_V = true then _ else _) = _
    rw [hV]
    rfl
  · rw [pgdirWalk_absent hpde]
    rfl

theorem pageLookup_some (h : FrameInv own lo s role) {w : Nat}
    (hv : view own role s (slotOf d va) = some w) :
    ∃ t, role t = .table d (PDX va) ∧ s.mem t (PTX va) = w ∧
      pageLookup s d va = .ok (some (pteFrame w, (t, PTX va))) := by
  obtain ⟨t, ht, hm, hV⟩ := h.view_eq_some.mp hv
  refine ⟨t, ht, hm, ?_⟩
  have hdata := h.leafData t d (PDX va) (PTX va) ht (PTX_lt va) (by rw [hm]; exact hV)
  have hlt : pteFrame w < npage := by
    rw [hm] at hdata
    exact h.lt_npage (by simp [hdata])
  unfold pageLookup
  rw [pgdirWalk_table h ht]
  show (if testFlag (s.mem t (PTX va)) PTE_V = true then _ else _) = _
  rw [hm, if_pos hV, pa2page_ok hlt]
  rfl

/-- The physical address of a mapped frame is the one in its entry. -/
theorem page2pa_pteFrame {w : Nat} (hlt : pteFrame w < npage) : page2pa (pteFrame w) = PTE_ADDR w := by
  rw [page2pa_eq hlt]
  have hmul : PTE_ADDR w % 4096 = 0 := by
    unfold PTE_ADDR
    rw [Nat.shiftLeft_eq, Nat.and_comm]
    have : (2 ^ 32 - 2 ^ 10 &&& w) % 2 ^ 10 = 0 := by
      rw [← Nat.and_two_pow_sub_one_eq_mod, Nat.and_right_comm]
      simp
    omega
  have hbound := PTE_ADDR_lt w
  unfold pteFrame pa2idx KERNBASE at *
  rw [PPN_eq] at *
  rw [npage_eq] at hlt
  omega

theorem va2pa_none (h : FrameInv own lo s role) (hd : role d = .dir)
    (hown : own (PDX va) = true) (hv : view own role s (slotOf d va) = none) :
    va2pa s d va = .ok (2 ^ 32 - 1) := by
  unfold va2pa
  rcases h.pde_cases hd hown with ⟨t, ht⟩ | hpde
  · obtain ⟨-, -, hm⟩ := h.tablePde t d (PDX va) ht
    have hlt := h.tableLt t d (PDX va) ht
    rw [slotOf, h.view_table ht] at hv
    have hV : ¬ testFlag (s.mem t (PTX va)) PTE_V = true := by
      intro hV
      rw [if_pos hV] at hv
      simp at hv
    rw [hm, if_pos (testFlag_V_mkPde t), PTE_ADDR_mkPde hlt,
      kaddr_ok (by rw [pa2idx_page2pa hlt]; exact hlt), pa2idx_page2pa hlt]
    show (if testFlag (s.mem t (PTX va)) PTE_V = true then _ else _) = _
    rw [if_neg hV]
    rfl
  · rw [hpde]
    rfl

theorem va2pa_some (h : FrameInv own lo s role) {w : Nat}
    (hv : view own role s (slotOf d va) = some w) :
    va2pa s d va = .ok (page2pa (pteFrame w)) := by
  obtain ⟨t, ht, hm, hV⟩ := h.view_eq_some.mp hv
  obtain ⟨-, -, hpde⟩ := h.tablePde t d (PDX va) ht
  have hlt := h.tableLt t d (PDX va) ht
  have hdata := h.leafData t d (PDX va) (PTX va) ht (PTX_lt va) (by rw [hm]; exact hV)
  rw [hm] at hdata
  unfold va2pa
  rw [hpde, if_pos (testFlag_V_mkPde t), PTE_ADDR_mkPde hlt,
    kaddr_ok (by rw [pa2idx_page2pa hlt]; exact hlt), pa2idx_page2pa hlt]
  show (if testFlag (s.mem t (PTX va)) PTE_V = true then _ else _) = _
  rw [hm, if_pos hV, page2pa_pteFrame (h.lt_npage (by simp [hdata]))]
  rfl

-- ---------------------------------------------------------------------------
-- page_remove
-- ---------------------------------------------------------------------------

theorem pageRemove_none (h : FrameInv own lo s role) (asid : Nat) (hd : role d = .dir)
    (hown : own (PDX va) = true) (hv : view own role s (slotOf d va) = none) :
    pageRemove s d asid va = .ok s := by
  unfold pageRemove
  rw [pageLookup_none h hd hown hv]
  rfl

theorem pageRemove_some (h : FrameInv own lo s role) (asid : Nat) {w old : Nat}
    (hv : view own role s (slotOf d va) = some w) (hold : pteFrame w = old)
    (hbound : leafRefs own role s old < 2 ^ 16) :
    ∃ s' t, role t = .table d (PDX va) ∧ pageRemove s d asid va = .ok s' ∧
      s'.mem = (s.store t (PTX va) 0).mem ∧
      MapStep own lo s role (slotOf d va) none s'
        (FrameInv.dropRole role (leafRefs own role s old) old) := by
  obtain ⟨t, ht, hm, hlook⟩ := pageLookup_some h hv
  rw [hold] at hlook
  obtain ⟨-, -, -, hV⟩ := h.view_eq_some.mp hv
  have hdata : role old = .data := by
    rw [← hold, ← hm]
    exact h.leafData t d (PDX va) (PTX va) ht (PTX_lt va) (by rw [hm]; exact hV)
  obtain ⟨s₁, hdec, hmem, hinv, hview⟩ := h.removeLeaf ht (PTX_lt va)
    (by rw [hm]; exact hV) (by rw [hm]; exact hold) hbound
  obtain ⟨hinv', hview'⟩ := hinv.flush asid va
  have hmem' : (tlbFlush (s₁.store t (PTX va) 0) asid va).mem = (s.store t (PTX va) 0).mem := by
    funext f i
    rw [tlbFlush_mem, Pmap.store_mem, Pmap.store_mem, hmem]
  have hrole : ∀ q, q ≠ Role.data → q ≠ Role.free → ∀ f,
      FrameInv.dropRole role (leafRefs own role s old) old f = q ↔ role f = q := by
    intro q h1 h2 f
    unfold FrameInv.dropRole
    split_ifs
    · exact FrameInv.update_role_iff (by rw [hdata]; exact Ne.symm h1) (Ne.symm h2) f
    · exact Iff.rfl
  refine ⟨tlbFlush (s₁.store t (PTX va) 0) asid va, t, ht, ?_, hmem', hinv', hview'.trans hview,
    hrole .dir (by simp) (by simp), hrole .held (by simp) (by simp), ?_, ?_, ?_, Or.inr ?_⟩
  · unfold pageRemove
    rw [hlook]
    show (do let s ← pageDecref s old; _) = _
    rw [hdec]
    rfl
  · intro f
    rw [hrole .fresh (by simp) (by simp)]
    simp
  · intro f i _ htab _
    rw [hmem', Pmap.store_mem_frame]
    rintro rfl
    exact htab d (PDX va) ht
  · intro f i hf _ _
    rw [hmem', Pmap.store_mem_frame]
    rintro rfl
    simp [ht] at hf
  · intro i
    rw [hmem', Pmap.store_mem_frame]
    intro hdt
    have hd := (h.tablePde t d (PDX va) ht).1
    rw [show d = t from hdt, ht] at hd
    simp at hd

-- ---------------------------------------------------------------------------
-- page_insert
-- ---------------------------------------------------------------------------

/-- Filling an empty slot, once its page table is there. -/
theorem setSlot (h : FrameInv own lo s role) (asid : Nat) {t : Nat} (ht : role t = .table d (PDX va))
    (hown : own (PDX UVPT) = false)
    (hv : view own role s (slotOf d va) = none) (hpp : role pp = .fresh ∨ role pp = .data)
    (hframe : pteFrame (mkPte pp perm) = pp) :
    MapStep own lo s role (slotOf d va) (some (mkPte pp perm))
      (tlbFlush (((s.store t (PTX va) (mkPte pp perm)).setRef pp
        (((s.store t (PTX va) (mkPte pp perm)).ppRef pp + 1) % 2 ^ 16)).store d (PDX UVPT) 0) asid 0)
      (Function.update role pp .data) := by
  obtain ⟨hd, -, -⟩ := h.tablePde t d (PDX va) ht
  have hempty : testFlag (s.mem t (PTX va)) PTE_V = false := by
    by_contra hV
    rw [slotOf, h.view_table ht, if_pos (by simpa using hV)] at hv
    simp at hv
  obtain ⟨h₁, hv₁⟩ := h.setLeaf ht (PTX_lt va) hempty hpp (testFlag_V_mkPte pp perm) hframe
  have hne : ∀ q, q ≠ Role.data → q ≠ Role.fresh → role pp ≠ q := by
    intro q h1 h2 e
    rcases hpp with e' | e'
    · exact h2 (by rw [← e, e'])
    · exact h1 (by rw [← e, e'])
  have hdp : d ≠ pp := by
    rintro rfl
    exact hne .dir (by simp) (by simp) hd
  have htd : t ≠ d := by rintro rfl; simp [ht] at hd
  obtain ⟨h₂, hv₂⟩ := h₁.store_other (f := d) (i := PDX UVPT) (w := 0) (fun _ => hown)
    (by intro d' i'; rw [Function.update_of_ne hdp, hd]; simp)
  obtain ⟨h₃, hv₃⟩ := h₂.flush asid 0
  refine ⟨h₃, hv₃.trans (hv₂.trans hv₁), ?_, ?_, ?_, ?_, ?_, Or.inl ?_⟩
  · exact FrameInv.update_role_iff (hne .dir (by simp) (by simp)) (by simp)
  · exact FrameInv.update_role_iff (hne .held (by simp) (by simp)) (by simp)
  · intro f
    rw [Option.map_some, hframe]
    by_cases hf : f = pp
    · subst hf
      simp
    · rw [Function.update_of_ne hf]
      simp [Ne.symm hf]
  · intro f i _ htab hfd
    have h1 : f ≠ d := by rintro rfl; exact hfd hd
    have h2 : f ≠ t := by rintro rfl; exact htab d (PDX va) ht
    rw [tlbFlush_mem, Pmap.store_mem_frame _ h1, Pmap.setRef_mem, Pmap.store_mem_frame _ h2]
  · intro f i hf _ hx
    have h2 : f ≠ t := by rintro rfl; simp [ht] at hf
    rw [tlbFlush_mem, Pmap.store_mem, if_neg, Pmap.setRef_mem, Pmap.store_mem_frame _ h2]
    rintro ⟨rfl, rfl⟩
    exact hx rfl
  · rw [tlbFlush_mem]
    exact Pmap.store_mem_self ..

/-- The slot of `va` has no page table and no frame is left to make one. -/
def NoTable (s : Pmap) (d va : Nat) : Prop :=
  testFlag (s.mem d (PDX va)) PTE_V = false ∧ s.pageFreeList = []

/-- `pgdir_walk` takes a page exactly when the page table is missing. -/
theorem pgdirWalk_free {r : Int} {pte : Option PtePtr} {s' : Pmap}
    (hrun : pgdirWalk s d va true = .ok (r, pte, s')) :
    s'.pageFreeList = if testFlag (s.mem d (PDX va)) PTE_V then s.pageFreeList
      else s.pageFreeList.tail := by
  unfold pgdirWalk at hrun
  split_ifs at hrun ⊢ with hV hc
  · obtain ⟨t, -, hdone⟩ := bind_eq_ok.mp hrun
    cases hdone
    rfl
  · unfold pageAlloc at hrun
    cases hfree : s.pageFreeList with
    | nil =>
      rw [hfree] at hrun
      cases hrun
      exact hfree
    | cons p rest =>
      rw [hfree] at hrun
      obtain ⟨t, -, hdone⟩ := bind_eq_ok.mp hrun
      cases hdone
      rfl
  · exact absurd rfl hc

theorem pageInsertNew_free {asid : Nat} {r : Int} {s' : Pmap}
    (hrun : pageInsertNew s d asid pp va perm = .ok (r, s')) :
    s'.pageFreeList = if testFlag (s.mem d (PDX va)) PTE_V then s.pageFreeList
      else s.pageFreeList.tail := by
  obtain ⟨⟨r₁, pte, s₁⟩, hwalk, hrun⟩ := bind_eq_ok.mp hrun
  rw [← pgdirWalk_free hwalk]
  cases pte with
  | none =>
    cases hrun
    rfl
  | some p =>
    cases hrun
    rfl

/-- Steps 2 to 4 of `page_insert` on an empty slot. -/
theorem pageInsertNew_spec (h : FrameInv own lo s role) (asid : Nat) (hd : role d = .dir)
    (hown : own (PDX va) = true) (hUVPT : own (PDX UVPT) = false)
    (hv : view own role s (slotOf d va) = none) (hpp : role pp = .fresh ∨ role pp = .data)
    (hframe : pteFrame (mkPte pp perm) = pp) :
    (NoTable s d va ∧ pageInsertNew s d asid pp va perm = .ok (-E_NO_MEM, s)) ∨
    (¬ NoTable s d va ∧ ∃ s' role', pageInsertNew s d asid pp va perm = .ok (0, s') ∧
      role' pp = .data ∧
      MapStep own lo s role (slotOf d va) (some (mkPte pp perm)) s' role') := by
  rcases h.pde_cases hd hown with ⟨t, ht⟩ | hpde
  · -- the page table is there
    refine Or.inr ⟨?_, _, _, ?_, Function.update_self ..,
      setSlot h asid ht hUVPT hv hpp hframe⟩
    · rintro ⟨hno, -⟩
      rw [(h.tablePde t d (PDX va) ht).2.2, testFlag_V_mkPde] at hno
      simp at hno
    · unfold pageInsertNew
      rw [pgdirWalk_table h ht]
      rfl
  · cases hfree : s.pageFreeList with
    | nil =>
      refine Or.inl ⟨⟨hpde, hfree⟩, ?_⟩
      unfold pageInsertNew
      rw [pgdirWalk_noMem hpde hfree]
      rfl
    | cons t rest =>
      -- a page table is made first; the map does not notice
      have htfree : role t = .free := (h.freeIff t).mp (by simp [hfree])
      have htlt : t < npage := h.lt_npage (by simp [htfree])
      obtain ⟨h₁, hv₁⟩ := h.withTable hd hown hpde hfree
      have htp : pp ≠ t := by
        rintro rfl
        rcases hpp with e | e <;> simp [e] at htfree
      have hother : ∀ f, f ≠ t → Function.update role t (.table d (PDX va)) f = role f :=
        fun f hf => Function.update_of_ne hf ..
      have hstep := setSlot h₁ asid
        (show Function.update role t (.table d (PDX va)) t = _ from Function.update_self ..) hUVPT (by rw [hv₁]; exact hv) (by rw [hother pp htp]; exact hpp) hframe
      refine Or.inr ⟨?_, _, _, ?_, Function.update_self ..,
        ⟨hstep.inv, ?_, ?_, ?_, ?_, ?_, ?_, Or.inl ?_⟩⟩
      · rintro ⟨-, hno⟩
        rw [hfree] at hno
        simp at hno
      · unfold pageInsertNew
        rw [pgdirWalk_create hpde hfree htlt]
        rfl
      · rw [hstep.view_eq, hv₁]
      · intro f
        rw [hstep.dir_iff]
        exact FrameInv.update_role_iff (by simp [htfree]) (by simp) f
      · intro f
        rw [hstep.held_iff]
        exact FrameInv.update_role_iff (by simp [htfree]) (by simp) f
      · intro f
        rw [hstep.fresh_iff, FrameInv.update_role_iff (by simp [htfree]) (by simp) f]
      · intro f i hf htab hfd
        have hft : f ≠ t := by rintro rfl; exact hf htfree
        have hfd' : f ≠ d := by rintro rfl; exact hfd hd
        rw [hstep.mem_other f i (by rw [hother f hft]; exact hf)
          (by intro d' i'; rw [hother f hft]; exact htab d' i') (by rw [hother f hft]; exact hfd)]
        rw [withTable, Pmap.store_mem_frame _ hfd', Pmap.setRef_mem, Pmap.clear_mem, if_neg hft]
      · intro f i hf hx hx'
        have hft : f ≠ t := by rintro rfl; simp [htfree] at hf
        rw [hstep.mem_dir f i (by rw [hother f hft]; exact hf) hx hx', withTable, Pmap.store_mem,
          if_neg, Pmap.setRef_mem, Pmap.clear_mem, if_neg hft]
        rintro ⟨rfl, rfl⟩
        exact hx rfl
      · rw [tlbFlush_mem]
        exact Pmap.store_mem_self ..

theorem readable_lt (hp : perm < 2 ^ 10) : readable perm < 2 ^ 10 := by
  unfold readable
  split_ifs
  · exact Nat.or_lt_two_pow hp (by decide)
  · exact hp

/-- On an empty slot `page_insert` has nothing to remove. -/
theorem pageInsert_empty (h : FrameInv own lo s role) (asid : Nat) (hd : role d = .dir)
    (hown : own (PDX va) = true) (hv : view own role s (slotOf d va) = none) :
    pageInsert s d asid pp va perm = pageInsertNew s d asid pp va (readable perm) := by
  unfold pageInsert
  rcases h.pde_cases hd hown with ⟨t, ht⟩ | hpde
  · rw [pgdirWalk_table h ht]
    rw [slotOf, h.view_table ht] at hv
    have hV : ¬ testFlag (s.mem t (PTX va)) PTE_V = true := by
      intro hV
      rw [if_pos hV] at hv
      simp at hv
    show (if testFlag (s.mem t (PTX va)) PTE_V = true then _ else _) = _
    rw [if_neg hV]
  · rw [pgdirWalk_absent hpde]
    rfl

/-- **`page_insert`.** It fails only for want of a page table, and then changes
nothing; otherwise the slot of `va` holds the new entry and no other slot
changes, in any directory. -/
theorem pageInsert_spec (h : FrameInv own lo s role) (asid : Nat) (hd : role d = .dir)
    (hown : own (PDX va) = true) (hUVPT : own (PDX UVPT) = false)
    (hpp : role pp = .fresh ∨ role pp = .data)
    (hframe : pteFrame (mkPte pp (readable perm)) = pp) (hb : Bounded own role s) :
    (NoTable s d va ∧ pageInsert s d asid pp va perm = .ok (-E_NO_MEM, s)) ∨
    (¬ NoTable s d va ∧ ∃ s' role', pageInsert s d asid pp va perm = .ok (0, s') ∧
      role' pp = .data ∧
      MapStep own lo s role (slotOf d va) (some (mkPte pp (readable perm))) s' role') := by
  cases hv : view own role s (slotOf d va) with
  | none =>
    rw [pageInsert_empty h asid hd hown hv]
    exact pageInsertNew_spec h asid hd hown hUVPT hv hpp hframe
  | some w =>
    obtain ⟨t, ht, hm, hV⟩ := h.view_eq_some.mp hv
    obtain ⟨old, hold⟩ : ∃ old, pteFrame w = old := ⟨_, rfl⟩
    have hdata : role old = .data := by
      rw [← hold, ← hm]
      exact h.leafData t d (PDX va) (PTX va) ht (PTX_lt va) (by rw [hm]; exact hV)
    have hlt : old < npage := h.lt_npage (by simp [hdata])
    have hyes : ¬ NoTable s d va := by
      rintro ⟨hno, -⟩
      rw [(h.tablePde t d (PDX va) ht).2.2, testFlag_V_mkPde] at hno
      simp at hno
    refine Or.inr ⟨hyes, ?_⟩
    have hunfold : pageInsert s d asid pp va perm =
        if old ≠ pp then
          (do let s ← pageRemove s d asid va
              pageInsertNew s d asid pp va (readable perm))
        else .ok (0, tlbFlush (s.store t (PTX va) (mkPte pp (readable perm))) asid va) := by
      have hpa : pa2page (PTE_ADDR w) = .ok old := by
        rw [← hold]
        exact pa2page_ok (by rw [← pteFrame, hold]; exact hlt)
      unfold pageInsert
      rw [pgdirWalk_table h ht]
      show (if testFlag (s.mem t (PTX va)) PTE_V = true then _ else _) = _
      rw [hm, if_pos hV, hpa]
      rfl
    rw [hunfold]
    by_cases hsame : old = pp
    · -- the page is already there: only the flags change
      subst hsame
      obtain ⟨h₁, hv₁⟩ := h.remapLeaf ht (by rw [hm]; exact hV)
        (testFlag_V_mkPte old (readable perm)) (by rw [hframe, hm, hold])
      obtain ⟨h₂, hv₂⟩ := h₁.flush asid va
      refine ⟨_, role, if_neg (fun hne => hne rfl), hdata,
        ⟨h₂, hv₂.trans hv₁, fun _ => Iff.rfl, fun _ => Iff.rfl, ?_, ?_, ?_, Or.inr ?_⟩⟩
      · intro f
        rw [Option.map_some, hframe]
        constructor
        · intro hf
          refine ⟨hf, ?_⟩
          intro he
          rw [← Option.some.inj he, hdata] at hf
          simp at hf
        · exact fun hf => hf.1
      · intro f i _ htab _
        rw [tlbFlush_mem, Pmap.store_mem_frame]
        rintro rfl
        exact htab d (PDX va) ht
      · intro f i hf _ _
        rw [tlbFlush_mem, Pmap.store_mem_frame]
        rintro rfl
        simp [ht] at hf
      · intro i
        rw [tlbFlush_mem, Pmap.store_mem_frame]
        intro hdt
        rw [show d = t from hdt, ht] at hd
        simp at hd
    · -- another page is there: it is removed, and its page table is used again
      rw [if_pos hsame]
      obtain ⟨s₁, t', ht', hrem, hmem₁, hstep₁⟩ := pageRemove_some h asid hv hold (hb old)
      obtain rfl := h.table_unique ht ht'
      have hrole₁ : ∀ f, f ≠ old →
          FrameInv.dropRole role (leafRefs own role s old) old f = role f := by
        intro f hf
        unfold FrameInv.dropRole
        split_ifs
        · exact Function.update_of_ne hf ..
        · rfl
      have hto : t ≠ old := by rintro rfl; simp [ht] at hdata
      have hstep₂ := setSlot hstep₁.inv asid
        ((hrole₁ t hto).trans ht) hUVPT
        (by rw [hstep₁.view_eq, Function.update_self])
        (by rw [hrole₁ pp (Ne.symm hsame)]; exact hpp) hframe
      refine ⟨_, _, ?_, Function.update_self ..,
        ⟨hstep₂.inv, ?_, ?_, ?_, ?_, ?_, ?_, Or.inl ?_⟩⟩
      · rw [hrem]
        show pageInsertNew s₁ d asid pp va (readable perm) = _
        unfold pageInsertNew
        rw [pgdirWalk_table hstep₁.inv (by rw [hrole₁ t hto]; exact ht)]
        rfl
      · rw [hstep₂.view_eq, hstep₁.view_eq, Function.update_idem]
      · intro f
        rw [hstep₂.dir_iff, hstep₁.dir_iff]
      · intro f
        rw [hstep₂.held_iff, hstep₁.held_iff]
      · intro f
        rw [hstep₂.fresh_iff, hstep₁.fresh_iff]
        simp
      · intro f i _ htab hfd
        have h1 : f ≠ d := by rintro rfl; exact hfd hd
        have h2 : f ≠ t := by rintro rfl; exact htab d (PDX va) ht
        rw [tlbFlush_mem, Pmap.store_mem_frame _ h1, Pmap.setRef_mem, Pmap.store_mem_frame _ h2,
          hmem₁, Pmap.store_mem_frame _ h2]
      · intro f i hf hx hx'
        rw [hstep₂.mem_dir f i ((hstep₁.dir_iff f).mpr hf) hx hx', hstep₁.mem_dir f i hf hx hx']
      · rw [tlbFlush_mem]
        exact Pmap.store_mem_self ..

end

end Mos.Kern
