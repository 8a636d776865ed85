import Mos.Kern.PageMap

/-!
# MOS on RISC-V — runs of the frame operations

A run starts from the state `page_init` leaves and takes any sequence of
`page_alloc`, the creation of a page directory, `page_insert`, `page_remove`
and `page_free`. `FrameState` adds to the machine what the callers of
`pmap.c` know and the code does not store: which frames are page directories
and which are allocated and not yet inserted.

* `frameRun_accounting` — reference counts, the free list and the absence of
  panics, in every state of every run;
* `frameRun_map` — the page tables implement a finite map below `UTOP`.

Both come from `FrameReach.inv`, the frame invariant along a run.
-/

namespace Mos.Kern

open Mos.Lib

/-- The directory slots that can own a page table: all but the `UVPT` window,
which `page_insert` resets to zero. -/
def userOwn (i : Nat) : Bool := decide (i < 1024 ∧ i ≠ PDX UVPT)

theorem userOwn_UVPT : userOwn (PDX UVPT) = false := by
  simp [userOwn]

theorem userOwn_iff {i : Nat} : userOwn i = true ↔ i < 1024 ∧ i ≠ PDX UVPT := by
  simp [userOwn]

theorem userOwn_lt (i : Nat) (h : userOwn i = true) : i < 1024 := (userOwn_iff.mp h).1

structure FrameState where
  pm : Pmap
  dirs : List Nat
  fresh : List Nat

inductive FrameOp where
  | alloc
  | mkdir
  | insert (pgdir asid pp va perm : Nat)
  | remove (pgdir asid va : Nat)
  | free (pp : Nat)

namespace FrameState

variable (st : FrameState)

/-- The frame that slot `x` of a directory maps through a valid PDE and PTE. -/
def leafOf (x : Nat × Nat × Nat) : Option Nat :=
  if x.1 ∈ st.dirs then (st.pm.pteAt x.1 x.2.1 x.2.2).map pteFrame else none

/-- The frame a valid PDE of a directory points to. -/
def pdeOf (x : Nat × Nat) : Option Nat :=
  if x.1 ∈ st.dirs ∧ testFlag (st.pm.mem x.1 x.2) PTE_V = true then
    some (pteFrame (st.pm.mem x.1 x.2))
  else none

/-- The entries of all possible directories. -/
noncomputable def dirSlots : Finset (Nat × Nat) :=
  (Set.Finite.prod (Set.finite_lt_nat npage) (Set.finite_lt_nat 1024)).toFinset

/-- The number of valid leaf PTEs that point to `f`. -/
noncomputable def leafPtes (f : Nat) : Nat := refCount slots st.leafOf f

/-- The number of valid PDEs that point to `f`. -/
noncomputable def validPdes (f : Nat) : Nat := refCount dirSlots st.pdeOf f

/-- All references to `f`. -/
noncomputable def references (f : Nat) : Nat :=
  st.leafPtes f + st.validPdes f + (if f ∈ st.dirs then 1 else 0)

/-- No frame has accumulated `2 ^ 16` references. -/
def InBounds : Prop := ∀ f, st.references f < 2 ^ 16

/-- `f` is mapped somewhere in some directory. -/
def Mapped (f : Nat) : Prop := ∃ d i j, i < 1024 ∧ j < 1024 ∧ st.leafOf (d, i, j) = some f

/-- `f` is a directory, or a walk from one meets it. -/
def Reachable (f : Nat) : Prop :=
  f ∈ st.dirs ∨ (∃ d i, i < 1024 ∧ st.pdeOf (d, i) = some f) ∨ st.Mapped f

end FrameState

namespace FrameOp

/-- What a caller may ask for. -/
def Allowed (st : FrameState) : FrameOp → Prop
  | .alloc => True
  | .mkdir => True
  | .insert pgdir _ pp va perm =>
    pgdir ∈ st.dirs ∧ perm < 2 ^ 10 ∧ PDX va ≠ PDX UVPT ∧ (pp ∈ st.fresh ∨ st.Mapped pp)
  | .remove pgdir _ _ => pgdir ∈ st.dirs
  | .free pp => pp ∈ st.fresh

def run (st : FrameState) : FrameOp → Result FrameState
  | .alloc =>
    match pageAlloc st.pm with
    | none => .ok st
    | some (pp, pm) => .ok { st with pm := pm, fresh := pp :: st.fresh }
  | .mkdir =>
    match pageAlloc st.pm with
    | none => .ok st
    | some (pp, pm) =>
      .ok { st with pm := pm.setRef pp ((pm.ppRef pp + 1) % 2 ^ 16), dirs := pp :: st.dirs }
  | .insert pgdir asid pp va perm => do
    let (r, pm) ← pageInsert st.pm pgdir asid pp va perm
    return { st with pm := pm, fresh := if r = 0 then st.fresh.filter (· ≠ pp) else st.fresh }
  | .remove pgdir asid va => do
    let pm ← pageRemove st.pm pgdir asid va
    return { st with pm := pm }
  | .free pp => do
    let pm ← pageFree st.pm pp
    return { st with pm := pm, fresh := st.fresh.filter (· ≠ pp) }

end FrameOp

/-- The states of the runs in which no frame had `2 ^ 16` references before the
last step. -/
inductive FrameReach (freemem : Nat) (mem : Nat → Nat → Nat) : FrameState → Prop where
  | init : FrameReach freemem mem ⟨pageInit freemem mem, [], []⟩
  | step {st st' : FrameState} {op : FrameOp} : FrameReach freemem mem st → st.InBounds →
      op.Allowed st → op.run st = .ok st' → FrameReach freemem mem st'

/-- The frame invariant, with the roles the callers know. -/
structure FrameStateInv (lo : Nat) (st : FrameState) (role : Nat → Role) : Prop where
  inv : FrameInv userOwn lo st.pm role
  dirIff : ∀ f, role f = .dir ↔ f ∈ st.dirs
  freshIff : ∀ f, role f = .fresh ↔ f ∈ st.fresh
  noHeld : ∀ f, role f ≠ .held
  uvpt : ∀ d, role d = .dir → st.pm.mem d (PDX UVPT) = 0

-- ---------------------------------------------------------------------------
-- Reading the counts off the roles
-- ---------------------------------------------------------------------------

namespace FrameStateInv

variable {lo : Nat} {st : FrameState} {role : Nat → Role}

/-- The caller's leaf entries are those of the view. -/
theorem leafOf_eq (h : FrameStateInv lo st role) {x : Nat × Nat × Nat} (hi : x.2.1 < 1024) :
    st.leafOf x = leaf userOwn role st.pm x := by
  obtain ⟨d, i, j⟩ := x
  unfold FrameState.leafOf leaf view
  simp only
  by_cases hd : d ∈ st.dirs
  · have hrole := (h.dirIff d).mpr hd
    rw [if_pos hd]
    by_cases hu : i = PDX UVPT
    · have hz := h.uvpt d hrole
      rw [hu, if_neg (by rw [userOwn_UVPT]; simp)]
      unfold Pmap.pteAt
      rw [hz]
      simp
    · rw [if_pos ⟨hrole, userOwn_iff.mpr ⟨hi, hu⟩⟩]
  · rw [if_neg hd, if_neg (fun hc => hd ((h.dirIff d).mp hc.1))]
    rfl

theorem leafPtes_eq (h : FrameStateInv lo st role) (f : Nat) :
    st.leafPtes f = leafRefs userOwn role st.pm f := by
  unfold FrameState.leafPtes leafRefs
  apply refCount_congr
  intro x hx
  exact h.leafOf_eq (mem_slots.mp hx).2.1

theorem mapped_data (h : FrameStateInv lo st role) {f : Nat} (hf : st.Mapped f) :
    role f = .data := by
  obtain ⟨d, i, j, hi, hj, hl⟩ := hf
  rw [h.leafOf_eq hi] at hl
  exact h.inv.data_of_leaf hj hl

/-- A valid PDE points to the table of its slot. -/
theorem pdeOf_eq_some (h : FrameStateInv lo st role) {d i f : Nat} (hi : i < 1024) :
    st.pdeOf (d, i) = some f ↔ role f = .table d i := by
  unfold FrameState.pdeOf
  simp only
  constructor
  · intro hp
    split_ifs at hp with hc
    have hd := (h.dirIff d).mpr hc.1
    have hu : i ≠ PDX UVPT := by
      intro hu
      have := hc.2
      rw [hu, h.uvpt d hd] at this
      simp at this
    obtain ⟨t, ht⟩ := h.inv.pdeTable d i hd (userOwn_iff.mpr ⟨hi, hu⟩) hc.2
    rw [h.inv.pteFrame_pde ht] at hp
    exact Option.some.inj hp ▸ ht
  · intro ht
    obtain ⟨hd, -, hm⟩ := h.inv.tablePde f d i ht
    rw [if_pos ⟨(h.dirIff d).mp hd, by rw [hm]; exact testFlag_V_mkPde f⟩, h.inv.pteFrame_pde ht]

theorem mem_dirSlots {x : Nat × Nat} : x ∈ FrameState.dirSlots ↔ x.1 < npage ∧ x.2 < 1024 := by
  unfold FrameState.dirSlots
  rw [Set.Finite.mem_toFinset]
  exact Iff.rfl

/-- A page table has exactly one PDE. -/
theorem validPdes_table (h : FrameStateInv lo st role) {f d i : Nat} (hf : role f = .table d i) :
    st.validPdes f = 1 := by
  obtain ⟨hd, hown, -⟩ := h.inv.tablePde f d i hf
  have hi := h.inv.ownLt i hown
  apply refCount_eq_one (x := (d, i))
  · rw [mem_dirSlots]
    exact ⟨h.inv.lt_npage (by simp [hd]), hi⟩
  · exact (h.pdeOf_eq_some hi).mpr hf
  · intro y hy hg
    have := (h.pdeOf_eq_some (mem_dirSlots.mp hy).2).mp hg
    rw [hf] at this
    simp only [Role.table.injEq] at this
    rw [this.1, this.2]

/-- No other frame has any. -/
theorem validPdes_other (h : FrameStateInv lo st role) {f : Nat}
    (hf : ∀ d i, role f ≠ .table d i) : st.validPdes f = 0 := by
  unfold FrameState.validPdes
  rw [refCount_eq_zero]
  intro x hx hg
  exact hf x.1 x.2 ((h.pdeOf_eq_some (mem_dirSlots.mp hx).2).mp hg)

theorem bounded (h : FrameStateInv lo st role) (hb : st.InBounds) :
    Bounded userOwn role st.pm := by
  intro f
  have := hb f
  unfold FrameState.references at this
  rw [h.leafPtes_eq] at this
  omega

/-- Every counter of a managed frame is its number of references. -/
theorem ppRef_eq (h : FrameStateInv lo st role) (hb : st.InBounds) {f : Nat}
    (hlo : lo ≤ f) (hf : f < npage) : st.pm.ppRef f = st.references f := by
  have hr := h.inv.refOk f
  have hbound := h.bounded hb f
  have hman := (h.inv.managed f).mpr ⟨hlo, hf⟩
  unfold FrameState.references
  rw [h.leafPtes_eq]
  cases hrole : role f with
  | reserved => exact absurd hrole hman
  | held => exact absurd hrole (h.noHeld f)
  | data =>
    rw [hrole] at hr
    have hnd : f ∉ st.dirs := fun hd => by simp [(h.dirIff f).mpr hd] at hrole
    rw [h.validPdes_other (by simp [hrole]), if_neg hnd, hr.1, Nat.mod_eq_of_lt hbound,
      Nat.add_zero]
  | table d i =>
    rw [hrole] at hr
    have hnd : f ∉ st.dirs := fun hd => by simp [(h.dirIff f).mpr hd] at hrole
    rw [h.validPdes_table hrole, if_neg hnd, h.inv.leafRefs_eq_zero (by simp [hrole])]
    exact hr
  | dir =>
    rw [hrole] at hr
    rw [h.validPdes_other (by simp [hrole]), if_pos ((h.dirIff f).mp hrole),
      h.inv.leafRefs_eq_zero (by simp [hrole])]
    exact hr
  | free =>
    rw [hrole] at hr
    have hnd : f ∉ st.dirs := fun hd => by simp [(h.dirIff f).mpr hd] at hrole
    rw [h.validPdes_other (by simp [hrole]), if_neg hnd, h.inv.leafRefs_eq_zero (by simp [hrole])]
    exact hr
  | fresh =>
    rw [hrole] at hr
    have hnd : f ∉ st.dirs := fun hd => by simp [(h.dirIff f).mpr hd] at hrole
    rw [h.validPdes_other (by simp [hrole]), if_neg hnd, h.inv.leafRefs_eq_zero (by simp [hrole])]
    exact hr

/-- A managed frame is free exactly when nothing counts it and no caller has it. -/
theorem mem_free_iff (h : FrameStateInv lo st role) (hb : st.InBounds) {f : Nat}
    (hlo : lo ≤ f) (hf : f < npage) :
    f ∈ st.pm.pageFreeList ↔ st.pm.ppRef f = 0 ∧ f ∉ st.fresh := by
  have hr := h.inv.refOk f
  have hbound := h.bounded hb f
  have hman := (h.inv.managed f).mpr ⟨hlo, hf⟩
  rw [h.inv.freeIff, ← h.freshIff]
  cases hrole : role f with
  | reserved => exact absurd hrole hman
  | held => exact absurd hrole (h.noHeld f)
  | data =>
    rw [hrole] at hr
    have hpos : st.pm.ppRef f ≠ 0 := by
      rw [hr.1, Nat.mod_eq_of_lt hbound]
      have := hr.2
      omega
    simp [hpos]
  | table d i =>
    rw [hrole] at hr
    simp [show st.pm.ppRef f = 1 from hr]
  | dir =>
    rw [hrole] at hr
    simp [show st.pm.ppRef f = 1 from hr]
  | free =>
    rw [hrole] at hr
    simp [show st.pm.ppRef f = 0 from hr]
  | fresh => simp

theorem free_not_reachable (h : FrameStateInv lo st role) {f : Nat}
    (hf : f ∈ st.pm.pageFreeList) : ¬ st.Reachable f := by
  have hfree := (h.inv.freeIff f).mp hf
  intro hr
  rcases hr with hd | ⟨d, i, hi, hp⟩ | hm
  · simp [(h.dirIff f).mpr hd] at hfree
  · simp [(h.pdeOf_eq_some hi).mp hp] at hfree
  · simp [h.mapped_data hm] at hfree

-- ---------------------------------------------------------------------------
-- One step
-- ---------------------------------------------------------------------------

/-- A caller's frame may be inserted. -/
theorem insertable (h : FrameStateInv lo st role) {pp : Nat}
    (hpp : pp ∈ st.fresh ∨ st.Mapped pp) : role pp = .fresh ∨ role pp = .data := by
  rcases hpp with hf | hm
  · exact Or.inl ((h.freshIff pp).mpr hf)
  · exact Or.inr (h.mapped_data hm)

theorem insertable_frame (h : FrameStateInv lo st role) {pp perm : Nat}
    (hpp : pp ∈ st.fresh ∨ st.Mapped pp) (hperm : perm < 2 ^ 10) :
    pteFrame (mkPte pp (readable perm)) = pp := by
  have hlt : pp < npage := by
    rcases h.insertable hpp with e | e
    · exact h.inv.lt_npage (by simp [e])
    · exact h.inv.lt_npage (by simp [e])
  unfold pteFrame
  rw [PTE_ADDR_mkPte hlt (readable_lt hperm), pa2idx_page2pa hlt]

/-- The `UVPT` word of every directory stays zero across a map update. -/
theorem uvpt_mapStep (h : FrameStateInv lo st role) {pm' : Pmap} {role' : Nat → Role} {d va : Nat}
    {v : Option Nat}
    (hs : MapStep userOwn lo st.pm role (slotOf d va) v pm' role') (d' : Nat)
    (hd' : role' d' = .dir) : pm'.mem d' (PDX UVPT) = 0 := by
  rw [hs.dir_iff] at hd'
  have hz := h.uvpt d' hd'
  by_cases hdd : d' = d
  · subst hdd
    rcases hs.mem_uvpt with e | e
    · exact e
    · exact (e _).trans hz
  · rw [hs.mem_dir d' (PDX UVPT) hd' (by simp [slotOf, hdd]) (by simp [slotOf, hdd])]
    exact hz

/-- `page_remove` in the window finds no page table. -/
theorem pageRemove_uvpt (h : FrameStateInv lo st role) {d va : Nat} (asid : Nat)
    (hd : role d = .dir) (hva : PDX va = PDX UVPT) : pageRemove st.pm d asid va = .ok st.pm := by
  have hpde : testFlag (st.pm.mem d (PDX va)) PTE_V = false := by
    rw [hva, h.uvpt d hd]
    simp
  unfold pageRemove pageLookup
  rw [pgdirWalk_absent hpde]
  rfl

theorem step_alloc (h : FrameStateInv lo st role) :
    ∃ st' role', FrameOp.alloc.run st = .ok st' ∧ FrameStateInv lo st' role' := by
  unfold FrameOp.run pageAlloc
  cases hl : st.pm.pageFreeList with
  | nil => exact ⟨st, role, rfl, h⟩
  | cons pp rest =>
    have hpp : role pp = .free := (h.inv.freeIff pp).mp (by simp [hl])
    obtain ⟨h₁, -⟩ := h.inv.alloc hl
    refine ⟨_, _, rfl, h₁, ?_, ?_, ?_, ?_⟩
    · intro f
      rw [FrameInv.update_role_iff (by simp [hpp]) (by simp)]
      exact h.dirIff f
    · intro f
      by_cases hf : f = pp
      · subst hf
        simp
      · rw [Function.update_of_ne hf, h.freshIff]
        simp [hf]
    · intro f
      rw [Ne, FrameInv.update_role_iff (by simp [hpp]) (by simp)]
      exact h.noHeld f
    · intro d hd
      rw [FrameInv.update_role_iff (by simp [hpp]) (by simp)] at hd
      have hne : d ≠ pp := by rintro rfl; simp [hpp] at hd
      rw [Pmap.clear_mem, if_neg hne]
      exact h.uvpt d hd

theorem step_mkdir (h : FrameStateInv lo st role) :
    ∃ st' role', FrameOp.mkdir.run st = .ok st' ∧ FrameStateInv lo st' role' := by
  unfold FrameOp.run pageAlloc
  cases hl : st.pm.pageFreeList with
  | nil => exact ⟨st, role, rfl, h⟩
  | cons pp rest =>
    have hpp : role pp = .free := (h.inv.freeIff pp).mp (by simp [hl])
    have hzero : st.pm.ppRef pp = 0 := by
      have := h.inv.refOk pp
      rw [hpp] at this
      exact this
    obtain ⟨h₁, -⟩ := h.inv.alloc hl
    obtain ⟨h₂, -⟩ := h₁.addDir (Function.update_self ..) (fun i _ => by simp [Pmap.clear_mem])
    rw [Function.update_idem] at h₂
    refine ⟨_, Function.update role pp .dir, rfl, ?_, ?_, ?_, ?_, ?_⟩
    · simpa [hzero] using h₂
    · intro f
      by_cases hf : f = pp
      · subst hf
        simp
      · rw [Function.update_of_ne hf, h.dirIff]
        simp [hf]
    · intro f
      rw [FrameInv.update_role_iff (by simp [hpp]) (by simp)]
      exact h.freshIff f
    · intro f
      rw [Ne, FrameInv.update_role_iff (by simp [hpp]) (by simp)]
      exact h.noHeld f
    · intro d hd
      by_cases hne : d = pp
      · simp [hne, Pmap.clear_mem]
      · rw [Function.update_of_ne hne] at hd
        simpa [Pmap.clear_mem, hne] using h.uvpt d hd

theorem step_insert (h : FrameStateInv lo st role) (hb : st.InBounds) {pgdir asid pp va perm : Nat}
    (ha : (FrameOp.insert pgdir asid pp va perm).Allowed st) :
    ∃ st' role', (FrameOp.insert pgdir asid pp va perm).run st = .ok st' ∧
      FrameStateInv lo st' role' := by
  obtain ⟨hd, hperm, hva, hpp⟩ := ha
  have hdir := (h.dirIff pgdir).mpr hd
  have hown : userOwn (PDX va) = true := userOwn_iff.mpr ⟨PDX_lt va, hva⟩
  rcases pageInsert_spec h.inv asid hdir hown userOwn_UVPT (h.insertable hpp)
    (h.insertable_frame hpp hperm) (h.bounded hb) with ⟨-, hr⟩ | ⟨-, pm', role', hr, hdata, hs⟩
  · refine ⟨st, role, ?_, h⟩
    simp only [FrameOp.run]
    rw [hr]
    rfl
  · refine ⟨{ st with pm := pm', fresh := st.fresh.filter (· ≠ pp) }, role', ?_, hs.inv, ?_, ?_, ?_,
      h.uvpt_mapStep hs⟩
    · simp only [FrameOp.run]
      rw [hr]
      rfl
    · intro f
      rw [hs.dir_iff]
      exact h.dirIff f
    · intro f
      rw [hs.fresh_iff, Option.map_some, h.insertable_frame hpp hperm, h.freshIff, List.mem_filter,
        decide_eq_true_eq, Ne, Option.some.injEq, eq_comm (a := pp)]
    · intro f
      rw [Ne, hs.held_iff]
      exact h.noHeld f

theorem step_remove (h : FrameStateInv lo st role) (hb : st.InBounds) {pgdir asid va : Nat}
    (ha : (FrameOp.remove pgdir asid va).Allowed st) :
    ∃ st' role', (FrameOp.remove pgdir asid va).run st = .ok st' ∧ FrameStateInv lo st' role' := by
  have hdir := (h.dirIff pgdir).mpr ha
  -- the window and an empty slot: nothing happens
  have hsame : pageRemove st.pm pgdir asid va = .ok st.pm →
      ∃ st' role', (FrameOp.remove pgdir asid va).run st = .ok st' ∧
        FrameStateInv lo st' role' := by
    intro hr
    refine ⟨st, role, ?_, h⟩
    simp only [FrameOp.run]
    rw [hr]
    rfl
  by_cases hva : PDX va = PDX UVPT
  · exact hsame (h.pageRemove_uvpt asid hdir hva)
  · have hown : userOwn (PDX va) = true := userOwn_iff.mpr ⟨PDX_lt va, hva⟩
    cases hv : view userOwn role st.pm (slotOf pgdir va) with
    | none => exact hsame (pageRemove_none h.inv asid hdir hown hv)
    | some w =>
      obtain ⟨pm', -, -, hr, -, hs⟩ := pageRemove_some h.inv asid hv rfl (h.bounded hb _)
      refine ⟨{ st with pm := pm' }, _, ?_, hs.inv, ?_, ?_, ?_, h.uvpt_mapStep hs⟩
      · simp only [FrameOp.run]
        rw [hr]
        rfl
      · intro f
        rw [hs.dir_iff]
        exact h.dirIff f
      · intro f
        rw [hs.fresh_iff, h.freshIff]
        simp
      · intro f
        rw [Ne, hs.held_iff]
        exact h.noHeld f

theorem step_free (h : FrameStateInv lo st role) {pp : Nat} (ha : (FrameOp.free pp).Allowed st) :
    ∃ st' role', (FrameOp.free pp).run st = .ok st' ∧ FrameStateInv lo st' role' := by
  have hpp := (h.freshIff pp).mpr ha
  obtain ⟨pm', hr, hmem, h₁, -⟩ := h.inv.freeFresh hpp
  refine ⟨{ st with pm := pm', fresh := st.fresh.filter (· ≠ pp) }, _, ?_, h₁, ?_, ?_, ?_, ?_⟩
  · simp only [FrameOp.run]
    rw [hr]
    rfl
  · intro f
    rw [FrameInv.update_role_iff (by simp [hpp]) (by simp)]
    exact h.dirIff f
  · intro f
    by_cases hf : f = pp
    · subst hf
      simp
    · rw [Function.update_of_ne hf, h.freshIff]
      simp [hf]
  · intro f
    rw [Ne, FrameInv.update_role_iff (by simp [hpp]) (by simp)]
    exact h.noHeld f
  · intro d hd
    rw [FrameInv.update_role_iff (by simp [hpp]) (by simp)] at hd
    rw [hmem]
    exact h.uvpt d hd

/-- **Step lemma.** An allowed operation does not panic and keeps the invariant. -/
theorem step (h : FrameStateInv lo st role) (hb : st.InBounds) {op : FrameOp}
    (ha : op.Allowed st) : ∃ st' role', op.run st = .ok st' ∧ FrameStateInv lo st' role' := by
  cases op with
  | alloc => exact h.step_alloc
  | mkdir => exact h.step_mkdir
  | insert pgdir asid pp va perm => exact h.step_insert hb ha
  | remove pgdir asid va => exact h.step_remove hb ha
  | free pp => exact h.step_free ha

end FrameStateInv

-- ---------------------------------------------------------------------------
-- Runs
-- ---------------------------------------------------------------------------

/-- **Run lemma.** Every state of a run has roles. -/
theorem FrameReach.inv {freemem : Nat} {mem : Nat → Nat → Nat} {st : FrameState}
    (h : FrameReach freemem mem st) : ∃ role, FrameStateInv (usedFrames freemem) st role := by
  induction h with
  | init =>
    have hno : ∀ f q, initRole (usedFrames freemem) f = q → q = .free ∨ q = .reserved :=
      fun f q e => e ▸ initRole_cases _ f
    refine ⟨_, pageInit_inv userOwn_lt freemem mem, ?_, ?_, ?_, ?_⟩
    · intro f
      have := hno f .dir
      simpa using this
    · intro f
      have := hno f .fresh
      simpa using this
    · intro f e
      have := hno f _ e
      simp at this
    · intro d e
      have := hno d _ e
      simp at this
  | step _ hb ha hrun ih =>
    obtain ⟨role, hinv⟩ := ih
    obtain ⟨st', role', hrun', hinv'⟩ := hinv.step hb ha
    rw [hrun] at hrun'
    obtain rfl := Except.ok.inj hrun'
    exact ⟨role', hinv'⟩

/-- **Frame accounting.** In every state reached before a frame has `2 ^ 16`
references: `pp_ref` counts the references of each managed frame, the free
list has no duplicates and holds exactly the frames with no reference that no
caller has, none of its frames is reachable from a directory, and no operation
a caller may ask for panics. -/
theorem frameRun_accounting {freemem : Nat} {mem : Nat → Nat → Nat} {st : FrameState}
    (hreach : FrameReach freemem mem st) (hb : st.InBounds) :
    (∀ f, usedFrames freemem ≤ f → f < npage → st.pm.ppRef f =
      st.leafPtes f + st.validPdes f + (if f ∈ st.dirs then 1 else 0)) ∧
    st.pm.pageFreeList.Nodup ∧
    (∀ f, usedFrames freemem ≤ f → f < npage →
      (f ∈ st.pm.pageFreeList ↔ st.pm.ppRef f = 0 ∧ f ∉ st.fresh)) ∧
    (∀ f ∈ st.pm.pageFreeList, ¬ st.Reachable f) ∧
    (∀ op : FrameOp, op.Allowed st → ∃ st', op.run st = .ok st') := by
  obtain ⟨role, h⟩ := hreach.inv
  refine ⟨?_, h.inv.freeNodup, ?_, ?_, ?_⟩
  · intro f hlo hf
    exact h.ppRef_eq hb hlo hf
  · intro f hlo hf
    exact h.mem_free_iff hb hlo hf
  · intro f hf
    exact h.free_not_reachable hf
  · intro op ha
    obtain ⟨st', -, hrun, -⟩ := h.step hb ha
    exact ⟨st', hrun⟩

/-- A run to a state with one directory: nothing is mapped yet. -/
theorem exists_mkdir_reach : ∃ st d, FrameReach KERNBASE (fun _ _ => 0) st ∧ st.InBounds ∧
    st.dirs = [d] ∧ st.fresh = [] ∧ usedFrames KERNBASE ≤ d ∧ d < npage := by
  have hinit := pageInit_inv userOwn_lt KERNBASE fun _ _ => 0
  cases hl : (pageInit KERNBASE fun _ _ => 0).pageFreeList with
  | nil =>
    have hmem : 0 ∈ (pageInit KERNBASE fun _ _ => 0).pageFreeList := by
      rw [hinit.freeIff, initRole, if_pos (by decide)]
    rw [hl] at hmem
    simp at hmem
  | cons pp rest =>
    have hpp : initRole (usedFrames KERNBASE) pp = .free := (hinit.freeIff pp).mp (by simp [hl])
    have hman := (hinit.managed pp).mp (by simp [hpp])
    obtain ⟨pm, hpm⟩ : ∃ pm, pm = ({ pageInit KERNBASE (fun _ _ => 0) with
      pageFreeList := rest }.clear pp).setRef pp 1 := ⟨_, rfl⟩
    have hzero : ∀ i, pm.mem pp i = 0 := by
      intro i
      rw [hpm, Pmap.setRef_mem, Pmap.clear_mem, if_pos rfl]
    refine ⟨⟨pm, [pp], []⟩, pp, FrameReach.step .init ?_
      (show FrameOp.mkdir.Allowed _ from trivial) ?_, ?_, rfl, rfl, hman⟩
    · intro f
      have hleaf : FrameState.leafPtes ⟨pageInit KERNBASE fun _ _ => 0, [], []⟩ f = 0 := by
        unfold FrameState.leafPtes
        rw [refCount_eq_zero]
        intro x _
        simp [FrameState.leafOf]
      have hpde : FrameState.validPdes ⟨pageInit KERNBASE fun _ _ => 0, [], []⟩ f = 0 := by
        unfold FrameState.validPdes
        rw [refCount_eq_zero]
        intro x _
        simp [FrameState.pdeOf]
      unfold FrameState.references
      rw [hleaf, hpde]
      simp
    · have href : (pageInit KERNBASE fun _ _ => 0).ppRef pp = 0 := by
        have := hinit.refOk pp
        rw [hpp] at this
        exact this
      simp only [FrameOp.run, pageAlloc, hl, Pmap.clear_ppRef, href]
      rw [hpm]
      rfl
    · intro f
      have hleaf : FrameState.leafPtes ⟨pm, [pp], []⟩ f = 0 := by
        unfold FrameState.leafPtes
        rw [refCount_eq_zero]
        intro x _
        by_cases hx : x.1 = pp
        · simp [FrameState.leafOf, Pmap.pteAt, hx, hzero]
        · simp [FrameState.leafOf, hx]
      have hpde : FrameState.validPdes ⟨pm, [pp], []⟩ f = 0 := by
        unfold FrameState.validPdes
        rw [refCount_eq_zero]
        intro x _
        by_cases hx : x.1 = pp
        · simp [FrameState.pdeOf, hx, hzero]
        · simp [FrameState.pdeOf, hx]
      unfold FrameState.references
      rw [hleaf, hpde]
      split_ifs
      · decide
      · decide

theorem frameRun_accounting_mkdir : ∃ st d, FrameReach KERNBASE (fun _ _ => 0) st ∧ st.InBounds ∧
    st.dirs = [d] ∧ st.pm.ppRef d = st.leafPtes d + st.validPdes d + 1 ∧
    ∃ st', FrameOp.alloc.run st = .ok st' := by
  obtain ⟨st, d, hreach, hb, hdirs, -, hlo, hd⟩ := exists_mkdir_reach
  obtain ⟨hcount, -, -, -, hrun⟩ := frameRun_accounting hreach hb
  refine ⟨st, d, hreach, hb, hdirs, ?_, hrun .alloc trivial⟩
  have := hcount d hlo hd
  rw [hdirs, if_pos (List.mem_singleton.mpr rfl)] at this
  exact this

-- ---------------------------------------------------------------------------
-- The map below UTOP
-- ---------------------------------------------------------------------------

/-- `page_lookup` with the entry it found. -/
def lookupEntry (s : Pmap) (pgdir va : Nat) : Result (Option (Nat × Nat)) := do
  match ← pageLookup s pgdir va with
  | none => return none
  | some (pp, p) => return some (pp, s.mem p.1 p.2)

/-- What `page_lookup` finds is what the view holds. -/
theorem lookupEntry_view {own : Nat → Bool} {lo : Nat} {s : Pmap} {role : Nat → Role} {d va : Nat}
    (h : FrameInv own lo s role) (hd : role d = .dir) (hown : own (PDX va) = true) :
    lookupEntry s d va = .ok ((view own role s (slotOf d va)).map fun w => (pteFrame w, w)) := by
  unfold lookupEntry
  cases hv : view own role s (slotOf d va) with
  | none =>
    rw [pageLookup_none h hd hown hv]
    rfl
  | some w =>
    obtain ⟨t, -, hm, hlook⟩ := pageLookup_some h hv
    rw [hlook]
    show Except.ok (some (pteFrame w, s.mem t (PTX va))) = _
    rw [hm]
    rfl

theorem slotOf_eq_iff {d d' va va' : Nat} (hva : va < UTOP) (hva' : va' < UTOP) :
    slotOf d' va' = slotOf d va ↔ d' = d ∧ VPN va' = VPN va := by
  have hU : UTOP = 0x7f400000 := by decide
  rw [hU] at hva hva'
  unfold slotOf VPN
  rw [PDX_eq, PDX_eq, PTX_eq, PTX_eq, Nat.shiftRight_eq_div_pow, Nat.shiftRight_eq_div_pow]
  simp only [Prod.mk.injEq]
  constructor
  · intro ⟨h1, h2, h3⟩
    exact ⟨h1, by omega⟩
  · intro ⟨h1, h2⟩
    exact ⟨h1, by omega, by omega⟩

theorem slotOf_congr {d va va' : Nat} (h : VPN va' = VPN va) : slotOf d va' = slotOf d va := by
  unfold VPN at h
  rw [Nat.shiftRight_eq_div_pow, Nat.shiftRight_eq_div_pow] at h
  unfold slotOf
  rw [PDX_eq, PDX_eq, PTX_eq, PTX_eq]
  simp only [Prod.mk.injEq, true_and]
  constructor
  · omega
  · omega

theorem userOwn_of_lt {va : Nat} (hva : va < UTOP) : userOwn (PDX va) = true := by
  have hU : UTOP = 0x7f400000 := by decide
  have hP : PDX UVPT = 511 := by decide
  rw [userOwn_iff, hP]
  refine ⟨PDX_lt va, ?_⟩
  rw [PDX_eq]
  omega

theorem PDX_of_VPN {va va' : Nat} (h : VPN va' = VPN va) : PDX va' = PDX va := by
  have := slotOf_congr (d := 0) h
  simp only [slotOf, Prod.mk.injEq] at this
  exact this.2.1

/-- The flag field of an entry. -/
def pteFlags (w : Nat) : Nat := w % 2 ^ 10

theorem pteFlags_mkPte {f perm : Nat} (hf : f < npage) (hp : perm < 2 ^ 10) :
    pteFlags (mkPte f perm) = perm ||| PTE_V := by
  have hlt : perm ||| PTE_V < 2 ^ 10 := Nat.or_lt_two_pow hp (by decide)
  unfold pteFlags
  rw [mkPte_eq, ADDR_PTE_page2pa hf, field_or_flags hlt]
  omega

/-- After a map update, lookups read the updated map. -/
theorem MapStep.lookupEntry_eq {own : Nat → Bool} {lo : Nat} {s s' : Pmap} {role role' : Nat → Role}
    {x : Nat × Nat × Nat} {v : Option Nat} (hs : MapStep own lo s role x v s' role') {d va : Nat}
    (hd : role d = .dir) (hown : own (PDX va) = true) :
    lookupEntry s' d va = .ok ((Function.update (view own role s) x v (slotOf d va)).map
      fun w => (pteFrame w, w)) := by
  rw [lookupEntry_view hs.inv ((hs.dir_iff d).mpr hd) hown, hs.view_eq]

theorem MapStep.lookupEntry_other {own : Nat → Bool} {lo : Nat} {s s' : Pmap}
    {role role' : Nat → Role} {x : Nat × Nat × Nat} {v : Option Nat} (h : FrameInv own lo s role)
    (hs : MapStep own lo s role x v s' role') {d va : Nat}
    (hd : role d = .dir) (hown : own (PDX va) = true) (hne : slotOf d va ≠ x) :
    lookupEntry s' d va = lookupEntry s d va := by
  rw [hs.lookupEntry_eq hd hown, lookupEntry_view h hd hown, Function.update_of_ne hne]

/-- `page_insert` on the map: what the claim about one call says. -/
theorem FrameStateInv.insert_map {lo : Nat} {st : FrameState} {role : Nat → Role}
    (h : FrameStateInv lo st role) (hb : st.InBounds) {pgdir asid pp va perm : Nat}
    (hd : pgdir ∈ st.dirs) (hva : va < UTOP) (hperm : perm < 2 ^ 10)
    (hpp : pp ∈ st.fresh ∨ st.Mapped pp) :
    ∃ r pm', pageInsert st.pm pgdir asid pp va perm = .ok (r, pm') ∧
      (r = 0 →
        (∀ va', VPN va' = VPN va → ∃ w, lookupEntry pm' pgdir va' = .ok (some (pp, w)) ∧
          pteFlags w = readable perm ||| PTE_V) ∧
        ∀ d' ∈ st.dirs, ∀ va' < UTOP, ¬ (d' = pgdir ∧ VPN va' = VPN va) →
          lookupEntry pm' d' va' = lookupEntry st.pm d' va') ∧
      (r ≠ 0 → pm' = st.pm) := by
  have hdir := (h.dirIff pgdir).mpr hd
  have hown := userOwn_of_lt hva
  have hframe := h.insertable_frame hpp hperm
  have hlt : pp < npage := by
    rcases h.insertable hpp with e | e
    · exact h.inv.lt_npage (by simp [e])
    · exact h.inv.lt_npage (by simp [e])
  rcases pageInsert_spec h.inv asid hdir hown userOwn_UVPT (h.insertable hpp) hframe
    (h.bounded hb) with ⟨-, hr⟩ | ⟨-, pm', role', hr, -, hs⟩
  · refine ⟨_, st.pm, hr, ?_, fun _ => rfl⟩
    intro h0
    simp [E_NO_MEM] at h0
  · refine ⟨0, pm', hr, ?_, fun h0 => absurd rfl h0⟩
    intro _
    constructor
    · intro va' hvpn
      refine ⟨mkPte pp (readable perm), ?_, pteFlags_mkPte hlt (readable_lt hperm)⟩
      rw [hs.lookupEntry_eq hdir (by rw [PDX_of_VPN hvpn]; exact hown), slotOf_congr hvpn,
        Function.update_self, Option.map_some, hframe]
    · intro d' hd' va' hva' hne
      exact hs.lookupEntry_other h.inv ((h.dirIff d').mpr hd') (userOwn_of_lt hva')
        (fun he => hne ((slotOf_eq_iff hva hva').mp he))

/-- `page_remove` on the map. -/
theorem FrameStateInv.remove_map {lo : Nat} {st : FrameState} {role : Nat → Role}
    (h : FrameStateInv lo st role) (hb : st.InBounds) {pgdir asid va : Nat}
    (hd : pgdir ∈ st.dirs) (hva : va < UTOP) :
    ∃ pm', pageRemove st.pm pgdir asid va = .ok pm' ∧
      (∀ va', VPN va' = VPN va → lookupEntry pm' pgdir va' = .ok none) ∧
      ∀ d' ∈ st.dirs, ∀ va' < UTOP, ¬ (d' = pgdir ∧ VPN va' = VPN va) →
        lookupEntry pm' d' va' = lookupEntry st.pm d' va' := by
  have hdir := (h.dirIff pgdir).mpr hd
  have hown := userOwn_of_lt hva
  cases hv : view userOwn role st.pm (slotOf pgdir va) with
  | none =>
    refine ⟨st.pm, pageRemove_none h.inv asid hdir hown hv, ?_, fun _ _ _ _ _ => rfl⟩
    intro va' hvpn
    rw [lookupEntry_view h.inv hdir (by rw [PDX_of_VPN hvpn]; exact hown), slotOf_congr hvpn, hv]
    rfl
  | some w =>
    obtain ⟨pm', -, -, hr, -, hs⟩ := pageRemove_some h.inv asid hv rfl (h.bounded hb _)
    refine ⟨pm', hr, ?_, ?_⟩
    · intro va' hvpn
      rw [hs.lookupEntry_eq hdir (by rw [PDX_of_VPN hvpn]; exact hown), slotOf_congr hvpn,
        Function.update_self]
      rfl
    · intro d' hd' va' hva' hne
      exact hs.lookupEntry_other h.inv ((h.dirIff d').mpr hd') (userOwn_of_lt hva')
        (fun he => hne ((slotOf_eq_iff hva hva').mp he))

/-- `va2pa` and `page_lookup` read the same map. -/
theorem FrameStateInv.va2pa_map {lo : Nat} {st : FrameState} {role : Nat → Role}
    (h : FrameStateInv lo st role) {pgdir va : Nat} (hd : pgdir ∈ st.dirs) (hva : va < UTOP) :
    ∃ e, lookupEntry st.pm pgdir va = .ok e ∧
      va2pa st.pm pgdir va = .ok (match e with
        | none => 2 ^ 32 - 1
        | some (pp, _) => page2pa pp) := by
  have hdir := (h.dirIff pgdir).mpr hd
  have hown := userOwn_of_lt hva
  refine ⟨_, lookupEntry_view h.inv hdir hown, ?_⟩
  cases hv : view userOwn role st.pm (slotOf pgdir va) with
  | none => exact va2pa_none h.inv hdir hown hv
  | some w => exact va2pa_some h.inv hv

/-- **The page tables are a finite map.** In every state reached with fewer
than `2 ^ 16` references per frame, below `UTOP`: a successful `page_insert`
sets the one virtual page it is given, in its own directory, and a failing one
changes nothing; `page_remove` clears the one page it is given; and `va2pa`
reads the same map as `page_lookup`. -/
theorem frameRun_map {freemem : Nat} {mem : Nat → Nat → Nat} {st : FrameState}
    (hreach : FrameReach freemem mem st) (hb : st.InBounds) :
    (∀ pgdir ∈ st.dirs, ∀ asid pp va perm, va < UTOP → perm < 2 ^ 10 →
      (pp ∈ st.fresh ∨ st.Mapped pp) →
      ∃ r pm', pageInsert st.pm pgdir asid pp va perm = .ok (r, pm') ∧
        (r = 0 →
          (∀ va', VPN va' = VPN va → ∃ w, lookupEntry pm' pgdir va' = .ok (some (pp, w)) ∧
            pteFlags w = readable perm ||| PTE_V) ∧
          ∀ d' ∈ st.dirs, ∀ va' < UTOP, ¬ (d' = pgdir ∧ VPN va' = VPN va) →
            lookupEntry pm' d' va' = lookupEntry st.pm d' va') ∧
        (r ≠ 0 → pm' = st.pm)) ∧
    (∀ pgdir ∈ st.dirs, ∀ asid va, va < UTOP →
      ∃ pm', pageRemove st.pm pgdir asid va = .ok pm' ∧
        (∀ va', VPN va' = VPN va → lookupEntry pm' pgdir va' = .ok none) ∧
        ∀ d' ∈ st.dirs, ∀ va' < UTOP, ¬ (d' = pgdir ∧ VPN va' = VPN va) →
          lookupEntry pm' d' va' = lookupEntry st.pm d' va') ∧
    (∀ pgdir ∈ st.dirs, ∀ va < UTOP, ∃ e, lookupEntry st.pm pgdir va = .ok e ∧
      va2pa st.pm pgdir va = .ok (match e with
        | none => 2 ^ 32 - 1
        | some (pp, _) => page2pa pp)) := by
  obtain ⟨role, h⟩ := hreach.inv
  refine ⟨?_, ?_, ?_⟩
  · intro pgdir hd asid pp va perm hva hperm hpp
    exact h.insert_map hb hd hva hperm hpp
  · intro pgdir hd asid va hva
    exact h.remove_map hb hd hva
  · intro pgdir hd va hva
    exact h.va2pa_map hd hva

theorem frameRun_map_mkdir : ∃ st d, FrameReach KERNBASE (fun _ _ => 0) st ∧ st.InBounds ∧
    st.dirs = [d] ∧ ∃ e, lookupEntry st.pm d UTEXT = .ok e ∧
      va2pa st.pm d UTEXT = .ok (match e with
        | none => 2 ^ 32 - 1
        | some (pp, _) => page2pa pp) := by
  obtain ⟨st, d, hreach, hb, hdirs, -, -, -⟩ := exists_mkdir_reach
  obtain ⟨-, -, hva⟩ := frameRun_map hreach hb
  exact ⟨st, d, hreach, hb, hdirs, hva d (by rw [hdirs]; exact List.mem_singleton.mpr rfl)
    UTEXT (by decide)⟩

end Mos.Kern
