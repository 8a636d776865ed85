import Mathlib.Data.Finite.Prod
import Mos.Lib.RefCount
import Mos.Kern.Pmap

/-!
# MOS on RISC-V — what every frame is for

The invariant behind `kern/pmap.c`. A frame plays one role at a time: it is
free, freshly allocated, a page directory, the page table of one directory
slot, a mapped data frame, or held by the kernel for itself. The code keeps no
such table; `FrameInv` says that one exists and agrees with the free list, the
directory and table words and every `pp_ref`. Because a role is a function of
the frame, the aliasing facts the proofs need (no page table is shared, no
mapped frame is a table or free) come for free.

`own` are the directory slots whose page tables a directory owns; the others
(the `UVPT` window, and the shared kernel half of an env's directory) are not
followed.

Each elementary change the code makes to memory and counters has one lemma
here (`FrameInv.alloc`, `FrameInv.addTable`, `FrameInv.setLeaf`, ...): it gives
the new roles and the new `view`, the map from directory slots to entries.
-/

namespace Mos.Kern

open Mos.Lib

/-- What a frame is used for. -/
inductive Role where
  | reserved
  | free
  | fresh
  | dir
  | table (d i : Nat)
  | data
  | held
  deriving DecidableEq, Repr

/-- The slots of all possible directories. -/
noncomputable def slots : Finset (Nat × Nat × Nat) :=
  (Set.Finite.prod (Set.finite_lt_nat npage)
    (Set.Finite.prod (Set.finite_lt_nat 1024) (Set.finite_lt_nat 1024))).toFinset

theorem mem_slots {x : Nat × Nat × Nat} :
    x ∈ slots ↔ x.1 < npage ∧ x.2.1 < 1024 ∧ x.2.2 < 1024 := by
  unfold slots
  rw [Set.Finite.mem_toFinset]
  exact Iff.rfl

section

variable (own : Nat → Bool) (role : Nat → Role) (s : Pmap)

/-- The mappings: the valid entry in each owned slot of each directory. -/
def view (x : Nat × Nat × Nat) : Option Nat :=
  if role x.1 = .dir ∧ own x.2.1 = true then s.pteAt x.1 x.2.1 x.2.2 else none

/-- The frame each slot maps. -/
def leaf (x : Nat × Nat × Nat) : Option Nat := (view own role s x).map pteFrame

/-- The number of slots that map `f`. -/
noncomputable def leafRefs (f : Nat) : Nat := refCount slots (leaf own role s) f

end

/-- What `pp_ref` must be for a frame's role and number of mappings; the counter
is a `u_short`. -/
def RefOk (r : Role) (ref leafs : Nat) : Prop :=
  match r with
  | .reserved => True
  | .free | .fresh => ref = 0
  | .dir | .table _ _ | .held => ref = 1
  | .data => ref = leafs % 2 ^ 16 ∧ 0 < leafs

/-- The directories and tables agree with the roles: this much fixes `view`. -/
structure TableShape (own : Nat → Bool) (s : Pmap) (role : Nat → Role) : Prop where
  ownLt : ∀ i, own i = true → i < 1024
  tableLt : ∀ t d i, role t = .table d i → t < npage
  tablePde : ∀ t d i, role t = .table d i →
    role d = .dir ∧ own i = true ∧ s.mem d i = mkPde t
  pdeTable : ∀ d i, role d = .dir → own i = true → testFlag (s.mem d i) PTE_V = true →
    ∃ t, role t = .table d i

/-- The roles agree with the whole state. -/
structure FrameInv (own : Nat → Bool) (lo : Nat) (s : Pmap) (role : Nat → Role) : Prop
    extends TableShape own s role where
  managed : ∀ f, role f ≠ .reserved ↔ lo ≤ f ∧ f < npage
  freeNodup : s.pageFreeList.Nodup
  freeIff : ∀ f, f ∈ s.pageFreeList ↔ role f = .free
  leafData : ∀ t d i j, role t = .table d i → j < 1024 → testFlag (s.mem t j) PTE_V = true →
    role (pteFrame (s.mem t j)) = .data
  refOk : ∀ f, RefOk (role f) (s.ppRef f) (leafRefs own role s f)

-- ---------------------------------------------------------------------------
-- The mappings a shape determines
-- ---------------------------------------------------------------------------

namespace TableShape

variable {own : Nat → Bool} {s : Pmap} {role : Nat → Role}

theorem pteFrame_pde (h : TableShape own s role) {t d i : Nat} (ht : role t = .table d i) :
    pteFrame (s.mem d i) = t := by
  rw [(h.tablePde t d i ht).2.2]
  exact pteFrame_mkPde (h.tableLt t d i ht)

/-- A directory slot has at most one page table. -/
theorem table_unique (h : TableShape own s role) {t t' d i : Nat}
    (ht : role t = .table d i) (ht' : role t' = .table d i) : t = t' := by
  rw [← h.pteFrame_pde ht, ← h.pteFrame_pde ht']

/-- A slot maps something exactly when its table holds a valid entry. -/
theorem view_eq_some (h : TableShape own s role) {d i j w : Nat} :
    view own role s (d, i, j) = some w ↔
      ∃ t, role t = .table d i ∧ s.mem t j = w ∧ testFlag w PTE_V = true := by
  constructor
  · intro hv
    unfold view Pmap.pteAt at hv
    simp only at hv
    split_ifs at hv with hd hpde hpte
    obtain ⟨t, ht⟩ := h.pdeTable d i hd.1 hd.2 hpde
    rw [h.pteFrame_pde ht] at hv hpte
    obtain rfl := Option.some.inj hv
    exact ⟨t, ht, rfl, hpte⟩
  · rintro ⟨t, ht, hw, hV⟩
    obtain ⟨hd, hown, hpde⟩ := h.tablePde t d i ht
    have hval : testFlag (s.mem d i) PTE_V = true := by rw [hpde]; exact testFlag_V_mkPde t
    unfold view Pmap.pteAt
    simp only
    rw [if_pos ⟨hd, hown⟩, if_pos hval, h.pteFrame_pde ht, hw, if_pos hV]

theorem view_table (h : TableShape own s role) {t d i : Nat} (ht : role t = .table d i) (j : Nat) :
    view own role s (d, i, j) = if testFlag (s.mem t j) PTE_V then some (s.mem t j) else none := by
  split_ifs with hV
  · exact h.view_eq_some.mpr ⟨t, ht, rfl, hV⟩
  · rw [Option.eq_none_iff_forall_ne_some]
    intro w hw
    obtain ⟨t', ht', rfl, hV'⟩ := h.view_eq_some.mp hw
    rw [h.table_unique ht' ht] at hV'
    exact hV hV'

/-- Two states show the same mappings when their tables do. -/
theorem view_congr {s' : Pmap} {role' : Nat → Role}
    (h : TableShape own s role) (h' : TableShape own s' role')
    (hw : ∀ d i j w, testFlag w PTE_V = true →
      ((∃ t, role' t = .table d i ∧ s'.mem t j = w) ↔ ∃ t, role t = .table d i ∧ s.mem t j = w)) :
    view own role' s' = view own role s := by
  funext ⟨d, i, j⟩
  apply Option.ext
  intro w
  rw [h'.view_eq_some, h.view_eq_some]
  constructor
  · rintro ⟨t, ht, hm, hV⟩
    obtain ⟨t', ht', hm'⟩ := (hw d i j w hV).mp ⟨t, ht, hm⟩
    exact ⟨t', ht', hm', hV⟩
  · rintro ⟨t, ht, hm, hV⟩
    obtain ⟨t', ht', hm'⟩ := (hw d i j w hV).mpr ⟨t, ht, hm⟩
    exact ⟨t', ht', hm', hV⟩

/-- A directory shows the same mappings when its tables stay. -/
theorem view_tables {s' : Pmap} {role' : Nat → Role} (h : TableShape own s role)
    (h' : TableShape own s' role') {d : Nat} (htab : ∀ t i, role' t = .table d i ↔ role t = .table d i)
    (hmem : ∀ t i, role t = .table d i → ∀ j, s'.mem t j = s.mem t j) (i j : Nat) :
    view own role' s' (d, i, j) = view own role s (d, i, j) := by
  apply Option.ext
  intro w
  rw [h'.view_eq_some, h.view_eq_some]
  constructor
  · rintro ⟨t, ht, hm, hV⟩
    rw [htab] at ht
    exact ⟨t, ht, by rw [← hmem t i ht j]; exact hm, hV⟩
  · rintro ⟨t, ht, hm, hV⟩
    exact ⟨t, (htab t i).mpr ht, by rw [hmem t i ht j]; exact hm, hV⟩

/-- Writing one entry of a page table changes that slot of the view only. -/
theorem view_store (h : TableShape own s role) {s' : Pmap} {role' : Nat → Role}
    (h' : TableShape own s' role') {t d i j w : Nat} (ht : role t = .table d i)
    (hrole : ∀ t' d' i', role' t' = .table d' i' ↔ role t' = .table d' i')
    (hmem : ∀ t' j', s'.mem t' j' = (s.store t j w).mem t' j') :
    view own role' s' =
      Function.update (view own role s) (d, i, j) (if testFlag w PTE_V then some w else none) := by
  funext ⟨d', i', j'⟩
  by_cases hx : (d', i', j') = (d, i, j)
  · obtain ⟨rfl, rfl, rfl⟩ : d' = d ∧ i' = i ∧ j' = j := by simpa using hx
    rw [Function.update_self, h'.view_table ((hrole t d' i').mpr ht), hmem, Pmap.store_mem_self]
  · rw [Function.update_of_ne hx]
    apply Option.ext
    intro v
    rw [h'.view_eq_some, h.view_eq_some]
    -- the written word lies in the table of `(d, i)` at `j`, so not in this slot
    have key : ∀ t', role t' = .table d' i' → s'.mem t' j' = s.mem t' j' := by
      intro t' ht'
      rw [hmem, Pmap.store_mem, if_neg]
      rintro ⟨rfl, rfl⟩
      rw [ht] at ht'
      simp only [Role.table.injEq] at ht'
      exact hx (by rw [ht'.1, ht'.2])
    constructor
    · rintro ⟨t', ht', hm, hV⟩
      rw [hrole] at ht'
      exact ⟨t', ht', by rw [← key t' ht']; exact hm, hV⟩
    · rintro ⟨t', ht', hm, hV⟩
      exact ⟨t', (hrole t' d' i').mpr ht', by rw [key t' ht']; exact hm, hV⟩

end TableShape

namespace FrameInv

variable {own : Nat → Bool} {lo : Nat} {s : Pmap} {role : Nat → Role}

theorem lt_npage (h : FrameInv own lo s role) {f : Nat} (hf : role f ≠ .reserved) : f < npage :=
  ((h.managed f).mp hf).2

/-- Only data frames are mapped. -/
theorem data_of_leaf (h : FrameInv own lo s role) {d i j f : Nat} (hj : j < 1024)
    (hf : leaf own role s (d, i, j) = some f) : role f = .data := by
  unfold leaf at hf
  rw [Option.map_eq_some_iff] at hf
  obtain ⟨w, hw, rfl⟩ := hf
  obtain ⟨t, ht, rfl, hV⟩ := h.view_eq_some.mp hw
  exact h.leafData t d i j ht hj hV

theorem leafRefs_eq_zero (h : FrameInv own lo s role) {f : Nat} (hf : role f ≠ .data) :
    leafRefs own role s f = 0 := by
  unfold leafRefs
  rw [refCount_eq_zero]
  rintro ⟨d, i, j⟩ hx hl
  rw [mem_slots] at hx
  exact hf (h.data_of_leaf hx.2.2 hl)

/-- The counts depend on the entries of the tables only. -/
theorem leafRefs_of_view {s' : Pmap} {role' : Nat → Role}
    (hv : ∀ x, x.2.2 < 1024 → view own role' s' x = view own role s x) (f : Nat) :
    leafRefs own role' s' f = leafRefs own role s f := by
  unfold leafRefs
  apply refCount_congr
  intro x hx
  unfold leaf
  rw [hv x (mem_slots.mp hx).2.2]

theorem leafRefs_congr {s' : Pmap} {role' : Nat → Role}
    (hv : view own role' s' = view own role s) (f : Nat) :
    leafRefs own role' s' f = leafRefs own role s f :=
  leafRefs_of_view (fun _ _ => by rw [hv]) f

-- ---------------------------------------------------------------------------
-- Elementary changes
-- ---------------------------------------------------------------------------

/-- Redefining one frame's role does not disturb who has another role. -/
theorem update_role_iff {pp : Nat} {r q : Role} (hold : role pp ≠ q) (hnew : r ≠ q) (f : Nat) :
    Function.update role pp r f = q ↔ role f = q := by
  by_cases hf : f = pp
  · subst hf
    rw [Function.update_self]
    exact ⟨fun h => absurd h hnew, fun h => absurd h hold⟩
  · rw [Function.update_of_ne hf]

/-- **Frame rule.** A change that leaves the directories, the tables and the
set of mapped frames alone keeps the invariant and the view, as long as the
free list and the counters follow the new roles. -/
theorem frame (h : FrameInv own lo s role) {s' : Pmap} {role' : Nat → Role}
    (hres : ∀ f, role' f = .reserved ↔ role f = .reserved)
    (htab : ∀ t d i, role' t = .table d i ↔ role t = .table d i)
    (hdir : ∀ d, role' d = .dir ↔ role d = .dir)
    (hdata : ∀ f, role' f = .data ↔ role f = .data)
    (hmdir : ∀ d i, role d = .dir → own i = true → s'.mem d i = s.mem d i)
    (hmtab : ∀ t d i j, role t = .table d i → s'.mem t j = s.mem t j)
    (hnodup : s'.pageFreeList.Nodup)
    (hfree : ∀ f, f ∈ s'.pageFreeList ↔ role' f = .free)
    (href : ∀ f, RefOk (role' f) (s'.ppRef f) (leafRefs own role s f)) :
    FrameInv own lo s' role' ∧ view own role' s' = view own role s := by
  have shape : TableShape own s' role' := by
    refine ⟨h.ownLt, ?_, ?_, ?_⟩
    · intro t d i ht
      exact h.tableLt t d i ((htab t d i).mp ht)
    · intro t d i ht
      obtain ⟨hd, hown, hm⟩ := h.tablePde t d i ((htab t d i).mp ht)
      exact ⟨(hdir d).mpr hd, hown, by rw [hmdir d i hd hown]; exact hm⟩
    · intro d i hd hown hV
      rw [hdir] at hd
      rw [hmdir d i hd hown] at hV
      obtain ⟨t, ht⟩ := h.pdeTable d i hd hown hV
      exact ⟨t, (htab t d i).mpr ht⟩
  have hview : view own role' s' = view own role s := by
    apply h.toTableShape.view_congr shape
    intro d i j w _
    constructor
    · rintro ⟨t, ht, hm⟩
      rw [htab] at ht
      exact ⟨t, ht, by rw [← hmtab t d i j ht]; exact hm⟩
    · rintro ⟨t, ht, hm⟩
      exact ⟨t, (htab t d i).mpr ht, by rw [hmtab t d i j ht]; exact hm⟩
  refine ⟨⟨shape, ?_, hnodup, hfree, ?_, ?_⟩, hview⟩
  · intro f
    rw [Ne, hres, ← Ne]
    exact h.managed f
  · intro t d i j ht hj hV
    rw [htab] at ht
    rw [hmtab t d i j ht] at hV ⊢
    rw [hdata]
    exact h.leafData t d i j ht hj hV
  · intro f
    rw [leafRefs_congr hview]
    exact href f

/-- `page_alloc` takes a free frame. -/
theorem alloc (h : FrameInv own lo s role) {pp : Nat} {rest : List Nat}
    (hl : s.pageFreeList = pp :: rest) :
    FrameInv own lo ({ s with pageFreeList := rest }.clear pp) (Function.update role pp .fresh) ∧
      view own (Function.update role pp .fresh) ({ s with pageFreeList := rest }.clear pp) =
        view own role s := by
  have hpp : role pp = .free := (h.freeIff pp).mp (by simp [hl])
  have hnodup := h.freeNodup
  rw [hl, List.nodup_cons] at hnodup
  refine h.frame ?_ ?_ ?_ ?_ ?_ ?_ ?_ ?_ ?_
  · exact update_role_iff (by simp [hpp]) (by simp)
  · intro t d i
    exact update_role_iff (by simp [hpp]) (by simp) t
  · exact update_role_iff (by simp [hpp]) (by simp)
  · exact update_role_iff (by simp [hpp]) (by simp)
  · intro d i hd _
    have hne : d ≠ pp := by rintro rfl; simp [hpp] at hd
    simp [Pmap.clear_mem, hne]
  · intro t d i j ht
    have hne : t ≠ pp := by rintro rfl; simp [hpp] at ht
    simp [Pmap.clear_mem, hne]
  · simpa using hnodup.2
  · intro f
    by_cases hf : f = pp
    · subst hf
      simpa using hnodup.1
    · rw [Function.update_of_ne hf, ← h.freeIff f, hl]
      simp [hf]
  · intro f
    have hf := h.refOk f
    by_cases hfp : f = pp
    · subst hfp
      rw [hpp] at hf
      simpa [RefOk] using hf
    · rw [Function.update_of_ne hfp]
      simpa using hf

/-- `page_free` of a frame that was allocated and never used. -/
theorem freeFresh (h : FrameInv own lo s role) {pp : Nat} (hpp : role pp = .fresh) :
    ∃ s', pageFree s pp = .ok s' ∧ s'.mem = s.mem ∧
      FrameInv own lo s' (Function.update role pp .free) ∧
      view own (Function.update role pp .free) s' = view own role s := by
  have href : s.ppRef pp = 0 := by
    have := h.refOk pp
    simpa [hpp, RefOk] using this
  refine ⟨_, if_pos href, rfl, ?_⟩
  refine h.frame ?_ ?_ ?_ ?_ ?_ ?_ ?_ ?_ ?_
  · exact update_role_iff (by simp [hpp]) (by simp)
  · intro t d i
    exact update_role_iff (by simp [hpp]) (by simp) t
  · exact update_role_iff (by simp [hpp]) (by simp)
  · exact update_role_iff (by simp [hpp]) (by simp)
  · intros; rfl
  · intros; rfl
  · simp only [List.nodup_cons]
    refine ⟨?_, h.freeNodup⟩
    rw [h.freeIff, hpp]
    simp
  · intro f
    by_cases hf : f = pp
    · subst hf
      simp
    · rw [Function.update_of_ne hf, ← h.freeIff f]
      simp [hf]
  · intro f
    by_cases hf : f = pp
    · subst hf
      simpa [RefOk] using href
    · rw [Function.update_of_ne hf]
      exact h.refOk f

/-- A frame the kernel keeps for itself: `p->pp_ref++` on a fresh one. -/
theorem hold (h : FrameInv own lo s role) {pp : Nat} (hpp : role pp = .fresh) :
    FrameInv own lo (s.setRef pp 1) (Function.update role pp .held) ∧
      view own (Function.update role pp .held) (s.setRef pp 1) = view own role s := by
  refine h.frame ?_ ?_ ?_ ?_ ?_ ?_ ?_ ?_ ?_
  · exact update_role_iff (by simp [hpp]) (by simp)
  · intro t d i
    exact update_role_iff (by simp [hpp]) (by simp) t
  · exact update_role_iff (by simp [hpp]) (by simp)
  · exact update_role_iff (by simp [hpp]) (by simp)
  · intros; rfl
  · intros; rfl
  · exact h.freeNodup
  · intro f
    rw [update_role_iff (by simp [hpp]) (by simp)]
    exact h.freeIff f
  · intro f
    by_cases hf : f = pp
    · subst hf
      simp [RefOk]
    · rw [Function.update_of_ne hf, Pmap.setRef_ppRef, if_neg hf]
      exact h.refOk f

/-- Words outside the tables and the owned directory slots may change freely. -/
theorem store_other (h : FrameInv own lo s role) {f i w : Nat}
    (hdir : role f = .dir → own i = false) (htab : ∀ d i', role f ≠ .table d i') :
    FrameInv own lo (s.store f i w) role ∧
      view own role (s.store f i w) = view own role s := by
  refine h.frame (fun _ => Iff.rfl) (fun _ _ _ => Iff.rfl) (fun _ => Iff.rfl)
    (fun _ => Iff.rfl) ?_ ?_ h.freeNodup h.freeIff h.refOk
  · intro d i' hd hown
    rw [Pmap.store_mem, if_neg]
    rintro ⟨rfl, rfl⟩
    rw [hdir hd] at hown
    simp at hown
  · intro t d i' j ht
    rw [Pmap.store_mem_frame]
    rintro rfl
    exact htab d i' ht

/-- The counter of a frame `page_init` marked used is nobody's concern. -/
theorem setRef_reserved (h : FrameInv own lo s role) {f r : Nat} (hf : role f = .reserved) :
    FrameInv own lo (s.setRef f r) role ∧ view own role (s.setRef f r) = view own role s := by
  refine h.frame (fun _ => Iff.rfl) (fun _ _ _ => Iff.rfl) (fun _ => Iff.rfl)
    (fun _ => Iff.rfl) (fun _ _ _ _ => rfl) (fun _ _ _ _ _ => rfl) h.freeNodup h.freeIff ?_
  intro g
  by_cases hg : g = f
  · rw [hg, hf]
    trivial
  · rw [Pmap.setRef_ppRef, if_neg hg]
    exact h.refOk g

/-- The invariant reads the words, the counters and the free list only. -/
theorem of_eq (h : FrameInv own lo s role) {s' : Pmap} (hm : s'.mem = s.mem)
    (hr : s'.ppRef = s.ppRef) (hl : s'.pageFreeList = s.pageFreeList) :
    FrameInv own lo s' role ∧ view own role s' = view own role s := by
  refine h.frame (fun _ => Iff.rfl) (fun _ _ _ => Iff.rfl) (fun _ => Iff.rfl)
    (fun _ => Iff.rfl) ?_ ?_ ?_ ?_ ?_
  · intros; rw [hm]
  · intros; rw [hm]
  · rw [hl]; exact h.freeNodup
  · rw [hl]; exact h.freeIff
  · rw [hr]; exact h.refOk

/-- A fresh zeroed frame becomes a page directory. -/
theorem addDir (h : FrameInv own lo s role) {pp : Nat} (hpp : role pp = .fresh)
    (hzero : ∀ i, own i = true → testFlag (s.mem pp i) PTE_V = false) :
    FrameInv own lo (s.setRef pp 1) (Function.update role pp .dir) ∧
      view own (Function.update role pp .dir) (s.setRef pp 1) = view own role s := by
  have htab : ∀ t d i, Function.update role pp .dir t = .table d i ↔ role t = .table d i :=
    fun t d i => update_role_iff (by simp [hpp]) (by simp) t
  have shape : TableShape own (s.setRef pp 1) (Function.update role pp .dir) := by
    refine ⟨h.ownLt, ?_, ?_, ?_⟩
    · intro t d i ht
      exact h.tableLt t d i ((htab t d i).mp ht)
    · intro t d i ht
      obtain ⟨hd, hown, hm⟩ := h.tablePde t d i ((htab t d i).mp ht)
      have hne : d ≠ pp := by rintro rfl; simp [hpp] at hd
      exact ⟨by rw [Function.update_of_ne hne]; exact hd, hown, hm⟩
    · intro d i hd hown hV
      by_cases hdp : d = pp
      · subst hdp
        have := hzero i hown
        rw [Pmap.setRef_mem, this] at hV
        simp at hV
      · rw [Function.update_of_ne hdp] at hd
        obtain ⟨t, ht⟩ := h.pdeTable d i hd hown hV
        exact ⟨t, (htab t d i).mpr ht⟩
  have hview : view own (Function.update role pp .dir) (s.setRef pp 1) = view own role s := by
    apply h.toTableShape.view_congr shape
    intro d i j w _
    simp only [htab, Pmap.setRef_mem]
  refine ⟨⟨shape, ?_, h.freeNodup, ?_, ?_, ?_⟩, hview⟩
  · intro f
    rw [Ne, update_role_iff (by simp [hpp]) (by simp), ← Ne]
    exact h.managed f
  · intro f
    rw [update_role_iff (by simp [hpp]) (by simp)]
    exact h.freeIff f
  · intro t d i j ht hj hV
    rw [htab] at ht
    rw [update_role_iff (by simp [hpp]) (by simp)]
    exact h.leafData t d i j ht hj hV
  · intro f
    rw [leafRefs_congr hview]
    by_cases hf : f = pp
    · subst hf
      simp [RefOk]
    · rw [Function.update_of_ne hf, Pmap.setRef_ppRef, if_neg hf]
      exact h.refOk f

/-- A fresh zeroed frame becomes the page table of an empty directory slot. -/
theorem addTable (h : FrameInv own lo s role) {pp d i : Nat} (hpp : role pp = .fresh)
    (hzero : ∀ j, s.mem pp j = 0) (hd : role d = .dir) (hown : own i = true)
    (hpde : testFlag (s.mem d i) PTE_V = false) :
    FrameInv own lo ((s.setRef pp 1).store d i (mkPde pp))
        (Function.update role pp (.table d i)) ∧
      view own (Function.update role pp (.table d i)) ((s.setRef pp 1).store d i (mkPde pp)) =
        view own role s := by
  have hdp : d ≠ pp := by rintro rfl; simp [hpp] at hd
  -- no frame was the table of this slot before
  have hnone : ∀ t, role t ≠ .table d i := by
    intro t ht
    rw [(h.tablePde t d i ht).2.2, testFlag_V_mkPde] at hpde
    simp at hpde
  have htab : ∀ t d' i', Function.update role pp (.table d i) t = .table d' i' ↔
      role t = .table d' i' ∨ (t = pp ∧ d' = d ∧ i' = i) := by
    intro t d' i'
    by_cases ht : t = pp
    · subst ht
      simp [hpp, eq_comm]
    · simp [ht]
  have hdir : ∀ d', Function.update role pp (.table d i) d' = .dir ↔ role d' = .dir :=
    update_role_iff (by simp [hpp]) (by simp)
  have hmtab : ∀ t d' i' j, role t = .table d' i' →
      ((s.setRef pp 1).store d i (mkPde pp)).mem t j = s.mem t j := by
    intro t d' i' j ht
    rw [Pmap.store_mem_frame, Pmap.setRef_mem]
    rintro rfl
    simp [hd] at ht
  have hmpp : ∀ j, ((s.setRef pp 1).store d i (mkPde pp)).mem pp j = 0 := by
    intro j
    rw [Pmap.store_mem_frame _ hdp.symm, Pmap.setRef_mem, hzero]
  have hmdir : ∀ d' i', (d', i') ≠ (d, i) →
      ((s.setRef pp 1).store d i (mkPde pp)).mem d' i' = s.mem d' i' := by
    intro d' i' hne
    rw [Pmap.store_mem, if_neg, Pmap.setRef_mem]
    rintro ⟨rfl, rfl⟩
    exact hne rfl
  have shape : TableShape own ((s.setRef pp 1).store d i (mkPde pp))
      (Function.update role pp (.table d i)) := by
    refine ⟨h.ownLt, ?_, ?_, ?_⟩
    · intro t d' i' ht
      rcases (htab t d' i').mp ht with ht | ⟨rfl, -, -⟩
      · exact h.tableLt t d' i' ht
      · exact h.lt_npage (by simp [hpp])
    · intro t d' i' ht
      rcases (htab t d' i').mp ht with ht | ⟨rfl, rfl, rfl⟩
      · obtain ⟨hd', hown', hm⟩ := h.tablePde t d' i' ht
        refine ⟨(hdir d').mpr hd', hown', ?_⟩
        rw [hmdir d' i' ?_]
        · exact hm
        · rintro ⟨rfl, rfl⟩
          exact hnone t ht
      · exact ⟨(hdir d').mpr hd, hown, by simp⟩
    · intro d' i' hd' hown' hV
      rw [hdir] at hd'
      by_cases hx : (d', i') = (d, i)
      · obtain ⟨rfl, rfl⟩ : d' = d ∧ i' = i := by simpa using hx
        exact ⟨pp, (htab pp d' i').mpr (Or.inr ⟨rfl, rfl, rfl⟩)⟩
      · rw [hmdir d' i' hx] at hV
        obtain ⟨t, ht⟩ := h.pdeTable d' i' hd' hown' hV
        exact ⟨t, (htab t d' i').mpr (Or.inl ht)⟩
  have hview : view own (Function.update role pp (.table d i))
      ((s.setRef pp 1).store d i (mkPde pp)) = view own role s := by
    apply h.toTableShape.view_congr shape
    intro d' i' j w hw
    constructor
    · rintro ⟨t, ht, hm⟩
      rcases (htab t d' i').mp ht with ht | ⟨rfl, -, -⟩
      · exact ⟨t, ht, by rw [← hmtab t d' i' j ht]; exact hm⟩
      · rw [hmpp] at hm
        subst hm
        simp at hw
    · rintro ⟨t, ht, hm⟩
      exact ⟨t, (htab t d' i').mpr (Or.inl ht), by rw [hmtab t d' i' j ht]; exact hm⟩
  refine ⟨⟨shape, ?_, h.freeNodup, ?_, ?_, ?_⟩, hview⟩
  · intro f
    rw [Ne, update_role_iff (by simp [hpp]) (by simp), ← Ne]
    exact h.managed f
  · intro f
    rw [update_role_iff (by simp [hpp]) (by simp)]
    exact h.freeIff f
  · intro t d' i' j ht hj hV
    rw [update_role_iff (by simp [hpp]) (by simp)]
    rcases (htab t d' i').mp ht with ht | ⟨rfl, -, -⟩
    · rw [hmtab t d' i' j ht] at hV ⊢
      exact h.leafData t d' i' j ht hj hV
    · rw [hmpp] at hV
      simp at hV
  · intro f
    rw [leafRefs_congr hview]
    by_cases hf : f = pp
    · subst hf
      simp [RefOk]
    · rw [Function.update_of_ne hf, Pmap.store_ppRef, Pmap.setRef_ppRef, if_neg hf]
      exact h.refOk f

/-- The slot of a table entry is counted. -/
theorem table_mem_slots (h : FrameInv own lo s role) {t d i j : Nat} (ht : role t = .table d i)
    (hj : j < 1024) : (d, i, j) ∈ slots := by
  obtain ⟨hd, hown, -⟩ := h.tablePde t d i ht
  rw [mem_slots]
  exact ⟨h.lt_npage (by simp [hd]), h.ownLt i hown, hj⟩

/-- The frame an entry word maps. -/
def entryFrame (w : Nat) : Option Nat := if testFlag w PTE_V then some (pteFrame w) else none

theorem leaf_table (h : FrameInv own lo s role) {t d i : Nat} (ht : role t = .table d i)
    (j : Nat) : leaf own role s (d, i, j) = entryFrame (s.mem t j) := by
  unfold leaf entryFrame
  rw [h.view_table ht]
  split_ifs <;> rfl

/-- **Entry rule.** Writing word `w` into entry `j` of a page table keeps the
invariant when roles, free list and counters follow the changed slot. -/
theorem storeLeaf (h : FrameInv own lo s role) (s' : Pmap) (role' : Nat → Role) {t d i j : Nat}
    (w : Nat) (ht : role t = .table d i)
    (hres : ∀ f, role' f = .reserved ↔ role f = .reserved)
    (htab : ∀ t d i, role' t = .table d i ↔ role t = .table d i)
    (hdir : ∀ d, role' d = .dir ↔ role d = .dir)
    (hmem : s'.mem = (s.store t j w).mem)
    (hnodup : s'.pageFreeList.Nodup)
    (hfree : ∀ f, f ∈ s'.pageFreeList ↔ role' f = .free)
    (hdata : ∀ f, 0 < refCount slots
      (Function.update (leaf own role s) (d, i, j) (entryFrame w)) f → role' f = .data)
    (href : ∀ f, RefOk (role' f) (s'.ppRef f)
      (refCount slots (Function.update (leaf own role s) (d, i, j) (entryFrame w)) f)) :
    FrameInv own lo s' role' ∧
      view own role' s' = Function.update (view own role s) (d, i, j)
        (if testFlag w PTE_V then some w else none) := by
  have hmdir : ∀ d' i', role d' = .dir → s'.mem d' i' = s.mem d' i' := by
    intro d' i' hd'
    rw [hmem, Pmap.store_mem_frame]
    rintro rfl
    simp [ht] at hd'
  have shape : TableShape own s' role' := by
    refine ⟨h.ownLt, ?_, ?_, ?_⟩
    · intro t' d' i' ht'
      exact h.tableLt t' d' i' ((htab t' d' i').mp ht')
    · intro t' d' i' ht'
      obtain ⟨hd', hown', hm⟩ := h.tablePde t' d' i' ((htab t' d' i').mp ht')
      exact ⟨(hdir d').mpr hd', hown', by rw [hmdir d' i' hd']; exact hm⟩
    · intro d' i' hd' hown' hV
      rw [hdir] at hd'
      rw [hmdir d' i' hd'] at hV
      obtain ⟨t', ht'⟩ := h.pdeTable d' i' hd' hown' hV
      exact ⟨t', (htab t' d' i').mpr ht'⟩
  have hview := h.toTableShape.view_store shape ht htab (fun t' j' => by rw [hmem])
  have hleaf : leaf own role' s' =
      Function.update (leaf own role s) (d, i, j) (entryFrame w) := by
    funext x
    unfold leaf entryFrame
    rw [hview]
    by_cases hx : x = (d, i, j)
    · subst hx
      rw [Function.update_self, Function.update_self]
      split_ifs <;> rfl
    · rw [Function.update_of_ne hx, Function.update_of_ne hx]
  refine ⟨⟨shape, ?_, hnodup, hfree, ?_, ?_⟩, hview⟩
  · intro f
    rw [Ne, hres, ← Ne]
    exact h.managed f
  · intro t' d' i' j' ht' hj' hV
    apply hdata
    rw [refCount_pos, ← hleaf]
    refine ⟨(d', i', j'), h.table_mem_slots ((htab t' d' i').mp ht') hj', ?_⟩
    unfold leaf
    rw [shape.view_table ht', if_pos hV]
    rfl
  · intro f
    have := href f
    rw [← hleaf] at this
    exact this

/-- `*pte = ...; pp->pp_ref++` on an empty entry. -/
theorem setLeaf (h : FrameInv own lo s role) {t d i j pp w : Nat} (ht : role t = .table d i)
    (hj : j < 1024) (hempty : testFlag (s.mem t j) PTE_V = false)
    (hpp : role pp = .fresh ∨ role pp = .data)
    (hw : testFlag w PTE_V = true) (hframe : pteFrame w = pp) :
    FrameInv own lo ((s.store t j w).setRef pp ((s.ppRef pp + 1) % 2 ^ 16))
        (Function.update role pp .data) ∧
      view own (Function.update role pp .data)
          ((s.store t j w).setRef pp ((s.ppRef pp + 1) % 2 ^ 16)) =
        Function.update (view own role s) (d, i, j) (some w) := by
  have hx := h.table_mem_slots ht hj
  have hnone : leaf own role s (d, i, j) = none := by
    rw [h.leaf_table ht]
    simp [entryFrame, hempty]
  have hentry : entryFrame w = some pp := by
    simp [entryFrame, hw, hframe]
  have hcount : ∀ f, refCount slots (Function.update (leaf own role s) (d, i, j) (some pp)) f =
      leafRefs own role s f + (if pp = f then 1 else 0) := by
    intro f
    unfold leafRefs
    exact refCount_fill hx hnone pp f
  have hkey := h.storeLeaf ((s.store t j w).setRef pp ((s.ppRef pp + 1) % 2 ^ 16))
    (Function.update role pp .data) w ht ?_ ?_ ?_ rfl h.freeNodup ?_ ?_ ?_
  · rw [if_pos hw] at hkey
    exact hkey
  · exact update_role_iff (by rcases hpp with e | e <;> simp [e]) (by simp)
  · intro t' d' i'
    exact update_role_iff (by rcases hpp with e | e <;> simp [e]) (by simp) t'
  · exact update_role_iff (by rcases hpp with e | e <;> simp [e]) (by simp)
  · intro f
    rw [update_role_iff (by rcases hpp with e | e <;> simp [e]) (by simp)]
    exact h.freeIff f
  · intro f hf
    rw [hentry, hcount] at hf
    by_cases hfp : f = pp
    · subst hfp
      simp
    · rw [Function.update_of_ne hfp]
      by_contra hnd
      rw [h.leafRefs_eq_zero hnd, if_neg (Ne.symm hfp)] at hf
      omega
  · intro f
    rw [hentry, hcount]
    by_cases hfp : f = pp
    · subst hfp
      have hr := h.refOk f
      rcases hpp with e | e
      · have hz := h.leafRefs_eq_zero (f := f) (by simp [e])
        rw [e] at hr
        simp only [RefOk] at hr
        simp [RefOk, hr, hz]
      · rw [e] at hr
        simp only [RefOk] at hr
        rw [Function.update_self, Pmap.setRef_ppRef_self, if_pos rfl]
        refine ⟨?_, by omega⟩
        rw [hr.1, Nat.mod_add_mod]
    · rw [Function.update_of_ne hfp, Pmap.setRef_ppRef, if_neg hfp, if_neg (Ne.symm hfp),
        Nat.add_zero]
      exact h.refOk f

/-- `*pte = ...` on an entry that already maps the same page. -/
theorem remapLeaf (h : FrameInv own lo s role) {t d i j w : Nat} (ht : role t = .table d i)
    (hold : testFlag (s.mem t j) PTE_V = true)
    (hw : testFlag w PTE_V = true) (hframe : pteFrame w = pteFrame (s.mem t j)) :
    FrameInv own lo (s.store t j w) role ∧
      view own role (s.store t j w) = Function.update (view own role s) (d, i, j) (some w) := by
  have hsame : Function.update (leaf own role s) (d, i, j) (entryFrame w) = leaf own role s := by
    rw [Function.update_eq_self_iff, h.leaf_table ht]
    simp [entryFrame, hw, hold, hframe]
  have hkey := h.storeLeaf (s.store t j w) role w ht
    (fun _ => Iff.rfl) (fun _ _ _ => Iff.rfl) (fun _ => Iff.rfl) rfl h.freeNodup h.freeIff ?_ ?_
  · rw [if_pos hw] at hkey
    exact hkey
  · intro f hf
    rw [hsame] at hf
    by_contra hnd
    have := h.leafRefs_eq_zero hnd
    unfold leafRefs at this
    omega
  · intro f
    rw [hsame]
    exact h.refOk f

/-- The role of a mapped frame after one of its mappings is dropped. -/
def dropRole (role : Nat → Role) (refs pp : Nat) : Nat → Role :=
  if refs = 1 then Function.update role pp .free else role

/-- `page_decref(pp); *pte = 0` on an entry that maps `pp`. -/
theorem removeLeaf (h : FrameInv own lo s role) {t d i j pp : Nat} (ht : role t = .table d i)
    (hj : j < 1024) (hold : testFlag (s.mem t j) PTE_V = true) (hpp : pteFrame (s.mem t j) = pp)
    (hbound : leafRefs own role s pp < 2 ^ 16) :
    ∃ s₁, pageDecref s pp = .ok s₁ ∧ s₁.mem = s.mem ∧
      FrameInv own lo (s₁.store t j 0) (dropRole role (leafRefs own role s pp) pp) ∧
      view own (dropRole role (leafRefs own role s pp) pp) (s₁.store t j 0) =
        Function.update (view own role s) (d, i, j) none := by
  have hx := h.table_mem_slots ht hj
  have hdata : role pp = .data := hpp ▸ h.leafData t d i j ht hj hold
  have hleaf : leaf own role s (d, i, j) = some pp := by
    rw [h.leaf_table ht]
    simp [entryFrame, hold, hpp]
  have hentry : entryFrame 0 = none := by simp [entryFrame]
  have hcount : ∀ f, refCount slots (Function.update (leaf own role s) (d, i, j) none) f +
      (if pp = f then 1 else 0) = leafRefs own role s f := by
    intro f
    unfold leafRefs
    exact refCount_empty hx hleaf f
  have href : s.ppRef pp = leafRefs own role s pp ∧ 0 < leafRefs own role s pp := by
    have := h.refOk pp
    rw [hdata] at this
    exact ⟨this.1.trans (Nat.mod_eq_of_lt hbound), this.2⟩
  have hno : ¬ testFlag 0 PTE_V = true := by simp
  by_cases hone : leafRefs own role s pp = 1
  · -- the last mapping: the frame goes back to the free list
    have hrole : dropRole role (leafRefs own role s pp) pp = Function.update role pp .free := by
      rw [dropRole, if_pos hone]
    rw [hrole]
    refine ⟨{ s.setRef pp 0 with pageFreeList := pp :: s.pageFreeList }, ?_, rfl, ?_⟩
    · exact pageDecref_last (by omega)
    · have hkey := h.storeLeaf
        (Pmap.store { s.setRef pp 0 with pageFreeList := pp :: s.pageFreeList } t j 0)
        (Function.update role pp .free) 0 ht ?_ ?_ ?_ rfl ?_ ?_ ?_ ?_
      · rw [if_neg hno] at hkey
        exact hkey
      · exact update_role_iff (by simp [hdata]) (by simp)
      · intro t' d' i'
        exact update_role_iff (by simp [hdata]) (by simp) t'
      · exact update_role_iff (by simp [hdata]) (by simp)
      · simp only [Pmap.store_pageFreeList, List.nodup_cons]
        refine ⟨?_, h.freeNodup⟩
        rw [h.freeIff, hdata]
        simp
      · intro f
        simp only [Pmap.store_pageFreeList, List.mem_cons]
        by_cases hf : f = pp
        · subst hf
          simp
        · rw [Function.update_of_ne hf, h.freeIff]
          simp [hf]
      · intro f hf
        have hc := hcount f
        rw [hentry] at hf
        by_cases hfp : f = pp
        · subst hfp
          rw [if_pos rfl] at hc
          omega
        · rw [Function.update_of_ne hfp]
          by_contra hnd
          rw [h.leafRefs_eq_zero hnd] at hc
          omega
      · intro f
        rw [hentry]
        have hc := hcount f
        by_cases hfp : f = pp
        · subst hfp
          simp [RefOk]
        · rw [if_neg (Ne.symm hfp), Nat.add_zero] at hc
          rw [hc, Function.update_of_ne hfp, Pmap.store_ppRef]
          simp only [Pmap.setRef_ppRef, if_neg hfp]
          exact h.refOk f
  · have hrole : dropRole role (leafRefs own role s pp) pp = role := by
      rw [dropRole, if_neg hone]
    rw [hrole]
    refine ⟨s.setRef pp (leafRefs own role s pp - 1), ?_, rfl, ?_⟩
    · rw [← href.1]
      exact pageDecref_more (by omega) (by omega)
    · have hkey := h.storeLeaf
        ((s.setRef pp (leafRefs own role s pp - 1)).store t j 0) role 0 ht (fun _ => Iff.rfl) (fun _ _ _ => Iff.rfl)
        (fun _ => Iff.rfl) rfl h.freeNodup h.freeIff ?_ ?_
      · rw [if_neg hno] at hkey
        exact hkey
      · intro f hf
        have hc := hcount f
        rw [hentry] at hf
        by_contra hnd
        rw [h.leafRefs_eq_zero hnd] at hc
        omega
      · intro f
        rw [hentry]
        have hc := hcount f
        by_cases hfp : f = pp
        · subst hfp
          rw [if_pos rfl] at hc
          rw [hdata, Pmap.store_ppRef, Pmap.setRef_ppRef_self]
          refine ⟨?_, by omega⟩
          rw [Nat.mod_eq_of_lt (by omega)]
          omega
        · rw [if_neg (Ne.symm hfp), Nat.add_zero] at hc
          rw [hc, Pmap.store_ppRef, Pmap.setRef_ppRef, if_neg hfp]
          exact h.refOk f

/-- Giving back a frame that has one reference: a new role map that frees it. -/
theorem release (h : FrameInv own lo s role) {s' : Pmap} {p : Nat}
    (hp : role p = .held ∨ role p = .dir ∨ ∃ d i, role p = .table d i)
    (shape : TableShape own s' (Function.update role p .free))
    (hview : ∀ x, x.2.2 < 1024 → view own (Function.update role p .free) s' x = view own role s x)
    (hleaf : ∀ t d i j, t ≠ p → role t = .table d i → s'.mem t j = s.mem t j)
    (hfree : s'.pageFreeList = p :: s.pageFreeList) (href : s'.ppRef = (s.setRef p 0).ppRef) :
    FrameInv own lo s' (Function.update role p .free) := by
  have hne : ∀ q, q ≠ .held → q ≠ .dir → (∀ d i, q ≠ .table d i) → role p ≠ q := by
    intro q h1 h2 h3 e
    rcases hp with e' | e' | ⟨d, i, e'⟩
    · exact h1 (e.symm.trans e')
    · exact h2 (e.symm.trans e')
    · exact h3 d i (e.symm.trans e')
  refine ⟨shape, ?_, ?_, ?_, ?_, ?_⟩
  · intro f
    rw [Ne, update_role_iff (hne _ (by simp) (by simp) (by simp)) (by simp), ← Ne]
    exact h.managed f
  · rw [hfree, List.nodup_cons]
    refine ⟨?_, h.freeNodup⟩
    rw [h.freeIff]
    exact hne _ (by simp) (by simp) (by simp)
  · intro f
    rw [hfree, List.mem_cons]
    by_cases hf : f = p
    · subst hf
      simp
    · rw [Function.update_of_ne hf, h.freeIff]
      simp [hf]
  · intro t d i j ht hj hV
    have htp : t ≠ p := by
      rintro rfl
      simp at ht
    rw [Function.update_of_ne htp] at ht
    rw [hleaf t d i j htp ht] at hV ⊢
    rw [update_role_iff (hne _ (by simp) (by simp) (by simp)) (by simp)]
    exact h.leafData t d i j ht hj hV
  · intro f
    rw [leafRefs_of_view hview, href]
    by_cases hf : f = p
    · subst hf
      simp [RefOk]
    · rw [Function.update_of_ne hf, Pmap.setRef_ppRef, if_neg hf]
      exact h.refOk f

/-- `page_decref` of a frame the kernel held. -/
theorem removeHeld (h : FrameInv own lo s role) {p : Nat} (hp : role p = .held) :
    ∃ s', pageDecref s p = .ok s' ∧ s'.mem = s.mem ∧
      FrameInv own lo s' (Function.update role p .free) ∧
      view own (Function.update role p .free) s' = view own role s := by
  have href : s.ppRef p = 1 := by
    have hr := h.refOk p
    rw [hp] at hr
    exact hr
  refine ⟨_, pageDecref_last href, rfl, ?_⟩
  have htab : ∀ t d i, Function.update role p .free t = .table d i ↔ role t = .table d i :=
    fun t d i => update_role_iff (by simp [hp]) (by simp) t
  have hdir : ∀ d, Function.update role p .free d = .dir ↔ role d = .dir :=
    update_role_iff (by simp [hp]) (by simp)
  refine h.frame (update_role_iff (by simp [hp]) (by simp)) htab hdir
    (update_role_iff (by simp [hp]) (by simp)) (fun _ _ _ _ => rfl) (fun _ _ _ _ _ => rfl) ?_ ?_ ?_
  · simp only [List.nodup_cons]
    refine ⟨?_, h.freeNodup⟩
    rw [h.freeIff, hp]
    simp
  · intro f
    simp only [List.mem_cons]
    by_cases hf : f = p
    · subst hf
      simp
    · rw [Function.update_of_ne hf, h.freeIff]
      simp [hf]
  · intro f
    by_cases hf : f = p
    · subst hf
      simp [RefOk]
    · rw [Function.update_of_ne hf]
      simp only [Pmap.setRef_ppRef, if_neg hf]
      exact h.refOk f

/-- `pgdir[i] = 0; page_decref(t)` on a page table without valid entries. -/
theorem removeTable (h : FrameInv own lo s role) {t d i : Nat} (ht : role t = .table d i)
    (hempty : ∀ j < 1024, testFlag (s.mem t j) PTE_V = false) :
    ∃ s', pageDecref (s.store d i 0) t = .ok s' ∧ s'.mem = (s.store d i 0).mem ∧
      FrameInv own lo s' (Function.update role t .free) ∧
      ∀ x, x.2.2 < 1024 → view own (Function.update role t .free) s' x = view own role s x := by
  obtain ⟨hd, hown, hpde⟩ := h.tablePde t d i ht
  have href : (s.store d i 0).ppRef t = 1 := by
    have hr := h.refOk t
    rw [ht] at hr
    exact hr
  have hdt : d ≠ t := by
    rintro rfl
    simp [ht] at hd
  refine ⟨_, pageDecref_last href, rfl, ?_⟩
  have htab : ∀ t' d' i', Function.update role t .free t' = .table d' i' ↔
      role t' = .table d' i' ∧ (d', i') ≠ (d, i) := by
    intro t' d' i'
    by_cases htt : t' = t
    · subst htt
      rw [Function.update_self]
      constructor
      · intro e
        cases e
      · rintro ⟨e, hne⟩
        rw [ht] at e
        obtain ⟨rfl, rfl⟩ := Role.table.inj e
        exact absurd rfl hne
    · rw [Function.update_of_ne htt]
      constructor
      · intro e
        refine ⟨e, ?_⟩
        intro heq
        obtain ⟨rfl, rfl⟩ := Prod.mk.inj heq
        exact htt (h.table_unique e ht)
      · exact fun e => e.1
  have hdir : ∀ d', Function.update role t .free d' = .dir ↔ role d' = .dir :=
    update_role_iff (by simp [ht]) (by simp)
  have hmdir : ∀ d' i', (d', i') ≠ (d, i) → (s.store d i 0).mem d' i' = s.mem d' i' := by
    intro d' i' hne
    rw [Pmap.store_mem, if_neg]
    rintro ⟨rfl, rfl⟩
    exact hne rfl
  have hmtab : ∀ t' d' i' j, role t' = .table d' i' → (s.store d i 0).mem t' j = s.mem t' j := by
    intro t' d' i' j ht'
    rw [Pmap.store_mem_frame]
    rintro rfl
    simp [hd] at ht'
  have shape : TableShape own
      { (s.store d i 0).setRef t 0 with pageFreeList := t :: (s.store d i 0).pageFreeList }
      (Function.update role t .free) := by
    refine ⟨h.ownLt, ?_, ?_, ?_⟩
    · intro t' d' i' ht'
      exact h.tableLt t' d' i' ((htab t' d' i').mp ht').1
    · intro t' d' i' ht'
      obtain ⟨ht', hne⟩ := (htab t' d' i').mp ht'
      obtain ⟨hd', hown', hm⟩ := h.tablePde t' d' i' ht'
      exact ⟨(hdir d').mpr hd', hown', (hmdir d' i' hne).trans hm⟩
    · intro d' i' hd' hown' hV
      rw [hdir] at hd'
      by_cases hx : (d', i') = (d, i)
      · obtain ⟨rfl, rfl⟩ := Prod.mk.inj hx
        have hzero : (s.store d' i' 0).mem d' i' = 0 := Pmap.store_mem_self s d' i' 0
        rw [show ({ (s.store d' i' 0).setRef t 0 with
          pageFreeList := t :: (s.store d' i' 0).pageFreeList } : Pmap).mem d' i' =
          (s.store d' i' 0).mem d' i' from rfl, hzero] at hV
        simp at hV
      · have hV' : testFlag (s.mem d' i') PTE_V = true := by
          rw [← hmdir d' i' hx]
          exact hV
        obtain ⟨t', ht'⟩ := h.pdeTable d' i' hd' hown' hV'
        exact ⟨t', (htab t' d' i').mpr ⟨ht', hx⟩⟩
  have hview : ∀ x : Nat × Nat × Nat, x.2.2 < 1024 → view own (Function.update role t .free)
      { (s.store d i 0).setRef t 0 with pageFreeList := t :: (s.store d i 0).pageFreeList } x =
      view own role s x := by
    rintro ⟨d', i', j⟩ hj
    apply Option.ext
    intro w
    rw [shape.view_eq_some, h.view_eq_some]
    constructor
    · rintro ⟨t', ht', hm, hV⟩
      obtain ⟨ht', -⟩ := (htab t' d' i').mp ht'
      exact ⟨t', ht', (hmtab t' d' i' j ht').symm.trans hm, hV⟩
    · rintro ⟨t', ht', hm, hV⟩
      refine ⟨t', (htab t' d' i').mpr ⟨ht', ?_⟩, (hmtab t' d' i' j ht').trans hm, hV⟩
      intro heq
      obtain ⟨rfl, rfl⟩ := Prod.mk.inj heq
      rw [h.table_unique ht' ht] at hm
      rw [← hm, hempty j hj] at hV
      simp at hV
  exact ⟨h.release (Or.inr (Or.inr ⟨d, i, ht⟩)) shape hview
    (fun t' d' i' j _ ht' => hmtab t' d' i' j ht') rfl rfl, hview⟩

/-- `page_decref` of a directory without page tables. -/
theorem removeDir (h : FrameInv own lo s role) {d : Nat} (hd : role d = .dir)
    (hempty : ∀ i, own i = true → testFlag (s.mem d i) PTE_V = false) :
    ∃ s', pageDecref s d = .ok s' ∧ s'.mem = s.mem ∧
      FrameInv own lo s' (Function.update role d .free) ∧
      ∀ x, x.2.2 < 1024 → view own (Function.update role d .free) s' x = view own role s x := by
  have href : s.ppRef d = 1 := by
    have hr := h.refOk d
    rw [hd] at hr
    exact hr
  refine ⟨_, pageDecref_last href, rfl, ?_⟩
  have htab : ∀ t d' i', Function.update role d .free t = .table d' i' ↔ role t = .table d' i' :=
    fun t d' i' => update_role_iff (by simp [hd]) (by simp) t
  have hnone : ∀ t d' i', role t = .table d' i' → d' ≠ d := by
    rintro t d' i' ht rfl
    obtain ⟨-, hown, hm⟩ := h.tablePde t d' i' ht
    have := hempty i' hown
    rw [hm, testFlag_V_mkPde] at this
    simp at this
  have shape : TableShape own { s.setRef d 0 with pageFreeList := d :: s.pageFreeList }
      (Function.update role d .free) := by
    refine ⟨h.ownLt, ?_, ?_, ?_⟩
    · intro t d' i' ht
      exact h.tableLt t d' i' ((htab t d' i').mp ht)
    · intro t d' i' ht
      rw [htab] at ht
      obtain ⟨hd', hown', hm⟩ := h.tablePde t d' i' ht
      refine ⟨?_, hown', hm⟩
      rw [Function.update_of_ne (hnone t d' i' ht)]
      exact hd'
    · intro d' i' hd' hown' hV
      have hdd : d' ≠ d := by
        rintro rfl
        simp at hd'
      rw [Function.update_of_ne hdd] at hd'
      obtain ⟨t, ht⟩ := h.pdeTable d' i' hd' hown' hV
      exact ⟨t, (htab t d' i').mpr ht⟩
  have hview : ∀ x : Nat × Nat × Nat, x.2.2 < 1024 → view own (Function.update role d .free)
      { s.setRef d 0 with pageFreeList := d :: s.pageFreeList } x = view own role s x := by
    rintro ⟨d', i', j⟩ -
    apply Option.ext
    intro w
    rw [shape.view_eq_some, h.view_eq_some]
    simp only [htab]
    exact Iff.rfl
  exact ⟨h.release (Or.inr (Or.inl hd)) shape hview (fun _ _ _ _ _ _ => rfl) rfl rfl, hview⟩

end FrameInv

-- ---------------------------------------------------------------------------
-- The first state
-- ---------------------------------------------------------------------------

/-- The roles after `page_init`. -/
@[irreducible] def initRole (lo f : Nat) : Role := if lo ≤ f ∧ f < npage then .free else .reserved

theorem initRole_cases (lo f : Nat) : initRole lo f = .free ∨ initRole lo f = .reserved := by
  unfold initRole
  split_ifs
  · exact Or.inl rfl
  · exact Or.inr rfl

theorem pageInit_inv {own : Nat → Bool} (hown : ∀ i, own i = true → i < 1024) (freemem : Nat)
    (mem : Nat → Nat → Nat) : FrameInv own (usedFrames freemem) (pageInit freemem mem)
      (initRole (usedFrames freemem)) := by
  have hno : ∀ f q, initRole (usedFrames freemem) f = q → q = .free ∨ q = .reserved :=
    fun f q e => e ▸ initRole_cases _ f
  have hfreeIff : ∀ f, f ∈ (pageInit freemem mem).pageFreeList ↔
      initRole (usedFrames freemem) f = .free := by
    intro f
    unfold pageInit initRole
    simp [and_comm]
  have hlist : (pageInit freemem mem).pageFreeList.Nodup := by
    unfold pageInit
    rw [List.nodup_reverse]
    exact List.Nodup.filter _ List.nodup_range
  have hge : ∀ f, initRole (usedFrames freemem) f = .free → (pageInit freemem mem).ppRef f = 0 := by
    intro f e
    unfold pageInit
    simp only
    rw [if_neg]
    intro hlt
    rw [initRole, if_neg (fun hf => Nat.not_lt.mpr hf.1 hlt)] at e
    simp at e
  have hrefOk : ∀ r ref leafs, r = Role.free ∨ r = Role.reserved → (r = .free → ref = 0) →
      RefOk r ref leafs := by
    intro r ref leafs hr href
    rcases hr with e | e
    · subst e
      exact href rfl
    · subst e
      trivial
  refine ⟨⟨hown, ?_, ?_, ?_⟩, ?_, hlist, hfreeIff, ?_, ?_⟩
  · intro t d i ht
    have := hno t _ ht
    simp at this
  · intro t d i ht
    have := hno t _ ht
    simp at this
  · intro d i hd
    have := hno d _ hd
    simp at this
  · intro f
    unfold initRole
    split_ifs with hf
    · simp [hf]
    · simp [hf]
  · intro t d i j ht
    have := hno t _ ht
    simp at this
  · intro f
    exact hrefOk _ _ _ (initRole_cases _ f) (hge f)

end Mos.Kern
