import Mos.Kern.PageSend
import Mos.Kern.KernelHalf
import Mos.Lib.Overlay

/-!
# MOS on RISC-V — loading a segment

`elf_load_seg` maps the pages of a segment one `map_page` call after another;
a page that is mapped twice is replaced. `SegLoaded` is what the loader is for:
every byte of the segment is mapped and holds its byte of the file, or zero
behind the file part.

When the file part ends in an unaligned first page, the zero pages start inside
that page: the page is replaced, and the last page may be missed. So the loader
does what it should exactly on the headers `LoadsWhole` describes
(`segLoaded_iff`); `segLoaded_lost` is one it spoils.

The frames of the directory, its page tables and the pages of the segment are
told apart by their part (`Part`): a frame has one part only, and no frame with
a part is free (`Laid`).
-/

namespace Mos.Kern

open Mos.Lib

variable {own : Nat → Prop} {seg : Nat → Nat → Prop} {d : Nat} {s s' s₁ : Pmap}

-- ---------------------------------------------------------------------------
-- The parts of an address space
-- ---------------------------------------------------------------------------

/-- What a frame is to a directory: itself, the page table of a slot, a page. -/
inductive Part where
  | dir
  | table (i : Nat)
  | page (i j : Nat)
  deriving DecidableEq

/-- The frame of a part. -/
def Pmap.partFrame (s : Pmap) (d : Nat) : Part → Option Nat
  | .dir => some d
  | .table i => if testFlag (s.mem d i) PTE_V then some (pteFrame (s.mem d i)) else none
  | .page i j => (s.pteAt d i j).map pteFrame

/-- The parts followed here: the page tables of the slots `own` and the pages `seg`. -/
def Part.In (own : Nat → Prop) (seg : Nat → Nat → Prop) : Part → Prop
  | .dir => True
  | .table i => own i
  | .page i j => seg i j

/-- Every frame has one part at most, and none that has a part is free. -/
structure Laid (own : Nat → Prop) (seg : Nat → Nat → Prop) (d : Nat) (s : Pmap) : Prop where
  segOwn : ∀ i j, seg i j → own i
  inj : ∀ x y f, x.In own seg → y.In own seg → s.partFrame d x = some f →
    s.partFrame d y = some f → x = y
  used : ∀ x f, x.In own seg → s.partFrame d x = some f → f ∉ s.pageFreeList ∧ f < npage
  nodup : s.pageFreeList.Nodup
  free : ∀ f ∈ s.pageFreeList, f < npage ∧ s.ppRef f = 0
  ref : ∀ i j f, seg i j → s.partFrame d (.page i j) = some f → s.ppRef f = 1

/-- A frame without a part that is not free. -/
structure Spare (own : Nat → Prop) (seg : Nat → Nat → Prop) (d : Nat) (s : Pmap) (p : Nat) : Prop where
  part : ∀ x : Part, x.In own seg → s.partFrame d x ≠ some p
  free : p ∉ s.pageFreeList
  lt : p < npage

/-- The bytes of the page in a slot. -/
def Pmap.bytesAt (s : Pmap) (d : Nat) (x : Nat × Nat) : Option (Nat → Nat) :=
  (s.pteAt d x.1 x.2).map fun w => s.loadByte (pteFrame w)

theorem partFrame_table {i : Nat} (h : testFlag (s.mem d i) PTE_V = true) :
    s.partFrame d (.table i) = some (pteFrame (s.mem d i)) :=
  if_pos h

theorem partFrame_page {i j w : Nat} (h : s.pteAt d i j = some w) :
    s.partFrame d (.page i j) = some (pteFrame w) := by
  show (s.pteAt d i j).map pteFrame = _
  rw [h]
  rfl

theorem pteAt_dir_valid {i j w : Nat} (h : s.pteAt d i j = some w) :
    testFlag (s.mem d i) PTE_V = true := by
  unfold Pmap.pteAt at h
  split_ifs at h with hV
  exact hV

/-- A slot behind an empty word of the directory. -/
theorem pteAt_absent {i : Nat} (h : testFlag (s.mem d i) PTE_V = false) (j : Nat) :
    s.pteAt d i j = none := by
  unfold Pmap.pteAt
  rw [h]
  rfl

/-- A slot whose entry is zero. -/
theorem pteAt_zero {i j : Nat} (h : s.mem (pteFrame (s.mem d i)) j = 0) : s.pteAt d i j = none := by
  unfold Pmap.pteAt
  rw [h, testFlag_zero_left, if_neg (show ¬ false = true by decide), ite_self]

theorem pageFrame_none {i : Nat} (h : testFlag (s.mem d i) PTE_V = false) (j : Nat) :
    s.partFrame d (.page i j) = none :=
  congrArg (Option.map pteFrame) (pteAt_absent h j)

theorem tableFrame_none {i : Nat} (h : testFlag (s.mem d i) PTE_V = false) :
    s.partFrame d (.table i) = none :=
  if_neg (by rw [h]; decide)

theorem pageFrame_congr {i j : Nat} (h : s'.pteAt d i j = s.pteAt d i j) :
    s'.partFrame d (.page i j) = s.partFrame d (.page i j) :=
  congrArg (Option.map pteFrame) h

theorem tableFrame_congr {i : Nat} (h : s'.mem d i = s.mem d i) :
    s'.partFrame d (.table i) = s.partFrame d (.table i) := by
  simp only [Pmap.partFrame, h]

theorem bytesAt_congr {x : Nat × Nat} (h : s'.pteAt d x.1 x.2 = s.pteAt d x.1 x.2)
    (hmem : ∀ w, s.pteAt d x.1 x.2 = some w → ∀ i, s'.mem (pteFrame w) i = s.mem (pteFrame w) i) :
    s'.bytesAt d x = s.bytesAt d x := by
  unfold Pmap.bytesAt
  rw [h]
  cases hw : s.pteAt d x.1 x.2 with
  | none => rfl
  | some w =>
    refine congrArg some (funext fun a => ?_)
    show getByte (s'.mem (pteFrame w) (a / 4)) (a % 4) = getByte (s.mem (pteFrame w) (a / 4)) (a % 4)
    rw [hmem w hw]

-- ---------------------------------------------------------------------------
-- Which words a part depends on
-- ---------------------------------------------------------------------------

/-- A frame without a part is written: every part and every page stays. -/
theorem parts_off {p : Nat} (hp : ∀ x : Part, x.In own seg → s.partFrame d x ≠ some p)
    (hown : ∀ i j, seg i j → own i) (hmem : ∀ f i, f ≠ p → s'.mem f i = s.mem f i) :
    (∀ x : Part, x.In own seg → s'.partFrame d x = s.partFrame d x) ∧
      ∀ x : Nat × Nat, seg x.1 x.2 → s'.bytesAt d x = s.bytesAt d x := by
  have hd : d ≠ p := fun hc => hp .dir trivial (by rw [← hc]; rfl)
  have hslot : ∀ i, own i → ∀ j, s'.pteAt d i j = s.pteAt d i j := by
    intro i ho j
    have hdir := hmem d i hd
    cases hV : testFlag (s.mem d i) PTE_V with
    | true =>
      refine pteAt_congr hdir (hmem _ _ ?_)
      intro hc
      exact hp (.table i) ho (by rw [partFrame_table hV, hc])
    | false => rw [pteAt_absent hV, pteAt_absent (by rw [hdir]; exact hV)]
  constructor
  · intro x hx
    cases x with
    | dir => rfl
    | table i => exact tableFrame_congr (hmem d i hd)
    | page i j => exact pageFrame_congr (hslot i (hown i j hx) j)
  · intro x hx
    refine bytesAt_congr (hslot _ (hown _ _ hx) _) fun w hw i => hmem _ _ ?_
    intro hc
    exact hp (.page x.1 x.2) hx (by rw [partFrame_page hw, hc])

namespace Laid

theorem table_ne (h : Laid own seg d s) {i : Nat} (ho : own i) (hV : testFlag (s.mem d i) PTE_V = true) :
    pteFrame (s.mem d i) ≠ d := by
  intro hc
  have := h.inj (.table i) .dir d ho trivial (by rw [partFrame_table hV, hc]) rfl
  cases this

/-- Two slots with one page table are one slot. -/
theorem table_inj (h : Laid own seg d s) {i i' : Nat} (ho : own i) (ho' : own i')
    (hV : testFlag (s.mem d i) PTE_V = true) (hV' : testFlag (s.mem d i') PTE_V = true)
    (heq : pteFrame (s.mem d i) = pteFrame (s.mem d i')) : i = i' := by
  have := h.inj (.table i) (.table i') _ ho ho' (partFrame_table hV)
    (by rw [partFrame_table hV', heq])
  cases this
  rfl

theorem page_ne_table (h : Laid own seg d s) {i j i' w : Nat} (hs : seg i j) (ho : own i')
    (hw : s.pteAt d i j = some w) (hV : testFlag (s.mem d i') PTE_V = true) :
    pteFrame w ≠ pteFrame (s.mem d i') := by
  intro hc
  have := h.inj (.page i j) (.table i') _ hs ho (partFrame_page hw)
    (by rw [partFrame_table hV, hc])
  cases this

theorem page_ne_dir (h : Laid own seg d s) {i j w : Nat} (hs : seg i j)
    (hw : s.pteAt d i j = some w) : pteFrame w ≠ d := by
  intro hc
  have := h.inj (.page i j) .dir _ hs trivial (partFrame_page hw) (by rw [hc]; rfl)
  cases this

/-- A word of a page table is written: the other slots and their pages stay. -/
theorem storeTable (h : Laid own seg d s) {i₀ j₀ w : Nat} (ho : own i₀)
    (hV : testFlag (s.mem d i₀) PTE_V = true)
    (hmem : s'.mem = (s.store (pteFrame (s.mem d i₀)) j₀ w).mem) :
    (∀ x : Part, x.In own seg → x ≠ .page i₀ j₀ → s'.partFrame d x = s.partFrame d x) ∧
      ∀ x : Nat × Nat, seg x.1 x.2 → x ≠ (i₀, j₀) → s'.bytesAt d x = s.bytesAt d x := by
  have hdir : ∀ i, s'.mem d i = s.mem d i := by
    intro i
    rw [hmem, Pmap.store_mem_frame _ (Ne.symm (h.table_ne ho hV))]
  have hslot : ∀ i, own i → ∀ j, (i, j) ≠ (i₀, j₀) → s'.pteAt d i j = s.pteAt d i j := by
    intro i ho' j hne
    cases hV' : testFlag (s.mem d i) PTE_V with
    | true =>
      refine pteAt_congr (hdir i) ?_
      rw [hmem, Pmap.store_mem, if_neg]
      rintro ⟨heq, rfl⟩
      exact hne (by rw [h.table_inj ho' ho hV' hV heq])
    | false => rw [pteAt_absent hV', pteAt_absent (by rw [hdir]; exact hV')]
  constructor
  · intro x hx hne
    cases x with
    | dir => rfl
    | table i => exact tableFrame_congr (hdir i)
    | page i j =>
      refine pageFrame_congr (hslot i (h.segOwn i j hx) j ?_)
      intro hc
      cases hc
      exact hne rfl
  · intro x hx hne
    refine bytesAt_congr (hslot _ (h.segOwn _ _ hx) _ hne) fun w' hw i => ?_
    rw [hmem, Pmap.store_mem_frame _ (h.page_ne_table hx ho hw hV)]

/-- A word of the directory is written: what lies behind the other words stays. -/
theorem storeDir (h : Laid own seg d s) {i₀ w : Nat} (hmem : s'.mem = (s.store d i₀ w).mem) :
    (∀ x : Part, x.In own seg → x ≠ .table i₀ → (∀ j, x ≠ .page i₀ j) →
      s'.partFrame d x = s.partFrame d x) ∧
      ∀ x : Nat × Nat, seg x.1 x.2 → x.1 ≠ i₀ → s'.bytesAt d x = s.bytesAt d x := by
  have hdir : ∀ i, i ≠ i₀ → s'.mem d i = s.mem d i := by
    intro i hne
    rw [hmem, Pmap.store_mem, if_neg (fun hc => hne hc.2)]
  have hslot : ∀ i, own i → i ≠ i₀ → ∀ j, s'.pteAt d i j = s.pteAt d i j := by
    intro i ho hne j
    cases hV : testFlag (s.mem d i) PTE_V with
    | true =>
      refine pteAt_congr (hdir i hne) ?_
      rw [hmem, Pmap.store_mem_frame _ (h.table_ne ho hV)]
    | false => rw [pteAt_absent hV, pteAt_absent (by rw [hdir i hne]; exact hV)]
  constructor
  · intro x hx htab hpage
    cases x with
    | dir => rfl
    | table i => exact tableFrame_congr (hdir i fun hc => htab (by rw [hc]))
    | page i j =>
      exact pageFrame_congr (hslot i (h.segOwn i j hx) (fun hc => hpage j (by rw [hc])) j)
  · intro x hx hne
    refine bytesAt_congr (hslot _ (h.segOwn _ _ hx) hne _) fun w' hw i => ?_
    rw [hmem, Pmap.store_mem_frame _ (h.page_ne_dir hx hw)]

-- ---------------------------------------------------------------------------
-- Steps
-- ---------------------------------------------------------------------------

/-- Parts vanish, and the part `x₀` may get the frame `p`. -/
theorem update (h : Laid own seg d s) (x₀ : Part) {p : Nat}
    (hp : ∀ x : Part, x.In own seg → s.partFrame d x ≠ some p) (hlt : p < npage)
    (hpart : ∀ (x : Part) f, x.In own seg → s'.partFrame d x = some f →
      s.partFrame d x = some f ∨ (x = x₀ ∧ f = p))
    (hfree : ∀ f ∈ s'.pageFreeList, f ∈ s.pageFreeList ∧ f ≠ p) (hnodup : s'.pageFreeList.Nodup)
    (href : ∀ f, f ≠ p → s'.ppRef f = s.ppRef f) (hone : ∀ i j, x₀ = .page i j → s'.ppRef p = 1) :
    Laid own seg d s' := by
  refine ⟨h.segOwn, ?_, ?_, hnodup, ?_, ?_⟩
  · intro x y f hx hy hxf hyf
    rcases hpart x f hx hxf with hxf' | ⟨rfl, rfl⟩
    · rcases hpart y f hy hyf with hyf' | ⟨rfl, rfl⟩
      · exact h.inj x y f hx hy hxf' hyf'
      · exact absurd hxf' (hp x hx)
    · rcases hpart y f hy hyf with hyf' | ⟨rfl, -⟩
      · exact absurd hyf' (hp y hy)
      · rfl
  · intro x f hx hxf
    rcases hpart x f hx hxf with hxf' | ⟨-, rfl⟩
    · exact ⟨fun hc => (h.used x f hx hxf').1 (hfree f hc).1, (h.used x f hx hxf').2⟩
    · exact ⟨fun hc => (hfree f hc).2 rfl, hlt⟩
  · intro f hf
    obtain ⟨hf, hne⟩ := hfree f hf
    rw [href f hne]
    exact h.free f hf
  · intro i j f hs hf
    rcases hpart (.page i j) f hs hf with hf' | ⟨hx, rfl⟩
    · rw [href f (fun hc => hp (.page i j) hs (by rw [hf', hc]))]
      exact h.ref i j f hs hf'
    · exact hone i j hx.symm

/-- Parts vanish, and frames leave the free list. -/
theorem shrink (h : Laid own seg d s)
    (hpart : ∀ (x : Part) f, x.In own seg → s'.partFrame d x = some f → s.partFrame d x = some f)
    (hfree : s'.pageFreeList.Sublist s.pageFreeList) (href : s'.ppRef = s.ppRef) :
    Laid own seg d s' where
  segOwn := h.segOwn
  inj x y f hx hy hxf hyf := h.inj x y f hx hy (hpart x f hx hxf) (hpart y f hy hyf)
  used x f hx hf :=
    ⟨fun hc => (h.used x f hx (hpart x f hx hf)).1 (hfree.subset hc),
      (h.used x f hx (hpart x f hx hf)).2⟩
  nodup := h.nodup.sublist hfree
  free f hf := by
    rw [href]
    exact h.free f (hfree.subset hf)
  ref i j f hs hf := by
    rw [href]
    exact h.ref i j f hs (hpart (.page i j) f hs hf)

/-- `page_alloc` yields a spare frame, and nothing else changes. -/
theorem alloc (h : Laid own seg d s) {p : Nat} {rest : List Nat} (hfree : s.pageFreeList = p :: rest) :
    Laid own seg d ({ s with pageFreeList := rest }.clear p) ∧
      Spare own seg d ({ s with pageFreeList := rest }.clear p) p ∧
      (∀ x : Part, x.In own seg →
        ({ s with pageFreeList := rest }.clear p).partFrame d x = s.partFrame d x) ∧
      ∀ x : Nat × Nat, seg x.1 x.2 →
        ({ s with pageFreeList := rest }.clear p).bytesAt d x = s.bytesAt d x := by
  have hmem : p ∈ s.pageFreeList := by
    rw [hfree]
    exact List.mem_cons_self
  have hnodup := h.nodup
  rw [hfree, List.nodup_cons] at hnodup
  have hp : ∀ x : Part, x.In own seg → s.partFrame d x ≠ some p :=
    fun x hx hc => (h.used x p hx hc).1 hmem
  have hmem' : ∀ f i, f ≠ p → ({ s with pageFreeList := rest }.clear p).mem f i = s.mem f i :=
    fun f i hne => if_neg hne
  obtain ⟨hparts, hbytes⟩ := parts_off hp h.segOwn hmem'
  refine ⟨?_, ⟨?_, hnodup.1, (h.free p hmem).1⟩, hparts, hbytes⟩
  · refine h.shrink (fun x f hx hf => ?_) ?_ rfl
    · rw [hparts x hx] at hf
      exact hf
    · rw [hfree]
      exact List.sublist_cons_self p rest
  · intro x hx
    rw [hparts x hx]
    exact hp x hx

/-- `pgdir_walk` makes a page table; the slots behind it are empty. -/
theorem addTable (h : Laid own seg d s) {i p : Nat} {rest : List Nat}
    (hV : testFlag (s.mem d i) PTE_V = false) (hfree : s.pageFreeList = p :: rest) :
    Laid own seg d (withTable s rest d i p) ∧
      (∀ (x : Part) f, x.In own seg → (withTable s rest d i p).partFrame d x = some f →
        s.partFrame d x = some f ∨ (x = .table i ∧ f = p)) ∧
      ∀ x : Nat × Nat, seg x.1 x.2 → (withTable s rest d i p).bytesAt d x = s.bytesAt d x := by
  obtain ⟨h₁, hp, hparts, hbytes⟩ := h.alloc hfree
  obtain ⟨s₁, hs₁⟩ : ∃ s₁, s₁ = { s with pageFreeList := rest }.clear p := ⟨_, rfl⟩
  have hs₂ : withTable s rest d i p = (s₁.setRef p 1).store d i (mkPde p) := by
    rw [hs₁]
    rfl
  rw [← hs₁] at h₁ hp hparts hbytes
  have hmem₂ : (withTable s rest d i p).mem = (s₁.store d i (mkPde p)).mem := by
    rw [hs₂]
    rfl
  obtain ⟨hparts₂, hbytes₂⟩ := h₁.storeDir hmem₂
  have hd : d ≠ p := fun hc => hp.part .dir trivial (by rw [← hc]; rfl)
  have hframe : pteFrame ((withTable s rest d i p).mem d i) = p := by
    rw [hs₂, Pmap.store_mem_self]
    exact pteFrame_mkPde hp.lt
  have hempty : ∀ j, (withTable s rest d i p).pteAt d i j = none := by
    intro j
    have hzero : (withTable s rest d i p).mem p j = 0 := by
      rw [hs₂, Pmap.store_mem_frame _ (Ne.symm hd), hs₁]
      exact if_pos rfl
    exact pteAt_zero (by rw [hframe]; exact hzero)
  have hpart : ∀ (x : Part) f, x.In own seg → (withTable s rest d i p).partFrame d x = some f →
      s₁.partFrame d x = some f ∨ (x = .table i ∧ f = p) := by
    intro x f hx hf
    by_cases htab : x = .table i
    · subst htab
      refine Or.inr ⟨rfl, ?_⟩
      rw [partFrame_table (by rw [hs₂, Pmap.store_mem_self]; exact testFlag_V_mkPde p), hframe] at hf
      exact (Option.some.inj hf).symm
    · by_cases hpage : ∃ j, x = .page i j
      · obtain ⟨j, rfl⟩ := hpage
        have hnone : (withTable s rest d i p).partFrame d (.page i j) = none :=
          congrArg (Option.map pteFrame) (hempty j)
        rw [hnone] at hf
        cases hf
      · rw [hparts₂ x hx htab (fun j hc => hpage ⟨j, hc⟩)] at hf
        exact Or.inl hf
  refine ⟨?_, ?_, ?_⟩
  · refine h₁.update (.table i) hp.part hp.lt hpart ?_ ?_ ?_ (fun _ _ hc => by cases hc)
    · intro f hf
      rw [hs₂] at hf
      refine ⟨hf, ?_⟩
      rintro rfl
      exact hp.free hf
    · rw [hs₂]
      exact h₁.nodup
    · intro f hne
      rw [hs₂]
      exact if_neg hne
  · intro x f hx hf
    rw [← hparts x hx]
    exact hpart x f hx hf
  · intro x hx
    by_cases hxi : x.1 = i
    · have hnone : ∀ t : Pmap, t.pteAt d x.1 x.2 = none → t.bytesAt d x = none := by
        intro t ht
        unfold Pmap.bytesAt
        rw [ht]
        rfl
      rw [hnone _ (by rw [hxi]; exact hempty _), hnone _ (by rw [hxi]; exact pteAt_absent hV _)]
    · rw [hbytes₂ x hx hxi, hbytes x hx]

/-- A spare frame stays spare when a page table is made. -/
theorem addTable_spare (h : Laid own seg d s) {i q p : Nat} {rest : List Nat}
    (hV : testFlag (s.mem d i) PTE_V = false) (hfree : s.pageFreeList = q :: rest)
    (hp : Spare own seg d s p) :
    p ≠ q ∧ Spare own seg d (withTable s rest d i q) p ∧
      (withTable s rest d i q).loadByte p = s.loadByte p := by
  have hpq : p ≠ q := by
    rintro rfl
    exact hp.free (by rw [hfree]; exact List.mem_cons_self)
  have hpd : p ≠ d := fun hc => hp.part .dir trivial (by rw [hc]; rfl)
  refine ⟨hpq, ⟨?_, ?_, hp.lt⟩, ?_⟩
  · intro x hx hf
    rcases (h.addTable hV hfree).2.1 x p hx hf with hf' | ⟨-, hc⟩
    · exact hp.part x hx hf'
    · exact hpq hc
  · intro hc
    exact hp.free (by rw [hfree]; exact List.mem_cons_of_mem _ hc)
  · funext a
    unfold Pmap.loadByte withTable
    rw [Pmap.store_mem_frame _ hpd, Pmap.setRef_mem, Pmap.clear_mem, if_neg hpq]

/-- The old page of a slot loses its last reference. -/
theorem dropPage (h : Laid own seg d s) {i j w : Nat} (hs : seg i j) (hw : s.pteAt d i j = some w)
    (hmem : s'.mem = (s.store (pteFrame (s.mem d i)) j 0).mem)
    (hfree : s'.pageFreeList = pteFrame w :: s.pageFreeList)
    (href : ∀ f, s'.ppRef f = if f = pteFrame w then 0 else s.ppRef f) :
    Laid own seg d s' ∧ (∀ p, Spare own seg d s p → p ≠ pteFrame w → Spare own seg d s' p) ∧
      s'.pteAt d i j = none ∧
      ∀ x : Nat × Nat, seg x.1 x.2 → x ≠ (i, j) → s'.bytesAt d x = s.bytesAt d x := by
  have hV := pteAt_dir_valid hw
  have ho := h.segOwn i j hs
  obtain ⟨hparts, hbytes⟩ := h.storeTable ho hV hmem
  have hnone : s'.pteAt d i j = none := by
    refine pteAt_zero ?_
    rw [hmem, Pmap.store_mem_frame _ (Ne.symm (h.table_ne ho hV)), Pmap.store_mem_self]
  have hold := h.used (.page i j) _ hs (partFrame_page hw)
  -- every part that is left had its frame before, and is not the page
  have hpart : ∀ (x : Part) f, x.In own seg → s'.partFrame d x = some f →
      s.partFrame d x = some f ∧ f ≠ pteFrame w := by
    intro x f hx hf
    by_cases hpage : x = .page i j
    · subst hpage
      have hf' : s'.partFrame d (.page i j) = none := congrArg (Option.map pteFrame) hnone
      rw [hf'] at hf
      cases hf
    · rw [hparts x hx hpage] at hf
      refine ⟨hf, ?_⟩
      rintro rfl
      exact hpage (h.inj x (.page i j) _ hx hs hf (partFrame_page hw))
  refine ⟨⟨h.segOwn, ?_, ?_, ?_, ?_, ?_⟩, ?_, hnone, hbytes⟩
  · intro x y f hx hy hxf hyf
    exact h.inj x y f hx hy (hpart x f hx hxf).1 (hpart y f hy hyf).1
  · intro x f hx hxf
    obtain ⟨hf, hne⟩ := hpart x f hx hxf
    refine ⟨?_, (h.used x f hx hf).2⟩
    rw [hfree, List.mem_cons, not_or]
    exact ⟨hne, (h.used x f hx hf).1⟩
  · rw [hfree, List.nodup_cons]
    exact ⟨hold.1, h.nodup⟩
  · intro f hf
    rw [hfree, List.mem_cons] at hf
    rw [href]
    rcases hf with rfl | hf
    · exact ⟨hold.2, if_pos rfl⟩
    · rw [if_neg (by rintro rfl; exact hold.1 hf)]
      exact h.free f hf
  · intro i' j' f hs' hf
    obtain ⟨hf, hne⟩ := hpart (.page i' j') f hs' hf
    rw [href, if_neg hne]
    exact h.ref i' j' f hs' hf
  · intro p hp hne
    refine ⟨fun x hx hf => hp.part x hx (hpart x p hx hf).1, ?_, hp.lt⟩
    rw [hfree, List.mem_cons, not_or]
    exact ⟨hne, hp.free⟩

/-- A spare frame becomes the page of a slot, and the window is closed. -/
theorem putPage (h : Laid own seg d s) {i j p w : Nat} (hs : seg i j)
    (hV : testFlag (s.mem d i) PTE_V = true) (hp : Spare own seg d s p)
    (hw : testFlag w PTE_V = true) (hframe : pteFrame w = p)
    (hmem : s'.mem = ((s.store (pteFrame (s.mem d i)) j w).store d (PDX UVPT) 0).mem)
    (hfree : s'.pageFreeList = s.pageFreeList)
    (href : ∀ f, s'.ppRef f = if f = p then 1 else s.ppRef f) :
    Laid own seg d s' ∧ s'.mem d (PDX UVPT) = 0 ∧
      (i ≠ PDX UVPT → s'.bytesAt d (i, j) = some (s.loadByte p)) ∧
      ∀ x : Nat × Nat, seg x.1 x.2 → x.1 ≠ PDX UVPT → x ≠ (i, j) →
        s'.bytesAt d x = s.bytesAt d x := by
  have ho := h.segOwn i j hs
  have htd := h.table_ne ho hV
  have hdp : d ≠ p := fun hc => hp.part .dir trivial (by rw [← hc]; rfl)
  have htp : pteFrame (s.mem d i) ≠ p := fun hc =>
    hp.part (.table i) ho (by rw [partFrame_table hV, hc])
  obtain ⟨s₁, hs₁⟩ : ∃ s₁, s₁ = (s.store (pteFrame (s.mem d i)) j w).setRef p 1 := ⟨_, rfl⟩
  have hmem₀ : s₁.mem = (s.store (pteFrame (s.mem d i)) j w).mem := by
    rw [hs₁]
    rfl
  obtain ⟨hparts, hbytes⟩ := h.storeTable ho hV hmem₀
  have hslot : s₁.pteAt d i j = some w := by
    rw [hs₁]
    exact pteAt_store hV htd hw
  have hpage : s₁.partFrame d (.page i j) = some p := by
    rw [partFrame_page hslot, hframe]
  have h₁ : Laid own seg d s₁ := by
    refine h.update (.page i j) hp.part hp.lt ?_ ?_ ?_ ?_ ?_
    · intro x f hx hf
      by_cases hx₀ : x = .page i j
      · subst hx₀
        rw [hpage] at hf
        exact Or.inr ⟨rfl, (Option.some.inj hf).symm⟩
      · rw [hparts x hx hx₀] at hf
        exact Or.inl hf
    · intro f hf
      rw [hs₁] at hf
      refine ⟨hf, ?_⟩
      rintro rfl
      exact hp.free hf
    · rw [hs₁]
      exact h.nodup
    · intro f hne
      rw [hs₁]
      exact if_neg hne
    · intro _ _ _
      rw [hs₁, Pmap.setRef_ppRef_self]
  have hmem₁ : s'.mem = (s₁.store d (PDX UVPT) 0).mem := by
    rw [hmem, hs₁]
    rfl
  have hclosed : s'.mem d (PDX UVPT) = 0 := by
    rw [hmem₁, Pmap.store_mem_self]
  obtain ⟨hparts', hbytes'⟩ := h₁.storeDir hmem₁
  refine ⟨?_, hclosed, ?_, ?_⟩
  · -- what lies behind the window is gone, the other parts stay
    refine h₁.shrink (fun x f hx hf => ?_) (by rw [hs₁, hfree]; rfl) ?_
    · by_cases htab : x = .table (PDX UVPT)
      · subst htab
        rw [tableFrame_none (by rw [hclosed]; exact testFlag_zero_left _)] at hf
        cases hf
      · by_cases hpg : ∃ j, x = .page (PDX UVPT) j
        · obtain ⟨j', rfl⟩ := hpg
          rw [pageFrame_none (by rw [hclosed]; exact testFlag_zero_left _)] at hf
          cases hf
        · rw [hparts' x hx htab (fun j' hc => hpg ⟨j', hc⟩)] at hf
          exact hf
    · funext f
      rw [href, hs₁]
      rfl
  · intro hi
    have hx := hbytes' (i, j) hs hi
    rw [hx]
    unfold Pmap.bytesAt
    rw [hslot, Option.map_some, hframe]
    refine congrArg some (funext fun a => ?_)
    show getByte (s₁.mem p (a / 4)) (a % 4) = getByte (s.mem p (a / 4)) (a % 4)
    rw [hs₁, Pmap.setRef_mem, Pmap.store_mem_frame _ (Ne.symm htp)]
  · intro x hx hi hne
    rw [hbytes' x hx hi, hbytes x hx hne]

end Laid

-- ---------------------------------------------------------------------------
-- page_insert
-- ---------------------------------------------------------------------------

/-- The slot `x` got a page with the bytes `m`; the other pages are as they were,
but for those behind the window, which is closed. -/
structure Lays (own : Nat → Prop) (seg : Nat → Nat → Prop) (d : Nat) (s s' : Pmap) (x : Nat × Nat)
    (m : Nat → Nat) : Prop where
  laid : Laid own seg d s'
  window : s'.mem d (PDX UVPT) = 0
  here : x.1 ≠ PDX UVPT → s'.bytesAt d x = some m
  other : ∀ y : Nat × Nat, seg y.1 y.2 → y.1 ≠ PDX UVPT → y ≠ x → s'.bytesAt d y = s.bytesAt d y

theorem pgdirWalk_valid {va : Nat} (hV : testFlag (s.mem d (PDX va)) PTE_V = true)
    (hlt : pteFrame (s.mem d (PDX va)) < npage) (create : Bool) :
    pgdirWalk s d va create = .ok (0, some (pteFrame (s.mem d (PDX va)), PTX va), s) := by
  unfold pgdirWalk
  rw [if_pos hV, kaddr_ok hlt]
  rfl

/-- The entry behind a mapped slot. -/
theorem pteAt_entry {i j w : Nat} (h : s.pteAt d i j = some w) :
    testFlag w PTE_V = true ∧ w = s.mem (pteFrame (s.mem d i)) j := by
  unfold Pmap.pteAt at h
  split_ifs at h with hV hW
  obtain rfl := Option.some.inj h
  exact ⟨hW, rfl⟩

/-- `page_lookup` of a mapped page. -/
theorem pageLookup_valid {va w : Nat} (hV : testFlag (s.mem d (PDX va)) PTE_V = true)
    (hlt : pteFrame (s.mem d (PDX va)) < npage)
    (hw : w = s.mem (pteFrame (s.mem d (PDX va))) (PTX va)) (hW : testFlag w PTE_V = true)
    (hold : pteFrame w < npage) :
    pageLookup s d va = .ok (some (pteFrame w, (pteFrame (s.mem d (PDX va)), PTX va))) := by
  refine bind_eq_ok.mpr ⟨_, pgdirWalk_valid hV hlt false, ?_⟩
  simp only [← hw]
  rw [if_pos hW]
  exact bind_eq_ok.mpr ⟨_, pa2page_ok hold, rfl⟩

/-- `page_insert` into a slot that maps nothing. -/
theorem pageInsert_absent {asid p va perm : Nat} (hnone : s.pteAt d (PDX va) (PTX va) = none)
    (hlt : testFlag (s.mem d (PDX va)) PTE_V = true → pteFrame (s.mem d (PDX va)) < npage) :
    pageInsert s d asid p va perm = pageInsertNew s d asid p va (readable perm) := by
  unfold pageInsert
  cases hV : testFlag (s.mem d (PDX va)) PTE_V with
  | true =>
    rw [pgdirWalk_valid hV (hlt hV)]
    have hW : ¬ testFlag (s.mem (pteFrame (s.mem d (PDX va))) (PTX va)) PTE_V = true := by
      intro hW
      unfold Pmap.pteAt at hnone
      rw [if_pos hV, if_pos hW] at hnone
      cases hnone
    show (if testFlag (s.mem (pteFrame (s.mem d (PDX va))) (PTX va)) PTE_V = true then _ else _) = _
    rw [if_neg hW]
  | false =>
    rw [pgdirWalk_absent hV]
    rfl

/-- `page_insert` into a slot that maps another frame. -/
theorem pageInsert_replace {asid p va perm w : Nat} (hV : testFlag (s.mem d (PDX va)) PTE_V = true)
    (hlt : pteFrame (s.mem d (PDX va)) < npage)
    (hw : w = s.mem (pteFrame (s.mem d (PDX va))) (PTX va)) (hW : testFlag w PTE_V = true)
    (hold : pteFrame w < npage) (hne : pteFrame w ≠ p) (hrem : pageRemove s d asid va = .ok s₁) :
    pageInsert s d asid p va perm = pageInsertNew s₁ d asid p va (readable perm) := by
  obtain ⟨old, hold'⟩ : ∃ old, pteFrame w = old := ⟨_, rfl⟩
  have hpa : pa2page (PTE_ADDR w) = .ok old := by
    rw [← hold']
    exact pa2page_ok hold
  have hunfold : pageInsert s d asid p va perm =
      if old ≠ p then
        (do let s ← pageRemove s d asid va
            pageInsertNew s d asid p va (readable perm))
      else .ok (0, tlbFlush (s.store (pteFrame (s.mem d (PDX va))) (PTX va)
        (mkPte p (readable perm))) asid va) := by
    unfold pageInsert
    rw [pgdirWalk_valid hV hlt false]
    show (if testFlag (s.mem (pteFrame (s.mem d (PDX va))) (PTX va)) PTE_V = true then _ else _) = _
    rw [← hw, if_pos hW, hpa]
    rfl
  rw [hunfold, if_pos (by rw [← hold']; exact hne), hrem]
  rfl

namespace Laid

theorem table_lt (h : Laid own seg d s) {i : Nat} (ho : own i) (hV : testFlag (s.mem d i) PTE_V = true) :
    pteFrame (s.mem d i) < npage :=
  (h.used (.table i) _ ho (partFrame_table hV)).2

/-- The last stores of `page_insert`, behind a page table. -/
theorem insertPage (h : Laid own seg d s) (asid : Nat) {p va perm : Nat} (hs : seg (PDX va) (PTX va))
    (hV : testFlag (s.mem d (PDX va)) PTE_V = true) (hp : Spare own seg d s p)
    (href : s.ppRef p = 0) (hperm : perm < 2 ^ 10) :
    ∃ s', pageInsertNew s d asid p va perm = .ok (0, s') ∧
      Lays own seg d s s' (PDX va, PTX va) (s.loadByte p) ∧
      s'.pageFreeList = s.pageFreeList := by
  refine ⟨_, bind_eq_ok.mpr ⟨_, pgdirWalk_valid hV (h.table_lt (h.segOwn _ _ hs) hV) true, rfl⟩, ?_, rfl⟩
  have hframe : pteFrame (mkPte p perm) = p := by
    unfold pteFrame
    rw [PTE_ADDR_mkPte hp.lt hperm, pa2idx_page2pa hp.lt]
  obtain ⟨s', hs'⟩ : ∃ s', s' =
      tlbFlush (((s.store (pteFrame (s.mem d (PDX va))) (PTX va) (mkPte p perm)).setRef p
        ((s.ppRef p + 1) % 2 ^ 16)).store d (PDX UVPT) 0) asid 0 := ⟨_, rfl⟩
  have hcount : ∀ f, s'.ppRef f = if f = p then 1 else s.ppRef f := by
    intro f
    rw [hs', href]
    rfl
  obtain ⟨h₁, hwin, hhere, hother⟩ := h.putPage hs hV hp (testFlag_V_mkPte p perm) hframe
    (by rw [hs']; rfl) (by rw [hs']; rfl) hcount
  rw [hs'] at h₁ hwin hhere hother
  exact ⟨h₁, hwin, hhere, hother⟩

/-- Steps 2 to 4 of `page_insert`: a page table costs one frame. -/
theorem insertNew (h : Laid own seg d s) (asid : Nat) {p va perm : Nat} (hs : seg (PDX va) (PTX va))
    (hp : Spare own seg d s p) (href : s.ppRef p = 0) (hperm : perm < 2 ^ 10) :
    ∃ r s', pageInsertNew s d asid p va perm = .ok (r, s') ∧
      (r = 0 → Lays own seg d s s' (PDX va, PTX va) (s.loadByte p)) ∧
      (s.pageFreeList ≠ [] → r = 0 ∧ s.pageFreeList.length ≤ s'.pageFreeList.length + 1) := by
  cases hV : testFlag (s.mem d (PDX va)) PTE_V with
  | true =>
    obtain ⟨s', hrun, hlays, hfree⟩ := h.insertPage asid hs hV hp href hperm
    exact ⟨0, s', hrun, fun _ => hlays, fun _ => ⟨rfl, by rw [hfree]; omega⟩⟩
  | false =>
    cases hfree : s.pageFreeList with
    | nil =>
      refine ⟨-E_NO_MEM, s, ?_, fun hc => absurd hc (by decide), fun hc => absurd rfl hc⟩
      exact bind_eq_ok.mpr ⟨_, pgdirWalk_noMem hV hfree, rfl⟩
    | cons q rest =>
      have hq : q ∈ s.pageFreeList := by
        rw [hfree]
        exact List.mem_cons_self
      have hwalk := pgdirWalk_create hV hfree (h.free q hq).1
      obtain ⟨h₁, -, hbytes⟩ := h.addTable hV hfree
      obtain ⟨hqp, hp₁, hload⟩ := h.addTable_spare hV hfree hp
      have hV₁ : testFlag ((withTable s rest d (PDX va) q).mem d (PDX va)) PTE_V = true := by
        unfold withTable
        rw [Pmap.store_mem_self]
        exact testFlag_V_mkPde q
      have hlt₁ := h₁.table_lt (h.segOwn _ _ hs) hV₁
      obtain ⟨s', hrun, hlays, hfree'⟩ := h₁.insertPage asid hs hV₁ hp₁
        (by rw [← href]; exact if_neg hqp) hperm
      refine ⟨0, s', ?_, fun _ => ?_, fun _ => ⟨rfl, ?_⟩⟩
      · -- the walk that makes the table, then the walk of `insertPage` in its place
        rw [← hrun]
        unfold pageInsertNew
        rw [hwalk, pgdirWalk_valid hV₁ hlt₁]
        unfold withTable
        rw [Pmap.store_mem_self, pteFrame_mkPde (h.free q hq).1]
      · refine ⟨hlays.laid, hlays.window, ?_, ?_⟩
        · intro hi
          rw [hlays.here hi, hload]
        · intro y hy hi hne
          rw [hlays.other y hy hi hne, hbytes y hy]
      · rw [hfree']
        exact Nat.le_refl _

/-- `page_insert` of a spare frame: an old page of the slot is freed. -/
theorem insert (h : Laid own seg d s) (asid : Nat) {p va perm : Nat} (hs : seg (PDX va) (PTX va))
    (hp : Spare own seg d s p) (href : s.ppRef p = 0) (hperm : perm < 2 ^ 10) :
    ∃ r s', pageInsert s d asid p va perm = .ok (r, s') ∧
      (r = 0 → Lays own seg d s s' (PDX va, PTX va) (s.loadByte p)) ∧
      (s.pageFreeList ≠ [] → r = 0 ∧ s.pageFreeList.length ≤ s'.pageFreeList.length + 1) := by
  have ho := h.segOwn _ _ hs
  cases hw : s.pteAt d (PDX va) (PTX va) with
  | none =>
    -- nothing to remove
    rw [pageInsert_absent hw (h.table_lt ho)]
    exact h.insertNew asid hs hp href (readable_lt hperm)
  | some w =>
    have hV := pteAt_dir_valid hw
    obtain ⟨hW, rfl⟩ := pteAt_entry hw
    obtain ⟨w, hwdef⟩ : ∃ w, w = s.mem (pteFrame (s.mem d (PDX va))) (PTX va) := ⟨_, rfl⟩
    rw [← hwdef] at hw hW
    have hold := h.used (.page (PDX va) (PTX va)) _ hs (partFrame_page hw)
    have hne : p ≠ pteFrame w := fun hc => hp.part (.page _ _) hs (by rw [partFrame_page hw, hc])
    have hone := h.ref _ _ _ hs (partFrame_page hw)
    obtain ⟨s₁, hs₁⟩ : ∃ s₁, s₁ = tlbFlush (({ s.setRef (pteFrame w) 0 with
      pageFreeList := pteFrame w :: s.pageFreeList }).store (pteFrame (s.mem d (PDX va))) (PTX va) 0)
        asid va := ⟨_, rfl⟩
    have hrem : pageRemove s d asid va = .ok s₁ := by
      rw [hs₁]
      refine bind_eq_ok.mpr ⟨some (pteFrame w, _), pageLookup_valid hV (h.table_lt ho hV) hwdef hW hold.2, ?_⟩
      exact bind_eq_ok.mpr ⟨_, pageDecref_last hone, rfl⟩
    have hmem₁ : s₁.mem = (s.store (pteFrame (s.mem d (PDX va))) (PTX va) 0).mem := by
      rw [hs₁]
      rfl
    have hfree₁ : s₁.pageFreeList = pteFrame w :: s.pageFreeList := by
      rw [hs₁]
      rfl
    have href₁ : ∀ f, s₁.ppRef f = if f = pteFrame w then 0 else s.ppRef f := by
      rw [hs₁]
      exact fun f => rfl
    obtain ⟨h₁, hspare, hnone, hbytes⟩ := h.dropPage hs hw hmem₁ hfree₁ href₁
    have hload : s₁.loadByte p = s.loadByte p := by
      have htp : p ≠ pteFrame (s.mem d (PDX va)) := fun hc =>
        hp.part (.table (PDX va)) ho (by rw [partFrame_table hV, hc])
      funext a
      unfold Pmap.loadByte
      rw [hmem₁, Pmap.store_mem_frame _ htp]
    obtain ⟨r, s', hrun, hlays, hroom⟩ := h₁.insertNew asid hs (hspare p hp hne)
      (by rw [href₁, if_neg hne, href]) (readable_lt hperm)
    refine ⟨r, s', ?_, ?_, ?_⟩
    · rw [pageInsert_replace hV (h.table_lt ho hV) hwdef hW hold.2 (Ne.symm hne) hrem]
      exact hrun
    · intro hr
      have hl := hlays hr
      refine ⟨hl.laid, hl.window, ?_, ?_⟩
      · intro hi
        rw [hl.here hi, hload]
      · intro y hy hi hney
        rw [hl.other y hy hi hney, hbytes y hy hney]
    · intro _
      obtain ⟨hr, hlen⟩ := hroom (by rw [hfree₁]; exact List.cons_ne_nil _ _)
      rw [hfree₁, List.length_cons] at hlen
      exact ⟨hr, by omega⟩

end Laid

-- ---------------------------------------------------------------------------
-- load_icode_mapper and elf_load_seg
-- ---------------------------------------------------------------------------

theorem storeByte_load (s : Pmap) (p off b a : Nat) :
    (s.storeByte p off b).loadByte p a = if a = off then b % 256 else s.loadByte p a := by
  unfold Pmap.storeByte Pmap.loadByte
  by_cases hq : a / 4 = off / 4
  · rw [hq, Pmap.store_mem_self]
    split_ifs with ha
    · rw [ha, getByte_setByte_self]
    · exact getByte_setByte_of_ne (by omega) _ _
  · rw [Pmap.store_mem, if_neg (fun hc => hq hc.2), if_neg (by rintro rfl; exact hq rfl)]

/-- `memcpy` writes its bytes and no other. -/
theorem storeBytes_load (s : Pmap) (p off : Nat) (bytes : List Nat) (a : Nat) :
    (s.storeBytes p off bytes).loadByte p a =
      if off ≤ a ∧ a < off + bytes.length then bytes.getD (a - off) 0 % 256 else s.loadByte p a := by
  induction bytes generalizing s off with
  | nil =>
    rw [if_neg (by rw [List.length_nil]; omega)]
    rfl
  | cons b bytes ih =>
    show ((s.storeByte p off b).storeBytes p (off + 1) bytes).loadByte p a = _
    rw [ih, storeByte_load, List.length_cons]
    rcases Nat.lt_trichotomy a off with hlt | rfl | hgt
    · rw [if_neg (by omega), if_neg (by omega), if_neg (by omega)]
    · rw [if_neg (by omega), if_pos rfl, if_pos (by omega), Nat.sub_self]
      rfl
    · rw [if_neg (show ¬ a = off by omega)]
      obtain ⟨m, hm⟩ : ∃ m, a - off = m + 1 := ⟨a - off - 1, by omega⟩
      by_cases hin : a < off + 1 + bytes.length
      · rw [if_pos (by omega), if_pos (by omega), hm, show a - (off + 1) = m by omega]
        rfl
      · rw [if_neg (by omega), if_neg (by omega)]

theorem storeBytes_same (s : Pmap) (p off : Nat) (bytes : List Nat) :
    (s.storeBytes p off bytes).ppRef = s.ppRef ∧
      (s.storeBytes p off bytes).pageFreeList = s.pageFreeList ∧
      ∀ f i, f ≠ p → (s.storeBytes p off bytes).mem f i = s.mem f i := by
  induction bytes generalizing s off with
  | nil => exact ⟨rfl, rfl, fun _ _ _ => rfl⟩
  | cons b bytes ih =>
    obtain ⟨href, hfree, hmem⟩ := ih (s.storeByte p off b) (off + 1)
    refine ⟨href, hfree, fun f i hne => ?_⟩
    exact (hmem f i hne).trans (Pmap.store_mem_frame _ hne i)

/-- What `load_icode_mapper` puts into a fresh page. -/
def imageByte (offset : Nat) : Option (List Nat) → Nat → Nat
  | none, _ => 0
  | some bytes, a =>
    if offset ≤ a ∧ a < offset + bytes.length then bytes.getD (a - offset) 0 % 256 else 0

namespace Laid

/-- One call of `load_icode_mapper`. Two frames are enough for it. -/
theorem mapper (h : Laid own seg d s) (asid : Nat) {va perm : Nat} (offset : Nat)
    (src : Option (List Nat)) (hs : seg (PDX va) (PTX va)) (hperm : perm < 2 ^ 10) :
    ∃ r s', loadIcodeMapper d asid va offset perm src s = .ok (r, s') ∧
      (r = 0 → Lays own seg d s s' (PDX va, PTX va) (imageByte offset src)) ∧
      (2 ≤ s.pageFreeList.length → r = 0 ∧ s.pageFreeList.length ≤ s'.pageFreeList.length + 2) := by
  cases hfree : s.pageFreeList with
  | nil =>
    refine ⟨-E_NO_MEM, s, ?_, fun hc => absurd hc (by decide), fun hc => absurd hc (by simp)⟩
    unfold loadIcodeMapper pageAlloc
    rw [hfree]
  | cons p rest =>
    obtain ⟨h₁, hp, -, hbytes⟩ := h.alloc hfree
    obtain ⟨s₁, hs₁⟩ : ∃ s₁, s₁ = { s with pageFreeList := rest }.clear p := ⟨_, rfl⟩
    obtain ⟨s₂, hs₂⟩ : ∃ s₂, s₂ = src.elim s₁ fun bytes => s₁.storeBytes p offset bytes := ⟨_, rfl⟩
    have hrun : loadIcodeMapper d asid va offset perm src s = pageInsert s₂ d asid p va perm := by
      unfold loadIcodeMapper
      rewrite [pageAlloc_cons hfree, hs₂, hs₁]
      cases src with
      | none => rfl
      | some bytes => rfl
    rw [← hs₁] at h₁ hp hbytes
    have hzero : ∀ a, s₁.loadByte p a = 0 := by
      intro a
      unfold Pmap.loadByte getByte
      rw [hs₁, Pmap.clear_mem, if_pos rfl, Nat.zero_div, Nat.zero_mod]
    have himage : s₂.loadByte p = imageByte offset src := by
      funext a
      rw [hs₂]
      cases src with
      | none => exact hzero a
      | some bytes =>
        show (s₁.storeBytes p offset bytes).loadByte p a = _
        rw [storeBytes_load, hzero]
        rfl
    have hsame : s₂.ppRef = s₁.ppRef ∧ s₂.pageFreeList = s₁.pageFreeList ∧
        ∀ f i, f ≠ p → s₂.mem f i = s₁.mem f i := by
      rw [hs₂]
      cases src with
      | none => exact ⟨rfl, rfl, fun _ _ _ => rfl⟩
      | some bytes => exact storeBytes_same s₁ p offset bytes
    obtain ⟨href, hlist, hmem⟩ := hsame
    -- the copy goes to a frame that is no part yet
    obtain ⟨hparts, hbytes₂⟩ := parts_off hp.part h.segOwn hmem
    have h₂ : Laid own seg d s₂ := by
      refine h₁.shrink (fun x f hx hf => ?_) (by rw [hlist]) href
      rw [hparts x hx] at hf
      exact hf
    have hp₂ : Spare own seg d s₂ p :=
      ⟨fun x hx => by rw [hparts x hx]; exact hp.part x hx, by rw [hlist]; exact hp.free, hp.lt⟩
    have hcount : s₂.ppRef p = 0 := by
      rw [href, hs₁]
      exact (h.free p (by rw [hfree]; exact List.mem_cons_self)).2
    obtain ⟨r, s', hins, hlays, hroom⟩ := h₂.insert asid hs hp₂ hcount hperm
    refine ⟨r, s', by rw [hrun, hins], fun hr => ?_, fun hlen => ?_⟩
    · have hl := hlays hr
      refine ⟨hl.laid, hl.window, fun hi => by rw [hl.here hi, himage], fun y hy hi hne => ?_⟩
      rw [hl.other y hy hi hne, hbytes₂ y hy, hbytes y hy]
    · have hlist' : s₂.pageFreeList = rest := by
        rw [hlist, hs₁]
        rfl
      rw [List.length_cons] at hlen ⊢
      obtain ⟨hr, hle⟩ := hroom (by
        rw [hlist']
        rintro rfl
        simp at hlen)
      rw [hlist'] at hle
      exact ⟨hr, by omega⟩

end Laid

/-- The slot and the page of a `map_page` call. -/
def callWrite (c : Nat × Nat × Option (List Nat)) : (Nat × Nat) × Option (Nat → Nat) :=
  ((PDX c.1, PTX c.1), some (imageByte c.2.1 c.2.2))

/-- The calls that went through: the last one on a page decides, and the window
is closed. -/
structure Loads (own : Nat → Prop) (seg : Nat → Nat → Prop) (d : Nat) (s s' : Pmap)
    (calls : List (Nat × Nat × Option (List Nat))) : Prop where
  laid : Laid own seg d s'
  window : calls ≠ [] → s'.mem d (PDX UVPT) = 0
  pages : ∀ x : Nat × Nat, seg x.1 x.2 → x.1 ≠ PDX UVPT →
    s'.bytesAt d x = writeAll (s.bytesAt d) (calls.map callWrite) x

/-- **A run of the loader**, by induction on its calls. Two frames a call are
enough. -/
theorem elfLoadSeg_run (asid : Nat) {perm : Nat} (hperm : perm < 2 ^ 10)
    {calls : List (Nat × Nat × Option (List Nat))} (h : Laid own seg d s)
    (hs : ∀ c ∈ calls, seg (PDX c.1) (PTX c.1)) :
    ∃ r s', elfLoadSeg d asid perm calls s = .ok (r, s') ∧ (r = 0 → Loads own seg d s s' calls) ∧
      (2 * calls.length ≤ s.pageFreeList.length → r = 0) := by
  induction calls generalizing s with
  | nil => exact ⟨0, s, rfl, fun _ => ⟨h, fun hc => absurd rfl hc, fun _ _ _ => rfl⟩, fun _ => rfl⟩
  | cons c calls ih =>
    obtain ⟨va, offset, src⟩ := c
    obtain ⟨r, s₁, hmap, hlays, hroom⟩ := h.mapper asid offset src (hs _ List.mem_cons_self) hperm
    by_cases hr : r = 0
    · have hl := hlays hr
      obtain ⟨r', s', hrun, hloads, hroom'⟩ := ih hl.laid fun c hc => hs c (List.mem_cons_of_mem _ hc)
      refine ⟨r', s', ?_, fun hr' => ?_, fun hlen => ?_⟩
      · refine bind_eq_ok.mpr ⟨_, hmap, ?_⟩
        show (if r ≠ 0 then _ else _) = _
        rw [if_neg (fun hc => hc hr)]
        exact hrun
      · have hl' := hloads hr'
        refine ⟨hl'.laid, fun _ => ?_, fun x hx hi => ?_⟩
        · cases calls with
          | nil =>
            cases hrun
            exact hl.window
          | cons c calls => exact hl'.window (List.cons_ne_nil _ _)
        · have hfirst : s₁.bytesAt d x = Function.update (s.bytesAt d) (callWrite (va, offset, src)).1
              (callWrite (va, offset, src)).2 x := by
            by_cases hxc : x = (PDX va, PTX va)
            · rw [hxc, hl.here (by rw [hxc] at hi; exact hi)]
              exact (Function.update_self (PDX va, PTX va) _ (s.bytesAt d)).symm
            · rw [hl.other x hx hi hxc]
              exact (Function.update_of_ne hxc _ (s.bytesAt d)).symm
          rw [hl'.pages x hx hi, List.map_cons, writeAll_cons]
          exact writeAll_congr hfirst _
      · rw [List.length_cons] at hlen
        obtain ⟨-, hle⟩ := hroom (by omega)
        exact hroom' (by omega)
    · refine ⟨r, s₁, ?_, fun hc => absurd hc hr, fun hlen => ?_⟩
      · refine bind_eq_ok.mpr ⟨_, hmap, ?_⟩
        show (if r ≠ 0 then _ else _) = _
        rw [if_pos hr]
        rfl
      · rw [List.length_cons] at hlen
        exact absurd (hroom (by omega)).1 hr

-- ---------------------------------------------------------------------------
-- The calls of a header
-- ---------------------------------------------------------------------------

/-- Byte `k` of the segment in memory. -/
def Phdr.byteAt (ph : Phdr) (k : Nat) : Nat := if k < ph.filesz then ph.data.getD k 0 % 256 else 0

/-- Every byte of the segment is mapped and is what it should be. -/
def SegLoaded (s : Pmap) (d : Nat) (ph : Phdr) : Prop :=
  ∀ k < ph.memsz, ∃ w, s.pteAt d (PDX (ph.vaddr + k)) (PTX (ph.vaddr + k)) = some w ∧
    s.loadByte (pteFrame w) ((ph.vaddr + k) % BY2PG) = ph.byteAt k

/-- The slots of the segment. -/
def Phdr.Slot (ph : Phdr) (i j : Nat) : Prop :=
  ∃ k < ph.memsz, i = PDX (ph.vaddr + k) ∧ j = PTX (ph.vaddr + k)

/-- The bytes in front of the first page boundary. -/
def Phdr.offset (ph : Phdr) : Nat := ph.vaddr % BY2PG

/-- The file part ends in an unaligned first page, and the segment goes on. -/
def Phdr.EndsInFirst (ph : Phdr) : Prop :=
  ph.offset ≠ 0 ∧ ph.filesz < BY2PG - ph.offset ∧ ph.filesz < ph.memsz

theorem slot_eq_iff {a b : Nat} (ha : a < 2 ^ 32) (hb : b < 2 ^ 32) :
    (PDX a, PTX a) = (PDX b, PTX b) ↔ a / 4096 = b / 4096 := by
  rw [Prod.mk.injEq, PDX_eq, PDX_eq, PTX_eq, PTX_eq]
  omega

/-- A good page: byte `k` of the segment is there. -/
def HasByte (ph : Phdr) (k : Nat) (v : Option (Nat → Nat)) : Prop :=
  ∃ m, v = some m ∧ m ((ph.vaddr + k) % BY2PG) = ph.byteAt k

theorem segLoaded_bytes {ph : Phdr} :
    SegLoaded s d ph ↔
      ∀ k < ph.memsz, HasByte ph k (s.bytesAt d (PDX (ph.vaddr + k), PTX (ph.vaddr + k))) := by
  refine forall_congr' fun k => imp_congr_right fun _ => ?_
  unfold HasByte Pmap.bytesAt
  constructor
  · rintro ⟨w, hw, hb⟩
    exact ⟨_, by rw [hw]; rfl, hb⟩
  · rintro ⟨m, hm, hb⟩
    obtain ⟨w, hw, rfl⟩ := Option.map_eq_some_iff.mp hm
    exact ⟨w, hw, hb⟩

theorem imageByte_take (data : List Nat) (off i n r : Nat) (hr : off ≤ r) :
    imageByte off (some ((data.drop i).take n)) r =
      if r - off < n then data.getD (i + (r - off)) 0 % 256 else 0 := by
  obtain ⟨q, rfl⟩ : ∃ q, r = off + q := ⟨r - off, by omega⟩
  rw [Nat.add_sub_cancel_left]
  show (if off ≤ off + q ∧ off + q < off + ((data.drop i).take n).length then
    ((data.drop i).take n).getD (off + q - off) 0 % 256 else 0) = _
  rw [List.length_take, List.length_drop, Nat.add_sub_cancel_left, List.getD_eq_getElem?_getD,
    List.getD_eq_getElem?_getD, List.getElem?_take, List.getElem?_drop]
  by_cases hn : q < n
  · rw [if_pos hn, if_pos hn]
    by_cases hlen : i + q < data.length
    · rw [if_pos (by omega)]
    · rw [if_neg (by omega), List.getElem?_eq_none (by omega)]
      rfl
  · rw [if_neg (by omega), if_neg hn]

/-- `i` in front of the loop over the file pages. -/
def Phdr.fileStart (ph : Phdr) : Nat :=
  if ph.offset ≠ 0 then min ph.filesz (BY2PG - ph.offset) else 0

/-- The number of file pages behind an unaligned first page. -/
def Phdr.filePages (ph : Phdr) : Nat := (ph.filesz - ph.fileStart + BY2PG - 1) / BY2PG

/-- `i` in front of the loop over the zero pages. -/
def Phdr.zeroStart (ph : Phdr) : Nat := ph.fileStart + ph.filePages * BY2PG

def Phdr.zeroPages (ph : Phdr) : Nat := (ph.memsz - ph.zeroStart + BY2PG - 1) / BY2PG

/-- The call for the unaligned first page. -/
def Phdr.firstCalls (ph : Phdr) : List (Nat × Nat × Option (List Nat)) :=
  if ph.offset ≠ 0 then [(ph.vaddr, ph.offset, some (ph.data.take (min ph.filesz (BY2PG - ph.offset))))]
  else []

def Phdr.fileCall (ph : Phdr) (j : Nat) : Nat × Nat × Option (List Nat) :=
  (ph.vaddr + (ph.fileStart + j * BY2PG), 0, some ((ph.data.drop (ph.fileStart + j * BY2PG)).take
    (min (ph.filesz - (ph.fileStart + j * BY2PG)) BY2PG)))

def Phdr.zeroCall (ph : Phdr) (j : Nat) : Nat × Nat × Option (List Nat) :=
  (ph.vaddr + (ph.zeroStart + j * BY2PG), 0, none)

theorem elfSegCalls_eq (ph : Phdr) :
    elfSegCalls ph = ph.firstCalls ++ (List.range ph.filePages).map ph.fileCall ++
      (List.range ph.zeroPages).map ph.zeroCall := rfl

theorem mem_firstCalls {ph : Phdr} {c : Nat × Nat × Option (List Nat)} (h : c ∈ ph.firstCalls) :
    ph.offset ≠ 0 ∧
      c = (ph.vaddr, ph.offset, some (ph.data.take (min ph.filesz (BY2PG - ph.offset)))) := by
  unfold Phdr.firstCalls at h
  split_ifs at h with ho
  · exact ⟨ho, List.mem_singleton.mp h⟩
  · cases h

theorem mem_elfSegCalls {ph : Phdr} {c : Nat × Nat × Option (List Nat)} :
    c ∈ elfSegCalls ph ↔ c ∈ ph.firstCalls ∨ (∃ j < ph.filePages, ph.fileCall j = c) ∨
      ∃ j < ph.zeroPages, ph.zeroCall j = c := by
  rw [elfSegCalls_eq, List.mem_append, List.mem_append, List.mem_map, List.mem_map]
  simp only [List.mem_range, or_assoc]

theorem lt_filePages {ph : Phdr} {j : Nat} :
    j < ph.filePages ↔ ph.fileStart + j * BY2PG < ph.filesz := by
  unfold Phdr.filePages BY2PG
  omega

theorem lt_zeroPages {ph : Phdr} {j : Nat} :
    j < ph.zeroPages ↔ ph.zeroStart + j * BY2PG < ph.memsz := by
  unfold Phdr.zeroPages BY2PG
  omega

theorem filesz_le_zeroStart (ph : Phdr) : ph.filesz ≤ ph.zeroStart := by
  unfold Phdr.zeroStart Phdr.filePages BY2PG
  omega

/-- Every call is for an address of the segment. -/
theorem call_addr {ph : Phdr} (hle : ph.filesz ≤ ph.memsz) (hpos : 0 < ph.memsz)
    {c : Nat × Nat × Option (List Nat)} (hc : c ∈ elfSegCalls ph) :
    ∃ i < ph.memsz, c.1 = ph.vaddr + i := by
  rcases mem_elfSegCalls.mp hc with hc | ⟨j, hj, rfl⟩ | ⟨j, hj, rfl⟩
  · obtain ⟨-, rfl⟩ := mem_firstCalls hc
    exact ⟨0, hpos, rfl⟩
  · exact ⟨_, Nat.lt_of_lt_of_le (lt_filePages.mp hj) hle, rfl⟩
  · exact ⟨_, lt_zeroPages.mp hj, rfl⟩

/-- The first page gets its bytes. -/
theorem firstCall_byte {ph : Phdr} {k : Nat} {c : Nat × Nat × Option (List Nat)}
    (hc : c ∈ ph.firstCalls) (hpage : c.1 / 4096 = (ph.vaddr + k) / 4096) :
    HasByte ph k (callWrite c).2 := by
  obtain ⟨-, rfl⟩ := mem_firstCalls hc
  refine ⟨_, rfl, ?_⟩
  have hin : (ph.vaddr + k) % BY2PG = ph.offset + k := by
    unfold Phdr.offset BY2PG
    simp only at hpage
    omega
  have hlow : ph.offset + k < BY2PG := by
    rw [← hin]
    exact Nat.mod_lt _ (by decide)
  have himage := imageByte_take ph.data ph.offset 0 (min ph.filesz (BY2PG - ph.offset))
    (ph.offset + k) (Nat.le_add_right _ _)
  rw [List.drop_zero, Nat.add_sub_cancel_left, Nat.zero_add] at himage
  rw [hin, himage]
  unfold Phdr.byteAt
  by_cases hk : k < ph.filesz
  · rw [if_pos hk, if_pos (by omega)]
  · rw [if_neg hk, if_neg (by omega)]

/-- Behind an aligned start the pages of the calls are the pages of the segment. -/
theorem fileCall_byte {ph : Phdr} {k j : Nat} (halign : (ph.vaddr + ph.fileStart) % 4096 = 0)
    (hpage : (ph.fileCall j).1 / 4096 = (ph.vaddr + k) / 4096) :
    HasByte ph k (callWrite (ph.fileCall j)).2 := by
  refine ⟨_, rfl, ?_⟩
  obtain ⟨i, hi⟩ : ∃ i, i = ph.fileStart + j * BY2PG := ⟨_, rfl⟩
  have hcall : ph.fileCall j =
      (ph.vaddr + i, 0, some ((ph.data.drop i).take (min (ph.filesz - i) BY2PG))) := by
    rw [hi]
    rfl
  rw [hcall] at hpage ⊢
  simp only [BY2PG] at hi hpage
  -- the call starts at a page boundary
  have hk : k = i + (ph.vaddr + k) % BY2PG := by
    unfold BY2PG
    omega
  obtain ⟨r, hr⟩ : ∃ r, r = (ph.vaddr + k) % BY2PG := ⟨_, rfl⟩
  have hlt : r < BY2PG := by
    rw [hr]
    exact Nat.mod_lt _ (by decide)
  rw [← hr] at hk ⊢
  have himage := imageByte_take ph.data 0 i (min (ph.filesz - i) BY2PG) r (Nat.zero_le _)
  rw [Nat.sub_zero] at himage
  show imageByte 0 (some ((ph.data.drop i).take (min (ph.filesz - i) BY2PG))) r = ph.byteAt k
  rw [himage, hk]
  unfold Phdr.byteAt
  by_cases hf : i + r < ph.filesz
  · rw [if_pos hf, if_pos (by omega)]
  · rw [if_neg hf, if_neg (by omega)]

theorem zeroCall_byte {ph : Phdr} {k : Nat} (j : Nat) (hzero : ph.byteAt k = 0) :
    HasByte ph k (callWrite (ph.zeroCall j)).2 :=
  ⟨_, rfl, hzero.symm⟩

/-- Either the loops start at a page boundary, or the first page is all there is. -/
theorem aligned_or_single {ph : Phdr} (hle : ph.filesz ≤ ph.memsz) (h : ¬ ph.EndsInFirst) :
    (ph.vaddr + ph.fileStart) % 4096 = 0 ∨
      (ph.offset ≠ 0 ∧ ph.offset + ph.memsz < BY2PG ∧ ph.filePages = 0 ∧ ph.zeroPages = 0) := by
  unfold Phdr.EndsInFirst at h
  by_cases ho : ph.offset = 0
  · left
    unfold Phdr.fileStart
    rw [if_neg (fun hc => hc ho)]
    exact ho
  · by_cases hlong : BY2PG - ph.offset ≤ ph.filesz
    · left
      unfold Phdr.fileStart
      rw [if_pos ho, Nat.min_eq_right hlong]
      unfold Phdr.offset BY2PG
      omega
    · right
      have hmem : ph.memsz = ph.filesz := by omega
      have hstart : ph.fileStart = ph.filesz := by
        unfold Phdr.fileStart
        rw [if_pos ho, Nat.min_eq_left (by omega)]
      have hfile : ph.filePages = 0 := by
        unfold Phdr.filePages BY2PG
        omega
      refine ⟨ho, by omega, hfile, ?_⟩
      unfold Phdr.zeroPages Phdr.zeroStart BY2PG
      omega

/-- What a call puts into the page of byte `k` is right there. -/
theorem call_byte {ph : Phdr} {k : Nat} (hle : ph.filesz ≤ ph.memsz) (h : ¬ ph.EndsInFirst)
    {c : Nat × Nat × Option (List Nat)} (hc : c ∈ elfSegCalls ph)
    (hpage : c.1 / 4096 = (ph.vaddr + k) / 4096) : HasByte ph k (callWrite c).2 := by
  rcases mem_elfSegCalls.mp hc with hc | ⟨j, hj, rfl⟩ | ⟨j, hj, rfl⟩
  · exact firstCall_byte hc hpage
  · rcases aligned_or_single hle h with halign | ⟨-, -, hnone, -⟩
    · exact fileCall_byte halign hpage
    · rw [hnone] at hj
      exact absurd hj (Nat.not_lt_zero j)
  · rcases aligned_or_single hle h with halign | ⟨-, -, -, hnone⟩
    · -- the zero pages lie behind the file part
      refine zeroCall_byte j (if_neg ?_)
      have hend := filesz_le_zeroStart ph
      unfold Phdr.zeroCall Phdr.zeroStart BY2PG at hpage
      unfold Phdr.zeroStart BY2PG at hend
      simp only at hpage
      omega
    · rw [hnone] at hj
      exact absurd hj (Nat.not_lt_zero j)

/-- Every page of the segment gets a call. -/
theorem call_cover {ph : Phdr} {k : Nat} (hle : ph.filesz ≤ ph.memsz) (h : ¬ ph.EndsInFirst)
    (hk : k < ph.memsz) : ∃ c ∈ elfSegCalls ph, c.1 / 4096 = (ph.vaddr + k) / 4096 := by
  by_cases hfirst : ph.offset ≠ 0 ∧ ph.offset + k < BY2PG
  · obtain ⟨ho, hlow⟩ := hfirst
    have hmem : (ph.vaddr, ph.offset, some (ph.data.take (min ph.filesz (BY2PG - ph.offset)))) ∈
        ph.firstCalls := by
      unfold Phdr.firstCalls
      rw [if_pos ho]
      exact List.mem_singleton_self _
    refine ⟨_, mem_elfSegCalls.mpr (Or.inl hmem), ?_⟩
    unfold Phdr.offset BY2PG at hlow
    simp only
    omega
  · have hstart : (ph.vaddr + ph.fileStart) % 4096 = 0 ∧ ph.fileStart ≤ k := by
      rcases aligned_or_single hle h with halign | ⟨ho, hsmall, -, -⟩
      · refine ⟨halign, ?_⟩
        unfold Phdr.fileStart
        split_ifs with ho
        · have := not_and.mp hfirst ho
          omega
        · exact Nat.zero_le _
      · exact absurd ⟨ho, by omega⟩ hfirst
    obtain ⟨halign, hle'⟩ := hstart
    obtain ⟨j, hj⟩ : ∃ j, j = (k - ph.fileStart) / 4096 := ⟨_, rfl⟩
    by_cases hfile : j < ph.filePages
    · refine ⟨_, mem_elfSegCalls.mpr (Or.inr (Or.inl ⟨j, hfile, rfl⟩)), ?_⟩
      unfold Phdr.fileCall BY2PG
      simp only
      omega
    · have hzero : j - ph.filePages < ph.zeroPages := by
        rw [lt_zeroPages]
        unfold Phdr.zeroStart BY2PG
        omega
      refine ⟨_, mem_elfSegCalls.mpr (Or.inr (Or.inr ⟨j - ph.filePages, hzero, rfl⟩)), ?_⟩
      unfold Phdr.zeroCall Phdr.zeroStart BY2PG
      simp only
      omega

theorem calls_ne_nil {ph : Phdr} {k : Nat} (hle : ph.filesz ≤ ph.memsz) (hk : k < ph.memsz) :
    elfSegCalls ph ≠ [] := by
  by_cases ho : ph.offset = 0
  · obtain ⟨c, hc, -⟩ := call_cover hle (fun h => h.1 ho) hk
    exact List.ne_nil_of_mem hc
  · rw [elfSegCalls_eq]
    unfold Phdr.firstCalls
    rw [if_pos ho]
    exact List.cons_ne_nil _ _

namespace Phdr.EndsInFirst

variable {ph : Phdr}

theorem filePages (h : ph.EndsInFirst) : ph.filePages = 0 ∧ ph.zeroStart = ph.filesz := by
  have hstart : ph.fileStart = ph.filesz := by
    unfold Phdr.fileStart
    rw [if_pos h.1, Nat.min_eq_left (Nat.le_of_lt h.2.1)]
  have hfile : ph.filePages = 0 := by
    unfold Phdr.filePages BY2PG
    omega
  unfold Phdr.zeroStart
  rw [hstart, hfile]
  exact ⟨rfl, by omega⟩

/-- The zero pages start in the first page. -/
theorem zeroCall_page (h : ph.EndsInFirst) (j : Nat) :
    (ph.zeroCall j).1 / 4096 = ph.vaddr / 4096 + j := by
  have hshort := h.2.1
  unfold Phdr.offset BY2PG at hshort
  unfold Phdr.zeroCall BY2PG
  rw [h.filePages.2]
  simp only
  omega

/-- The zero pages come last, and nothing is behind them. -/
theorem page_value (h : ph.EndsInFirst) (hwrap : ph.vaddr + ph.memsz ≤ 2 ^ 32) {k : Nat}
    (hk : k < ph.memsz) :
    writeAll (fun _ => none) ((elfSegCalls ph).map callWrite)
        (PDX (ph.vaddr + k), PTX (ph.vaddr + k)) =
      if (ph.offset + k) / BY2PG < ph.zeroPages then some (imageByte 0 none) else none := by
  have hlt : ∀ j < ph.zeroPages, (ph.zeroCall j).1 < 2 ^ 32 := by
    intro j hj
    have := lt_zeroPages.mp hj
    unfold Phdr.zeroCall
    simp only
    omega
  have hkey : ∀ j < ph.zeroPages, (callWrite (ph.zeroCall j)).1 =
      (PDX (ph.vaddr + k), PTX (ph.vaddr + k)) ↔ j = (ph.offset + k) / BY2PG := by
    intro j hj
    refine (slot_eq_iff (hlt j hj) (by omega)).trans ?_
    rw [h.zeroCall_page]
    unfold Phdr.offset BY2PG
    omega
  rw [elfSegCalls_eq, h.filePages.1, List.range_zero, List.map_nil, List.append_nil, List.map_append,
    writeAll_append]
  split_ifs with hq
  · refine writeAll_of_forall (Q := fun v => v = some (imageByte 0 none)) ?_ ?_ _
    · exact ⟨_, List.mem_map_of_mem (List.mem_map_of_mem (List.mem_range.mpr hq)), (hkey _ hq).mpr rfl⟩
    · intro w hw _
      obtain ⟨c, hc, rfl⟩ := List.mem_map.mp hw
      obtain ⟨j, -, rfl⟩ := List.mem_map.mp hc
      rfl
  · rw [writeAll_of_notMem, writeAll_of_notMem]
    · -- the first call is for the first page, which a zero page replaced
      intro w hw hkey'
      obtain ⟨c, hc, rfl⟩ := List.mem_map.mp hw
      obtain ⟨-, rfl⟩ := mem_firstCalls hc
      have hpage := (slot_eq_iff (show ph.vaddr < 2 ^ 32 by omega) (by omega)).mp hkey'
      have hzero : 0 < ph.zeroPages := by
        rw [lt_zeroPages, h.filePages.2, Nat.zero_mul, Nat.add_zero]
        exact h.2.2
      unfold Phdr.offset BY2PG at hq
      omega
    · intro w hw hkey'
      obtain ⟨c, hc, rfl⟩ := List.mem_map.mp hw
      obtain ⟨j, hj, rfl⟩ := List.mem_map.mp hc
      have hj := List.mem_range.mp hj
      rw [(hkey j hj).mp hkey'] at hj
      exact hq hj

end Phdr.EndsInFirst

-- ---------------------------------------------------------------------------
-- When a segment is loaded
-- ---------------------------------------------------------------------------

/-- The headers the loader is right for: no page of the segment in the window,
which `page_insert` closes, and zero pages that start behind the first page, or
that replace zeros and still reach the end. -/
def LoadsWhole (ph : Phdr) : Prop :=
  (∀ k < ph.memsz, PDX (ph.vaddr + k) ≠ PDX UVPT) ∧
  (ph.offset = 0 ∨ BY2PG - ph.offset ≤ ph.filesz ∨ ph.filesz = ph.memsz ∨
    ((∀ k < ph.filesz, ph.data.getD k 0 % 256 = 0) ∧
      (ph.offset + ph.memsz - 1) / BY2PG < (ph.memsz - ph.filesz + BY2PG - 1) / BY2PG))

/-- Pages that nothing is mapped to can be followed. -/
theorem Laid.follow (h : Laid own (fun _ _ => False) d s) (hown : ∀ i j, seg i j → own i)
    (hno : ∀ i j, seg i j → s.pteAt d i j = none) : Laid own seg d s := by
  -- a part that has a frame is no page
  have hold : ∀ (x : Part) f, x.In own seg → s.partFrame d x = some f →
      x.In own fun _ _ => False := by
    intro x f hx hf
    cases x with
    | dir => trivial
    | table i => exact hx
    | page i j =>
      have hnone : s.partFrame d (.page i j) = none := congrArg (Option.map pteFrame) (hno i j hx)
      rw [hnone] at hf
      cases hf
  refine ⟨hown, ?_, ?_, h.nodup, h.free, ?_⟩
  · intro x y f hx hy hxf hyf
    exact h.inj x y f (hold x f hx hxf) (hold y f hy hyf) hxf hyf
  · intro x f hx hf
    exact h.used x f (hold x f hx hf) hf
  · intro i j f hs hf
    exact absurd (hold (.page i j) f hs hf) id

/-- Nothing is behind a word that is zero. -/
theorem pteAt_of_empty {i : Nat} (h : s.mem d i = 0) (j : Nat) : s.pteAt d i j = none :=
  pteAt_absent (by rw [h]; exact testFlag_zero_left _) j

/-- The bytes of the segment after a run, by the calls alone. -/
theorem segLoaded_calls {ph : Phdr} (hloads : Loads own ph.Slot d s s' (elfSegCalls ph))
    (hno : ∀ i j, ph.Slot i j → s.pteAt d i j = none)
    (hwin : ∀ k < ph.memsz, PDX (ph.vaddr + k) ≠ PDX UVPT) :
    SegLoaded s' d ph ↔ ∀ k < ph.memsz, HasByte ph k
      (writeAll (fun _ => none) ((elfSegCalls ph).map callWrite)
        (PDX (ph.vaddr + k), PTX (ph.vaddr + k))) := by
  rw [segLoaded_bytes]
  refine forall_congr' fun k => forall_congr' fun hk => ?_
  have hslot : ph.Slot (PDX (ph.vaddr + k)) (PTX (ph.vaddr + k)) := ⟨k, hk, rfl, rfl⟩
  rw [hloads.pages (PDX (ph.vaddr + k), PTX (ph.vaddr + k)) hslot (hwin k hk)]
  refine iff_of_eq (congrArg (HasByte ph k) (writeAll_congr ?_ _))
  unfold Pmap.bytesAt
  rw [hno _ _ hslot]
  rfl

theorem segLoaded_of_separate {ph : Phdr} (hle : ph.filesz ≤ ph.memsz)
    (hwrap : ph.vaddr + ph.memsz ≤ 2 ^ 32) (h : ¬ ph.EndsInFirst) {k : Nat} (hk : k < ph.memsz)
    (m : Nat × Nat → Option (Nat → Nat)) :
    HasByte ph k (writeAll m ((elfSegCalls ph).map callWrite)
      (PDX (ph.vaddr + k), PTX (ph.vaddr + k))) := by
  have haddr : ∀ c ∈ elfSegCalls ph, c.1 < 2 ^ 32 := by
    intro c hc
    obtain ⟨i, hi, heq⟩ := call_addr hle (by omega) hc
    omega
  refine writeAll_of_forall ?_ ?_ m
  · obtain ⟨c, hc, hpage⟩ := call_cover hle h hk
    exact ⟨_, List.mem_map_of_mem hc, (slot_eq_iff (haddr c hc) (by omega)).mpr hpage⟩
  · intro w hw hkey
    obtain ⟨c, hc, rfl⟩ := List.mem_map.mp hw
    exact call_byte hle h hc ((slot_eq_iff (haddr c hc) (by omega)).mp hkey)

theorem segLoaded_of_endsInFirst {ph : Phdr} (hwrap : ph.vaddr + ph.memsz ≤ 2 ^ 32)
    (h : ph.EndsInFirst) :
    (∀ k < ph.memsz, HasByte ph k (writeAll (fun _ => none) ((elfSegCalls ph).map callWrite)
      (PDX (ph.vaddr + k), PTX (ph.vaddr + k)))) ↔
    (∀ k < ph.filesz, ph.data.getD k 0 % 256 = 0) ∧
      (ph.offset + ph.memsz - 1) / BY2PG < (ph.memsz - ph.filesz + BY2PG - 1) / BY2PG := by
  have hlt := h.2.2
  have hpages : ph.zeroPages = (ph.memsz - ph.filesz + BY2PG - 1) / BY2PG := by
    unfold Phdr.zeroPages
    rw [h.filePages.2]
  rw [← hpages]
  constructor
  · intro hall
    -- a byte that is there is zero, and its page is one of the zero pages
    have hbyte : ∀ k < ph.memsz, (ph.offset + k) / BY2PG < ph.zeroPages ∧ ph.byteAt k = 0 := by
      intro k hk
      obtain ⟨m, hm, hb⟩ := hall k hk
      rw [h.page_value hwrap hk] at hm
      split_ifs at hm with hq
      · obtain rfl := Option.some.inj hm
        exact ⟨hq, hb.symm⟩
    constructor
    · intro k hk
      have := (hbyte k (by omega)).2
      unfold Phdr.byteAt at this
      rw [if_pos hk] at this
      exact this
    · have := (hbyte (ph.memsz - 1) (by omega)).1
      rw [show ph.offset + ph.memsz - 1 = ph.offset + (ph.memsz - 1) by omega]
      exact this
  · rintro ⟨hzero, hlast⟩ k hk
    have hq : (ph.offset + k) / BY2PG < ph.zeroPages :=
      Nat.lt_of_le_of_lt (Nat.div_le_div_right (by omega)) hlast
    rw [h.page_value hwrap hk, if_pos hq]
    refine ⟨_, rfl, ?_⟩
    unfold Phdr.byteAt
    split_ifs with hk'
    · exact (hzero k hk').symm
    · rfl

/-- After the calls of a header, the segment is there exactly when the header is one
the loader is right for. -/
theorem Loads.whole_iff {ph : Phdr} (h : Loads own ph.Slot d s s' (elfSegCalls ph))
    (hle : ph.filesz ≤ ph.memsz) (hwrap : ph.vaddr + ph.memsz ≤ 2 ^ 32)
    (hno : ∀ i j, ph.Slot i j → s.pteAt d i j = none) : SegLoaded s' d ph ↔ LoadsWhole ph := by
  by_cases hwin : ∀ k < ph.memsz, PDX (ph.vaddr + k) ≠ PDX UVPT
  · rw [segLoaded_calls h hno hwin]
    by_cases hfirst : ph.EndsInFirst
    · rw [segLoaded_of_endsInFirst hwrap hfirst]
      obtain ⟨ho, hshort, hlt⟩ := hfirst
      refine ⟨fun hz => ⟨hwin, Or.inr (Or.inr (Or.inr hz))⟩, ?_⟩
      rintro ⟨-, ho' | hlong | hsame | hz⟩
      · exact absurd ho' ho
      · omega
      · omega
      · exact hz
    · refine ⟨fun _ => ⟨hwin, ?_⟩, fun _ k hk => segLoaded_of_separate hle hwrap hfirst hk _⟩
      unfold Phdr.EndsInFirst at hfirst
      by_cases ho : ph.offset = 0
      · exact Or.inl ho
      · by_cases hlong : BY2PG - ph.offset ≤ ph.filesz
        · exact Or.inr (Or.inl hlong)
        · exact Or.inr (Or.inr (Or.inl (by omega)))
  · -- a page in the window is gone when the loader returns
    refine iff_of_false ?_ (fun hw => hwin hw.1)
    push Not at hwin
    obtain ⟨k, hk, hi⟩ := hwin
    intro hload
    obtain ⟨w, hw, -⟩ := hload k hk
    rw [pteAt_of_empty (by rw [hi]; exact h.window (calls_ne_nil hle hk))] at hw
    cases hw

/-- The run of the loader for a header. -/
theorem elfLoadSeg_header {ph : Phdr} (asid : Nat) (h : Laid own (fun _ _ => False) d s)
    (hown : ∀ k < ph.memsz, own (PDX (ph.vaddr + k))) (hle : ph.filesz ≤ ph.memsz)
    (hpos : 0 < ph.memsz) (hno : ∀ i j, ph.Slot i j → s.pteAt d i j = none) :
    ∃ r s', elfLoadSeg d asid (elfSegPerm ph) (elfSegCalls ph) s = .ok (r, s') ∧
      (r = 0 → Loads own ph.Slot d s s' (elfSegCalls ph)) ∧
      (2 * (elfSegCalls ph).length ≤ s.pageFreeList.length → r = 0) := by
  have hlaid : Laid own ph.Slot d s := by
    refine h.follow ?_ hno
    rintro i j ⟨k, hk, rfl, -⟩
    exact hown k hk
  refine elfLoadSeg_run asid (elfSegPerm_lt ph) hlaid fun c hc => ?_
  obtain ⟨i, hi, heq⟩ := call_addr hle hpos hc
  exact ⟨i, hi, by rw [heq], by rw [heq]⟩

/-- **When `elf_load_seg` loads a segment.** From any state whose page tables are
told apart, with the pages of the segment unmapped. -/
theorem segLoaded_iff {ph : Phdr} {asid : Nat} (h : Laid own (fun _ _ => False) d s)
    (hown : ∀ k < ph.memsz, own (PDX (ph.vaddr + k))) (hle : ph.filesz ≤ ph.memsz)
    (hwrap : ph.vaddr + ph.memsz ≤ 2 ^ 32)
    (hno : ∀ k < ph.memsz, s.pteAt d (PDX (ph.vaddr + k)) (PTX (ph.vaddr + k)) = none)
    (hrun : elfLoadSeg d asid (elfSegPerm ph) (elfSegCalls ph) s = .ok (0, s')) :
    SegLoaded s' d ph ↔ LoadsWhole ph := by
  by_cases hpos : 0 < ph.memsz
  · have hno' : ∀ i j, ph.Slot i j → s.pteAt d i j = none := by
      rintro i j ⟨k, hk, rfl, rfl⟩
      exact hno k hk
    obtain ⟨r, s₁, hrun₁, hloads, -⟩ := elfLoadSeg_header asid h hown hle hpos hno'
    rw [hrun] at hrun₁
    cases hrun₁
    exact (hloads rfl).whole_iff hle hwrap hno'
  · refine iff_of_true (fun k hk => absurd hk (by omega)) ⟨fun k hk => absurd hk (by omega), ?_⟩
    exact Or.inr (Or.inr (Or.inl (by omega)))

-- ---------------------------------------------------------------------------
-- Loading into an env
-- ---------------------------------------------------------------------------

/-- The slots whose page tables belong to an env: below `UTOP`, and the window. -/
def EnvSlot (i : Nat) : Prop := i < PDX UTOP ∨ i = PDX UVPT

/-- The page tables of a live env, and the copy behind its window, are frames of
their own. -/
theorem KernelInv.laid {b : BootState} {k₀ k : Kernel} {role₀ role : Nat → Role}
    (h : KernelInv b k₀ role₀ k role) {e : Nat} (he : k.Live e) :
    Laid EnvSlot (fun _ _ => False) (k.envs e).pgdir k.pm := by
  have hdir := h.dir e he
  -- the role of a frame tells its part
  have htable : ∀ i f, i < PDX UTOP → k.pm.partFrame (k.envs e).pgdir (.table i) = some f →
      role f = .table (k.envs e).pgdir i := by
    intro i f hi hf
    simp only [Pmap.partFrame] at hf
    split_ifs at hf with hV
    obtain rfl := Option.some.inj hf
    obtain ⟨t, ht⟩ := h.frames.pdeTable _ i hdir (kernOwn_iff.mpr hi) hV
    rw [h.frames.pteFrame_pde ht]
    exact ht
  have hwin : ∀ f, k.pm.partFrame (k.envs e).pgdir (.table (PDX UVPT)) = some f → role f = .held := by
    intro f hf
    simp only [Pmap.partFrame] at hf
    split_ifs at hf with hV
    obtain rfl := Option.some.inj hf
    rcases h.window e he with hz | ⟨c, hc, -, hw, -⟩
    · rw [hz, testFlag_zero_left] at hV
      cases hV
    · rw [hw, pteFrame_mkPde (h.frames.lt_npage (by simp [hc]))]
      exact hc
  have hrole : ∀ (x : Part) f, x.In EnvSlot (fun _ _ => False) →
      k.pm.partFrame (k.envs e).pgdir x = some f →
      (x = .dir ∧ role f = .dir) ∨ (∃ i, x = .table i ∧ role f = .table (k.envs e).pgdir i) ∨
        (x = .table (PDX UVPT) ∧ role f = .held) := by
    intro x f hx hf
    cases x with
    | dir =>
      cases hf
      exact Or.inl ⟨rfl, hdir⟩
    | table i =>
      rcases hx with hi | rfl
      · exact Or.inr (Or.inl ⟨i, rfl, htable i f hi hf⟩)
      · exact Or.inr (Or.inr ⟨rfl, hwin f hf⟩)
    | page i j => exact absurd hx id
  refine ⟨fun _ _ hc => absurd hc id, ?_, ?_, h.frames.freeNodup, ?_, fun _ _ _ hc => absurd hc id⟩
  · intro x y f hx hy hxf hyf
    rcases hrole x f hx hxf with ⟨rfl, hr⟩ | ⟨i, rfl, hr⟩ | ⟨rfl, hr⟩ <;>
      rcases hrole y f hy hyf with ⟨rfl, hr'⟩ | ⟨i', rfl, hr'⟩ | ⟨rfl, hr'⟩ <;>
      simp_all
  · intro x f hx hf
    rw [h.frames.freeIff]
    rcases hrole x f hx hf with ⟨-, hr⟩ | ⟨i, -, hr⟩ | ⟨-, hr⟩ <;>
      exact ⟨by simp [hr], h.frames.lt_npage (by simp [hr])⟩
  · intro f hf
    have hr := (h.frames.freeIff f).mp hf
    have href := h.frames.refOk f
    rw [hr] at href
    exact ⟨h.frames.lt_npage (by simp [hr]), href⟩

/-- The loader at work on the first env after boot: it has pages for 50 calls. -/
theorem smallBoot_loads {ph : Phdr} (hlow : ∀ n < ph.memsz, ph.vaddr + n < UTOP)
    (hle : ph.filesz ≤ ph.memsz) (hpos : 0 < ph.memsz) (hfew : (elfSegCalls ph).length ≤ 50) :
    ∃ k₀ role₀ k role a s', smallBoot.boot = .ok k₀ ∧ KernelInv smallBoot k₀ role₀ k role ∧ k.Live a ∧
      (∀ n < ph.memsz, k.pm.pteAt (k.envs a).pgdir (PDX (ph.vaddr + n)) (PTX (ph.vaddr + n)) = none) ∧
      elfLoadSeg (k.envs a).pgdir (k.envs a).asid (elfSegPerm ph) (elfSegCalls ph) k.pm =
        .ok (0, s') ∧
      (ph.vaddr + ph.memsz ≤ 2 ^ 32 → (SegLoaded s' (k.envs a).pgdir ph ↔ LoadsWhole ph)) := by
  obtain ⟨k₀, role₀, k₁, k, a, hboot, -, -, -, -, -, h, -, -, hspace⟩ := smallBoot_first
  obtain ⟨role, hinv, -⟩ := h.ok
  have hlive : k.Live a := (h.live a).mpr List.mem_cons_self
  have hno : ∀ i j, ph.Slot i j → k.pm.pteAt (k.envs a).pgdir i j = none := by
    rintro i j ⟨n, hn, rfl, -⟩
    exact pteAt_of_empty (hspace.slots _ (PDX_lt_UTOP (hlow n hn))) j
  obtain ⟨r, s', hrun, hloads, hroom⟩ := elfLoadSeg_header (k.envs a).asid (hinv.laid hlive)
    (fun n hn => Or.inl (PDX_lt_UTOP (hlow n hn))) hle hpos hno
  have hr := hroom (by have := h.room; omega)
  rw [hr] at hrun
  refine ⟨k₀, role₀, k, role, a, s', hboot, hinv, hlive, fun n hn => hno _ _ ⟨n, hn, rfl, rfl⟩, hrun, ?_⟩
  exact fun hwrap => (hloads hr).whole_iff hle hwrap hno

/-- One byte, not at a page boundary. -/
def bytePhdr : Phdr := ⟨PT_LOAD, UTEXT + 1, 1, 1, PF_R, [7]⟩

theorem segLoaded_iff_byte :
    ∃ (k : Kernel) (a : Nat) (s' : Pmap), k.Live a ∧
      elfLoadSeg (k.envs a).pgdir (k.envs a).asid (elfSegPerm bytePhdr) (elfSegCalls bytePhdr) k.pm =
        .ok (0, s') ∧
      (SegLoaded s' (k.envs a).pgdir bytePhdr ↔ LoadsWhole bytePhdr) := by
  have hlow : ∀ n < bytePhdr.memsz, bytePhdr.vaddr + n < UTOP := by decide
  obtain ⟨k₀, role₀, k, role, a, s', -, hinv, hlive, hno, hrun, -⟩ :=
    smallBoot_loads hlow (by decide) (by decide) (by decide)
  exact ⟨k, a, s', hlive, hrun, segLoaded_iff (hinv.laid hlive)
    (fun n hn => Or.inl (PDX_lt_UTOP (hlow n hn))) (by decide) (by decide) hno hrun⟩

/-- One byte of file and one byte behind it, not at a page boundary. -/
def shortPhdr : Phdr := ⟨PT_LOAD, UTEXT + 1, 1, 2, PF_R, [7]⟩

/-- **The first page is lost.** The page of the file part is replaced by a page of
zeros: the byte 7 is gone. -/
theorem segLoaded_lost :
    ∃ k₀ role₀ k role a s', smallBoot.boot = .ok k₀ ∧ KernelInv smallBoot k₀ role₀ k role ∧ k.Live a ∧
      shortPhdr.filesz ≤ shortPhdr.memsz ∧ shortPhdr.vaddr + shortPhdr.memsz ≤ 2 ^ 32 ∧
      (∀ n < shortPhdr.memsz, k.pm.pteAt (k.envs a).pgdir (PDX (shortPhdr.vaddr + n))
        (PTX (shortPhdr.vaddr + n)) = none) ∧
      elfLoadSeg (k.envs a).pgdir (k.envs a).asid (elfSegPerm shortPhdr) (elfSegCalls shortPhdr) k.pm =
        .ok (0, s') ∧
      ¬ SegLoaded s' (k.envs a).pgdir shortPhdr := by
  obtain ⟨k₀, role₀, k, role, a, s', hboot, hinv, hlive, hno, hrun, hiff⟩ :=
    smallBoot_loads (show ∀ n < shortPhdr.memsz, shortPhdr.vaddr + n < UTOP by decide) (by decide)
      (by decide) (by decide)
  refine ⟨k₀, role₀, k, role, a, s', hboot, hinv, hlive, by decide, by decide, hno, hrun, ?_⟩
  rw [hiff (by decide)]
  rintro ⟨-, ho | hlong | hsame | ⟨hzero, -⟩⟩
  · exact absurd ho (by decide)
  · exact absurd hlong (by decide)
  · exact absurd hsame (by decide)
  · exact absurd (hzero 0 (by decide)) (by decide)

end Mos.Kern
