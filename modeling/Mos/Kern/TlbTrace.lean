import Mos.Lib.CacheRun
import Mos.Kern.FreeInv

/-!
# MOS on RISC-V — what page-table edits leave in the TLB

The hardware may keep any translation it has found in the directory of `satp`, and it keeps it until
a fence. So an edit of the entry of a page has to be followed by a fence that reaches the page, under
the ASID of the directory; between the two the old entry may still be around. `Edits` says that of
all the stores and fences between two states, for one directory and one ASID; `Calm` that no
translation changes at any moment.

The fences of `tlb_flush` with an ASID leave global entries (`PTE_G`) alone, so `Edits` starts from
a directory that has none.
-/

namespace Mos.Kern

open Mos.Lib

-- ---------------------------------------------------------------------------
-- The TLB
-- ---------------------------------------------------------------------------

/-- A cached translation: the page `i`, `j` under an ASID, and the entry that was found. -/
structure TlbEntry where
  asid : Nat
  i : Nat
  j : Nat
  pte : Nat

/-- The memory the page-table walks see after an event. -/
def HwEvent.after (mem : Nat → Nat → Nat) : HwEvent → Nat → Nat → Nat
  | .wrote mem' => mem'
  | .fence _ _ => mem

/-- The entries that `sfence.vma` drops, with the operands `tlb_flush` gives it: `zero` for 0. -/
def HwEvent.drops : HwEvent → TlbEntry → Prop
  | .wrote _, _ => False
  | .fence asid va, x =>
    (asid = 0 ∨ x.asid = asid ∧ testFlag x.pte PTE_G = false) ∧
      (va = 0 ∨ PDX va = x.i ∧ PTX va = x.j)

/-- The entry that the hardware walk finds for the page `i`, `j` in directory `d`. -/
def walkIn (mem : Nat → Nat → Nat) (d i j : Nat) : Option Nat :=
  if testFlag (mem d i) PTE_V then
    if testFlag (mem (pteFrame (mem d i)) j) PTE_V then some (mem (pteFrame (mem d i)) j) else none
  else none

theorem pteAt_eq_walkIn (s : Pmap) (d i j : Nat) : s.pteAt d i j = walkIn s.mem d i j := rfl

-- ---------------------------------------------------------------------------
-- The events between two states
-- ---------------------------------------------------------------------------

/-- What happened from `s` to `s'`. -/
structure Traced (s s' : Pmap) (evs : List HwEvent) : Prop where
  trace : s'.trace = s.trace ++ evs
  mem : s'.mem = memAfter HwEvent.after s.mem evs

theorem Traced.nil {s s' : Pmap} (htrace : s'.trace = s.trace) (hmem : s'.mem = s.mem) :
    Traced s s' [] := ⟨by rw [htrace, List.append_nil], hmem⟩

theorem Traced.write (s : Pmap) (mem : Nat → Nat → Nat) : Traced s (s.write mem) [.wrote mem] :=
  ⟨rfl, rfl⟩

theorem Traced.flush (s : Pmap) (asid va : Nat) : Traced s (tlbFlush s asid va) [.fence asid va] :=
  ⟨rfl, rfl⟩

theorem Traced.trans {s s₁ s₂ : Pmap} {evs evs' : List HwEvent} (h : Traced s s₁ evs)
    (h' : Traced s₁ s₂ evs') : Traced s s₂ (evs ++ evs') := by
  refine ⟨?_, ?_⟩
  · rw [h'.trace, h.trace, List.append_assoc]
  · rw [h'.mem, h.mem, memAfter_append]

/-- Memory is as at the start, or as some store left it. -/
theorem memAfter_cases (mem : Nat → Nat → Nat) (evs : List HwEvent) :
    memAfter HwEvent.after mem evs = mem ∨
      ∃ mem', HwEvent.wrote mem' ∈ evs ∧ memAfter HwEvent.after mem evs = mem' := by
  induction evs generalizing mem with
  | nil => exact Or.inl rfl
  | cons ev evs ih =>
    rcases ih (HwEvent.after mem ev) with hsame | ⟨mem', hmem, heq⟩
    · rw [memAfter_cons, hsame]
      cases ev with
      | wrote mem' => exact Or.inr ⟨mem', List.mem_cons_self, rfl⟩
      | fence asid va => exact Or.inl rfl
    · exact Or.inr ⟨mem', List.mem_cons_of_mem ev hmem, heq⟩

/-- The walks of the directory `d` below `UTOP` find the same at every moment. -/
def Calm (d : Nat) (s s' : Pmap) : Prop :=
  ∃ evs, Traced s s' evs ∧ ∀ mem, HwEvent.wrote mem ∈ evs → ∀ i < PDX UTOP, ∀ j < 1024,
    walkIn mem d i j = walkIn s.mem d i j

/-- No translation of `d` below `UTOP` is global. -/
def NonGlobal (d : Nat) (s : Pmap) : Prop :=
  ∀ i < PDX UTOP, ∀ j < 1024, ∀ w, s.pteAt d i j = some w → testFlag w PTE_G = false

/-- If `d` has no global translations, it has none in the end, and each one it had at some moment
is still there or has been dropped under the ASID `asid` since. -/
def Edits (d asid : Nat) (s s' : Pmap) : Prop :=
  ∃ evs, Traced s s' evs ∧ (NonGlobal d s → NonGlobal d s' ∧ ∀ i < PDX UTOP, ∀ j < 1024, ∀ w,
    Settles HwEvent.after (fun mem => walkIn mem d i j = some w) (·.drops ⟨asid, i, j, w⟩) s.mem evs)

section

variable {d asid : Nat} {s s₁ s₂ : Pmap}

/-- A property of the walks at the start and after each store is one of every moment. -/
theorem walk_moment {P : Option Nat → Prop} {mem : Nat → Nat → Nat} {evs pre post : List HwEvent}
    {i j : Nat} (he : evs = pre ++ post) (hstart : P (walkIn mem d i j))
    (hstores : ∀ mem', HwEvent.wrote mem' ∈ evs → P (walkIn mem' d i j)) :
    P (walkIn (memAfter HwEvent.after mem pre) d i j) := by
  rcases memAfter_cases mem pre with hsame | ⟨mem', hmem, hsame⟩
  · rw [hsame]
    exact hstart
  · rw [hsame]
    exact hstores mem' (he ▸ List.mem_append_left post hmem)

theorem Calm.walk (h : Calm d s s₁) {i j : Nat} (hi : i < PDX UTOP) (hj : j < 1024) :
    s₁.pteAt d i j = s.pteAt d i j := by
  obtain ⟨evs, htr, hcalm⟩ := h
  rw [pteAt_eq_walkIn, htr.mem]
  exact walk_moment (P := (· = walkIn s.mem d i j)) (List.append_nil evs).symm rfl
    fun mem hmem => hcalm mem hmem i hi j hj

theorem Calm.of_eq (htrace : s₁.trace = s.trace) (hmem : s₁.mem = s.mem) : Calm d s s₁ :=
  ⟨[], .nil htrace hmem, fun _ hmem => by cases hmem⟩

theorem Calm.refl (d : Nat) (s : Pmap) : Calm d s s := .of_eq rfl rfl

theorem Calm.trans (h : Calm d s s₁) (h' : Calm d s₁ s₂) : Calm d s s₂ := by
  have hwalk := fun i hi j hj => h.walk (i := i) (j := j) hi hj
  obtain ⟨evs, htr, hcalm⟩ := h
  obtain ⟨evs', htr', hcalm'⟩ := h'
  refine ⟨evs ++ evs', htr.trans htr', fun mem hmem i hi j hj => ?_⟩
  rcases List.mem_append.mp hmem with hmem | hmem
  · exact hcalm mem hmem i hi j hj
  · exact (hcalm' mem hmem i hi j hj).trans (hwalk i hi j hj)

/-- One store. -/
theorem Calm.write {mem : Nat → Nat → Nat}
    (h : ∀ i < PDX UTOP, ∀ j < 1024, walkIn mem d i j = walkIn s.mem d i j) :
    Calm d s (s.write mem) := by
  refine ⟨_, .write s mem, fun mem' hmem => ?_⟩
  obtain rfl := HwEvent.wrote.inj (List.mem_singleton.mp hmem)
  exact h

theorem Calm.flush (d : Nat) (s : Pmap) (asid va : Nat) : Calm d s (tlbFlush s asid va) := by
  refine ⟨_, .flush s asid va, fun mem hmem => ?_⟩
  cases List.mem_singleton.mp hmem

theorem Calm.edits (h : Calm d s s₁) (asid : Nat) : Edits d asid s s₁ := by
  have hwalk := fun i hi j hj => h.walk (i := i) (j := j) hi hj
  obtain ⟨evs, htr, hcalm⟩ := h
  refine ⟨evs, htr, fun hng => ⟨fun i hi j hj w hw => hng i hi j hj w ?_, ?_⟩⟩
  · rw [← hwalk i hi j hj]
    exact hw
  · intro i hi j hj w
    refine .of_iff fun pre post he => ?_
    rw [walk_moment (P := (· = walkIn s.mem d i j)) he rfl fun mem hmem => hcalm mem hmem i hi j hj]

theorem Edits.refl (d asid : Nat) (s : Pmap) : Edits d asid s s := (Calm.refl d s).edits asid

theorem Edits.trans (h : Edits d asid s s₁) (h' : Edits d asid s₁ s₂) : Edits d asid s s₂ := by
  obtain ⟨evs, htr, hset⟩ := h
  obtain ⟨evs', htr', hset'⟩ := h'
  refine ⟨evs ++ evs', htr.trans htr', fun hng => ?_⟩
  obtain ⟨hng₁, hset⟩ := hset hng
  obtain ⟨hng₂, hset'⟩ := hset' hng₁
  refine ⟨hng₂, fun i hi j hj w => ?_⟩
  refine (hset i hi j hj w).append ?_
  rw [← htr.mem]
  exact hset' i hi j hj w

/-- Stores that may change the translation of one page, and then a fence that reaches it. -/
theorem Edits.fenced {evs : List HwEvent} {va va' : Nat} (htr : Traced s s₁ evs)
    (hva : va' = 0 ∨ va' = va)
    (hother : ∀ mem, HwEvent.wrote mem ∈ evs → ∀ i < PDX UTOP, ∀ j < 1024,
      (i, j) ≠ (PDX va, PTX va) → walkIn mem d i j = walkIn s.mem d i j)
    (hpage : ∀ mem, HwEvent.wrote mem ∈ evs → ∀ w, walkIn mem d (PDX va) (PTX va) = some w →
      testFlag w PTE_G = false) : Edits d asid s (tlbFlush s₁ asid va') := by
  refine ⟨evs ++ [.fence asid va'], htr.trans (.flush s₁ asid va'), fun hng => ?_⟩
  have hend : (tlbFlush s₁ asid va').mem = memAfter HwEvent.after s.mem evs := htr.mem
  have hothers : ∀ pre post, evs = pre ++ post → ∀ i < PDX UTOP, ∀ j < 1024,
      (i, j) ≠ (PDX va, PTX va) →
      walkIn (memAfter HwEvent.after s.mem pre) d i j = walkIn s.mem d i j :=
    fun pre post he i hi j hj hij => walk_moment (P := (· = walkIn s.mem d i j)) he rfl
      fun mem hmem => hother mem hmem i hi j hj hij
  have hpages : ∀ pre post, evs = pre ++ post → PDX va < PDX UTOP → ∀ w,
      walkIn (memAfter HwEvent.after s.mem pre) d (PDX va) (PTX va) = some w →
      testFlag w PTE_G = false := fun pre post he hi =>
    walk_moment (P := fun x => ∀ w, x = some w → testFlag w PTE_G = false) he
      (hng _ hi _ (PTX_lt va)) hpage
  refine ⟨fun i hi j hj w hw => ?_, ?_⟩
  · rw [pteAt_eq_walkIn, hend] at hw
    by_cases hij : (i, j) = (PDX va, PTX va)
    · obtain ⟨rfl, rfl⟩ := Prod.mk.inj hij
      exact hpages evs [] (List.append_nil evs).symm hi w hw
    · rw [hothers evs [] (List.append_nil evs).symm i hi j hj hij] at hw
      exact hng i hi j hj w hw
  · intro i hi j hj w
    refine .of_last fun pre post he hw => ?_
    by_cases hij : (i, j) = (PDX va, PTX va)
    · obtain ⟨rfl, rfl⟩ := Prod.mk.inj hij
      refine Or.inr ⟨Or.inr ⟨rfl, hpages pre post he hi w hw⟩, ?_⟩
      rcases hva with rfl | rfl
      · exact Or.inl rfl
      · exact Or.inr ⟨rfl, rfl⟩
    · refine Or.inl ?_
      rw [memAfter_append]
      show walkIn (memAfter HwEvent.after s.mem evs) d i j = some w
      rw [hothers evs [] (List.append_nil evs).symm i hi j hj hij]
      rw [hothers pre post he i hi j hj hij] at hw
      exact hw

end

-- ---------------------------------------------------------------------------
-- Stores
-- ---------------------------------------------------------------------------

section

variable {lo d : Nat} {s s' : Pmap} {role : Nat → Role}

/-- A walk reads the directory and its page tables. -/
theorem walkIn_congr (h : TableShape kernOwn s role) (hd : role d = .dir) {mem : Nat → Nat → Nat}
    (hdir : ∀ i < PDX UTOP, mem d i = s.mem d i)
    (htab : ∀ t i, role t = .table d i → ∀ j, mem t j = s.mem t j) :
    ∀ i < PDX UTOP, ∀ j, walkIn mem d i j = walkIn s.mem d i j := by
  intro i hi j
  unfold walkIn
  rw [hdir i hi]
  by_cases hV : testFlag (s.mem d i) PTE_V = true
  · obtain ⟨t, ht⟩ := h.pdeTable d i hd (kernOwn_iff.mpr hi) hV
    rw [h.pteFrame_pde ht, htab t i ht j]
  · rw [if_neg hV, if_neg hV]

/-- The walks are what the view shows. -/
theorem walk_of_view {role' : Nat → Role} (hd : role d = .dir) (hd' : role' d = .dir)
    (hv : view kernOwn role' s' = view kernOwn role s) {i : Nat} (hi : i < PDX UTOP) (j : Nat) :
    s'.pteAt d i j = s.pteAt d i j := by
  have hx := congrFun hv (d, i, j)
  unfold view at hx
  rw [if_pos ⟨hd', kernOwn_iff.mpr hi⟩, if_pos ⟨hd, kernOwn_iff.mpr hi⟩] at hx
  exact hx

/-- A store to a frame that is neither the directory nor one of its tables. -/
theorem Calm.frame (h : TableShape kernOwn s role) (hd : role d = .dir) {f : Nat}
    {mem : Nat → Nat → Nat} (hmem : ∀ g, g ≠ f → ∀ i, mem g i = s.mem g i) (hfd : f ≠ d)
    (hft : ∀ i, role f ≠ .table d i) : Calm d s (s.write mem) := by
  refine .write fun i hi j _ => walkIn_congr h hd (fun i _ => hmem d (Ne.symm hfd) i) (fun t i ht => ?_) i hi j
  refine hmem t ?_
  rintro rfl
  exact hft i ht

theorem Calm.store (h : TableShape kernOwn s role) (hd : role d = .dir) {f : Nat} (hfd : f ≠ d)
    (hft : ∀ i, role f ≠ .table d i) (i w : Nat) : Calm d s (s.store f i w) :=
  .frame h hd (fun _ hg i' => Pmap.store_mem_frame s hg i') hfd hft

/-- A store to a slot of a directory above `UTOP`. -/
theorem Calm.storeHigh (h : TableShape kernOwn s role) (hd : role d = .dir) {f i : Nat}
    (hf : role f = .dir) (hi : PDX UTOP ≤ i) (w : Nat) : Calm d s (s.store f i w) := by
  refine .write fun i' hi' j _ => walkIn_congr h hd (fun i' hi' => ?_) (fun t i' ht j => ?_) i' hi' j
  · refine if_neg ?_
    rintro ⟨-, rfl⟩
    omega
  · refine if_neg ?_
    rintro ⟨rfl, -⟩
    rw [hf] at ht
    cases ht

theorem pageAlloc_calm (h : FrameInv kernOwn lo s role) (hd : role d = .dir) {pp : Nat}
    (ha : pageAlloc s = some (pp, s')) : Calm d s s' := by
  unfold pageAlloc at ha
  cases hl : s.pageFreeList with
  | nil => simp [hl] at ha
  | cons p rest =>
    simp only [hl, Option.some.injEq, Prod.mk.injEq] at ha
    obtain ⟨rfl, rfl⟩ := ha
    have hp : role p = .free := (h.freeIff p).mp (by simp [hl])
    have hshape : TableShape kernOwn { s with pageFreeList := rest } role :=
      ⟨h.ownLt, h.tableLt, h.tablePde, h.pdeTable⟩
    have htake : Calm d s { s with pageFreeList := rest } := .of_eq rfl rfl
    refine htake.trans (Calm.frame hshape hd (fun g hg i => if_neg hg) ?_ ?_)
    · rintro rfl
      rw [hp] at hd
      cases hd
    · intro i
      rw [hp]
      simp

theorem pageDecref_trace {pp : Nat} (h : pageDecref s pp = .ok s') :
    s'.trace = s.trace ∧ s'.mem = s.mem := by
  unfold pageDecref pageFree at h
  dsimp only at h
  split_ifs at h
  · cases h
    exact ⟨rfl, rfl⟩
  · cases h
    exact ⟨rfl, rfl⟩

/-- A new page table shows nothing: it is empty, and the slot was. -/
theorem withTable_calm (h : FrameInv kernOwn lo s role) (hd : role d = .dir) {d' i pp : Nat}
    (hd' : role d' = .dir) (hpde : testFlag (s.mem d' i) PTE_V = false) {rest : List Nat}
    (hfree : s.pageFreeList = pp :: rest) : Calm d s (withTable s rest d' i pp) := by
  have hp : role pp = .free := (h.freeIff pp).mp (by simp [hfree])
  have hpd : ∀ {f}, role f = .dir → f ≠ pp := by
    rintro f hf rfl
    rw [hp] at hf
    cases hf
  have hclear := pageAlloc_calm h hd (pageAlloc_cons hfree)
  obtain ⟨h₁, -⟩ := h.alloc hfree
  have hdir : ∀ {f}, role f = .dir → Function.update role pp .fresh f = .dir := by
    intro f hf
    rw [Function.update_of_ne (hpd hf)]
    exact hf
  refine hclear.trans ?_
  have hset : Calm d ({ s with pageFreeList := rest }.clear pp)
      (({ s with pageFreeList := rest }.clear pp).setRef pp 1) := .of_eq rfl rfl
  refine hset.trans ?_
  by_cases hi : i < PDX UTOP
  · obtain ⟨-, hview⟩ := h.withTable hd' (kernOwn_iff.mpr hi) hpde hfree
    refine .write fun i' hi' j hj => ?_
    have hdt : Function.update role pp (.table d' i) d = .dir := by
      rw [Function.update_of_ne (hpd hd)]
      exact hd
    exact (walk_of_view hd hdt hview hi' j).trans (hclear.walk hi' hj).symm
  · have hshape : TableShape kernOwn (({ s with pageFreeList := rest }.clear pp).setRef pp 1)
        (Function.update role pp .fresh) := ⟨h₁.ownLt, h₁.tableLt, h₁.tablePde, h₁.pdeTable⟩
    exact .storeHigh hshape (hdir hd) (hdir hd') (Nat.le_of_not_lt hi) _

-- ---------------------------------------------------------------------------
-- pgdir_walk, page_remove and page_insert
-- ---------------------------------------------------------------------------

/-- `pgdir_walk` shows nothing either, and finds the page table of the slot. -/
theorem pgdirWalk_calm (h : FrameInv kernOwn lo s role) (hd : role d = .dir) {d' va : Nat}
    (hd' : role d' = .dir) (hva : PDX va < PDX UTOP) {create : Bool} {r : Int} {pte : Option PtePtr}
    (hrun : pgdirWalk s d' va create = .ok (r, pte, s')) :
    Calm d s s' ∧ ∃ role', FrameInv kernOwn lo s' role' ∧
      (∀ f, role f = .dir → role' f = .dir) ∧
      ∀ p, pte = some p → p.2 = PTX va ∧ role' p.1 = .table d' (PDX va) := by
  rcases h.pde_cases hd' (kernOwn_iff.mpr hva) with ⟨t, ht⟩ | hpde
  · rw [pgdirWalk_table h ht] at hrun
    cases hrun
    refine ⟨.refl d s, role, h, fun _ hf => hf, ?_⟩
    rintro p ⟨rfl⟩
    exact ⟨rfl, ht⟩
  · cases create with
    | false =>
      rw [pgdirWalk_absent hpde] at hrun
      cases hrun
      exact ⟨.refl d s, role, h, fun _ hf => hf, fun p hp => by cases hp⟩
    | true =>
      cases hfree : s.pageFreeList with
      | nil =>
        rw [pgdirWalk_noMem hpde hfree] at hrun
        cases hrun
        exact ⟨.refl d s, role, h, fun _ hf => hf, fun p hp => by cases hp⟩
      | cons pp rest =>
        have hp : role pp = .free := (h.freeIff pp).mp (by simp [hfree])
        rw [pgdirWalk_create hpde hfree (h.lt_npage (by simp [hp]))] at hrun
        cases hrun
        refine ⟨withTable_calm h hd hd' hpde hfree, Function.update role pp (.table d' (PDX va)),
          (h.withTable hd' (kernOwn_iff.mpr hva) hpde hfree).1, ?_, ?_⟩
        · intro f hf
          have hne : f ≠ pp := by
            rintro rfl
            rw [hp] at hf
            cases hf
          rw [Function.update_of_ne hne]
          exact hf
        · rintro p ⟨rfl⟩
          exact ⟨rfl, Function.update_self ..⟩

/-- Storing an entry in the table of a slot changes the translation of one page. -/
theorem walk_storePte (h : TableShape kernOwn s role) (hd : role d = .dir) {t d' i j : Nat}
    (ht : role t = .table d' i) (w : Nat) :
    (∀ i' < PDX UTOP, ∀ j', (d, i', j') ≠ (d', i, j) →
      walkIn (s.store t j w).mem d i' j' = walkIn s.mem d i' j') ∧
    walkIn (s.store t j w).mem d' i j = if testFlag w PTE_V then some w else none := by
  have htd : ∀ {f}, role f = .dir → f ≠ t := by
    rintro f hf rfl
    rw [ht] at hf
    cases hf
  have hdir : ∀ {f}, role f = .dir → ∀ i', (s.store t j w).mem f i' = s.mem f i' :=
    fun hf i' => Pmap.store_mem_frame s (htd hf) i'
  obtain ⟨hd', -, hpde⟩ := h.tablePde t d' i ht
  constructor
  · intro i' hi' j' hne
    unfold walkIn
    rw [hdir hd]
    by_cases hV : testFlag (s.mem d i') PTE_V = true
    · obtain ⟨t', ht'⟩ := h.pdeTable d i' hd (kernOwn_iff.mpr hi') hV
      have hother : (s.store t j w).mem t' j' = s.mem t' j' := by
        refine if_neg ?_
        rintro ⟨rfl, rfl⟩
        rw [ht] at ht'
        obtain ⟨rfl, rfl⟩ := Role.table.inj ht'
        exact hne rfl
      rw [h.pteFrame_pde ht', hother]
    · rw [if_neg hV, if_neg hV]
  · unfold walkIn
    rw [hdir hd', hpde, if_pos (testFlag_V_mkPde t), ← hpde, h.pteFrame_pde ht, Pmap.store_mem_self]

/-- A store of an entry, and a fence for its page before any other translation changes. -/
theorem storePte_edits (h : TableShape kernOwn s role) {d' a asid t va va' w : Nat} {s₁ : Pmap}
    (hd : role d = .dir) (ht : role t = .table d' (PDX va)) (ha : d = d' → a = asid)
    (hw : testFlag w PTE_V = true → testFlag w PTE_G = false)
    (hcalm : Calm d (s.store t (PTX va) w) s₁) (hva : va' = 0 ∨ va' = va) :
    Edits d a s (tlbFlush s₁ asid va') := by
  obtain ⟨hother, hself⟩ := walk_storePte h hd (j := PTX va) ht w
  have hlow : PDX va < PDX UTOP := kernOwn_iff.mp (h.tablePde t d' _ ht).2.1
  by_cases hdd : d = d'
  · obtain rfl := ha hdd
    subst hdd
    obtain ⟨evs, htr, hc⟩ := hcalm
    refine Edits.fenced ((Traced.write s _).trans htr) hva ?_ ?_
    · intro mem hmem i hi j hj hij
      have hne : (d, i, j) ≠ (d, PDX va, PTX va) := fun he => hij (Prod.mk.inj he).2
      rcases List.mem_append.mp hmem with hmem | hmem
      · obtain rfl := HwEvent.wrote.inj (List.mem_singleton.mp hmem)
        exact hother i hi j hne
      · exact (hc mem hmem i hi j hj).trans (hother i hi j hne)
    · intro mem hmem x hx
      have hstored : walkIn mem d (PDX va) (PTX va) = if testFlag w PTE_V then some w else none := by
        rcases List.mem_append.mp hmem with hmem | hmem
        · obtain rfl := HwEvent.wrote.inj (List.mem_singleton.mp hmem)
          exact hself
        · exact (hc mem hmem _ hlow _ (PTX_lt va)).trans hself
      rw [hstored] at hx
      split_ifs at hx with hV
      obtain rfl := Option.some.inj hx
      exact hw hV
  · have hstore : Calm d s (s.store t (PTX va) w) :=
      .write fun i hi j _ => hother i hi j fun he => hdd (Prod.mk.inj he).1
    exact ((hstore.trans hcalm).trans (.flush d s₁ asid va')).edits a

theorem pageRemove_edits (h : FrameInv kernOwn lo s role) {d' a asid va : Nat} (hd : role d = .dir)
    (hd' : role d' = .dir) (ha : d = d' → a = asid) (hva : PDX va < PDX UTOP)
    (hrun : pageRemove s d' asid va = .ok s') : Edits d a s s' := by
  cases hv : view kernOwn role s (slotOf d' va) with
  | none =>
    rw [pageRemove_none h asid hd' (kernOwn_iff.mpr hva) hv] at hrun
    cases hrun
    exact .refl d a s
  | some w =>
    obtain ⟨t, ht, -, hlook⟩ := pageLookup_some h hv
    unfold pageRemove at hrun
    rw [hlook, ok_bind] at hrun
    obtain ⟨s₁, hdec, hdone⟩ := bind_eq_ok.mp hrun
    cases hdone
    obtain ⟨htrace, hmem⟩ := pageDecref_trace hdec
    have hcount : Calm d s s₁ := .of_eq htrace hmem
    have hshape : TableShape kernOwn s₁ role := by
      refine ⟨h.ownLt, h.tableLt, ?_, ?_⟩
      · rw [hmem]
        exact h.tablePde
      · rw [hmem]
        exact h.pdeTable
    exact (hcount.edits a).trans (storePte_edits hshape hd ht ha (fun hV => by
      rw [testFlag_zero_left] at hV
      cases hV) (.refl d _) (Or.inr rfl))

/-- A store to a page table leaves the shape alone. -/
theorem TableShape.storePte (h : TableShape kernOwn s role) {t d' i : Nat} (ht : role t = .table d' i)
    (j w : Nat) : TableShape kernOwn (s.store t j w) role := by
  have hdir : ∀ {f}, role f = .dir → ∀ i, (s.store t j w).mem f i = s.mem f i := by
    intro f hf i
    refine Pmap.store_mem_frame s ?_ i
    rintro rfl
    rw [ht] at hf
    cases hf
  refine ⟨h.ownLt, h.tableLt, fun t' d i ht' => ?_, fun d i hd hown hV => ?_⟩
  · obtain ⟨hd, hown, hpde⟩ := h.tablePde t' d i ht'
    exact ⟨hd, hown, (hdir hd i).trans hpde⟩
  · rw [hdir hd] at hV
    exact h.pdeTable d i hd hown hV

theorem readable_nonGlobal {perm : Nat} (hg : testFlag perm PTE_G = false) :
    testFlag (readable perm) PTE_G = false := by
  unfold readable
  split_ifs
  · rw [show PTE_G = 2 ^ 5 from rfl] at hg ⊢
    rw [testFlag_or, hg]
    decide
  · exact hg

theorem mkPte_nonGlobal (pp : Nat) {perm : Nat} (hg : testFlag perm PTE_G = false) :
    testFlag (mkPte pp perm) PTE_G = false :=
  (show testFlag (mkPte pp perm) (2 ^ 5) = _ from
    testFlag_mkPte pp perm (by decide) (by decide)).trans hg

theorem pageInsertNew_edits (h : FrameInv kernOwn lo s role) {d' a asid pp va perm : Nat}
    (hd : role d = .dir) (hd' : role d' = .dir) (ha : d = d' → a = asid) (hva : PDX va < PDX UTOP)
    (hg : testFlag perm PTE_G = false) {r : Int}
    (hrun : pageInsertNew s d' asid pp va perm = .ok (r, s')) : Edits d a s s' := by
  unfold pageInsertNew at hrun
  obtain ⟨⟨r₁, pte, s₁⟩, hwalk, hrun⟩ := bind_eq_ok.mp hrun
  obtain ⟨hcalm, role', h', hdir, hpte⟩ := pgdirWalk_calm h hd hd' hva hwalk
  cases pte with
  | none =>
    obtain ⟨-, rfl⟩ := Prod.mk.inj (Except.ok.inj hrun)
    exact hcalm.edits a
  | some p =>
    obtain ⟨-, rfl⟩ := Prod.mk.inj (Except.ok.inj hrun)
    obtain ⟨t, j⟩ := p
    obtain ⟨rfl, ht⟩ := hpte _ rfl
    refine (hcalm.edits a).trans
      (storePte_edits h'.toTableShape (hdir d hd) ht ha (fun _ => mkPte_nonGlobal pp hg) ?_
        (Or.inl rfl))
    have hshape := h'.toTableShape.storePte ht (PTX va) (mkPte pp perm)
    have hcount : Calm d (s₁.store t (PTX va) (mkPte pp perm))
        ((s₁.store t (PTX va) (mkPte pp perm)).setRef pp
          (((s₁.store t (PTX va) (mkPte pp perm)).ppRef pp + 1) % 2 ^ 16)) := .of_eq rfl rfl
    have hshape' : TableShape kernOwn ((s₁.store t (PTX va) (mkPte pp perm)).setRef pp
        (((s₁.store t (PTX va) (mkPte pp perm)).ppRef pp + 1) % 2 ^ 16)) role' :=
      ⟨hshape.ownLt, hshape.tableLt, hshape.tablePde, hshape.pdeTable⟩
    exact hcount.trans (.storeHigh hshape' (hdir d hd) (hdir d' hd') (by decide) 0)

theorem pageInsert_edits (h : FrameInv kernOwn lo s role) (hb : Bounded kernOwn role s)
    {d' a asid pp va perm : Nat} (hd : role d = .dir) (hd' : role d' = .dir) (ha : d = d' → a = asid)
    (hva : PDX va < PDX UTOP) (hg : testFlag perm PTE_G = false) {r : Int}
    (hrun : pageInsert s d' asid pp va perm = .ok (r, s')) : Edits d a s s' := by
  have hown := kernOwn_iff.mpr hva
  cases hv : view kernOwn role s (slotOf d' va) with
  | none =>
    rw [pageInsert_empty h asid hd' hown hv] at hrun
    exact pageInsertNew_edits h hd hd' ha hva (readable_nonGlobal hg) hrun
  | some w =>
    obtain ⟨t, ht, hm, hV⟩ := h.view_eq_some.mp hv
    unfold pageInsert at hrun
    rw [pgdirWalk_table h ht, ok_bind] at hrun
    change (if testFlag (s.mem t (PTX va)) PTE_V = true then _ else _) = _ at hrun
    rw [hm, if_pos hV] at hrun
    obtain ⟨old, hold, hrun⟩ := bind_eq_ok.mp hrun
    by_cases hne : old ≠ pp
    · rw [if_pos hne] at hrun
      obtain ⟨s₁, hrem, hrun⟩ := bind_eq_ok.mp hrun
      obtain ⟨s₁', -, -, hrem', -, hs⟩ := pageRemove_some h asid hv rfl (hb _)
      obtain rfl : s₁ = s₁' := by
        rw [hrem] at hrem'
        exact Except.ok.inj hrem'
      exact (pageRemove_edits h hd hd' ha hva hrem).trans
        (pageInsertNew_edits hs.inv ((hs.dir_iff d).mpr hd) ((hs.dir_iff d').mpr hd') ha hva
          (readable_nonGlobal hg) hrun)
    · rw [if_neg hne] at hrun
      obtain ⟨-, rfl⟩ := Prod.mk.inj (Except.ok.inj hrun)
      exact storePte_edits h.toTableShape hd ht ha (fun _ => mkPte_nonGlobal pp (readable_nonGlobal hg))
        (.refl d _) (Or.inr rfl)

-- ---------------------------------------------------------------------------
-- The loops of env_free
-- ---------------------------------------------------------------------------

/-- Cutting off an emptied page table shows nothing. -/
theorem Calm.clearSlot (h : TableShape kernOwn s role) (hd : role d = .dir) {t d' i : Nat}
    (ht : role t = .table d' i) (hempty : ∀ j < 1024, testFlag (s.mem t j) PTE_V = false) :
    Calm d s (s.store d' i 0) := by
  obtain ⟨hd', -, -⟩ := h.tablePde t d' i ht
  refine .write fun i' hi' j hj => ?_
  show walkIn (s.store d' i 0).mem d i' j = _
  unfold walkIn
  by_cases hslot : d = d' ∧ i' = i
  · obtain ⟨rfl, rfl⟩ := hslot
    have hnone : ¬ testFlag (s.mem (pteFrame (s.mem d i')) j) PTE_V = true := by
      rw [h.pteFrame_pde ht, hempty j hj]
      simp
    rw [Pmap.store_mem_self, testFlag_zero_left, if_neg (by simp), if_neg hnone, ite_self]
  · rw [Pmap.store_mem, if_neg hslot]
    by_cases hV : testFlag (s.mem d i') PTE_V = true
    · obtain ⟨t', ht'⟩ := h.pdeTable d i' hd (kernOwn_iff.mpr hi') hV
      have hne : t' ≠ d' := by
        rintro rfl
        rw [hd'] at ht'
        cases ht'
      rw [h.pteFrame_pde ht', Pmap.store_mem_frame s hne]
    · rw [if_neg hV, if_neg hV]

theorem envFreePte_edits (h : FrameInv kernOwn lo s role) (hbd : Bounded kernOwn role s)
    {d' a asid t i : Nat} (hd : role d = .dir) (ht : role t = .table d' i) (ha : d = d' → a = asid)
    (hrun : (List.range 1024).foldlM (envFreePte d' asid i t) s = .ok s') : Edits d a s s' := by
  obtain ⟨hd', hown, -⟩ := h.tablePde t d' i ht
  have hi : i < PDX UTOP := kernOwn_iff.mp hown
  have hloop := foldlM_range_ok (f := envFreePte d' asid i t)
    (fun _ s₁ => ∃ role₁, Shrunk lo d' s role s₁ role₁ ∧ role₁ t = .table d' i ∧ Edits d a s s₁) 1024
    ⟨role, Shrunk.refl h hbd, ht, .refl d a s⟩ ?_
  · obtain ⟨s₁, hrun₁, -, -, -, hedits⟩ := hloop
    rw [hrun] at hrun₁
    obtain rfl := Except.ok.inj hrun₁
    exact hedits
  · rintro n hn s₁ ⟨role₁, hs, ht₁, hedits⟩
    obtain ⟨hPDX, hPTX⟩ := slot_address (h.ownLt i hown) hn
    unfold envFreePte
    split_ifs with hV
    · obtain ⟨s₂, role₂, hrem, hs₂, ht₂, -⟩ :=
        Shrunk.removePte hs.inv hs.bounded asid ht₁ hPDX hPTX hV
      exact ⟨s₂, hrem, role₂, hs.trans hs₂, ht₂,
        hedits.trans (pageRemove_edits hs.inv ((hs.dir_iff d).mpr hd) ((hs.dir_iff d').mpr hd') ha
          (by rw [hPDX]; exact hi) hrem)⟩
    · exact ⟨s₁, rfl, role₁, hs, ht₁, hedits⟩

/-- A round of the outer loop on a slot with a page table. -/
theorem envFreePde_table (h : FrameInv kernOwn lo s role) {t i asid : Nat} {s₁ s₂ : Pmap}
    (ht : role t = .table d i) (hpte : (List.range 1024).foldlM (envFreePte d asid i t) s = .ok s₁)
    (hdec : pageDecref (s₁.store d i 0) t = .ok s₂) :
    envFreePde d asid s i = .ok (tlbFlush s₂ asid 0) := by
  have hlt := h.tableLt t d i ht
  have hpa : pa2idx (PTE_ADDR (s.mem d i)) = t := h.pteFrame_pde ht
  have hV : testFlag (s.mem d i) PTE_V = true := by
    rw [(h.tablePde t d i ht).2.2]
    exact testFlag_V_mkPde t
  have hk : kaddr (PTE_ADDR (s.mem d i)) = .ok t := by
    rw [kaddr_ok (by rw [hpa]; exact hlt), hpa]
  have hp : pa2page (PTE_ADDR (s.mem d i)) = .ok t := by
    rw [pa2page_ok (by rw [hpa]; exact hlt), hpa]
  unfold envFreePde
  rw [if_pos hV]
  dsimp only
  rw [hk, ok_bind, hpte, ok_bind, hp, ok_bind, hdec, ok_bind]
  rfl

theorem envFreePde_edits (h : FrameInv kernOwn lo s role) (hbd : Bounded kernOwn role s)
    {d' a asid : Nat} (hd : role d = .dir) (hd' : role d' = .dir) (ha : d = d' → a = asid)
    (hrun : (List.range (PDX UTOP)).foldlM (envFreePde d' asid) s = .ok s') : Edits d a s s' := by
  have hloop := foldlM_range_ok (f := envFreePde d' asid)
    (fun _ s₁ => ∃ role₁, Shrunk lo d' s role s₁ role₁ ∧ Edits d a s s₁) (PDX UTOP)
    ⟨role, Shrunk.refl h hbd, .refl d a s⟩ ?_
  · obtain ⟨s₁, hrun₁, -, -, hedits⟩ := hloop
    rw [hrun] at hrun₁
    obtain rfl := Except.ok.inj hrun₁
    exact hedits
  · rintro n hn s₁ ⟨role₁, hs, hedits⟩
    by_cases hV : testFlag (s₁.mem d' n) PTE_V = true
    · obtain ⟨t, ht⟩ := hs.inv.pdeTable d' n ((hs.dir_iff d').mpr hd') (kernOwn_iff.mpr hn) hV
      obtain ⟨s₂, role₂, hrun₂, hs₂, ht₂, hempty⟩ := envFreePte_ok hs.inv hs.bounded asid ht
      obtain ⟨s₃, role₃, hdec, hs₃, -⟩ := Shrunk.removeTable hs₂.inv hs₂.bounded asid ht₂ hempty
      have hd₁ := (hs.dir_iff d).mpr hd
      have hpte := envFreePte_edits hs.inv hs.bounded hd₁ ht ha hrun₂
      have hslot : Calm d s₂ (s₂.store d' n 0) :=
        .clearSlot hs₂.inv.toTableShape ((hs₂.dir_iff d).mpr hd₁) ht₂ hempty
      obtain ⟨htrace, hmem⟩ := pageDecref_trace hdec
      have hcut : Calm d s₂ (tlbFlush s₃ asid 0) :=
        (hslot.trans (.of_eq htrace hmem)).trans (.flush d s₃ asid 0)
      refine ⟨tlbFlush s₃ asid 0, ?_, role₃, (hs.trans hs₂).trans hs₃,
        (hedits.trans hpte).trans (hcut.edits a)⟩
      exact envFreePde_table hs.inv ht hrun₂ hdec
    · refine ⟨s₁, ?_, role₁, hs, hedits⟩
      unfold envFreePde
      rw [if_neg hV]

theorem envFreeCopy_trace {copy : Nat} (hrun : envFreeCopy s copy = .ok s') :
    s'.trace = s.trace ∧ s'.mem = s.mem := by
  unfold envFreeCopy at hrun
  split_ifs at hrun
  · obtain ⟨pp, -, hrun⟩ := bind_eq_ok.mp hrun
    split_ifs at hrun
    exact pageDecref_trace hrun
  · cases hrun
    exact ⟨rfl, rfl⟩

/-- `env_free` fences what it takes, and leaves nothing. -/
theorem envFreePages_edits (h : FrameInv kernOwn lo s role) (hbd : Bounded kernOwn role s)
    {d' asid copy : Nat} (hd' : role d' = .dir) (hrun : envFreePages s d' asid copy = .ok s') :
    (∀ d a, role d = .dir → (d = d' → a = asid) → Edits d a s s') ∧
      ∀ i < PDX UTOP, ∀ j, s'.pteAt d' i j = none := by
  unfold envFreePages at hrun
  obtain ⟨s₁, hpde, hrun⟩ := bind_eq_ok.mp hrun
  obtain ⟨s₂, hcopy, hrun⟩ := bind_eq_ok.mp hrun
  obtain ⟨s₃, hdec, hdone⟩ := bind_eq_ok.mp hrun
  cases hdone
  obtain ⟨htrace₂, hmem₂⟩ := envFreeCopy_trace hcopy
  obtain ⟨htrace₃, hmem₃⟩ := pageDecref_trace hdec
  constructor
  · intro d a hd ha
    have hback : Calm d s₁ (tlbFlush s₃ asid 0) :=
      (Calm.of_eq (htrace₃.trans htrace₂) (hmem₃.trans hmem₂)).trans (.flush d s₃ asid 0)
    exact (envFreePde_edits h hbd hd hd' ha hpde).trans (hback.edits a)
  · intro i hi j
    obtain ⟨s₁', role₁, hpde', -, hempty⟩ := envFreePde_ok h hbd asid hd'
    rw [hpde] at hpde'
    obtain rfl := Except.ok.inj hpde'
    unfold Pmap.pteAt
    rw [tlbFlush_mem, hmem₃, hmem₂, hempty i hi, if_neg (by simp)]

-- ---------------------------------------------------------------------------
-- The frames of the kernel
-- ---------------------------------------------------------------------------

theorem Calm.copyWords (h : TableShape kernOwn s role) (hd : role d = .dir) {f : Nat} (hfd : f ≠ d)
    (hft : ∀ i, role f ≠ .table d i) (w : Nat → Nat) : Calm d s (s.copyWords f w) :=
  .frame h hd (fun _ hg _ => if_neg fun hc => hg hc.1) hfd hft

theorem Calm.storeBytes (h : FrameInv kernOwn lo s role) (hd : role d = .dir) {f : Nat}
    (hf : role f ≠ .dir) (hft : ∀ d i, role f ≠ .table d i) (off : Nat) (bytes : List Nat) :
    Calm d s (s.storeBytes f off bytes) := by
  induction bytes generalizing s off with
  | nil => exact .refl d s
  | cons x bytes ih =>
    have hfd : f ≠ d := by
      rintro rfl
      exact hf hd
    have hstore : Calm d s (s.storeByte f off x) := .store h.toTableShape hd hfd (hft d) _ _
    obtain ⟨h', -⟩ := h.store_other (f := f) (i := off / 4)
      (w := setByte (s.mem f (off / 4)) (off % 4) x) (fun hc => absurd hc hf) hft
    exact hstore.trans (ih h' (off + 1))

/-- A store to a slot of a directory above `UTOP` leaves the shape alone. -/
theorem TableShape.storeHigh (h : TableShape kernOwn s role) {f i : Nat} (hi : PDX UTOP ≤ i) (w : Nat) : TableShape kernOwn (s.store f i w) role := by
  have hlow : ∀ d i', kernOwn i' = true → (s.store f i w).mem d i' = s.mem d i' := by
    intro d i' hown
    have hlt := kernOwn_iff.mp hown
    refine if_neg ?_
    rintro ⟨-, rfl⟩
    omega
  refine ⟨h.ownLt, h.tableLt, fun t d i' ht => ?_, fun d i' hd hown hV => ?_⟩
  · obtain ⟨hd, hown, hpde⟩ := h.tablePde t d i' ht
    exact ⟨hd, hown, (hlow d i' hown).trans hpde⟩
  · rw [hlow d i' hown] at hV
    exact h.pdeTable d i' hd hown hV

/-- An entry stored in the window shows nothing below `UTOP`. -/
theorem windowStore_calm (h : FrameInv kernOwn lo s role) (hd : role d = .dir) {d' f : Nat}
    (hd' : role d' = .dir) (hf : role f ≠ .dir) (hft : ∀ d i, role f ≠ .table d i) (j w p asid : Nat) :
    Calm d s (KernelInv.windowStore s d' f j w p asid) := by
  have hfd : f ≠ d := by
    rintro rfl
    exact hf hd
  have hstore : Calm d s (s.store f j w) := .store h.toTableShape hd hfd (hft d) j w
  obtain ⟨h₁, -⟩ := h.store_other (f := f) (i := j) (w := w) (fun hc => absurd hc hf) hft
  have hcount : Calm d (s.store f j w)
      ((s.store f j w).setRef p (((s.store f j w).ppRef p + 1) % 2 ^ 16)) := .of_eq rfl rfl
  have hshape : TableShape kernOwn
      ((s.store f j w).setRef p (((s.store f j w).ppRef p + 1) % 2 ^ 16)) role :=
    ⟨h₁.ownLt, h₁.tableLt, h₁.tablePde, h₁.pdeTable⟩
  have hclose := Calm.storeHigh hshape hd hd' (show PDX UTOP ≤ PDX UVPT by decide) 0
  exact ((hstore.trans hcount).trans hclose).trans (.flush d _ asid 0)

end

end Mos.Kern
