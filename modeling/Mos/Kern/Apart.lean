import Mos.Kern.FaultInv

/-!
# MOS on RISC-V — page work that stays away from given frames

Page work on one directory `d` below `UTOP` touches `d`, the page tables of
`d`, frames off the free list and nothing else. `Apart` says that a set of
frames `P` is none of these, `Spares` that a function keeps it so and wrote no
word of `P`. Both look at words and at the free list only, never at roles, so
they hold whatever the entries that get written are.

The one place where page work can hurt a frame of `P` is the release of the
last reference (`Apart.pageDecref`): the caller has to know that a frame with
one reference left is not in `P` (`Loose`).

`Aside` lifts this to the kernel that reads the memory of the running env and
takes page faults there.
-/

namespace Mos.Kern

open Mos.Lib

variable {P : Nat → Prop} {d : Nat} {s s' s₁ s₂ : Pmap}

/-- The frames `P` are not free and not part of the directory `d`; free frames
are not part of it either. -/
structure Apart (P : Nat → Prop) (d : Nat) (s : Pmap) : Prop where
  dir : ¬ P d
  free : ∀ f ∈ s.pageFreeList, ¬ P f ∧ f ≠ d ∧ f < npage
  table : ∀ i < PDX UTOP, testFlag (s.mem d i) PTE_V = true →
    ¬ P (pteFrame (s.mem d i)) ∧ pteFrame (s.mem d i) ≠ d

/-- Page work that wrote no word of `P` and stays apart from it. -/
structure Spares (P : Nat → Prop) (d : Nat) (s s' : Pmap) : Prop where
  apart : Apart P d s'
  mem : ∀ f, P f → ∀ i, s'.mem f i = s.mem f i

namespace Spares

theorem refl (h : Apart P d s) : Spares P d s s := ⟨h, fun _ _ _ => rfl⟩

theorem trans (h : Spares P d s s₁) (h' : Spares P d s₁ s₂) : Spares P d s s₂ :=
  ⟨h'.apart, fun f hf i => (h'.mem f hf i).trans (h.mem f hf i)⟩

end Spares

/-- The release of what the slot of `va` maps hurts no frame of `P`. -/
def Loose (P : Nat → Prop) (d : Nat) (s : Pmap) (va : Nat) : Prop :=
  ∀ w, s.pteAt d (PDX va) (PTX va) = some w → s.ppRef (pteFrame w) % 2 ^ 16 = 1 →
    ¬ P (pteFrame w) ∧ pteFrame w ≠ d

namespace Apart

-- ---------------------------------------------------------------------------
-- Elementary changes
-- ---------------------------------------------------------------------------

/-- Counters change, fences are set, free frames are taken. -/
theorem quiet (h : Apart P d s) (hmem : s'.mem = s.mem)
    (hfree : ∀ f ∈ s'.pageFreeList, f ∈ s.pageFreeList) : Spares P d s s' := by
  refine ⟨⟨h.dir, fun f hf => h.free f (hfree f hf), ?_⟩, fun f _ i => by rw [hmem]⟩
  rw [hmem]
  exact h.table

/-- The words of one frame, neither `d` nor in `P`, change. -/
theorem write (h : Apart P d s) {f : Nat} (hf : ¬ P f) (hd : f ≠ d)
    (hmem : ∀ f' i, f' ≠ f → s'.mem f' i = s.mem f' i)
    (hfree : ∀ f ∈ s'.pageFreeList, f ∈ s.pageFreeList) : Spares P d s s' := by
  refine ⟨⟨h.dir, fun f hf => h.free f (hfree f hf), ?_⟩, ?_⟩
  · intro i hi
    rw [hmem d i (Ne.symm hd)]
    exact h.table i hi
  · intro f' hf' i
    refine hmem f' i ?_
    rintro rfl
    exact hf hf'

theorem store (h : Apart P d s) {f : Nat} (hf : ¬ P f) (hd : f ≠ d) (i w : Nat) :
    Spares P d s (s.store f i w) :=
  h.write hf hd (fun _ i' hne => Pmap.store_mem_frame s hne i') (fun _ hf => hf)

theorem copyWords (h : Apart P d s) {f : Nat} (hf : ¬ P f) (hd : f ≠ d) (w : Nat → Nat) :
    Spares P d s (s.copyWords f w) :=
  h.write hf hd (fun _ _ hne => if_neg fun hc => hne hc.1) (fun _ hf => hf)

/-- A word of the directory becomes `w`; below `UTOP` it names a good table. -/
theorem storeDir (h : Apart P d s) {i w : Nat}
    (hw : i < PDX UTOP → ¬ P (pteFrame w) ∧ pteFrame w ≠ d) : Spares P d s (s.store d i w) := by
  refine ⟨⟨h.dir, h.free, ?_⟩, ?_⟩
  · intro i' hi' hV
    by_cases hii : i' = i
    · subst hii
      rw [Pmap.store_mem_self]
      exact hw hi'
    · rw [Pmap.store_mem, if_neg fun hc => hii hc.2] at hV ⊢
      exact h.table i' hi' hV
  · intro f hf i'
    apply Pmap.store_mem_frame
    rintro rfl
    exact h.dir hf

/-- The window slot lies above. -/
theorem storeWindow (h : Apart P d s) (w : Nat) : Spares P d s (s.store d (PDX UVPT) w) := by
  apply h.storeDir
  intro hlt
  rw [PDX_UTOP, PDX_UVPT] at hlt
  omega

theorem alloc (h : Apart P d s) {pp : Nat} (ha : pageAlloc s = some (pp, s')) :
    Spares P d s s' ∧ ¬ P pp ∧ pp ≠ d ∧ pp < npage := by
  unfold pageAlloc at ha
  cases hl : s.pageFreeList with
  | nil => simp [hl] at ha
  | cons q rest =>
    simp only [hl, Option.some.injEq, Prod.mk.injEq] at ha
    obtain ⟨rfl, rfl⟩ := ha
    have hq := h.free q (by rw [hl]; exact List.mem_cons_self)
    refine ⟨h.write hq.1 hq.2.1 (fun f i hne => if_neg hne) ?_, hq⟩
    intro f hf
    rw [hl]
    exact List.mem_cons_of_mem _ hf

end Apart

/-- `page_alloc` empties a frame; no slot comes to map anything. -/
theorem pageAlloc_pteAt {pp i j w : Nat} (ha : pageAlloc s = some (pp, s')) (hd : pp ≠ d)
    (hw : s'.pteAt d i j = some w) : s.pteAt d i j = some w := by
  have hmem : ∀ f i, s'.mem f i = if f = pp then 0 else s.mem f i := by
    unfold pageAlloc at ha
    split at ha
    · cases ha
    · cases ha
      intro f i
      rfl
  unfold Pmap.pteAt at hw ⊢
  rw [hmem d i, if_neg (Ne.symm hd), hmem] at hw
  by_cases hz : pteFrame (s.mem d i) = pp
  · rw [if_pos hz, testFlag_zero_left] at hw
    simp at hw
  · rw [if_neg hz] at hw
    exact hw

theorem pageAlloc_ppRef {pp : Nat} (ha : pageAlloc s = some (pp, s')) : s'.ppRef = s.ppRef := by
  unfold pageAlloc at ha
  split at ha
  · cases ha
  · cases ha
    rfl

theorem kaddr_eq {pa t : Nat} (h : kaddr pa = .ok t) : t = pa2idx pa := by
  unfold kaddr at h
  split_ifs at h
  exact (Except.ok.inj h).symm

theorem pa2page_eq {pa pp : Nat} (h : pa2page pa = .ok pp) : pp = pa2idx pa ∧ pp < npage := by
  unfold pa2page at h
  split_ifs at h with hlt
  obtain rfl := Except.ok.inj h
  exact ⟨rfl, Nat.lt_of_not_le hlt⟩

/-- Without `create`, the walk changes nothing and ends in the page table. -/
theorem pgdirWalk_false {va : Nat} {r : Int} {pte : Option PtePtr}
    (h : pgdirWalk s d va false = .ok (r, pte, s')) :
    s' = s ∧ ((testFlag (s.mem d (PDX va)) PTE_V = true ∧
      pte = some (pteFrame (s.mem d (PDX va)), PTX va)) ∨
      (testFlag (s.mem d (PDX va)) PTE_V = false ∧ pte = none)) := by
  unfold pgdirWalk at h
  by_cases hV : testFlag (s.mem d (PDX va)) PTE_V = true
  · rw [if_pos hV] at h
    obtain ⟨t, ht, h⟩ := bind_eq_ok.mp h
    obtain rfl := kaddr_eq ht
    cases h
    exact ⟨rfl, Or.inl ⟨hV, rfl⟩⟩
  · rw [if_neg hV] at h
    cases h
    exact ⟨rfl, Or.inr ⟨Bool.eq_false_iff.mpr hV, rfl⟩⟩

/-- What `page_lookup` finds is what the hardware walk finds. -/
theorem pageLookup_pteAt {va pp : Nat} {p : PtePtr} (h : pageLookup s d va = .ok (some (pp, p))) :
    ∃ w, s.pteAt d (PDX va) (PTX va) = some w ∧ pp = pteFrame w ∧ pp < npage ∧
      testFlag (s.mem d (PDX va)) PTE_V = true ∧ p = (pteFrame (s.mem d (PDX va)), PTX va) := by
  obtain ⟨⟨r, pte, s₁⟩, hwalk, h⟩ := bind_eq_ok.mp h
  obtain ⟨-, ⟨hV, rfl⟩ | ⟨-, rfl⟩⟩ := pgdirWalk_false hwalk
  · simp only at h
    split_ifs at h with hW
    · obtain ⟨pp', hpp, h⟩ := bind_eq_ok.mp h
      obtain ⟨rfl, hlt⟩ := pa2page_eq hpp
      cases h
      refine ⟨_, ?_, rfl, hlt, hV, rfl⟩
      unfold Pmap.pteAt
      rw [if_pos hV, if_pos hW]
    · cases h
  · cases h

namespace Apart

-- ---------------------------------------------------------------------------
-- Walks, insertions and removals below UTOP
-- ---------------------------------------------------------------------------

/-- `pgdir_walk` ends in a page table of `d`, maybe a new one. -/
theorem pgdirWalk (h : Apart P d s) {va : Nat} (hva : va < UTOP) {r : Int} {pte : Option PtePtr}
    (hrun : Kern.pgdirWalk s d va true = .ok (r, pte, s')) :
    Spares P d s s' ∧ ∀ p, pte = some p → ¬ P p.1 ∧ p.1 ≠ d := by
  unfold Kern.pgdirWalk at hrun
  by_cases hV : testFlag (s.mem d (PDX va)) PTE_V = true
  · rw [if_pos hV] at hrun
    obtain ⟨t, ht, hrun⟩ := bind_eq_ok.mp hrun
    obtain rfl := kaddr_eq ht
    cases hrun
    refine ⟨Spares.refl h, ?_⟩
    intro p hp
    cases hp
    exact h.table _ (PDX_lt_UTOP hva) hV
  · rw [if_neg hV, if_pos rfl] at hrun
    cases ha : pageAlloc s with
    | none =>
      rw [ha] at hrun
      cases hrun
      exact ⟨Spares.refl h, fun p hp => nomatch hp⟩
    | some x =>
      obtain ⟨pp, s₁⟩ := x
      rw [ha] at hrun
      obtain ⟨t, ht, hrun⟩ := bind_eq_ok.mp hrun
      obtain rfl := kaddr_eq ht
      cases hrun
      -- the new table is a frame off the free list
      obtain ⟨h₁, hP, hd, hlt⟩ := h.alloc ha
      have h₂ : Spares P d s₁ (s₁.setRef pp 1) := h₁.apart.quiet rfl fun _ hf => hf
      have hframe : pteFrame (mkPde pp) = pp := pteFrame_mkPde hlt
      have h₃ := h₂.apart.storeDir (i := PDX va) (w := mkPde pp) fun _ => by
        rw [hframe]
        exact ⟨hP, hd⟩
      refine ⟨(h₁.trans h₂).trans h₃, ?_⟩
      intro p hp
      cases hp
      rw [Pmap.store_mem_self]
      change ¬ P (pteFrame (mkPde pp)) ∧ pteFrame (mkPde pp) ≠ d
      rw [hframe]
      exact ⟨hP, hd⟩

/-- `page_decref` frees a frame when its last reference goes. -/
theorem pageDecref (h : Apart P d s) {pp : Nat} (hlt : pp < npage)
    (hlast : s.ppRef pp % 2 ^ 16 = 1 → ¬ P pp ∧ pp ≠ d) (hrun : Kern.pageDecref s pp = .ok s') :
    Spares P d s s' := by
  unfold Kern.pageDecref at hrun
  split_ifs at hrun with hpos
  simp only [Pmap.setRef_ppRef_self] at hrun
  split_ifs at hrun with hz
  · have hone : s.ppRef pp % 2 ^ 16 = 1 := by omega
    unfold pageFree at hrun
    rw [Pmap.setRef_ppRef_self, if_pos hz] at hrun
    cases hrun
    obtain ⟨hP, hd⟩ := hlast hone
    refine ⟨⟨h.dir, ?_, h.table⟩, fun _ _ _ => rfl⟩
    intro f hf
    rcases List.mem_cons.mp hf with rfl | hf
    · exact ⟨hP, hd, hlt⟩
    · exact h.free f hf
  · cases hrun
    exact h.quiet rfl fun _ hf => hf

theorem pageRemove (h : Apart P d s) {asid va : Nat} (hva : va < UTOP) (hl : Loose P d s va)
    (hrun : Kern.pageRemove s d asid va = .ok s') : Spares P d s s' := by
  obtain ⟨x, hlook, hrun⟩ := bind_eq_ok.mp hrun
  cases x with
  | none =>
    cases hrun
    exact Spares.refl h
  | some y =>
    obtain ⟨pp, p⟩ := y
    obtain ⟨w, hw, rfl, hlt, hV, rfl⟩ := pageLookup_pteAt hlook
    obtain ⟨s₁, hdec, hrun⟩ := bind_eq_ok.mp hrun
    cases hrun
    obtain ⟨hP, hd⟩ := h.table _ (PDX_lt_UTOP hva) hV
    have h₁ := h.pageDecref hlt (hl w hw) hdec
    have h₂ := h₁.apart.store hP hd (PTX va) 0
    exact (h₁.trans h₂).trans (h₂.apart.quiet rfl fun _ hf => hf)

theorem pageInsertNew (h : Apart P d s) {asid pp va perm : Nat} (hva : va < UTOP) {r : Int}
    (hrun : Kern.pageInsertNew s d asid pp va perm = .ok (r, s')) : Spares P d s s' := by
  obtain ⟨⟨r₁, pte, s₁⟩, hwalk, hrun⟩ := bind_eq_ok.mp hrun
  obtain ⟨h₁, hpte⟩ := h.pgdirWalk hva hwalk
  cases pte with
  | none =>
    cases hrun
    exact h₁
  | some p =>
    cases hrun
    obtain ⟨hP, hd⟩ := hpte p rfl
    have h₂ := h₁.apart.store hP hd p.2 (mkPte pp perm)
    generalize s₁.store p.1 p.2 (mkPte pp perm) = s₂ at h₂ ⊢
    have h₃ : Spares P d s₂ (s₂.setRef pp ((s₂.ppRef pp + 1) % 2 ^ 16)) :=
      h₂.apart.quiet rfl fun _ hf => hf
    have h₄ := h₃.apart.storeWindow 0
    exact ((h₁.trans h₂).trans (h₃.trans h₄)).trans (h₄.apart.quiet rfl fun _ hf => hf)

theorem pageInsert (h : Apart P d s) {asid pp va perm : Nat} (hva : va < UTOP) (hl : Loose P d s va)
    {r : Int} (hrun : Kern.pageInsert s d asid pp va perm = .ok (r, s')) : Spares P d s s' := by
  obtain ⟨⟨r₁, pte, s₁⟩, hwalk, hrun⟩ := bind_eq_ok.mp hrun
  obtain ⟨rfl, ⟨hV, rfl⟩ | ⟨-, rfl⟩⟩ := pgdirWalk_false hwalk
  · simp only at hrun
    split_ifs at hrun with hW
    · obtain ⟨old, -, hrun⟩ := bind_eq_ok.mp hrun
      change (if old ≠ pp then _ else _) = _ at hrun
      split_ifs at hrun with hsame
      · obtain ⟨s₂, hrem, hrun⟩ := bind_eq_ok.mp hrun
        have h₁ := h.pageRemove hva hl hrem
        exact h₁.trans (h₁.apart.pageInsertNew hva hrun)
      · -- the same page again: only its entry is written
        cases hrun
        obtain ⟨hP, hd⟩ := h.table _ (PDX_lt_UTOP hva) hV
        have h₁ := h.store hP hd (PTX va) (mkPte pp (readable perm))
        exact h₁.trans (h₁.apart.quiet rfl fun _ hf => hf)
    · exact h.pageInsertNew hva hrun
  · exact h.pageInsertNew hva hrun

end Apart

-- ---------------------------------------------------------------------------
-- The kernel reads user memory
-- ---------------------------------------------------------------------------

/-- The env `c` runs on a directory that is apart from `P`, and so is its copy. -/
structure Aside (P : Nat → Prop) (c : Nat) (k : Kernel) : Prop where
  apart : Apart P k.curPgdir k.pm
  copy : (k.envs c).pgdirCopyPa ≠ 0 →
    ¬ P (pa2idx (k.envs c).pgdirCopyPa) ∧ pa2idx (k.envs c).pgdirCopyPa ≠ k.curPgdir

/-- Faults of the env `c` that spared `P`: no other env changed. -/
structure Passes (P : Nat → Prop) (c : Nat) (k k' : Kernel) : Prop where
  aside : Aside P c k'
  dir : k'.curPgdir = k.curPgdir
  mem : ∀ f, P f → ∀ i, k'.pm.mem f i = k.pm.mem f i
  other : ∀ e, e ≠ c → k'.envs e = k.envs e

namespace Passes

variable {c : Nat} {k k₁ k₂ : Kernel}

theorem refl (h : Aside P c k) : Passes P c k k := ⟨h, rfl, fun _ _ _ => rfl, fun _ _ => rfl⟩

theorem trans (h : Passes P c k k₁) (h' : Passes P c k₁ k₂) : Passes P c k k₂ :=
  ⟨h'.aside, h'.dir.trans h.dir, fun f hf i => (h'.mem f hf i).trans (h.mem f hf i),
    fun e he => (h'.other e he).trans (h.other e he)⟩

end Passes

namespace Aside

variable {c : Nat} {k k' : Kernel}

theorem pages (h : Aside P c k) {pm : Pmap} (hpm : Spares P k.curPgdir k.pm pm) :
    Passes P c k { k with pm := pm } :=
  ⟨⟨hpm.apart, h.copy⟩, rfl, hpm.mem, fun _ _ => rfl⟩

/-- The page goes to a slot that is empty, so nothing is released. -/
theorem passiveAlloc (h : Aside P c k) {va : Nat} (hva : va < UTOP)
    (hnone : k.pm.pteAt k.curPgdir (PDX va) (PTX va) = none) (hrun : Kern.passiveAlloc k c va = .ok k') :
    Passes P c k k' := by
  unfold Kern.passiveAlloc at hrun
  split_ifs at hrun
  cases ha : pageAlloc k.pm with
  | none =>
    rw [ha] at hrun
    cases hrun
  | some x =>
    obtain ⟨p, pm₁⟩ := x
    rw [ha] at hrun
    obtain ⟨⟨r, pm'⟩, hins, hrun⟩ := bind_eq_ok.mp hrun
    change (if r ≠ 0 then _ else _) = _ at hrun
    split_ifs at hrun
    obtain rfl := Except.ok.inj hrun
    obtain ⟨h₁, -, hd, -⟩ := h.apart.alloc ha
    have hloose : Loose P k.curPgdir pm₁ (ROUNDDOWN va BY2PG) := by
      intro w hw
      rw [PDX_ROUNDDOWN, PTX_ROUNDDOWN] at hw
      have hold := pageAlloc_pteAt ha hd hw
      rw [hnone] at hold
      cases hold
    have hlow := Nat.lt_of_le_of_lt (ROUNDDOWN_le va) hva
    exact h.pages (h₁.trans (h₁.apart.pageInsert hlow hloose hins))

/-- The frame of the copy is not in `P`, be it old or new. -/
theorem copyFrame (h : Aside P c k) {p : Nat} (hrun : Kern.copyFrame k c = .ok (p, k')) :
    Passes P c k k' ∧ ¬ P p ∧ p ≠ k.curPgdir := by
  unfold Kern.copyFrame at hrun
  split_ifs at hrun with hz
  · cases ha : pageAlloc k.pm with
    | none =>
      rw [ha] at hrun
      cases hrun
    | some x =>
      obtain ⟨q, pm₁⟩ := x
      rw [ha] at hrun
      cases hrun
      obtain ⟨h₁, hP, hd, hlt⟩ := h.apart.alloc ha
      have h₂ : Spares P k.curPgdir pm₁ (pm₁.setRef p ((pm₁.ppRef p + 1) % 2 ^ 16)) :=
        h₁.apart.quiet rfl fun _ hf => hf
      refine ⟨⟨⟨h₂.apart, ?_⟩, rfl, (h₁.trans h₂).mem, fun e he => Kernel.setEnv_of_ne _ _ _ he⟩, hP, hd⟩
      intro _
      rw [Kernel.setEnv_self]
      change ¬ P (pa2idx (page2pa p)) ∧ pa2idx (page2pa p) ≠ k.curPgdir
      rw [pa2idx_page2pa hlt]
      exact ⟨hP, hd⟩
  · obtain ⟨q, hq, hrun⟩ := bind_eq_ok.mp hrun
    obtain ⟨rfl, -⟩ := pa2page_eq hq
    cases hrun
    exact ⟨Passes.refl h, h.copy hz⟩

theorem mapWindow (h : Aside P c k) (hrun : Kern.mapWindow k c = .ok k') : Passes P c k k' := by
  obtain ⟨⟨p, k₁⟩, hcopy, hrun⟩ := bind_eq_ok.mp hrun
  cases hrun
  obtain ⟨h₁, hP, hd⟩ := h.copyFrame hcopy
  rw [← h₁.dir] at hd
  have h₂ := h₁.aside.apart.copyWords hP hd (copyWord k₁.pm k₁.curPgdir)
  exact h₁.trans (h₁.aside.pages (h₂.trans (h₂.apart.storeWindow (mkPde p))))

theorem loadFault (h : Aside P c k) {addr : Nat}
    (hnone : k.pm.pteAt k.curPgdir (PDX addr) (PTX addr) = none)
    (hrun : Kern.loadFault k c addr = .ok k') : Passes P c k k' := by
  unfold Kern.loadFault at hrun
  split_ifs at hrun with hlow
  · have hU : USTACKTOP ≤ UTOP := by decide
    exact h.passiveAlloc (Nat.lt_of_lt_of_le hlow.2 hU) hnone hrun
  · obtain ⟨k₁, hmap, hrun⟩ := bind_eq_ok.mp hrun
    split_ifs at hrun
    obtain rfl := Except.ok.inj hrun
    exact h.mapWindow hmap

theorem kernelLoad (h : Aside P c k) {va x : Nat} (hrun : Kern.kernelLoad k c va = .ok (x, k')) :
    Passes P c k k' := by
  obtain ⟨k₁, hpage, hrun⟩ := bind_eq_ok.mp hrun
  have h₁ : Passes P c k k₁ := by
    unfold withPage at hpage
    cases hw : k.pm.pteAt k.curPgdir (PDX va) (PTX va) with
    | some w =>
      rw [hw] at hpage
      cases hpage
      exact Passes.refl h
    | none =>
      rw [hw] at hpage
      exact h.loadFault (by rw [PDX_ROUNDDOWN, PTX_ROUNDDOWN]; exact hw) hpage
  cases hw : k₁.pm.pteAt k₁.curPgdir (PDX va) (PTX va) with
  | none =>
    rw [hw] at hrun
    cases hrun
  | some w =>
    rw [hw] at hrun
    change (if testFlag w PTE_R = true then _ else _) = _ at hrun
    split_ifs at hrun
    obtain ⟨-, rfl⟩ := Prod.mk.inj (Except.ok.inj hrun)
    exact h₁

/-- **Reading user memory** spares what is apart from the running env. -/
theorem kernelLoads (h : Aside P c k) {va n : Nat} {bs : List Nat}
    (hrun : Kern.kernelLoads k c va n = .ok (bs, k')) : Passes P c k k' := by
  induction n generalizing k va bs with
  | zero =>
    obtain ⟨-, rfl⟩ := Prod.mk.inj (Except.ok.inj hrun)
    exact Passes.refl h
  | succ n ih =>
    obtain ⟨⟨x, k₁⟩, hload, hrun⟩ := bind_eq_ok.mp hrun
    obtain ⟨⟨xs, k₂⟩, hloads, hrun⟩ := bind_eq_ok.mp hrun
    obtain ⟨-, rfl⟩ := Prod.mk.inj (Except.ok.inj hrun)
    have h₁ := h.kernelLoad hload
    exact h₁.trans (ih h₁.aside hloads)

end Aside

end Mos.Kern
