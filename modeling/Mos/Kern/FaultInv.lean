import Mos.Kern.KernInv

/-!
# MOS on RISC-V — page faults keep the kernel invariant

Every way a page fault ends without a panic, for a fault of the running env and
for one the kernel takes itself on user memory. The odd case is a store into
the `UVPT` window: `passive_alloc` maps a page there, and the `page_insert` that
does so closes the window again. The page, and a page table made for it, stay
with the kernel.
-/

namespace Mos.Kern

open Mos.Lib

/-- The kernel invariant for some roles, and no frame mapped `2 ^ 16` times. -/
def KernelOk (b : BootState) (k₀ : Kernel) (role₀ : Nat → Role) (k : Kernel) : Prop :=
  ∃ role, KernelInv b k₀ role₀ k role ∧ Bounded kernOwn role k.pm

/-- The env `e` is still there, with its mappings below `UTOP`. -/
structure KeepsSpace (k k' : Kernel) (e : Nat) : Prop where
  live : k'.Live e
  pgdir : (k'.envs e).pgdir = (k.envs e).pgdir
  maps : ∀ i < PDX UTOP, ∀ j w, k.pm.pteAt (k.envs e).pgdir i j = some w →
    k'.pm.pteAt (k.envs e).pgdir i j = some w

/-- Every env is. -/
def KeepsMaps (k k' : Kernel) : Prop := ∀ e, k.Live e → KeepsSpace k k' e

theorem KeepsSpace.trans {k k₁ k₂ : Kernel} {e : Nat} (h : KeepsSpace k k₁ e)
    (h' : KeepsSpace k₁ k₂ e) : KeepsSpace k k₂ e := by
  refine ⟨h'.live, h'.pgdir.trans h.pgdir, ?_⟩
  intro i hi j w hw
  have hw₁ := h.maps i hi j w hw
  rw [← h.pgdir] at hw₁ ⊢
  exact h'.maps i hi j w hw₁

theorem KeepsMaps.trans {k k₁ k₂ : Kernel} (h : KeepsMaps k k₁) (h' : KeepsMaps k₁ k₂) :
    KeepsMaps k k₂ := fun e he => (h e he).trans (h' e (h e he).live)

/-- Nothing happened to the pages. -/
theorem KeepsMaps.of_eq {k k' : Kernel} (hpm : k'.pm = k.pm)
    (henvs : ∀ e, k.Live e → k'.Live e ∧ (k'.envs e).pgdir = (k.envs e).pgdir) : KeepsMaps k k' := by
  intro e he
  refine ⟨(henvs e he).1, (henvs e he).2, ?_⟩
  intro i _ j w hw
  rw [hpm]
  exact hw

theorem KeepsMaps.refl (k : Kernel) : KeepsMaps k k := .of_eq rfl fun _ he => ⟨he, rfl⟩

/-- What a fault gives: the invariant, the envs as they were, and the mappings. -/
structure FaultOk (b : BootState) (k₀ : Kernel) (role₀ : Nat → Role) (k k' : Kernel) : Prop where
  ok : KernelOk b k₀ role₀ k'
  same : SameEnvs k k'
  maps : KeepsMaps k k'

variable {b : BootState} {k₀ k : Kernel} {role₀ role : Nat → Role}

namespace KernelInv

/-- Mappings are kept when the view of every mapped slot is. -/
theorem keepsSpace {k' : Kernel} {role' : Nat → Role} (h : KernelInv b k₀ role₀ k role) {e : Nat}
    (he : k.Live e) (hlive : k'.Live e) (hpg : (k'.envs e).pgdir = (k.envs e).pgdir)
    (hview : ∀ x, x.1 = (k.envs e).pgdir → (view kernOwn role k.pm x).isSome →
      view kernOwn role' k'.pm x = view kernOwn role k.pm x) : KeepsSpace k k' e := by
  refine ⟨hlive, hpg, ?_⟩
  intro i hi j w hw
  have hv : view kernOwn role k.pm ((k.envs e).pgdir, i, j) = some w := by
    unfold view
    rw [if_pos ⟨h.dir e he, kernOwn_iff.mpr hi⟩]
    exact hw
  have hv' := hview _ rfl (by rw [hv]; rfl)
  rw [hv] at hv'
  unfold view at hv'
  split_ifs at hv'
  exact hv'

theorem keepsMaps {k' : Kernel} {role' : Nat → Role} (h : KernelInv b k₀ role₀ k role)
    (hsame : SameEnvs k k')
    (hview : ∀ x, (view kernOwn role k.pm x).isSome → view kernOwn role' k'.pm x = view kernOwn role k.pm x) :
    KeepsMaps k k' :=
  fun e he => h.keepsSpace he (hsame.live he) (hsame.pgdir e) fun x _ => hview x

-- ---------------------------------------------------------------------------
-- A store into the window
-- ---------------------------------------------------------------------------

/-- The stores of `page_insert` for a page `p` in the window of the directory
`d`: the entry in `f`, the counter, the closed window, the flush. -/
def windowStore (pm : Pmap) (d f j w p asid : Nat) : Pmap :=
  tlbFlush (((pm.store f j w).setRef p (((pm.store f j w).ppRef p + 1) % 2 ^ 16)).store d
    (PDX UVPT) 0) asid 0

theorem windowStore_inv (h : KernelInv b k₀ role₀ k role) (hb : Booted b k₀ role₀) {c f p : Nat}
    (hcur : k.curenv = some c) (hf : role f = .held) (hf₀ : role₀ f = .free)
    (hfc : ∀ e, k.Live e → e ≠ c → ¬ k.CopyAt e f) (hp : role p = .fresh) (j w asid : Nat) :
    KernelInv b k₀ role₀ { k with pm := windowStore k.pm k.curPgdir f j w p asid }
      (Function.update role p .held) ∧
    view kernOwn (Function.update role p .held) (windowStore k.pm k.curPgdir f j w p asid) =
      view kernOwn role k.pm := by
  obtain ⟨hc, hd⟩ := h.cur c hcur
  have hdir : role k.curPgdir = .dir := by
    rw [hd]
    exact h.dir c hc
  have hfd : f ≠ k.curPgdir := by
    intro heq
    rw [heq, hdir] at hf
    simp at hf
  have hpd : k.curPgdir ≠ p := by
    intro heq
    rw [heq, hp] at hdir
    simp at hdir
  have href : (k.pm.store f j w).ppRef p = 0 := by
    have hr : RefOk (role p) (k.pm.ppRef p) _ := h.frames.refOk p
    rw [hp] at hr
    exact hr
  obtain ⟨pm', hpm'⟩ : ∃ pm', pm' = windowStore k.pm k.curPgdir f j w p asid := ⟨_, rfl⟩
  have hmem : ∀ g, g ≠ f → g ≠ k.curPgdir → ∀ i, pm'.mem g i = k.pm.mem g i := by
    intro g hgf hgd i
    rw [hpm', windowStore, tlbFlush_mem, Pmap.store_mem_frame _ hgd, Pmap.setRef_mem,
      Pmap.store_mem_frame _ hgf]
  have hmemd : ∀ i, i ≠ PDX UVPT → pm'.mem k.curPgdir i = k.pm.mem k.curPgdir i := by
    intro i hi
    rw [hpm', windowStore, tlbFlush_mem, Pmap.store_mem, if_neg (fun hc => hi hc.2), Pmap.setRef_mem,
      Pmap.store_mem_frame _ hfd.symm]
  have hmemu : pm'.mem k.curPgdir (PDX UVPT) = 0 := by
    rw [hpm', windowStore, tlbFlush_mem, Pmap.store_mem_self]
  obtain ⟨h₁, hv₁⟩ := h.frames.store_other (f := f) (i := j) (w := w) (by simp [hf]) (by simp [hf])
  obtain ⟨h₂, hv₂⟩ := h₁.hold hp
  have hdir₂ : Function.update role p .held k.curPgdir = .dir := by
    rw [Function.update_of_ne hpd]
    exact hdir
  obtain ⟨h₃, hv₃⟩ := h₂.store_other (f := k.curPgdir) (i := PDX UVPT) (w := 0)
    (fun _ => kernOwn_UVPT) (by simp [hdir₂])
  obtain ⟨h₄, hv₄⟩ := h₃.flush asid 0
  have heq : tlbFlush (((k.pm.store f j w).setRef p 1).store k.curPgdir (PDX UVPT) 0) asid 0 = pm' := by
    rw [hpm', windowStore, href]
    rfl
  rw [heq] at h₄ hv₄
  rw [← hpm']
  refine ⟨?_, hv₄.trans (hv₃.trans (hv₂.trans hv₁))⟩
  refine h.pagesCore h₄ ?_ ?_ ?_ ?_ ?_
  · intro g hg
    have hgp : g ≠ p := by rintro rfl; simp [hp] at hg
    rw [Function.update_of_ne hgp]
    exact hg
  · exact FrameInv.update_role_iff (by simp [hp]) (by simp)
  · intro g hg
    refine hmem g ?_ ?_
    · rintro rfl
      exact hg hf₀
    · rintro rfl
      rcases h.boot_role hb hg with e | e <;> simp [hdir] at e
  · intro d' hd' i _ hi
    by_cases hdc : d' = k.curPgdir
    · rw [hdc]
      exact hmemd i hi
    · refine hmem d' ?_ hdc i
      rintro rfl
      simp [hf] at hd'
  · intro e he
    by_cases hec : e = c
    · rw [hec, ← hd]
      exact Or.inl hmemu
    · have hed : (k.envs e).pgdir ≠ k.curPgdir := by
        intro heq
        exact hec (h.dirInj e c he hc (heq.trans hd))
      have hef : (k.envs e).pgdir ≠ f := by
        intro heq
        have := h.dir e he
        rw [heq, hf] at this
        simp at this
      rcases h.window e he with hz | ⟨g, hr, hcg, hw, hword⟩
      · exact Or.inl ((hmem _ hef hed _).trans hz)
      · have hgf : g ≠ f := by
          rintro rfl
          exact hfc e he hec hcg
        have hgd : g ≠ k.curPgdir := by
          rintro rfl
          simp [hdir] at hr
        refine Or.inr ⟨g, hr, hcg, (hmem _ hef hed _).trans hw, ?_⟩
        intro i hi
        rw [hmem g hgf hgd i, hword i hi]
        unfold copyWord
        rw [hmem _ hef hed i]

theorem pgdirWalk_mkPde {s : Pmap} {d f va : Nat} (hpde : s.mem d (PDX va) = mkPde f)
    (hlt : f < npage) (create : Bool) :
    pgdirWalk s d va create = .ok (0, some (f, PTX va), s) := by
  unfold pgdirWalk
  rw [hpde, if_pos (testFlag_V_mkPde f), PTE_ADDR_mkPde hlt,
    kaddr_ok (by rw [pa2idx_page2pa hlt]; exact hlt), pa2idx_page2pa hlt]
  rfl

/-- A word of the window that is overwritten anyway. -/
theorem windowStore_store (pm : Pmap) (d f v j w p asid : Nat) :
    (windowStore (pm.store d (PDX UVPT) v) d f j w p asid).mem =
      (windowStore pm d f j w p asid).mem := by
  funext g i
  simp only [windowStore, tlbFlush_mem, Pmap.store_mem, Pmap.setRef_mem]
  by_cases hg : g = d ∧ i = PDX UVPT
  · rw [if_pos hg, if_pos hg]
  · rw [if_neg hg, if_neg hg, if_neg hg]

/-- The invariant reads the words, the counters and the free list of the pages. -/
theorem ofPages {pm pm' : Pmap} (h : KernelInv b k₀ role₀ { k with pm := pm } role)
    (hm : pm'.mem = pm.mem) (hr : pm'.ppRef = pm.ppRef) (hl : pm'.pageFreeList = pm.pageFreeList) :
    KernelInv b k₀ role₀ { k with pm := pm' } role ∧ view kernOwn role pm' = view kernOwn role pm := by
  obtain ⟨hinv, hview⟩ := h.frames.of_eq hm hr hl
  refine ⟨?_, hview⟩
  refine h.pagesCore hinv (fun _ hf => hf) (fun _ => Iff.rfl) ?_ ?_ ?_
  · intro f _ i
    rw [hm]
  · intro d _ i _ _
    rw [hm]
  · have hcopy : copyWord pm' = copyWord pm := by
      funext d i
      unfold copyWord
      rw [hm]
    intro e he
    rw [hm, hcopy]
    exact h.window e he

/-- `passive_alloc` for an address in the window. -/
theorem windowInsert (h : KernelInv b k₀ role₀ k role) (hb : Booted b k₀ role₀)
    {c p va asid perm : Nat} (hcur : k.curenv = some c)
    (hva : PDX va = PDX UVPT) (hnone : k.pm.pteAt k.curPgdir (PDX va) (PTX va) = none)
    {pm₁ pm' : Pmap} (ha : pageAlloc k.pm = some (p, pm₁))
    (hrun : pageInsert pm₁ k.curPgdir asid p va perm = .ok (0, pm')) :
    ∃ role', KernelInv b k₀ role₀ { k with pm := pm' } role' ∧
      view kernOwn role' pm' = view kernOwn role k.pm := by
  obtain ⟨hfree, h₁, hv₁⟩ := h.alloc hb ha
  have hp : Function.update role p .fresh p = .fresh := Function.update_self ..
  obtain ⟨hc, hd⟩ := h.cur c hcur
  have hdir : role k.curPgdir = .dir := by
    rw [hd]
    exact h.dir c hc
  have hpmem : ∀ f, f ≠ p → ∀ i, pm₁.mem f i = k.pm.mem f i := by
    intro f hfp i
    unfold pageAlloc at ha
    cases hl : k.pm.pageFreeList with
    | nil => simp [hl] at ha
    | cons q rest =>
      simp only [hl, Option.some.injEq, Prod.mk.injEq] at ha
      obtain ⟨rfl, rfl⟩ := ha
      rw [Pmap.clear_mem, if_neg hfp]
  have hdp : k.curPgdir ≠ p := by
    intro heq
    rw [heq, hfree] at hdir
    simp at hdir
  rcases h.window c hc with hz | ⟨f, hf, hcf, hw, -⟩
  · -- the window is closed: a page table is made for the page
    rw [← hd, ← hva] at hz
    have habs : testFlag (pm₁.mem k.curPgdir (PDX va)) PTE_V = false := by
      rw [hpmem _ hdp, hz, testFlag_zero_left]
    have hnew : pageInsert pm₁ k.curPgdir asid p va perm =
        pageInsertNew pm₁ k.curPgdir asid p va (readable perm) := by
      unfold pageInsert
      rw [pgdirWalk_absent habs]
      rfl
    rw [hnew] at hrun
    unfold pageInsertNew at hrun
    cases hl : pm₁.pageFreeList with
    | nil =>
      rw [pgdirWalk_noMem habs hl] at hrun
      exact absurd (Prod.mk.inj (Except.ok.inj hrun)).1 (by decide)
    | cons t rest =>
      have ht : Function.update role p .fresh t = .free := (h₁.frames.freeIff t).mp (by simp [hl])
      have htp : t ≠ p := by
        rintro rfl
        rw [hp] at ht
        simp at ht
      have hlt : t < npage := h₁.frames.lt_npage (by simp [ht])
      rw [pgdirWalk_create habs hl hlt] at hrun
      have hpm' : pm' = windowStore ((({ pm₁ with pageFreeList := rest }.clear t).setRef t 1).store
          k.curPgdir (PDX UVPT) (mkPde t)) k.curPgdir t (PTX va) (mkPte p (readable perm)) p asid := by
        rw [← hva]
        exact ((Prod.mk.inj (Except.ok.inj hrun)).2).symm
      obtain ⟨-, h₂, hv₂⟩ := h₁.alloc hb (pageAlloc_cons hl)
      obtain ⟨h₃, hv₃⟩ := h₂.hold hb (Function.update_self ..)
      rw [Function.update_idem] at h₃ hv₃
      have ht₀ : role₀ t = .free := by
        refine h₁.role₀_free hb (by simp [ht]) ?_
        intro e
        rw [h₁.held t e] at ht
        simp at ht
      obtain ⟨h₄, hv₄⟩ := h₃.windowStore_inv hb hcur (f := t) (p := p) (Function.update_self ..) ht₀
        (by
          intro e he _ hcopy
          have hheld := (h₁.copyAt_held he hlt hcopy).1
          rw [ht] at hheld
          simp at hheld)
        (by rw [Function.update_of_ne htp.symm]; exact hp) (PTX va) (mkPte p (readable perm)) asid
      obtain ⟨h₅, hv₅⟩ := h₄.ofPages (hpm' ▸ windowStore_store ..) (hpm' ▸ rfl) (hpm' ▸ rfl)
      exact ⟨_, h₅, hv₅.trans (hv₄.trans (hv₃.trans (hv₂.trans hv₁)))⟩
  · -- the window is open: the entry goes into the copy
    rw [← hd, ← hva] at hw
    have hlt : f < npage := h.frames.lt_npage (by simp [hf])
    have hfp : f ≠ p := by
      rintro rfl
      simp [hfree] at hf
    have hpde : pm₁.mem k.curPgdir (PDX va) = mkPde f := (hpmem _ hdp _).trans hw
    have hV : testFlag (pm₁.mem f (PTX va)) PTE_V = false := by
      unfold Pmap.pteAt at hnone
      rw [hw, if_pos (testFlag_V_mkPde f), pteFrame_mkPde hlt] at hnone
      split_ifs at hnone with hV
      rw [hpmem f hfp]
      simpa using hV
    have hnew : pageInsert pm₁ k.curPgdir asid p va perm = .ok (0, windowStore pm₁ k.curPgdir f (PTX va)
        (mkPte p (readable perm)) p asid) := by
      unfold pageInsert
      rw [pgdirWalk_mkPde hpde hlt]
      show (if testFlag (pm₁.mem f (PTX va)) PTE_V = true then _ else _) = _
      rw [if_neg (by simp [hV])]
      unfold pageInsertNew
      rw [pgdirWalk_mkPde hpde hlt]
      rfl
    rw [hnew] at hrun
    obtain rfl := (Prod.mk.inj (Except.ok.inj hrun)).2
    have hf₁ : Function.update role p .fresh f = .held := by
      rw [Function.update_of_ne hfp]
      exact hf
    have hf₀ : role₀ f = .free := h.role₀_free hb (by simp [hf]) (h.copyAt_held hc hlt hcf).2
    obtain ⟨h₂, hv₂⟩ := h₁.windowStore_inv hb hcur hf₁ hf₀
      (by
        intro e he hec hcopy
        exact hec (h.copyInj e c f he hc hf hcopy hcf))
      hp (PTX va) (mkPte p (readable perm)) asid
    exact ⟨_, h₂, hv₂.trans hv₁⟩

end KernelInv

-- ---------------------------------------------------------------------------
-- passive_alloc and the load fault
-- ---------------------------------------------------------------------------

theorem PDX_ROUNDDOWN (va : Nat) : PDX (ROUNDDOWN va BY2PG) = PDX va := by
  rw [PDX_eq, PDX_eq]
  unfold ROUNDDOWN BY2PG
  omega

theorem PTX_ROUNDDOWN (va : Nat) : PTX (ROUNDDOWN va BY2PG) = PTX va := by
  rw [PTX_eq, PTX_eq]
  unfold ROUNDDOWN BY2PG
  omega

theorem ROUNDDOWN_le (va : Nat) : ROUNDDOWN va BY2PG ≤ va := Nat.sub_le _ _

theorem PDX_of_window {va : Nat} (hlo : UVPT ≤ va) (hhi : va < ULIM) : PDX va = PDX UVPT := by
  have hu : UVPT = 0x7fc00000 := by decide
  have hl : ULIM = 0x80000000 := by decide
  rw [hu] at hlo
  rw [hl] at hhi
  rw [PDX_UVPT, PDX_eq]
  omega

theorem pteAt_of_lookup_none {s : Pmap} {d va : Nat} (h : pageLookup s d va = .ok none) :
    s.pteAt d (PDX va) (PTX va) = none := by
  unfold Pmap.pteAt
  by_cases hpde : testFlag (s.mem d (PDX va)) PTE_V = true
  · rw [if_pos hpde]
    by_cases hlt : pa2idx (PTE_ADDR (s.mem d (PDX va))) < npage
    · have hwalk : pgdirWalk s d va false = .ok (0, some (pteFrame (s.mem d (PDX va)), PTX va), s) := by
        unfold pgdirWalk
        rw [if_pos hpde, kaddr_ok hlt]
        rfl
      unfold pageLookup at h
      rw [hwalk] at h
      change (if testFlag (s.mem (pteFrame (s.mem d (PDX va))) (PTX va)) PTE_V = true then _ else _) = _ at h
      split_ifs at h with hpte
      · obtain ⟨pp, -, hpp⟩ := bind_eq_ok.mp h
        cases hpp
      · rw [if_neg hpte]
    · have hbad : kaddr (PTE_ADDR (s.mem d (PDX va))) = .error .kaddr := if_pos (Nat.le_of_not_lt hlt)
      unfold pageLookup pgdirWalk at h
      rw [if_pos hpde, hbad] at h
      cases h
  · rw [if_neg hpde]

theorem passiveAlloc_inv (h : KernelOk b k₀ role₀ k) (hb : Booted b k₀ role₀) {c va : Nat}
    (hcur : k.curenv = some c) (hnone : k.pm.pteAt k.curPgdir (PDX va) (PTX va) = none) {k' : Kernel}
    (hrun : passiveAlloc k c va = .ok k') : FaultOk b k₀ role₀ k k' := by
  obtain ⟨role, h, hbd⟩ := h
  obtain ⟨hc, hd⟩ := h.cur c hcur
  unfold passiveAlloc at hrun
  split_ifs at hrun with h1 h2 h3 h4 h5
  cases ha : pageAlloc k.pm with
  | none =>
    rw [ha] at hrun
    cases hrun
  | some x =>
    obtain ⟨p, pm₁⟩ := x
    rw [ha] at hrun
    obtain ⟨⟨r, pm'⟩, hins, hrun⟩ := bind_eq_ok.mp hrun
    have hlt : p < npage := h.frames.lt_npage (by rw [(h.alloc hb ha).1]; simp)
    have hframe : pteFrame (mkPte p (readable (PTE_R ||| PTE_W ||| PTE_U))) = p := by
      unfold pteFrame
      rw [PTE_ADDR_mkPte hlt (by decide), pa2idx_page2pa hlt]
    change (if r ≠ 0 then _ else _) = _ at hrun
    split_ifs at hrun with hr
    obtain rfl := Except.ok.inj hrun
    rw [ne_eq, not_not] at hr
    have hva : va < UTOP ∨ UVPT ≤ va ∧ va < ULIM := by
      have hU : UENVS = UTOP := rfl
      omega
    rcases hva with hlow | ⟨hlo, hhi⟩
    · rw [hd] at hins
      obtain ⟨role', h', hbd', hv⟩ := h.allocInsert hb hbd hc
        (Nat.lt_of_le_of_lt (ROUNDDOWN_le va) hlow) ha hframe hins
      have hmaps : ∀ x, (view kernOwn role k.pm x).isSome →
          view kernOwn role' pm' x = view kernOwn role k.pm x := by
        intro x hx
        refine hv x ?_
        -- the page is mapped at a slot that was empty
        rintro rfl
        unfold view slotOf at hx
        simp only [PDX_ROUNDDOWN, PTX_ROUNDDOWN, ← hd, hnone] at hx
        split_ifs at hx <;> cases hx
      exact ⟨⟨role', h', hbd'⟩, ⟨fun _ => rfl, rfl, rfl⟩, h.keepsMaps ⟨fun _ => rfl, rfl, rfl⟩ hmaps⟩
    · subst hr
      obtain ⟨role', h', hv⟩ := h.windowInsert hb hcur
        (by rw [PDX_ROUNDDOWN]; exact PDX_of_window hlo hhi)
        (by rw [PDX_ROUNDDOWN, PTX_ROUNDDOWN]; exact hnone) ha hins
      exact ⟨⟨role', h', KernelInv.bounded_view hbd hv⟩, ⟨fun _ => rfl, rfl, rfl⟩,
        h.keepsMaps ⟨fun _ => rfl, rfl, rfl⟩ fun x _ => congrFun hv x⟩

theorem loadFault_inv (h : KernelOk b k₀ role₀ k) (hb : Booted b k₀ role₀) {c addr : Nat}
    (hcur : k.curenv = some c) (hnone : k.pm.pteAt k.curPgdir (PDX addr) (PTX addr) = none)
    {k' : Kernel} (hrun : loadFault k c addr = .ok k') : FaultOk b k₀ role₀ k k' := by
  unfold loadFault at hrun
  split_ifs at hrun with h1 h2
  · exact passiveAlloc_inv h hb hcur hnone hrun
  · obtain ⟨k₁, hmap, hrun⟩ := bind_eq_ok.mp hrun
    split_ifs at hrun
    obtain rfl := Except.ok.inj hrun
    obtain ⟨role, h, hbd⟩ := h
    obtain ⟨role', h', hsame, hv⟩ := h.mapWindow_inv hb hcur hmap
    exact ⟨⟨role', h', KernelInv.bounded_view hbd hv⟩, hsame,
      h.keepsMaps hsame fun x _ => congrFun hv x⟩

-- ---------------------------------------------------------------------------
-- The kernel on user memory
-- ---------------------------------------------------------------------------

theorem FaultOk.refl (h : KernelOk b k₀ role₀ k) : FaultOk b k₀ role₀ k k :=
  ⟨h, SameEnvs.refl k, .refl k⟩

theorem FaultOk.trans {k₁ k₂ : Kernel} (h : FaultOk b k₀ role₀ k k₁) (h' : FaultOk b k₀ role₀ k₁ k₂) :
    FaultOk b k₀ role₀ k k₂ := ⟨h'.ok, h.same.trans h'.same, h.maps.trans h'.maps⟩

theorem withPage_inv (h : KernelOk b k₀ role₀ k) {va : Nat} {fault : Result Kernel} {k' : Kernel}
    (hfault : k.pm.pteAt k.curPgdir (PDX va) (PTX va) = none → fault = .ok k' →
      FaultOk b k₀ role₀ k k')
    (hrun : withPage k va fault = .ok k') : FaultOk b k₀ role₀ k k' := by
  unfold withPage at hrun
  cases hw : k.pm.pteAt k.curPgdir (PDX va) (PTX va) with
  | some w =>
    rw [hw] at hrun
    obtain rfl := Except.ok.inj hrun
    exact FaultOk.refl h
  | none =>
    rw [hw] at hrun
    exact hfault hw hrun

theorem kernelLoad_inv (h : KernelOk b k₀ role₀ k) (hb : Booted b k₀ role₀) {c va x : Nat}
    (hcur : k.curenv = some c) {k' : Kernel} (hrun : kernelLoad k c va = .ok (x, k')) :
    FaultOk b k₀ role₀ k k' := by
  unfold kernelLoad at hrun
  obtain ⟨k₁, hpage, hrun⟩ := bind_eq_ok.mp hrun
  have h₁ : FaultOk b k₀ role₀ k k₁ := by
    refine withPage_inv h ?_ hpage
    intro hnone hfault
    refine loadFault_inv h hb hcur ?_ hfault
    rw [PDX_ROUNDDOWN, PTX_ROUNDDOWN]
    exact hnone
  cases hw : k₁.pm.pteAt k₁.curPgdir (PDX va) (PTX va) with
  | none =>
    rw [hw] at hrun
    cases hrun
  | some w =>
    rw [hw] at hrun
    change (if testFlag w PTE_R = true then _ else _) = _ at hrun
    split_ifs at hrun
    obtain ⟨-, rfl⟩ := Prod.mk.inj (Except.ok.inj hrun)
    exact h₁

theorem kernelLoads_inv (h : KernelOk b k₀ role₀ k) (hb : Booted b k₀ role₀) {c va n : Nat}
    {bs : List Nat} (hcur : k.curenv = some c) {k' : Kernel}
    (hrun : kernelLoads k c va n = .ok (bs, k')) : FaultOk b k₀ role₀ k k' := by
  induction n generalizing k va bs with
  | zero =>
    obtain ⟨-, rfl⟩ := Prod.mk.inj (Except.ok.inj hrun)
    exact FaultOk.refl h
  | succ n ih =>
    obtain ⟨⟨x, k₁⟩, hload, hrun⟩ := bind_eq_ok.mp hrun
    obtain ⟨⟨xs, k₂⟩, hloads, hrun⟩ := bind_eq_ok.mp hrun
    obtain ⟨-, rfl⟩ := Prod.mk.inj (Except.ok.inj hrun)
    have h₁ := kernelLoad_inv h hb hcur hload
    exact h₁.trans (ih h₁.ok (h₁.same.curenv.trans hcur) hloads)

/-- A byte of a page mapped below `UTOP`. -/
theorem storeByte_inv (h : KernelOk b k₀ role₀ k) (hb : Booted b k₀ role₀) {c va w : Nat}
    (hcur : k.curenv = some c) (hva : PDX va < PDX UTOP)
    (hw : k.pm.pteAt k.curPgdir (PDX va) (PTX va) = some w) (a x : Nat) :
    FaultOk b k₀ role₀ k { k with pm := k.pm.storeByte (pteFrame w) a x } := by
  obtain ⟨role, h, hbd⟩ := h
  obtain ⟨hc, hd⟩ := h.cur c hcur
  rw [hd] at hw
  have hdata := h.pteAt_data hc hva hw
  obtain ⟨h', hv⟩ := h.store hb (Or.inl hdata) (a / 4) (setByte (k.pm.mem (pteFrame w) (a / 4)) (a % 4) x)
  exact ⟨⟨role, h', KernelInv.bounded_view hbd hv⟩, ⟨fun _ => rfl, rfl, rfl⟩,
    h.keepsMaps ⟨fun _ => rfl, rfl, rfl⟩ fun y _ => congrFun hv y⟩

theorem kernelStore_inv (h : KernelOk b k₀ role₀ k) (hb : Booted b k₀ role₀) {c va x : Nat}
    (hcur : k.curenv = some c) (hva : va < UTOP) {k' : Kernel} (hrun : kernelStore k c va x = .ok k') :
    FaultOk b k₀ role₀ k k' := by
  unfold kernelStore at hrun
  obtain ⟨k₁, hpage, hrun⟩ := bind_eq_ok.mp hrun
  have h₁ : FaultOk b k₀ role₀ k k₁ := by
    refine withPage_inv h ?_ hpage
    intro hnone hfault
    refine passiveAlloc_inv h hb hcur ?_ hfault
    rw [PDX_ROUNDDOWN, PTX_ROUNDDOWN]
    exact hnone
  cases hw : k₁.pm.pteAt k₁.curPgdir (PDX va) (PTX va) with
  | none =>
    rw [hw] at hrun
    cases hrun
  | some w =>
    rw [hw] at hrun
    change (if testFlag w PTE_W = true then _ else _) = _ at hrun
    split_ifs at hrun
    obtain rfl := Except.ok.inj hrun
    exact h₁.trans
      (storeByte_inv h₁.ok hb (h₁.same.curenv.trans hcur) (PDX_lt_UTOP hva) hw (va % BY2PG) x)

theorem kernelStores_inv (h : KernelOk b k₀ role₀ k) (hb : Booted b k₀ role₀) {c va : Nat}
    {bs : List Nat} (hcur : k.curenv = some c) (hva : va + bs.length ≤ UTOP) {k' : Kernel}
    (hrun : kernelStores k c va bs = .ok k') : FaultOk b k₀ role₀ k k' := by
  induction bs generalizing k va with
  | nil =>
    obtain rfl := Except.ok.inj hrun
    exact FaultOk.refl h
  | cons x bs ih =>
    rw [List.length_cons] at hva
    obtain ⟨k₁, hstore, hrun⟩ := bind_eq_ok.mp hrun
    have h₁ := kernelStore_inv h hb hcur (by omega) hstore
    exact h₁.trans (ih h₁.ok (h₁.same.curenv.trans hcur) (by omega) hrun)

-- ---------------------------------------------------------------------------
-- The handlers
-- ---------------------------------------------------------------------------

theorem flatMap_wordBytes_length (l : List Nat) : (l.flatMap wordBytes).length = 4 * l.length := by
  induction l with
  | nil => rfl
  | cons w l ih =>
    rw [List.flatMap_cons, List.length_append, ih, List.length_cons]
    simp only [wordBytes, List.length_map, List.length_range]
    omega

theorem Trapframe.bytes_length (tf : Trapframe) : tf.bytes.length = TRAPFRAME_SIZE := by
  unfold Trapframe.bytes
  rw [flatMap_wordBytes_length]
  simp [Trapframe.words, TRAPFRAME_SIZE]

theorem modFrameVa_le (tf : Trapframe) : modFrameVa tf + TRAPFRAME_SIZE ≤ UTOP := by
  have hU : UXSTACKTOP = UTOP := rfl
  have hlow : TRAPFRAME_SIZE ≤ USTACKTOP := by decide
  have hus : USTACKTOP ≤ UTOP := by decide
  unfold modFrameVa
  split_ifs with hs <;> omega

/-- A trap frame is nobody's concern. -/
theorem KernelOk.setTf (h : KernelOk b k₀ role₀ k) (tf : Trapframe) :
    KernelOk b k₀ role₀ { k with tf := tf } := by
  obtain ⟨role, h, hbd⟩ := h
  exact ⟨role, h.congr rfl (fun _ => Iff.rfl) (fun _ _ => rfl) (fun _ _ => rfl) rfl rfl rfl h.cur h.dst, hbd⟩

theorem doTlbMod_inv (h : KernelOk b k₀ role₀ k) (hb : Booted b k₀ role₀) {c : Nat}
    (hcur : k.curenv = some c) {k' : Kernel} (hrun : doTlbMod k c = .ok k') :
    FaultOk b k₀ role₀ k k' := by
  unfold doTlbMod at hrun
  obtain ⟨k₁, hstores, hrun⟩ := bind_eq_ok.mp hrun
  have h₁ := kernelStores_inv h hb hcur (by rw [Trapframe.bytes_length]; exact modFrameVa_le k.tf) hstores
  split_ifs at hrun
  obtain rfl := Except.ok.inj hrun
  exact h₁.trans ⟨h₁.ok.setTf _, ⟨fun _ => rfl, rfl, rfl⟩, .of_eq rfl fun _ he => ⟨he, rfl⟩⟩

theorem doTlbMiss_inv (h : KernelOk b k₀ role₀ k) (hb : Booted b k₀ role₀) {c : Nat}
    (hcur : k.curenv = some c) {k' : Kernel} (hrun : doTlbMiss k c = .ok k') :
    FaultOk b k₀ role₀ k k' := by
  unfold doTlbMiss at hrun
  obtain ⟨x, hlook, hrun⟩ := bind_eq_ok.mp hrun
  cases x with
  | some y =>
    change (if k.tf.scause = 15 ∧ _ then _ else _) = _ at hrun
    split_ifs at hrun
    exact doTlbMod_inv h hb hcur hrun
  | none =>
    have hnone := pteAt_of_lookup_none hlook
    change (if k.tf.scause = 15 then _ else _) = _ at hrun
    split_ifs at hrun
    · exact passiveAlloc_inv h hb hcur hnone hrun
    · exact loadFault_inv h hb hcur hnone hrun

-- ---------------------------------------------------------------------------
-- Stores by the running env
-- ---------------------------------------------------------------------------

theorem Booted.kernelPgdir_eq (hb : Booted b k₀ role₀) : k₀.kernelPgdir = b.kernelPgdir := by
  obtain ⟨pm, p, rfl⟩ := hb.eq
  rfl

/-- A frame `page_init` marked used. -/
theorem Booted.reserved (hb : Booted b k₀ role₀) {f : Nat} (hf : f < usedFrames b.freemem) :
    role₀ f = .reserved := by
  by_contra hne
  have hman := (hb.inv.managed f).mp hne
  omega

/-- What the kernel half of a directory leads to. -/
theorem Booted.template (hb : Booted b k₀ role₀) {i : Nat}
    (hV : testFlag (templateWord k₀ i) PTE_V = true) :
    testFlag (templateWord k₀ i) PTE_W = false ∧ role₀ (pteFrame (templateWord k₀ i)) ≠ .free ∧
      ∀ j, testFlag (k₀.pm.mem (pteFrame (templateWord k₀ i)) j) PTE_U = false ∨
        testFlag (k₀.pm.mem (pteFrame (templateWord k₀ i)) j) PTE_W = false := by
  unfold templateWord at hV ⊢
  by_cases hbase : PDX UTOP ≤ i ∧ i < PDX UVPT
  · rw [if_pos hbase] at hV ⊢
    obtain ⟨t, -, ht, hw, hno⟩ := hb.tables i hbase.2 hV
    have hlt : t < npage := hb.inv.lt_npage (by simp [ht])
    rw [hw, pteFrame_mkPde hlt]
    refine ⟨testFlag_mkPde t (k := 2) (by decide) (by decide), by simp [ht], fun j => Or.inr (hno j)⟩
  · rw [if_neg hbase, hb.kernelPgdir_eq] at hV ⊢
    obtain ⟨hlt, hno⟩ := b.kernelPte i hV
    have hres := hb.reserved hlt
    refine ⟨b.kernelPde i, by simp [hres], fun j => Or.inl ?_⟩
    rw [hb.kept _ hres]
    exact hno j

/-- The entries of a directory are not writable themselves. -/
theorem KernelInv.pde_not_W (h : KernelInv b k₀ role₀ k role) (hb : Booted b k₀ role₀) {e i : Nat}
    (he : k.Live e) (hi : i < 1024) (hiu : i ≠ PDX UVPT)
    (hV : testFlag (k.pm.mem (k.envs e).pgdir i) PTE_V = true) :
    testFlag (k.pm.mem (k.envs e).pgdir i) PTE_W = false := by
  rcases Nat.lt_or_ge i (PDX UTOP) with hlow | hhigh
  · obtain ⟨t, ht⟩ := h.frames.pdeTable _ i (h.dir e he) (kernOwn_iff.mpr hlow) hV
    rw [(h.frames.tablePde t _ i ht).2.2]
    exact testFlag_mkPde t (k := 2) (by decide) (by decide)
  · rw [h.half e he i hhigh hi hiu] at hV ⊢
    exact (hb.template hV).1

/-- The copy in the window is not writable. -/
theorem KernelInv.copyWord_not_W (h : KernelInv b k₀ role₀ k role) (hb : Booted b k₀ role₀)
    {e i : Nat} (he : k.Live e) (hi : i < 1024)
    (hV : testFlag (copyWord k.pm (k.envs e).pgdir i) PTE_V = true) :
    testFlag (copyWord k.pm (k.envs e).pgdir i) PTE_W = false := by
  have hRU : testFlag (PTE_R ||| PTE_U) (2 ^ 2) = false := by decide
  unfold copyWord at hV ⊢
  by_cases hiu : i = PDX UVPT
  · rw [if_pos hiu]
    have hVRU : testFlag (PTE_V ||| PTE_R ||| PTE_U) (2 ^ 2) = false := by decide
    rw [Nat.or_assoc, Nat.or_assoc, show PTE_W = 2 ^ 2 from rfl, testFlag_or, testFlag_two_pow,
      testBit_ADDR_PTE _ (by decide), ← Nat.or_assoc, hVRU]
    rfl
  · rw [if_neg hiu] at hV ⊢
    split_ifs at hV ⊢ with hVd
    · rw [show PTE_W = 2 ^ 2 from rfl, testFlag_or, hRU, Bool.or_false]
      exact h.pde_not_W hb he hi hiu hVd
    · exact absurd hV hVd

/-- A page the running env may write lies below `UTOP`. -/
theorem KernelInv.writable_low (h : KernelInv b k₀ role₀ k role) (hb : Booted b k₀ role₀)
    {e i j w : Nat} (he : k.Live e) (hi : i < 1024) (hj : j < 1024)
    (hw : k.pm.pteAt (k.envs e).pgdir i j = some w) (hU : testFlag w PTE_U = true)
    (hW : testFlag w PTE_W = true) : i < PDX UTOP := by
  by_contra hlow
  unfold Pmap.pteAt at hw
  split_ifs at hw with hpde hpte
  obtain rfl := Option.some.inj hw
  by_cases hiu : i = PDX UVPT
  · rcases h.window e he with hz | ⟨f, hf, -, hwin, hword⟩
    · rw [hiu, hz] at hpde
      simp at hpde
    · have hlt : f < npage := h.frames.lt_npage (by simp [hf])
      rw [hiu, hwin, pteFrame_mkPde hlt, hword j hj] at hpte hW
      rw [h.copyWord_not_W hb he hj hpte] at hW
      simp at hW
  · rw [h.half e he i (by omega) hi hiu] at hpde hU hW
    obtain ⟨-, hboot, hno⟩ := hb.template hpde
    rw [h.kept _ hboot] at hU hW
    rcases hno j with hU' | hW'
    · rw [hU'] at hU
      simp at hU
    · rw [hW'] at hW
      simp at hW

theorem userStore_inv (h : KernelOk b k₀ role₀ k) (hb : Booted b k₀ role₀) {c : Nat}
    (hcur : k.curenv = some c) (va x : Nat) : FaultOk b k₀ role₀ k (userStore k va x) := by
  unfold userStore
  cases hw : k.pm.pteAt k.curPgdir (PDX va) (PTX va) with
  | none => exact FaultOk.refl h
  | some w =>
    by_cases hUW : testFlag w PTE_U ∧ testFlag w PTE_W
    · have hlow : PDX va < PDX UTOP := by
        obtain ⟨role, hinv, -⟩ := h
        obtain ⟨hc, hd⟩ := hinv.cur c hcur
        rw [hd] at hw
        exact hinv.writable_low hb hc (PDX_lt va) (PTX_lt va) hw hUW.1 hUW.2
      simp only [if_pos hUW]
      exact storeByte_inv h hb hcur hlow hw (va % BY2PG) x
    · simp only [if_neg hUW]
      exact FaultOk.refl h

end Mos.Kern
