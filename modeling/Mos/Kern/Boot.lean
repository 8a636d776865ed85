import Mos.Lib.Except
import Mos.Kern.PageMap
import Mos.Kern.Syscall

/-!
# MOS on RISC-V — boot

`env_init` on what the earlier steps of `mips_init` leave: a kernel directory
without entries below `ULIM`, and the arrays `pages` and `envs` in frames that
`page_init` marks used. `boot_ok` shows that it succeeds when three frames are
free, and which frames it takes: `base_pgdir` and its two page tables, held by
the kernel from then on.
-/

namespace Mos.Kern

open Mos.Lib

/-- What `mips_vm_init`, `page_init` and `virtio_disk_init` leave. -/
structure BootState where
  freemem : Nat
  mem : Nat → Nat → Nat
  disk : Vring
  kernelPgdir : Nat → Nat
  pages : Nat                  -- the first frame of the array `pages`
  envs : Nat                   -- the first frame of the array `envs`
  kernelLow : ∀ i < PDX ULIM, kernelPgdir i = 0
  kernelPde : ∀ i, testFlag (kernelPgdir i) PTE_W = false
  kernelPte : ∀ i, testFlag (kernelPgdir i) PTE_V = true →
    pteFrame (kernelPgdir i) < usedFrames freemem ∧
      ∀ j, testFlag (mem (pteFrame (kernelPgdir i)) j) PTE_U = false
  usedLe : usedFrames freemem ≤ npage
  pagesUsed : pages + pagesPages ≤ usedFrames freemem
  envsUsed : envs + envsPages ≤ usedFrames freemem

def BootState.boot (b : BootState) : Result Kernel :=
  envInit (pageInit b.freemem b.mem) b.disk b.kernelPgdir (page2pa b.pages) (page2pa b.envs)

/-- The directory slots whose page tables an env owns: those below `UTOP`. -/
def kernOwn (i : Nat) : Bool := decide (i < PDX UTOP)

theorem kernOwn_iff {i : Nat} : kernOwn i = true ↔ i < PDX UTOP := by
  simp [kernOwn]

theorem kernOwn_lt (i : Nat) (h : kernOwn i = true) : i < 1024 :=
  Nat.lt_trans (kernOwn_iff.mp h) (by decide)

theorem kernOwn_UVPT : kernOwn (PDX UVPT) = false := by decide

/-- A word of a directory that leads to a page table held by the kernel, with
no writable entry. -/
def HeldPde (role : Nat → Role) (pm : Pmap) (p w : Nat) : Prop :=
  ∃ t, t ≠ p ∧ role t = .held ∧ w = mkPde t ∧ ∀ j, testFlag (pm.mem t j) PTE_W = false

/-- `base_pgdir` in frame `p` while `env_init` fills slot `i`: `n` pages are
mapped there, the slots below are empty, and no frame has another role yet. The
frames in use before hold what they held, `mem`. -/
structure Filling (mem : Nat → Nat → Nat) (lo : Nat) (p i n : Nat) (pm : Pmap)
    (role : Nat → Role) : Prop where
  inv : FrameInv kernOwn lo pm role
  kept : ∀ f, role f = .reserved → ∀ j, pm.mem f j = mem f j
  tables : ∀ i' < PDX UVPT, testFlag (pm.mem p i') PTE_V = true → HeldPde role pm p (pm.mem p i')
  base : role p = .held
  roles : ∀ f, role f = .reserved ∨ role f = .free ∨ role f = .held
  below : ∀ i' < i, testFlag (pm.mem p i') PTE_V = false
  slot : (n = 0 ∧ testFlag (pm.mem p i) PTE_V = false) ∨
    ∃ t, t ≠ p ∧ role t = .held ∧ pm.mem p i = mkPde t ∧
      ∀ j, n ≤ j → testFlag (pm.mem t j) PTE_V = false

namespace Filling

variable {mem : Nat → Nat → Nat} {lo p i n : Nat} {pm : Pmap} {role : Nat → Role}

/-- The stores of one round: the entry, the counter, the `UVPT` word, the flush. -/
def round (pm : Pmap) (p t j pp w : Nat) : Pmap :=
  tlbFlush (((pm.store t j w).setRef pp (((pm.store t j w).ppRef pp + 1) % 2 ^ 16)).store p
    (PDX UVPT) 0) 0 0

theorem round_inv (h : FrameInv kernOwn lo pm role) {t j pp w : Nat} (hp : role p = .held)
    (ht : role t = .held) (hpp : role pp = .reserved) :
    FrameInv kernOwn lo (round pm p t j pp w) role := by
  obtain ⟨h₁, -⟩ := h.store_other (f := t) (i := j) (w := w) (by simp [ht]) (by simp [ht])
  obtain ⟨h₂, -⟩ := h₁.setRef_reserved (r := ((pm.store t j w).ppRef pp + 1) % 2 ^ 16) hpp
  obtain ⟨h₃, -⟩ := h₂.store_other (f := p) (i := PDX UVPT) (w := 0) (by simp [hp]) (by simp [hp])
  exact (h₃.flush 0 0).1

/-- A round that finds the page table there. -/
theorem next (h : Filling mem lo p i n pm role) {t va pp perm : Nat} (htp : t ≠ p)
    (ht : role t = .held) (hpde : pm.mem p i = mkPde t)
    (hempty : ∀ j, n ≤ j → testFlag (pm.mem t j) PTE_V = false) (hi : i < PDX UVPT)
    (hPDX : PDX va = i) (hPTX : PTX va = n) (hpp : role pp = .reserved)
    (hW : testFlag perm PTE_W = false) :
    ∃ pm', pageInsert pm p 0 pp va perm = .ok (0, pm') ∧ Filling mem lo p i (n + 1) pm' role ∧
      pm'.pageFreeList = pm.pageFreeList := by
  have hlt : t < npage := h.inv.lt_npage (by simp [ht])
  have hwalk : ∀ create, pgdirWalk pm p va create = .ok (0, some (t, n), pm) := by
    intro create
    unfold pgdirWalk
    rw [hPDX, hPTX, hpde, if_pos (testFlag_V_mkPde t), PTE_ADDR_mkPde hlt,
      kaddr_ok (by rw [pa2idx_page2pa hlt]; exact hlt), pa2idx_page2pa hlt]
    rfl
  have hV : ¬ testFlag (pm.mem t n) PTE_V = true := by simp [hempty n (Nat.le_refl n)]
  have hdir : ∀ i' < PDX UVPT,
      (round pm p t n pp (mkPte pp (readable perm))).mem p i' = pm.mem p i' := by
    intro i' hi'
    unfold round
    rw [tlbFlush_mem, Pmap.store_mem, if_neg (by omega), Pmap.setRef_mem,
      Pmap.store_mem_frame _ htp.symm]
  refine ⟨round pm p t n pp (mkPte pp (readable perm)), ?_,
    ⟨?_, ?_, ?_, h.base, h.roles, ?_, ?_⟩, rfl⟩
  · unfold pageInsert
    rw [hwalk]
    show (if testFlag (pm.mem t n) PTE_V = true then _ else _) = _
    rw [if_neg hV]
    unfold pageInsertNew
    rw [hwalk]
    rfl
  · exact round_inv h.inv h.base ht hpp
  · intro f hf j
    have hfp : f ≠ p := by rintro rfl; simp [h.base] at hf
    have hft : f ≠ t := by rintro rfl; simp [ht] at hf
    unfold round
    rw [tlbFlush_mem, Pmap.store_mem_frame _ hfp, Pmap.setRef_mem, Pmap.store_mem_frame _ hft]
    exact h.kept f hf j
  · intro i' hi' hV'
    rw [hdir i' hi'] at hV' ⊢
    obtain ⟨t', htp', ht', hw', hno'⟩ := h.tables i' hi' hV'
    refine ⟨t', htp', ht', hw', ?_⟩
    intro j
    unfold round
    rw [tlbFlush_mem, Pmap.store_mem_frame _ htp', Pmap.setRef_mem, Pmap.store_mem]
    split_ifs
    · unfold readable
      rw [hW, if_neg (by simp), show PTE_W = 2 ^ 2 from rfl, testFlag_mkPte pp perm (by decide) (by decide)]
      exact hW
    · exact hno' j
  · intro i' hi'
    rw [hdir i' (by omega)]
    exact h.below i' hi'
  · refine Or.inr ⟨t, htp, ht, ?_, ?_⟩
    · rw [hdir i hi]
      exact hpde
    · intro j hj
      unfold round
      rw [tlbFlush_mem, Pmap.store_mem_frame _ htp, Pmap.setRef_mem, Pmap.store_mem,
        if_neg (by omega)]
      exact hempty j (by omega)

/-- The first round makes the page table. -/
theorem first (h : Filling mem lo p i 0 pm role) {va pp perm : Nat} (hi : i < PDX UVPT)
    (hPDX : PDX va = i) (hPTX : PTX va = 0) (hpp : role pp = .reserved)
    (hempty : testFlag (pm.mem p i) PTE_V = false) (hW : testFlag perm PTE_W = false) {t : Nat}
    {rest : List Nat} (hfree : pm.pageFreeList = t :: rest) :
    ∃ pm' role', pageInsert pm p 0 pp va perm = .ok (0, pm') ∧ Filling mem lo p i 1 pm' role' ∧
      pm'.pageFreeList = rest ∧ ∀ f, role' f = .reserved ↔ role f = .reserved := by
  have htfree : role t = .free := (h.inv.freeIff t).mp (by simp [hfree])
  have hlt : t < npage := h.inv.lt_npage (by simp [htfree])
  have htp : t ≠ p := by
    intro heq
    rw [heq, h.base] at htfree
    simp at htfree
  -- the table is allocated and held; the directory points to it
  obtain ⟨h₁, -⟩ := h.inv.alloc hfree
  obtain ⟨h₂, -⟩ := h₁.hold (Function.update_self ..)
  rw [Function.update_idem] at h₂
  have hbase : Function.update role t .held p = .held := by
    rw [Function.update_of_ne htp.symm]
    exact h.base
  obtain ⟨h₃, -⟩ := h₂.store_other (f := p) (i := i) (w := mkPde t) (by simp [hbase])
    (by simp [hbase])
  have hres : ∀ f, Function.update role t Role.held f = .reserved ↔ role f = .reserved :=
    FrameInv.update_role_iff (by simp [htfree]) (by simp)
  have hfill : Filling mem lo p i 0 (withTable pm rest p i t) (Function.update role t .held) := by
    refine ⟨h₃, ?_, ?_, hbase, ?_, ?_, Or.inr ⟨t, htp, Function.update_self .., ?_, ?_⟩⟩
    · intro f hf j
      rw [hres] at hf
      have hfp : f ≠ p := by rintro rfl; simp [h.base] at hf
      have hft : f ≠ t := by rintro rfl; simp [htfree] at hf
      unfold withTable
      rw [Pmap.store_mem_frame _ hfp, Pmap.setRef_mem, Pmap.clear_mem, if_neg hft]
      exact h.kept f hf j
    · intro i' hi' hV'
      unfold withTable at hV' ⊢
      by_cases hii : i' = i
      · subst hii
        refine ⟨t, htp, Function.update_self .., Pmap.store_mem_self .., ?_⟩
        intro j
        rw [Pmap.store_mem_frame _ htp, Pmap.setRef_mem, Pmap.clear_mem, if_pos rfl]
        simp
      · rw [Pmap.store_mem, if_neg (by omega), Pmap.setRef_mem, Pmap.clear_mem,
          if_neg htp.symm] at hV' ⊢
        obtain ⟨t', htp', ht', hw', hno'⟩ := h.tables i' hi' hV'
        have htt : t' ≠ t := by rintro rfl; simp [htfree] at ht'
        refine ⟨t', htp', by rw [Function.update_of_ne htt]; exact ht', hw', ?_⟩
        intro j
        rw [Pmap.store_mem_frame _ htp', Pmap.setRef_mem, Pmap.clear_mem, if_neg htt]
        exact hno' j
    · intro f
      by_cases hf : f = t
      · simp [hf]
      · rw [Function.update_of_ne hf]
        exact h.roles f
    · intro i' hi'
      unfold withTable
      rw [Pmap.store_mem, if_neg (by omega), Pmap.setRef_mem, Pmap.clear_mem, if_neg htp.symm]
      exact h.below i' hi'
    · unfold withTable
      rw [Pmap.store_mem_self]
    · intro j _
      unfold withTable
      rw [Pmap.store_mem_frame _ htp, Pmap.setRef_mem, Pmap.clear_mem, if_pos rfl]
      simp
  have heq : pageInsert pm p 0 pp va perm =
      pageInsert (withTable pm rest p i t) p 0 pp va perm := by
    have hV : ¬ testFlag ((withTable pm rest p i t).mem t 0) PTE_V = true := by
      unfold withTable
      rw [Pmap.store_mem_frame _ htp, Pmap.setRef_mem, Pmap.clear_mem, if_pos rfl]
      simp
    have hwalk : ∀ create, pgdirWalk (withTable pm rest p i t) p va create =
        .ok (0, some (t, 0), withTable pm rest p i t) := by
      intro create
      have hpde : (withTable pm rest p i t).mem p i = mkPde t := by
        unfold withTable
        rw [Pmap.store_mem_self]
      unfold pgdirWalk
      rw [hPDX, hPTX, hpde, if_pos (testFlag_V_mkPde t), PTE_ADDR_mkPde hlt,
        kaddr_ok (by rw [pa2idx_page2pa hlt]; exact hlt), pa2idx_page2pa hlt]
      rfl
    unfold pageInsert
    rw [pgdirWalk_absent (by rw [hPDX]; exact hempty), hwalk]
    show pageInsertNew pm p 0 pp va (readable perm) =
      (if testFlag ((withTable pm rest p i t).mem t 0) PTE_V = true then _ else _)
    rw [if_neg hV]
    unfold pageInsertNew
    rw [pgdirWalk_create (by rw [hPDX]; exact hempty) hfree hlt, hPDX, hPTX, hwalk]
  rcases hfill.slot with ⟨-, hno⟩ | ⟨t', htp', ht', hpde', hempty'⟩
  · have hpde : (withTable pm rest p i t).mem p i = mkPde t := by
      unfold withTable
      rw [Pmap.store_mem_self]
    rw [hpde, testFlag_V_mkPde] at hno
    simp at hno
  · obtain ⟨pm', hins, hfill', hlist⟩ :=
      hfill.next htp' ht' hpde' hempty' hi hPDX hPTX ((hres pp).mpr hpp) hW
    exact ⟨pm', _, heq.trans hins, hfill', hlist, hres⟩

/-- `map_segment` of at least one and at most 1024 pages fills slot `i` from its
first entry on. -/
theorem mapSegment_ok {a va perm m : Nat} (h : Filling mem lo p i 0 pm role)
    (hempty : testFlag (pm.mem p i) PTE_V = false) (hi : i < PDX UVPT) (hva : va = i * 2 ^ 22)
    (hm : m ≤ 1024) (hpos : 0 < m) (hused : a + m ≤ lo) (hlo : lo ≤ npage)
    (hroom : 0 < pm.pageFreeList.length) (hW : testFlag perm PTE_W = false) :
    ∃ pm' role', mapSegment pm p 0 (page2pa a) va m perm = .ok pm' ∧ Filling mem lo p i m pm' role' ∧
      pm'.pageFreeList.length + 1 = pm.pageFreeList.length := by
  have hU : PDX UVPT = 511 := by decide
  have hres : ∀ f, f < lo → role f = .reserved := by
    intro f hf
    by_contra hne
    have := ((h.inv.managed f).mp hne).1
    omega
  have hpage : ∀ r, r < m → pa2page (page2pa a + r * BY2PG) = .ok (a + r) := by
    intro r hr
    have hpa : page2pa a + r * BY2PG = page2pa (a + r) := by
      rw [page2pa_eq (by omega), page2pa_eq (by omega)]
      unfold BY2PG
      omega
    rw [hpa, pa2page_ok (by rw [pa2idx_page2pa (by omega)]; omega), pa2idx_page2pa (by omega)]
  have hPDX : ∀ r, r < m → PDX (va + r * BY2PG) = i := by
    intro r hr
    unfold BY2PG
    rw [PDX_eq, hva]
    omega
  have hPTX : ∀ r, r < m → PTX (va + r * BY2PG) = r := by
    intro r hr
    unfold BY2PG
    rw [PTX_eq, hva]
    omega
  have hloop := foldlM_range_ok (f := mapSegmentPage p 0 (page2pa a) va perm)
    (fun r pm' => ∃ role', Filling mem lo p i r pm' role' ∧
      (∀ f, role' f = .reserved ↔ role f = .reserved) ∧
      (r = 0 → pm' = pm) ∧
      pm'.pageFreeList.length + (if r = 0 then 0 else 1) = pm.pageFreeList.length)
    m (b := pm) ⟨role, h, fun _ => Iff.rfl, fun _ => rfl, rfl⟩ ?_
  · obtain ⟨pm', hrun, role', hfill, -, -, hlen⟩ := hloop
    rw [if_neg (by omega)] at hlen
    exact ⟨pm', role', hrun, hfill, hlen⟩
  · intro r hr pm₁ hI
    obtain ⟨role₁, hfill, hres₁, hzero, hlen⟩ := hI
    have hpp : role₁ (a + r) = .reserved := (hres₁ _).mpr (hres _ (by omega))
    -- one round of the loop, once `page_insert` is known to succeed
    have hround : ∀ pm₂, pageInsert pm₁ p 0 (a + r) (va + r * BY2PG) perm = .ok (0, pm₂) →
        mapSegmentPage p 0 (page2pa a) va perm pm₁ r = .ok pm₂ := by
      intro pm₂ hins
      unfold mapSegmentPage
      rw [hpage r hr]
      show (do let x ← pageInsert pm₁ p 0 (a + r) (va + r * BY2PG) perm; _) = _
      rw [hins]
      rfl
    by_cases hr0 : r = 0
    · subst hr0
      obtain rfl := hzero rfl
      cases hfree : pm₁.pageFreeList with
      | nil =>
        rw [hfree] at hroom
        simp at hroom
      | cons t rest =>
        obtain ⟨pm₂, role₂, hins, hfill₂, hlist, hres₂⟩ :=
          hfill.first hi (hPDX 0 hr) (hPTX 0 hr) hpp hempty hW hfree
        refine ⟨pm₂, hround pm₂ hins, role₂, hfill₂, fun f => (hres₂ f).trans (hres₁ f),
          fun hc => absurd hc (by omega), ?_⟩
        rw [hlist, if_neg (by omega)]
        rfl
    · rcases hfill.slot with ⟨hc, -⟩ | ⟨t, htp, ht, hpde, hempty'⟩
      · exact absurd hc hr0
      · obtain ⟨pm₂, hins, hfill₂, hlist⟩ :=
          hfill.next htp ht hpde hempty' hi (hPDX r hr) (hPTX r hr) hpp hW
        refine ⟨pm₂, hround pm₂ hins, role₁, hfill₂, hres₁, fun hc => absurd hc (by omega), ?_⟩
        rw [hlist, if_neg (by omega)]
        rw [if_neg hr0] at hlen
        exact hlen

end Filling

/-- The state after boot: `base_pgdir` and its page tables are held, every other
frame is free or was used before. -/
structure Booted (b : BootState) (k : Kernel) (role : Nat → Role) : Prop where
  eq : ∃ pm p, k = firstKernel pm p b.disk b.kernelPgdir
  inv : FrameInv kernOwn (usedFrames b.freemem) k.pm role
  roles : ∀ f, role f = .reserved ∨ role f = .free ∨ role f = .held
  base : role k.basePgdir = .held
  kept : ∀ f, role f = .reserved → ∀ j, k.pm.mem f j = b.mem f j
  tables : ∀ i < PDX UVPT, testFlag (k.pm.mem k.basePgdir i) PTE_V = true →
    HeldPde role k.pm k.basePgdir (k.pm.mem k.basePgdir i)
  room : k.pm.pageFreeList.length + 3 = (pageInit b.freemem b.mem).pageFreeList.length

theorem pageAlloc_cons {pm : Pmap} {p : Nat} {rest : List Nat} (h : pm.pageFreeList = p :: rest) :
    pageAlloc pm = some (p, { pm with pageFreeList := rest }.clear p) := by
  unfold pageAlloc
  rw [h]

/-- `p->pp_ref++` on the page `page_alloc` just returned. -/
theorem addRef_first {pm : Pmap} {p : Nat} {rest : List Nat} (h : pm.ppRef p = 0) :
    ({ pm with pageFreeList := rest }.clear p).setRef p
        ((({ pm with pageFreeList := rest }.clear p).ppRef p + 1) % 2 ^ 16) =
      ({ pm with pageFreeList := rest }.clear p).setRef p 1 := by
  have hz : ({ pm with pageFreeList := rest }.clear p).ppRef p = 0 := h
  rw [hz, show (0 + 1) % 2 ^ 16 = 1 from rfl]

theorem envInit_eq {pm pm' pm₁ pm₂ pm₃ : Pmap} {p : Nat} {disk : Vring} {kernelPgdir : Nat → Nat}
    {pagesPa envsPa : Nat} (hp : pageAlloc pm = some (p, pm'))
    (hpm : pm'.setRef p ((pm'.ppRef p + 1) % 2 ^ 16) = pm₁)
    (h₂ : mapSegment pm₁ p 0 pagesPa UPAGES pagesPages (PTE_G ||| PTE_R ||| PTE_U) = .ok pm₂)
    (h₃ : mapSegment pm₂ p 0 envsPa UENVS envsPages (PTE_G ||| PTE_R ||| PTE_U) = .ok pm₃) :
    envInit pm disk kernelPgdir pagesPa envsPa = .ok (firstKernel pm₃ p disk kernelPgdir) := by
  unfold envInit
  rw [hp]
  simp only [hpm]
  exact bind_eq_ok.mpr ⟨pm₂, h₂, bind_eq_ok.mpr ⟨pm₃, h₃, rfl⟩⟩

/-- **Boot.** `env_init` needs three frames. -/
theorem boot_ok (b : BootState) (hroom : usedFrames b.freemem + 3 ≤ npage) :
    ∃ k role, b.boot = .ok k ∧ Booted b k role := by
  have hinit := pageInit_inv kernOwn_lt b.freemem b.mem
  have hthree : 3 ≤ (pageInit b.freemem b.mem).pageFreeList.length := by
    have hsub : [usedFrames b.freemem, usedFrames b.freemem + 1, usedFrames b.freemem + 2] ⊆
        (pageInit b.freemem b.mem).pageFreeList := by
      intro f hf
      rw [hinit.freeIff, initRole, if_pos]
      simp only [List.mem_cons, List.not_mem_nil, or_false] at hf
      omega
    exact (List.Nodup.subperm (by simp) hsub).length_le
  cases hfree : (pageInit b.freemem b.mem).pageFreeList with
  | nil =>
    rw [hfree] at hthree
    simp at hthree
  | cons p rest =>
    rw [hfree, List.length_cons] at hthree
    have hp : initRole (usedFrames b.freemem) p = .free := (hinit.freeIff p).mp (by simp [hfree])
    have href : (pageInit b.freemem b.mem).ppRef p = 0 := by
      have := hinit.refOk p
      rw [hp] at this
      exact this
    obtain ⟨pm₁, hpm₁⟩ : ∃ pm₁, pm₁ =
        ({ pageInit b.freemem b.mem with pageFreeList := rest }.clear p).setRef p 1 := ⟨_, rfl⟩
    obtain ⟨h₁, -⟩ := hinit.alloc hfree
    obtain ⟨h₂, -⟩ := h₁.hold (Function.update_self ..)
    rw [Function.update_idem, ← hpm₁] at h₂
    have hzero : ∀ i, testFlag (pm₁.mem p i) PTE_V = false := by
      intro i
      rw [hpm₁, Pmap.setRef_mem, Pmap.clear_mem, if_pos rfl]
      simp
    have hfill : Filling b.mem (usedFrames b.freemem) p 510 0 pm₁
        (Function.update (initRole (usedFrames b.freemem)) p .held) := by
      refine ⟨h₂, ?_, ?_, Function.update_self .., ?_, fun i' _ => hzero i',
        Or.inl ⟨rfl, hzero 510⟩⟩
      · intro f hf j
        have hfp : f ≠ p := by
          intro heq
          rw [heq, Function.update_self] at hf
          simp at hf
        rw [hpm₁, Pmap.setRef_mem, Pmap.clear_mem, if_neg hfp]
        rfl
      · intro i' _ hV'
        rw [hzero] at hV'
        simp at hV'
      · intro f
        by_cases hf : f = p
        · simp [hf]
        · rw [Function.update_of_ne hf]
          rcases initRole_cases (usedFrames b.freemem) f with e | e
          · exact Or.inr (Or.inl e)
          · exact Or.inl e
    have hlen₁ : pm₁.pageFreeList.length = rest.length := by rw [hpm₁]; rfl
    have hW : testFlag (PTE_G ||| PTE_R ||| PTE_U) PTE_W = false := by decide
    obtain ⟨pm₂, role₂, hseg₂, hfill₂, hlen₂⟩ := hfill.mapSegment_ok (hzero 510) (by decide)
      (show UPAGES = 510 * 2 ^ 22 by decide) (show pagesPages ≤ 1024 by decide) (by decide)
      b.pagesUsed b.usedLe (by omega) hW
    have hempty₂ : testFlag (pm₂.mem p 509) PTE_V = false := hfill₂.below 509 (by decide)
    have hfill₂' : Filling b.mem (usedFrames b.freemem) p 509 0 pm₂ role₂ :=
      ⟨hfill₂.inv, hfill₂.kept, hfill₂.tables, hfill₂.base, hfill₂.roles, fun i' hi' => hfill₂.below i' (by omega),
        Or.inl ⟨rfl, hempty₂⟩⟩
    obtain ⟨pm₃, role₃, hseg₃, hfill₃, hlen₃⟩ := hfill₂'.mapSegment_ok hempty₂ (by decide)
      (show UENVS = 509 * 2 ^ 22 by decide) (show envsPages ≤ 1024 by decide) (by decide)
      b.envsUsed b.usedLe (by omega) hW
    refine ⟨firstKernel pm₃ p b.disk b.kernelPgdir, role₃, ?_,
      ⟨⟨pm₃, p, rfl⟩, hfill₃.inv, hfill₃.roles, hfill₃.base, hfill₃.kept, hfill₃.tables, ?_⟩⟩
    · exact envInit_eq (pageAlloc_cons hfree) ((addRef_first href).trans hpm₁.symm) hseg₂ hseg₃
    · show pm₃.pageFreeList.length + 3 = _
      rw [hfree, List.length_cons]
      omega

end Mos.Kern
