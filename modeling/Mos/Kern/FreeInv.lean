import Mos.Kern.EnvInv

/-!
# MOS on RISC-V — destroying envs keeps the kernel invariant

`env_free` unmaps every page below `UTOP`, gives back the page tables, the copy
of the directory and the directory itself. `Shrunk` says what its two loops
leave alone, and the loops never fail (`envFreePte_ok`, `envFreePde_ok`);
`KernelInv.retire` is the invariant without the env.
-/

namespace Mos.Kern

open Mos.Lib

variable {b : BootState} {k₀ k : Kernel} {role₀ role : Nat → Role} {lo d : Nat}

/-- Mappings and page tables of the directory `d` went; nothing came, and the
frames of the kernel and the other directories are as before. -/
structure Shrunk (lo d : Nat) (s : Pmap) (role : Nat → Role) (s' : Pmap) (role' : Nat → Role) :
    Prop where
  inv : FrameInv kernOwn lo s' role'
  bounded : Bounded kernOwn role' s'
  dir_iff : ∀ f, role' f = .dir ↔ role f = .dir
  held_iff : ∀ f, role' f = .held ↔ role f = .held
  res_iff : ∀ f, role' f = .reserved ↔ role f = .reserved
  mem : ∀ f, role f = .held ∨ role f = .reserved ∨ (role f = .dir ∧ f ≠ d) →
    ∀ i, s'.mem f i = s.mem f i
  half : ∀ i, PDX UTOP ≤ i → s'.mem d i = s.mem d i
  pde : ∀ i, s'.mem d i = s.mem d i ∨ s'.mem d i = 0
  table : ∀ t d' i, d' ≠ d → (role' t = .table d' i ↔ role t = .table d' i)
  tableMem : ∀ t d' i, d' ≠ d → role t = .table d' i → ∀ j, s'.mem t j = s.mem t j
  only : ∀ f, role' f = role f ∨ role' f = .free
  fresh_iff : ∀ f, role' f = .fresh ↔ role f = .fresh
  ref : ∀ f, role f = .reserved → s'.ppRef f = s.ppRef f

theorem pageDecref_other {s s' : Pmap} {pp f : Nat} (h : pageDecref s pp = .ok s') (hf : f ≠ pp) :
    s'.ppRef f = s.ppRef f := by
  unfold pageDecref pageFree at h
  dsimp only at h
  split_ifs at h
  · cases h
    simp only [Pmap.setRef_ppRef, if_neg hf]
  · cases h
    simp only [Pmap.setRef_ppRef, if_neg hf]

/-- `page_remove` counts down the frame it unmaps and no other. -/
theorem pageRemove_other {s s' : Pmap} {asid va pp f : Nat} {p : PtePtr}
    (hlook : pageLookup s d va = .ok (some (pp, p))) (h : pageRemove s d asid va = .ok s') (hf : f ≠ pp) :
    s'.ppRef f = s.ppRef f := by
  unfold pageRemove at h
  rw [hlook, ok_bind] at h
  obtain ⟨s₁, hdec, hret⟩ := bind_eq_ok.mp h
  cases hret
  show s₁.ppRef f = _
  exact pageDecref_other hdec hf

namespace Shrunk

variable {s s₁ s₂ : Pmap} {role₁ role₂ : Nat → Role}

theorem refl (h : FrameInv kernOwn lo s role) (hbd : Bounded kernOwn role s) :
    Shrunk lo d s role s role :=
  ⟨h, hbd, fun _ => Iff.rfl, fun _ => Iff.rfl, fun _ => Iff.rfl, fun _ _ _ => rfl, fun _ _ => rfl,
    fun _ => Or.inl rfl, fun _ _ _ _ => Iff.rfl, fun _ _ _ _ _ _ => rfl, fun _ => Or.inl rfl,
    fun _ => Iff.rfl, fun _ _ => rfl⟩

theorem trans (h : Shrunk lo d s role s₁ role₁) (h' : Shrunk lo d s₁ role₁ s₂ role₂) :
    Shrunk lo d s role s₂ role₂ where
  inv := h'.inv
  bounded := h'.bounded
  dir_iff f := (h'.dir_iff f).trans (h.dir_iff f)
  held_iff f := (h'.held_iff f).trans (h.held_iff f)
  res_iff f := (h'.res_iff f).trans (h.res_iff f)
  mem f hf i := by
    refine (h'.mem f ?_ i).trans (h.mem f hf i)
    rw [h.held_iff, h.res_iff, h.dir_iff]
    exact hf
  half i hi := (h'.half i hi).trans (h.half i hi)
  pde i := by
    rcases h'.pde i with h₂ | h₂
    · rw [h₂]
      exact h.pde i
    · exact Or.inr h₂
  table t d' i hd := (h'.table t d' i hd).trans (h.table t d' i hd)
  tableMem t d' i hd ht j :=
    (h'.tableMem t d' i hd ((h.table t d' i hd).mpr ht) j).trans (h.tableMem t d' i hd ht j)
  only f := by
    rcases h'.only f with h₂ | h₂
    · rw [h₂]
      exact h.only f
    · exact Or.inr h₂
  fresh_iff f := (h'.fresh_iff f).trans (h.fresh_iff f)
  ref f hf := (h'.ref f ((h.res_iff f).mpr hf)).trans (h.ref f hf)

/-- `page_remove` of one entry of the page table `t`. -/
theorem removePte (h : FrameInv kernOwn lo s role) (hbd : Bounded kernOwn role s) (asid : Nat)
    {t i j va : Nat} (ht : role t = .table d i) (hi : PDX va = i) (hj : PTX va = j)
    (hV : testFlag (s.mem t j) PTE_V = true) :
    ∃ s₁ role₁, pageRemove s d asid va = .ok s₁ ∧ Shrunk lo d s role s₁ role₁ ∧
      role₁ t = .table d i ∧ s₁.mem = (s.store t j 0).mem := by
  have hview : view kernOwn role s (slotOf d va) = some (s.mem t j) := by
    unfold slotOf
    rw [hi, hj, h.view_table ht, if_pos hV]
  obtain ⟨s₁, t', ht', hrun, hmem, hs⟩ := pageRemove_some h asid hview rfl (hbd _)
  rw [hi] at ht'
  obtain rfl := h.table_unique ht ht'
  rw [hj] at hmem
  have hother : ∀ f, role f ≠ .table d i → ∀ i, s₁.mem f i = s.mem f i := by
    intro f hf i'
    rw [hmem, Pmap.store_mem_frame]
    rintro rfl
    exact hf ht
  have hdir : ∀ i', s₁.mem d i' = s.mem d i' := by
    have hd := (h.tablePde t d i ht).1
    exact hother d fun hc => by simp [hd] at hc
  have hdata : role (pteFrame (s.mem t j)) = .data := by
    refine h.leafData t d i j ht ?_ hV
    rw [← hj]
    exact PTX_lt va
  have hrole : ∀ q, q ≠ Role.data → q ≠ Role.free → ∀ f,
      FrameInv.dropRole role (leafRefs kernOwn role s (pteFrame (s.mem t j)))
        (pteFrame (s.mem t j)) f = q ↔ role f = q := by
    intro q h1 h2 f
    unfold FrameInv.dropRole
    split_ifs
    · exact FrameInv.update_role_iff (by rw [hdata]; exact Ne.symm h1) (Ne.symm h2) f
    · exact Iff.rfl
  refine ⟨s₁, _, hrun, ⟨hs.inv, KernelInv.bounded_none hbd hs, hs.dir_iff, hs.held_iff,
    hrole .reserved (by simp) (by simp), ?_, fun i' _ => hdir i', fun i' => Or.inl (hdir i'),
    fun t' d' i' _ => hrole _ (by simp) (by simp) t', ?_, ?_, hrole .fresh (by simp) (by simp), ?_⟩, (hrole _ (by simp) (by simp) t).mpr ht, hmem⟩
  · intro f hf
    refine hother f fun hc => ?_
    rcases hf with hf | hf | ⟨hf, -⟩ <;> simp [hf] at hc
  · intro t' d' i' hd' ht'
    refine hother t' fun hc => ?_
    rw [ht', Role.table.injEq] at hc
    exact hd' hc.1
  · intro f
    unfold FrameInv.dropRole
    split_ifs
    · by_cases hf : f = pteFrame (s.mem t j)
      · rw [hf, Function.update_self]
        exact Or.inr rfl
      · rw [Function.update_of_ne hf]
        exact Or.inl rfl
    · exact Or.inl rfl
  · intro f hf
    obtain ⟨t', -, -, hlook⟩ := pageLookup_some h hview
    refine pageRemove_other hlook hrun ?_
    rintro rfl
    rw [hdata] at hf
    cases hf

/-- `pgdir[i] = 0; page_decref(t)` on an emptied page table, and the flush. -/
theorem removeTable (h : FrameInv kernOwn lo s role) (hbd : Bounded kernOwn role s) (asid : Nat)
    {t i : Nat} (ht : role t = .table d i) (hempty : ∀ j < 1024, testFlag (s.mem t j) PTE_V = false) :
    ∃ s₁ role₁, pageDecref (s.store d i 0) t = .ok s₁ ∧
      Shrunk lo d s role (tlbFlush s₁ asid 0) role₁ ∧ s₁.mem = (s.store d i 0).mem := by
  obtain ⟨hd, hown, -⟩ := h.tablePde t d i ht
  obtain ⟨s₁, hrun, hmem, hinv, hview⟩ := h.removeTable ht hempty
  obtain ⟨hinv', hview'⟩ := hinv.flush asid 0
  have hbd₁ : Bounded kernOwn (Function.update role t .free) (tlbFlush s₁ asid 0) := by
    intro f
    rw [FrameInv.leafRefs_congr hview', FrameInv.leafRefs_of_view hview]
    exact hbd f
  refine ⟨s₁, _, hrun, ⟨hinv', hbd₁, FrameInv.update_role_iff (by simp [ht]) (by simp),
    FrameInv.update_role_iff (by simp [ht]) (by simp),
    FrameInv.update_role_iff (by simp [ht]) (by simp), ?_, ?_, ?_, ?_, ?_, ?_,
    FrameInv.update_role_iff (by simp [ht]) (by simp), ?_⟩, hmem⟩
  · intro f hf i'
    rw [tlbFlush_mem, hmem, Pmap.store_mem_frame]
    rintro rfl
    rcases hf with hf | hf | ⟨-, hf⟩
    · simp [hd] at hf
    · simp [hd] at hf
    · exact hf rfl
  · intro i' hi'
    have hlt := kernOwn_iff.mp hown
    rw [tlbFlush_mem, hmem, Pmap.store_mem, if_neg]
    rintro ⟨-, rfl⟩
    omega
  · intro i'
    rw [tlbFlush_mem, hmem, Pmap.store_mem]
    split_ifs
    · exact Or.inr rfl
    · exact Or.inl rfl
  · intro t' d' i' hd'
    refine FrameInv.update_role_iff ?_ (by simp) t'
    rw [ht, ne_eq, Role.table.injEq]
    exact fun hc => hd' hc.1.symm
  · intro t' d' i' _ ht' j
    rw [tlbFlush_mem, hmem, Pmap.store_mem_frame]
    rintro rfl
    simp [hd] at ht'
  · intro f
    by_cases hf : f = t
    · rw [hf, Function.update_self]
      exact Or.inr rfl
    · rw [Function.update_of_ne hf]
      exact Or.inl rfl
  · intro f hf
    show s₁.ppRef f = (s.store d i 0).ppRef f
    refine pageDecref_other hrun ?_
    rintro rfl
    rw [ht] at hf
    cases hf

end Shrunk

-- ---------------------------------------------------------------------------
-- The loops of env_free
-- ---------------------------------------------------------------------------

theorem slot_address {i j : Nat} (hi : i < 1024) (hj : j < 1024) :
    PDX ((i <<< 22) ||| (j <<< 12)) = i ∧ PTX ((i <<< 22) ||| (j <<< 12)) = j := by
  have hlow : j * 2 ^ 12 < 2 ^ 22 := by omega
  have hva : (i <<< 22) ||| (j <<< 12) = i * 2 ^ 22 + j * 2 ^ 12 := by
    rw [Nat.shiftLeft_eq, Nat.shiftLeft_eq, field_or_flags hlow]
  rw [hva, PDX_eq, PTX_eq]
  omega

/-- The inner loop empties the page table `t` of slot `i`. -/
theorem envFreePte_ok {s : Pmap} (h : FrameInv kernOwn lo s role) (hbd : Bounded kernOwn role s)
    {t i : Nat} (asid : Nat) (ht : role t = .table d i) :
    ∃ s₁ role₁, (List.range 1024).foldlM (envFreePte d asid i t) s = .ok s₁ ∧
      Shrunk lo d s role s₁ role₁ ∧ role₁ t = .table d i ∧
      ∀ j < 1024, testFlag (s₁.mem t j) PTE_V = false := by
  have hi : i < 1024 := h.ownLt i (h.tablePde t d i ht).2.1
  -- after `n` rounds the first `n` entries are empty
  have hloop := foldlM_range_ok (f := envFreePte d asid i t)
    (fun n s' => ∃ role', Shrunk lo d s role s' role' ∧ role' t = .table d i ∧
      ∀ j < n, testFlag (s'.mem t j) PTE_V = false) 1024
    ⟨role, Shrunk.refl h hbd, ht, fun j hj => absurd hj (Nat.not_lt_zero j)⟩ ?_
  · obtain ⟨s₁, hrun, role₁, hs, ht₁, hempty⟩ := hloop
    exact ⟨s₁, role₁, hrun, hs, ht₁, hempty⟩
  · rintro n hn s' ⟨role', hs, ht', hempty⟩
    obtain ⟨hPDX, hPTX⟩ := slot_address hi hn
    unfold envFreePte
    split_ifs with hV
    · obtain ⟨s₂, role₂, hrun, hs₂, ht₂, hmem⟩ := Shrunk.removePte hs.inv hs.bounded asid ht' hPDX
        hPTX hV
      refine ⟨s₂, hrun, role₂, hs.trans hs₂, ht₂, ?_⟩
      intro j hj
      rw [hmem, Pmap.store_mem]
      split_ifs with hc
      · exact testFlag_zero_left _
      · exact hempty j (by omega)
    · refine ⟨s', rfl, role', hs, ht', ?_⟩
      intro j hj
      by_cases hjn : j = n
      · rw [hjn]
        simpa using hV
      · exact hempty j (by omega)

/-- The outer loop leaves no page table below `UTOP`. -/
theorem envFreePde_ok {s : Pmap} (h : FrameInv kernOwn lo s role) (hbd : Bounded kernOwn role s)
    (asid : Nat) (hd : role d = .dir) :
    ∃ s₁ role₁, (List.range (PDX UTOP)).foldlM (envFreePde d asid) s = .ok s₁ ∧
      Shrunk lo d s role s₁ role₁ ∧ ∀ i < PDX UTOP, testFlag (s₁.mem d i) PTE_V = false := by
  have hloop := foldlM_range_ok (f := envFreePde d asid)
    (fun n s' => ∃ role', Shrunk lo d s role s' role' ∧
      ∀ i < n, testFlag (s'.mem d i) PTE_V = false) (PDX UTOP)
    ⟨role, Shrunk.refl h hbd, fun i hi => absurd hi (Nat.not_lt_zero i)⟩ ?_
  · obtain ⟨s₁, hrun, role₁, hs, hempty⟩ := hloop
    exact ⟨s₁, role₁, hrun, hs, hempty⟩
  · rintro n hn s' ⟨role', hs, hempty⟩
    have hd' := (hs.dir_iff d).mpr hd
    unfold envFreePde
    split_ifs with hV
    · obtain ⟨t, ht⟩ := hs.inv.pdeTable d n hd' (kernOwn_iff.mpr hn) hV
      have hlt := hs.inv.tableLt t d n ht
      have hpa : PTE_ADDR (s'.mem d n) = page2pa t := by
        rw [(hs.inv.tablePde t d n ht).2.2, PTE_ADDR_mkPde hlt]
      obtain ⟨s₂, role₂, hrun₂, hs₂, ht₂, hz⟩ := envFreePte_ok hs.inv hs.bounded asid ht
      obtain ⟨s₃, role₃, hrun₃, hs₃, hmem⟩ := Shrunk.removeTable hs₂.inv hs₂.bounded asid ht₂ hz
      refine ⟨tlbFlush s₃ asid 0, ?_, role₃, (hs.trans hs₂).trans hs₃, ?_⟩
      · have hidx : pa2idx (PTE_ADDR (s'.mem d n)) = t := by
          rw [hpa, pa2idx_page2pa hlt]
        have hk : kaddr (PTE_ADDR (s'.mem d n)) = .ok t := by
          rw [kaddr_ok (by rw [hidx]; exact hlt), hidx]
        have hp : pa2page (PTE_ADDR (s'.mem d n)) = .ok t := by
          rw [pa2page_ok (by rw [hidx]; exact hlt), hidx]
        dsimp only
        rw [hk, ok_bind, hrun₂, ok_bind, hp, ok_bind, hrun₃, ok_bind]
        rfl
      · intro i hi
        by_cases hin : i = n
        · rw [tlbFlush_mem, hmem, hin, Pmap.store_mem_self, testFlag_zero_left]
        · rcases (hs₂.trans hs₃).pde i with heq | heq
          · rw [heq]
            exact hempty i (by omega)
          · rw [heq, testFlag_zero_left]
    · refine ⟨s', rfl, role', hs, ?_⟩
      intro i hi
      by_cases hin : i = n
      · rw [hin]
        simpa using hV
      · exact hempty i (by omega)

-- ---------------------------------------------------------------------------
-- The copy and the directory
-- ---------------------------------------------------------------------------

/-- The pages of the env `e` are given back: its directory and its copy are free,
and the frames of the kernel and the other directories are as before. -/
structure Retired (lo : Nat) (k : Kernel) (e : Nat) (role : Nat → Role) (s : Pmap)
    (role' : Nat → Role) : Prop where
  inv : FrameInv kernOwn lo s role'
  bounded : Bounded kernOwn role' s
  dir_iff : ∀ f, role' f = .dir ↔ role f = .dir ∧ f ≠ (k.envs e).pgdir
  held_iff : ∀ f, role' f = .held ↔ role f = .held ∧ ¬ k.CopyAt e f
  freed : role' (k.envs e).pgdir = .free
  mem : ∀ f, role' f = .held ∨ role' f = .reserved ∨ role' f = .dir → ∀ i, s.mem f i = k.pm.mem f i
  table : ∀ t d i, d ≠ (k.envs e).pgdir → (role' t = .table d i ↔ role t = .table d i)
  tableMem : ∀ t d i, d ≠ (k.envs e).pgdir → role t = .table d i → ∀ j, s.mem t j = k.pm.mem t j
  only : ∀ f, role' f = role f ∨ role' f = .free
  fresh_iff : ∀ f, role' f = .fresh ↔ role f = .fresh
  res_iff : ∀ f, role' f = .reserved ↔ role f = .reserved
  ref : ∀ f, role f = .reserved → s.ppRef f = k.pm.ppRef f

/-- The mappings of another directory are as before. -/
theorem Retired.view_eq {e : Nat} {s : Pmap} {role' : Nat → Role} (h : Retired lo k e role s role')
    (hk : FrameInv kernOwn lo k.pm role) {d : Nat} (hd : d ≠ (k.envs e).pgdir) (i j : Nat) :
    view kernOwn role' s (d, i, j) = view kernOwn role k.pm (d, i, j) :=
  hk.view_tables h.inv.toTableShape (fun t i => h.table t d i hd) (fun t i => h.tableMem t d i hd) i j

/-- The copy of the directory goes. -/
theorem envFreeCopy_ok (hfr : FrameInv kernOwn lo k.pm role) {e : Nat}
    (hcopy : (k.envs e).pgdirCopyPa ≠ 0 → ∃ f, k.CopyAt e f ∧ role f = .held) {s : Pmap}
    {role₁ : Nat → Role} (hinv : FrameInv kernOwn lo s role₁) (hbd : Bounded kernOwn role₁ s)
    (hheld : ∀ f, role₁ f = .held ↔ role f = .held) :
    ∃ s' role', envFreeCopy s (k.envs e).pgdirCopyPa = .ok s' ∧ s'.mem = s.mem ∧
      FrameInv kernOwn lo s' role' ∧ Bounded kernOwn role' s' ∧
      (∀ f, role' f = .held ↔ role f = .held ∧ ¬ k.CopyAt e f) ∧
      (∀ q, q ≠ .held → q ≠ .free → ∀ f, role' f = q ↔ role₁ f = q) ∧
      (∀ f, role' f = role₁ f ∨ role' f = .free) ∧ ∀ f, role₁ f = .reserved → s'.ppRef f = s.ppRef f := by
  unfold envFreeCopy
  by_cases hz : (k.envs e).pgdirCopyPa = 0
  · rw [if_neg (not_not.mpr hz)]
    refine ⟨s, role₁, rfl, rfl, hinv, hbd, ?_, fun _ _ _ _ => Iff.rfl, fun _ => Or.inl rfl, fun _ _ => rfl⟩
    intro f
    rw [hheld]
    refine ⟨fun hf => ⟨hf, ?_⟩, fun hf => hf.1⟩
    intro hc
    have hlt : f < npage := hfr.lt_npage (by simp [hf])
    exact page2pa_ne_zero hlt (hc.symm.trans hz)
  · rw [if_pos hz]
    obtain ⟨p, hc, hp⟩ := hcopy hz
    have hlt : p < npage := hfr.lt_npage (by simp [hp])
    have hp₁ := (hheld p).mpr hp
    have href : s.ppRef p = 1 := by
      have hr := hinv.refOk p
      rw [hp₁] at hr
      exact hr
    obtain ⟨s', hrun, hmem, hinv', hview⟩ := hinv.removeHeld hp₁
    have hpage : pa2page (k.envs e).pgdirCopyPa = .ok p := by
      rw [show (k.envs e).pgdirCopyPa = page2pa p from hc,
        pa2page_ok (by rw [pa2idx_page2pa hlt]; exact hlt), pa2idx_page2pa hlt]
    refine ⟨s', _, ?_, hmem, hinv', KernelInv.bounded_view hbd hview, ?_, ?_, ?_, ?_⟩
    · rw [hpage, ok_bind, if_neg (not_not.mpr href)]
      exact hrun
    · intro f
      by_cases hf : f = p
      · rw [hf, Function.update_self]
        simp [hc]
      · rw [Function.update_of_ne hf, hheld]
        refine ⟨fun hr => ⟨hr, fun hc' => hf ?_⟩, fun hr => hr.1⟩
        have hltf : f < npage := hfr.lt_npage (by simp [hr])
        exact page2pa_inj hltf hlt (hc'.symm.trans hc)
    · intro q hq hq' f
      exact FrameInv.update_role_iff (by rw [hp₁]; exact Ne.symm hq) (Ne.symm hq') f
    · intro f
      by_cases hf : f = p
      · rw [hf, Function.update_self]
        exact Or.inr rfl
      · rw [Function.update_of_ne hf]
        exact Or.inl rfl
    · intro f hf
      refine pageDecref_other hrun ?_
      rintro rfl
      rw [hp₁] at hf
      cases hf

/-- **The page work of `env_free`.** It never fails. -/
theorem envFreePages_retires (h : FrameInv kernOwn lo k.pm role) (hbd : Bounded kernOwn role k.pm)
    {e : Nat} (hd : role (k.envs e).pgdir = .dir)
    (hcopy : (k.envs e).pgdirCopyPa ≠ 0 → ∃ f, k.CopyAt e f ∧ role f = .held) :
    ∃ s role', envFreePages k.pm (k.envs e).pgdir (k.envs e).asid (k.envs e).pgdirCopyPa = .ok s ∧
      Retired lo k e role s role' := by
  obtain ⟨s₁, role₁, hrun₁, hs, hempty⟩ := envFreePde_ok h hbd (k.envs e).asid hd
  obtain ⟨s₂, role₂, hrun₂, hmem₂, hinv₂, hbd₂, hheld₂, hrole₂, honly₂, href₂⟩ :=
    envFreeCopy_ok h hcopy hs.inv hs.bounded hs.held_iff
  have hd₂ : role₂ (k.envs e).pgdir = .dir :=
    (hrole₂ .dir (by simp) (by simp) _).mpr ((hs.dir_iff _).mpr hd)
  obtain ⟨s₃, hrun₃, hmem₃, hinv₃, hview₃⟩ := hinv₂.removeDir hd₂ fun i hi => by
    rw [hmem₂]
    exact hempty i (kernOwn_iff.mp hi)
  obtain ⟨hinv₄, hview₄⟩ := hinv₃.flush (k.envs e).asid 0
  have hrole₃ : ∀ q, q ≠ .dir → q ≠ .free → ∀ f,
      Function.update role₂ (k.envs e).pgdir .free f = q ↔ role₂ f = q := fun q hq hq' f =>
    FrameInv.update_role_iff (by rw [hd₂]; exact Ne.symm hq) (Ne.symm hq') f
  have hdir : ∀ f, Function.update role₂ (k.envs e).pgdir .free f = .dir ↔
      role f = .dir ∧ f ≠ (k.envs e).pgdir := by
    intro f
    by_cases hf : f = (k.envs e).pgdir
    · rw [hf, Function.update_self]
      simp
    · rw [Function.update_of_ne hf, hrole₂ .dir (by simp) (by simp), hs.dir_iff]
      simp [hf]
  have hheld : ∀ f, Function.update role₂ (k.envs e).pgdir .free f = .held ↔
      role f = .held ∧ ¬ k.CopyAt e f := fun f =>
    (hrole₃ .held (by simp) (by simp) f).trans (hheld₂ f)
  refine ⟨tlbFlush s₃ (k.envs e).asid 0, _, ?_, hinv₄, ?_, hdir, hheld, Function.update_self .., ?_, ?_, ?_,
    ?_, ?_, ?_, ?_⟩
  · unfold envFreePages
    rw [hrun₁, ok_bind, hrun₂, ok_bind, hrun₃, ok_bind]
    rfl
  · intro f
    rw [FrameInv.leafRefs_congr hview₄, FrameInv.leafRefs_of_view hview₃]
    exact hbd₂ f
  · intro f hf i
    rw [tlbFlush_mem, hmem₃, hmem₂]
    refine hs.mem f ?_ i
    rcases hf with hf | hf | hf
    · exact Or.inl ((hheld f).mp hf).1
    · rw [hrole₃ .reserved (by simp) (by simp), hrole₂ .reserved (by simp) (by simp), hs.res_iff] at hf
      exact Or.inr (Or.inl hf)
    · exact Or.inr (Or.inr ((hdir f).mp hf))
  · intro t d i hne
    rw [hrole₃ _ (by simp) (by simp), hrole₂ _ (by simp) (by simp), hs.table t d i hne]
  · intro t d i hne ht j
    rw [tlbFlush_mem, hmem₃, hmem₂]
    exact hs.tableMem t d i hne ht j
  · intro f
    by_cases hf : f = (k.envs e).pgdir
    · rw [hf, Function.update_self]
      exact Or.inr rfl
    · rw [Function.update_of_ne hf]
      rcases honly₂ f with h₂ | h₂
      · rw [h₂]
        exact hs.only f
      · exact Or.inr h₂
  · intro f
    rw [hrole₃ .fresh (by simp) (by simp), hrole₂ .fresh (by simp) (by simp), hs.fresh_iff]
  · intro f
    rw [hrole₃ .reserved (by simp) (by simp), hrole₂ .reserved (by simp) (by simp), hs.res_iff]
  · intro f hf
    have hf₁ := (hs.res_iff f).mpr hf
    have hne : f ≠ (k.envs e).pgdir := by
      rintro rfl
      rw [hd] at hf
      cases hf
    show s₃.ppRef f = _
    rw [pageDecref_other hrun₃ hne, href₂ f hf₁, hs.ref f hf]

theorem envFreePages_ok (h : KernelInv b k₀ role₀ k role) (hbd : Bounded kernOwn role k.pm) {e : Nat}
    (he : k.Live e) :
    ∃ s role', envFreePages k.pm (k.envs e).pgdir (k.envs e).asid (k.envs e).pgdirCopyPa = .ok s ∧
      Retired (usedFrames b.freemem) k e role s role' := by
  refine envFreePages_retires h.frames hbd (h.dir e he) fun hne => ?_
  obtain ⟨f, hc, hf, -⟩ := h.copy e he hne
  exact ⟨f, hc, hf⟩

/-- **A dead env.** Its slot is free again, and nobody runs on its directory. -/
theorem KernelInv.retire (h : KernelInv b k₀ role₀ k role) (hb : Booted b k₀ role₀) {e : Nat}
    (he : k.Live e) {s : Pmap} {role' : Nat → Role}
    (hr : Retired (usedFrames b.freemem) k e role s role') {k' : Kernel} (hpm : k'.pm = s)
    (hdead : ¬ k'.Live e) (hdst : (k'.envs e).ipcDstva < UTOP)
    (hother : ∀ x, x ≠ e → k'.envs x = k.envs x) (hfree : k'.envFreeList = e :: k.envFreeList)
    (hbase : k'.basePgdir = k.basePgdir) (hkern : k'.kernelPgdir = k.kernelPgdir)
    (hcur : ∀ c, k'.curenv = some c → c ≠ e ∧ k.curenv = some c ∧ k'.curPgdir = k.curPgdir) :
    KernelInv b k₀ role₀ k' role' := by
  have hlive : ∀ x, k'.Live x ↔ k.Live x ∧ x ≠ e := by
    intro x
    by_cases hx : x = e
    · rw [hx]
      exact ⟨fun hl => absurd hl hdead, fun hl => absurd rfl hl.2⟩
    · unfold Kernel.Live
      rw [hother x hx]
      simp [hx]
  have hcopy : ∀ x f, x ≠ e → (k'.CopyAt x f ↔ k.CopyAt x f) := by
    intro x f hx
    unfold Kernel.CopyAt
    rw [hother x hx]
  have hdne : ∀ x, k.Live x → x ≠ e → (k.envs x).pgdir ≠ (k.envs e).pgdir :=
    fun x hx hxe heq => hxe (h.dirInj x e hx he heq)
  have hdir : ∀ x, k.Live x → x ≠ e → role' (k.envs x).pgdir = .dir := fun x hx hxe =>
    (hr.dir_iff _).mpr ⟨h.dir x hx, hdne x hx hxe⟩
  have hheld₀ : ∀ f, role₀ f = .held → role' f = .held := by
    intro f hf
    have hf' := h.held f hf
    refine (hr.held_iff f).mpr ⟨hf', fun hc => ?_⟩
    exact (h.copyAt_held he (h.frames.lt_npage (by simp [hf'])) hc).2 hf
  -- the copy of another env is not the one that went
  have hkeep : ∀ x f, k.Live x → x ≠ e → role f = .held → k.CopyAt x f → role' f = .held :=
    fun x f hx hxe hf hc => (hr.held_iff f).mpr ⟨hf, fun hc' => hxe (h.copyInj x e f hx he hf hc hc')⟩
  refine ⟨by rw [hpm]; exact hr.inv, hheld₀, ?_, hbase.trans h.base, hkern.trans h.kernel, ?_, ?_,
    fun x hx => h.liveLt x ((hlive x).mp hx).1, ?_, ?_, ?_, ?_, ?_, ?_, ?_, ?_, ?_⟩
  · intro f hf i
    rw [hpm, hr.mem f ?_ i]
    · exact h.kept f hf i
    · rcases hb.roles f with hf₀ | hf₀ | hf₀
      · refine Or.inr (Or.inl ?_)
        by_contra hne
        exact (hb.inv.managed f).mpr ((hr.inv.managed f).mp hne) hf₀
      · exact absurd hf₀ hf
      · exact Or.inl (hheld₀ f hf₀)
  · rw [hfree, List.nodup_cons]
    exact ⟨fun hm => ((h.freeIff e).mp hm).2 he, h.freeNodup⟩
  · intro x
    rw [hfree, List.mem_cons, h.freeIff, hlive]
    constructor
    · rintro (rfl | ⟨hx, hd⟩)
      · exact ⟨h.liveLt x he, fun hl => hl.2 rfl⟩
      · exact ⟨hx, fun hl => hd hl.1⟩
    · rintro ⟨hx, hd⟩
      by_cases hxe : x = e
      · exact Or.inl hxe
      · exact Or.inr ⟨hx, fun hl => hd ⟨hl, hxe⟩⟩
  · intro x hx
    obtain ⟨hx, hxe⟩ := (hlive x).mp hx
    rw [hother x hxe]
    exact hdir x hx hxe
  · intro d hd
    obtain ⟨hd, hde⟩ := (hr.dir_iff d).mp hd
    obtain ⟨x, hx, hxd⟩ := h.dirEnv d hd
    have hxe : x ≠ e := by
      rintro rfl
      exact hde hxd.symm
    exact ⟨x, (hlive x).mpr ⟨hx, hxe⟩, by rw [hother x hxe]; exact hxd⟩
  · intro x x' hx hx' hxx
    obtain ⟨hx, hxe⟩ := (hlive x).mp hx
    obtain ⟨hx', hxe'⟩ := (hlive x').mp hx'
    rw [hother x hxe, hother x' hxe'] at hxx
    exact h.dirInj x x' hx hx' hxx
  · intro x hx i hi hi' hiu
    obtain ⟨hx, hxe⟩ := (hlive x).mp hx
    rw [hother x hxe, hpm, hr.mem _ (Or.inr (Or.inr (hdir x hx hxe)))]
    exact h.half x hx i hi hi' hiu
  · intro x hx hne
    obtain ⟨hx, hxe⟩ := (hlive x).mp hx
    rw [hother x hxe] at hne
    obtain ⟨f, hc, hf, hf₀⟩ := h.copy x hx hne
    exact ⟨f, (hcopy x f hxe).mpr hc, hkeep x f hx hxe hf hc, hf₀⟩
  · intro x x' f hx hx' hf hc hc'
    obtain ⟨hx, hxe⟩ := (hlive x).mp hx
    obtain ⟨hx', hxe'⟩ := (hlive x').mp hx'
    exact h.copyInj x x' f hx hx' ((hr.held_iff f).mp hf).1 ((hcopy x f hxe).mp hc)
      ((hcopy x' f hxe').mp hc')
  · intro x hx
    obtain ⟨hx, hxe⟩ := (hlive x).mp hx
    have hm := hr.mem _ (Or.inr (Or.inr (hdir x hx hxe)))
    rw [hother x hxe, hpm, hm]
    rcases h.window x hx with hz | ⟨f, hf, hc, hw, hword⟩
    · exact Or.inl hz
    · have hf' := hkeep x f hx hxe hf hc
      refine Or.inr ⟨f, hf', (hcopy x f hxe).mpr hc, hw, ?_⟩
      intro i hi
      rw [hr.mem f (Or.inl hf') i, hword i hi]
      unfold copyWord
      rw [hm i]
  · intro c hc
    obtain ⟨hce, hc', hcd⟩ := hcur c hc
    obtain ⟨hcl, hcp⟩ := h.cur c hc'
    rw [hother c hce, hcd]
    exact ⟨(hlive c).mpr ⟨hcl, hce⟩, hcp⟩
  · intro x
    by_cases hx : x = e
    · rw [hx]
      exact hdst
    · rw [hother x hx]
      exact h.dst x

end Mos.Kern
