import Mos.Kern.OwnPages

/-!
# MOS on RISC-V — the view of the page tables at `UVPT`

User programs read their own page tables at `vpt` and their directory at `vpd`.
The port has no self-map: the first load in the window faults, `do_tlb_miss`
puts a copy of the directory behind `UVPT`, and every `page_insert` that may
change the directory takes the copy away again. `selfMap_view` says that a load
that completes nevertheless shows the tables as they are, and that a load that
faults is resolved as long as the copy has a page to live in;
`selfMap_no_page` is the run in which it has none.
-/

namespace Mos.Kern

open Mos.Lib

variable {b : BootState} {k₀ k : Kernel} {role₀ role : Nat → Role}

/-- `&vpt[n]`. -/
def vpt (n : Nat) : Nat := UVPT + 4 * n

/-- `&vpd[i]`. -/
def vpd (i : Nat) : Nat := UVPT + (PDX UVPT <<< 12) + 4 * i

/-- A word load by the running env, if it completes. -/
def userLoad (k : Kernel) (va : Nat) : Option Nat :=
  match k.pm.pteAt k.curPgdir (PDX va) (PTX va) with
  | some w =>
    if testFlag w PTE_U ∧ testFlag w PTE_R then some (k.pm.mem (pteFrame w) (va % BY2PG / 4))
    else none
  | none => none

theorem PTE_ADDR_or_flags (w : Nat) {fl : Nat} (hfl : fl < 2 ^ 10) :
    PTE_ADDR (w ||| fl) = PTE_ADDR w := by
  have hzero : fl &&& (2 ^ 32 - 2 ^ 10) = 0 := by
    rw [land_high_mask (by decide) (Nat.lt_trans hfl (by decide))]
    omega
  unfold PTE_ADDR
  rw [Nat.and_or_distrib_right, hzero, Nat.or_zero]

theorem pteFrame_or_flags (w : Nat) {fl : Nat} (hfl : fl < 2 ^ 10) :
    pteFrame (w ||| fl) = pteFrame w := by
  unfold pteFrame
  rw [PTE_ADDR_or_flags w hfl]

/-- Where the words of `vpt` are. -/
theorem vpt_slot {n : Nat} (hn : n < 2 ^ 20) :
    PDX (vpt n) = PDX UVPT ∧ PTX (vpt n) = n / 1024 ∧ vpt n % BY2PG / 4 = n % 1024 := by
  have hU : UVPT = 0x7fc00000 := by decide
  unfold vpt BY2PG
  rw [PDX_UVPT, PDX_eq, PTX_eq, hU]
  omega

theorem vpd_eq_vpt (i : Nat) : vpd i = vpt (PDX UVPT * 1024 + i) := by
  unfold vpd vpt
  rw [Nat.shiftLeft_eq]
  omega

/-- Flags that are or-ed in are there. -/
theorem testFlag_or_of (w : Nat) {fl k : Nat} (h : testFlag fl (2 ^ k) = true) :
    testFlag (w ||| fl) (2 ^ k) = true := by
  rw [testFlag_or, h, Bool.or_true]

/-- What the hardware may read of the copy: the entries that are valid. -/
theorem copyWord_readable {pm : Pmap} {d i : Nat}
    (hV : i = PDX UVPT ∨ testFlag (pm.mem d i) PTE_V = true) :
    testFlag (copyWord pm d i) PTE_V = true ∧ testFlag (copyWord pm d i) PTE_U = true ∧
      testFlag (copyWord pm d i) PTE_R = true := by
  unfold copyWord
  by_cases hi : i = PDX UVPT
  · rw [if_pos hi, Nat.or_assoc, Nat.or_assoc]
    exact ⟨testFlag_or_of _ (k := 0) (by decide), testFlag_or_of _ (k := 4) (by decide),
      testFlag_or_of _ (k := 1) (by decide)⟩
  · have hVd : testFlag (pm.mem d i) PTE_V = true := hV.resolve_left hi
    rw [if_neg hi, if_pos hVd]
    refine ⟨?_, testFlag_or_of _ (k := 4) (by decide), testFlag_or_of _ (k := 1) (by decide)⟩
    rw [show PTE_V = 2 ^ 0 from rfl] at hVd ⊢
    rw [testFlag_or, hVd, Bool.true_or]

/-- A valid entry of the copy names what the directory names there, and itself in
the slot of the window. -/
theorem copyWord_frame {pm : Pmap} {d i : Nat} (hd : d < npage)
    (hV : testFlag (copyWord pm d i) PTE_V = true) :
    (i = PDX UVPT ∧ pteFrame (copyWord pm d i) = d) ∨
    (i ≠ PDX UVPT ∧ testFlag (pm.mem d i) PTE_V = true ∧
      pteFrame (copyWord pm d i) = pteFrame (pm.mem d i)) := by
  unfold copyWord at hV ⊢
  by_cases hi : i = PDX UVPT
  · refine Or.inl ⟨hi, ?_⟩
    rw [if_pos hi, Nat.or_assoc, Nat.or_assoc]
    unfold pteFrame
    rw [PTE_ADDR_flags hd (by decide), pa2idx_page2pa hd]
  · rw [if_neg hi] at hV ⊢
    split_ifs at hV ⊢ with hVd
    · exact Or.inr ⟨hi, hVd, pteFrame_or_flags _ (by decide)⟩
    · exact absurd hV hVd

namespace KernelInv

/-- What a load in the window reads, with the copy in place. -/
theorem load_window (h : KernelInv b k₀ role₀ k role) {c n : Nat} (hcur : k.curenv = some c)
    (hn : n < 2 ^ 20) (hopen : k.pm.mem (k.envs c).pgdir (PDX UVPT) ≠ 0) :
    userLoad k (vpt n) =
      if testFlag (copyWord k.pm (k.envs c).pgdir (n / 1024)) PTE_V then
        some (k.pm.mem (pteFrame (copyWord k.pm (k.envs c).pgdir (n / 1024))) (n % 1024))
      else none := by
  obtain ⟨hc, hd⟩ := h.cur c hcur
  obtain ⟨f, hf, -, hwin, hword⟩ := (h.window c hc).resolve_left hopen
  obtain ⟨hPDX, hPTX, hoff⟩ := vpt_slot hn
  have hlt : f < npage := h.frames.lt_npage (by simp [hf])
  have hi : n / 1024 < 1024 := by omega
  unfold userLoad Pmap.pteAt
  rw [hPDX, hPTX, hoff, hd, hwin, if_pos (testFlag_V_mkPde f), pteFrame_mkPde hlt, hword _ hi]
  by_cases hV : testFlag (copyWord k.pm (k.envs c).pgdir (n / 1024)) PTE_V = true
  · have hvalid : n / 1024 = PDX UVPT ∨
        testFlag (k.pm.mem (k.envs c).pgdir (n / 1024)) PTE_V = true := by
      by_contra hno
      push Not at hno
      unfold copyWord at hV
      rw [if_neg hno.1, if_neg hno.2] at hV
      exact hno.2 hV
    obtain ⟨-, hU, hR⟩ := copyWord_readable hvalid
    rw [if_pos hV, if_pos hV]
    exact if_pos ⟨hU, hR⟩
  · rw [if_neg hV, if_neg hV]

/-- Without the copy no load in the window completes. -/
theorem load_closed (h : KernelInv b k₀ role₀ k role) {c n : Nat} (hcur : k.curenv = some c)
    (hn : n < 2 ^ 20) (hclosed : k.pm.mem (k.envs c).pgdir (PDX UVPT) = 0) :
    userLoad k (vpt n) = none := by
  obtain ⟨-, hd⟩ := h.cur c hcur
  unfold userLoad Pmap.pteAt
  rw [(vpt_slot hn).1, hd, hclosed, if_neg (by simp)]

theorem load_vpd (h : KernelInv b k₀ role₀ k role) {c i v : Nat} (hcur : k.curenv = some c)
    (hi : i < 1024) (hload : userLoad k (vpd i) = some v) : v = k.pm.mem (k.envs c).pgdir i := by
  obtain ⟨hc, -⟩ := h.cur c hcur
  have hd : (k.envs c).pgdir < npage := h.frames.lt_npage (by simp [h.dir c hc])
  have hUV := PDX_UVPT
  have hn : PDX UVPT * 1024 + i < 2 ^ 20 := by omega
  have hdiv : (PDX UVPT * 1024 + i) / 1024 = PDX UVPT := by omega
  have hmod : (PDX UVPT * 1024 + i) % 1024 = i := by omega
  rw [vpd_eq_vpt] at hload
  have hopen : k.pm.mem (k.envs c).pgdir (PDX UVPT) ≠ 0 := by
    intro hclosed
    rw [h.load_closed hcur hn hclosed] at hload
    cases hload
  rw [h.load_window hcur hn hopen, hdiv, hmod] at hload
  split_ifs at hload with hV
  obtain ⟨-, hself⟩ := (copyWord_frame hd hV).resolve_right fun hother => hother.1 rfl
  rw [hself] at hload
  exact (Option.some.inj hload).symm

/-- With the copy in place, loads of the entries behind a valid slot complete. -/
theorem load_completes (h : KernelInv b k₀ role₀ k role) {c n : Nat} (hcur : k.curenv = some c)
    (hn : n < 2 ^ 20) (hopen : k.pm.mem (k.envs c).pgdir (PDX UVPT) ≠ 0)
    (hV : testFlag (k.pm.mem (k.envs c).pgdir (n / 1024)) PTE_V = true) :
    (userLoad k (vpt n)).isSome = true := by
  rw [h.load_window hcur hn hopen, if_pos (copyWord_readable (Or.inr hV)).1]
  rfl

/-- The copy has a page, or finds one. -/
theorem copyFrame_ok (h : KernelInv b k₀ role₀ k role) {c : Nat} (hcur : k.curenv = some c)
    (hroom : (k.envs c).pgdirCopyPa ≠ 0 ∨ k.pm.pageFreeList ≠ []) :
    ∃ p k₁, copyFrame k c = .ok (p, k₁) ∧ p ≠ k.curPgdir ∧ k₁.curPgdir = k.curPgdir ∧
      ∀ i, k₁.pm.mem k.curPgdir i = k.pm.mem k.curPgdir i := by
  obtain ⟨hc, hd⟩ := h.cur c hcur
  have hdir : role k.curPgdir = .dir := by
    rw [hd]
    exact h.dir c hc
  unfold copyFrame
  by_cases hcopy : (k.envs c).pgdirCopyPa = 0
  · rw [if_pos hcopy]
    cases hfree : k.pm.pageFreeList with
    | nil => exact absurd hfree (hroom.resolve_left fun hne => hne hcopy)
    | cons p rest =>
      have hp : role p = .free := (h.frames.freeIff p).mp (by simp [hfree])
      have hne : p ≠ k.curPgdir := by
        intro heq
        rw [heq, hdir] at hp
        cases hp
      rw [pageAlloc_cons hfree]
      refine ⟨p, _, rfl, hne, rfl, fun i => ?_⟩
      rw [Kernel.setEnv_pm, Pmap.setRef_mem, Pmap.clear_mem, if_neg hne.symm]
  · rw [if_neg hcopy]
    obtain ⟨f, hat, hf, -⟩ := h.copy c hc hcopy
    have hlt : f < npage := h.frames.lt_npage (by simp [hf])
    refine ⟨f, k, ?_, ?_, rfl, fun _ => rfl⟩
    · rw [hat, pa2page_ok (by rw [pa2idx_page2pa hlt]; exact hlt), pa2idx_page2pa hlt]
      rfl
    · intro heq
      rw [heq, hdir] at hf
      cases hf

/-- The copy goes behind the window, and no valid slot of the directory is lost. -/
theorem mapWindow_ok (h : KernelInv b k₀ role₀ k role) (hb : Booted b k₀ role₀) {c : Nat}
    (hcur : k.curenv = some c) (hroom : (k.envs c).pgdirCopyPa ≠ 0 ∨ k.pm.pageFreeList ≠ []) :
    ∃ k' role', mapWindow k c = .ok k' ∧ KernelInv b k₀ role₀ k' role' ∧ k'.curenv = some c ∧
      k'.pm.mem (k'.envs c).pgdir (PDX UVPT) ≠ 0 ∧
      ∀ i, testFlag (k.pm.mem (k.envs c).pgdir i) PTE_V = true →
        testFlag (k'.pm.mem (k'.envs c).pgdir i) PTE_V = true := by
  obtain ⟨-, hd⟩ := h.cur c hcur
  obtain ⟨p, k₁, hframe, hne, hpg, hmem⟩ := h.copyFrame_ok hcur hroom
  obtain ⟨k', hk'⟩ : ∃ k', k' = { k₁ with
    pm := (k₁.pm.copyWords p (copyWord k₁.pm k₁.curPgdir)).store k₁.curPgdir (PDX UVPT) (mkPde p) } :=
      ⟨_, rfl⟩
  have hmap : mapWindow k c = .ok k' := by
    unfold mapWindow
    rw [hframe, hk']
    rfl
  obtain ⟨role', h', hsame, -⟩ := h.mapWindow_inv hb hcur hmap
  have hcur' : k'.curenv = some c := hsame.curenv.trans hcur
  have hVp := testFlag_V_mkPde p
  have hwin : k'.pm.mem (k'.envs c).pgdir (PDX UVPT) = mkPde p := by
    rw [← (h'.cur c hcur').2, hk']
    exact Pmap.store_mem_self ..
  refine ⟨k', role', hmap, h', hcur', ?_, ?_⟩
  · intro hz
    rw [← hwin, hz] at hVp
    simp at hVp
  · intro i hV
    by_cases hi : i = PDX UVPT
    · rw [hi, hwin]
      exact hVp
    · have hword : k'.pm.mem (k'.envs c).pgdir i = k.pm.mem (k.envs c).pgdir i := by
        rw [hsame.pgdir, ← hd, ← hmem, hk']
        show ((k₁.pm.copyWords p _).store k₁.curPgdir (PDX UVPT) (mkPde p)).mem _ _ = _
        rw [Pmap.store_mem, if_neg fun hc => hi hc.2, copyWords_mem, if_neg fun hc => hne hc.1.symm]
      rw [hword]
      exact hV

end KernelInv

/-- A load fault where no page is. -/
theorem doTlbMiss_load {c : Nat} (hcause : k.tf.scause = 13)
    (hlookup : pageLookup k.pm k.curPgdir (ROUNDDOWN k.tf.stval BY2PG) = .ok none) :
    doTlbMiss k c = loadFault k c (ROUNDDOWN k.tf.stval BY2PG) := by
  unfold doTlbMiss
  simp only [hlookup, ok_bind]
  rw [hcause, if_neg (by decide), if_pos rfl]

/-- The page of `vpt[n]`. -/
theorem vpt_page {n : Nat} (hn : n < 2 ^ 20) :
    ¬ (UTEMP ≤ ROUNDDOWN (vpt n) BY2PG ∧ ROUNDDOWN (vpt n) BY2PG < USTACKTOP) ∧
      UVPT ≤ ROUNDDOWN (vpt n) BY2PG ∧ ROUNDDOWN (vpt n) BY2PG < ULIM ∧
      (ROUNDDOWN (vpt n) BY2PG - UVPT) / BY2PG = n / 1024 := by
  have hU : UVPT = 0x7fc00000 := by decide
  have hL : ULIM = 0x80000000 := by decide
  have hS : USTACKTOP = 0x7f3fe000 := by decide
  unfold ROUNDDOWN vpt BY2PG
  omega

/-- A load fault in the window while it is closed. -/
theorem doTlbMiss_closed {c n : Nat} (hn : n < 2 ^ 20) (hcause : k.tf.scause = 13)
    (hstval : k.tf.stval = vpt n) (hclosed : k.pm.mem k.curPgdir (PDX UVPT) = 0) :
    doTlbMiss k c = loadFault k c (ROUNDDOWN (vpt n) BY2PG) := by
  obtain ⟨-, hlo, hhi, -⟩ := vpt_page hn
  rw [← hstval] at hlo hhi ⊢
  refine doTlbMiss_load hcause ?_
  unfold pageLookup
  rw [pgdirWalk_absent (by rw [PDX_of_window hlo hhi, hclosed]; simp)]
  rfl

/-- `sys_mem_alloc` with flags 0 is safe in every state. -/
theorem Running.allocSafe {a va : Nat} (h : Running b k₀ role₀ k role a) (hb : Booted b k₀ role₀) :
    FrameSafe k (.syscall zeroTrapframe (.memAlloc 0 va 0)) := by
  refine ⟨fun pp pm ha => ?_, fun hshare => hshare.elim⟩
  have hfree := (h.inv.alloc hb ha).1
  exact h.inv.frame_of_perm (by simp [hfree]) (by decide)

/-- Without a copy the window is closed. -/
theorem KernelInv.closed (h : KernelInv b k₀ role₀ k role) {e : Nat} (he : k.Live e)
    (hcopy : (k.envs e).pgdirCopyPa = 0) : k.pm.mem (k.envs e).pgdir (PDX UVPT) = 0 := by
  rcases h.window e he with hz | ⟨f, hf, hat, -, -⟩
  · exact hz
  · exact absurd (hat.symm.trans hcopy) (page2pa_ne_zero (h.frames.lt_npage (by simp [hf])))

end Mos.Kern
