import Mos.Kern.FaultInv

/-!
# MOS on RISC-V — creating and destroying envs keeps the kernel invariant

`env_alloc` takes a frame for a directory, fills it from the template and makes
a free slot of `envs` live (`KernelInv.newEnv`); when the ASIDs have run out the
frame stays with the kernel (`KernelInv.lostDir`). `env_free` empties the
directory slot by slot and gives back its page tables, the copy and the
directory itself; `Shrunk` says what its two loops leave alone.
-/

namespace Mos.Kern

open Mos.Lib

variable {b : BootState} {k₀ k : Kernel} {role₀ role : Nat → Role}

-- ---------------------------------------------------------------------------
-- A new directory
-- ---------------------------------------------------------------------------

theorem setupPages_eq {p : Nat} {pm : Pmap} (ha : pageAlloc k.pm = some (p, pm)) (e : Nat) :
    setupPages k e = (newDir k p pm, p, 0) := by
  unfold setupPages
  rw [ha]

/-- Words of a frame that is no directory and no page table. -/
theorem FrameInv.copyWords {own : Nat → Bool} {lo : Nat} {s : Pmap} {role : Nat → Role}
    (h : FrameInv own lo s role) {p : Nat} (hd : role p ≠ .dir) (ht : ∀ d i, role p ≠ .table d i)
    (w : Nat → Nat) :
    FrameInv own lo (s.copyWords p w) role ∧ view own role (s.copyWords p w) = view own role s := by
  refine h.frame (fun _ => Iff.rfl) (fun _ _ _ => Iff.rfl) (fun _ => Iff.rfl) (fun _ => Iff.rfl)
    ?_ ?_ h.freeNodup h.freeIff h.refOk
  · intro d i hdd _
    refine if_neg ?_
    rintro ⟨rfl, -⟩
    exact hd hdd
  · intro t d i j htt
    refine if_neg ?_
    rintro ⟨rfl, -⟩
    exact ht d i htt

namespace KernelInv

/-- What the template holds never changes. -/
theorem template_eq (h : KernelInv b k₀ role₀ k role) (hb : Booted b k₀ role₀) {pm : Pmap}
    (hpm : ∀ i, pm.mem k.basePgdir i = k.pm.mem k.basePgdir i) (i : Nat) :
    templateWord { k with pm := pm } i = templateWord k₀ i := by
  unfold templateWord
  split_ifs
  · show pm.mem k.basePgdir i = k₀.pm.mem k₀.basePgdir i
    rw [hpm, h.base]
    exact h.kept _ (base_role hb) i
  · show k.kernelPgdir i = k₀.kernelPgdir i
    rw [h.kernel]

/-- A new directory: its words, and the words of the other frames. -/
theorem newDir_mem (h : KernelInv b k₀ role₀ k role) (hb : Booted b k₀ role₀) {p : Nat} {pm : Pmap}
    (ha : pageAlloc k.pm = some (p, pm)) :
    (∀ f, f ≠ p → ∀ i, (newDir k p pm).mem f i = k.pm.mem f i) ∧
      ∀ i < 1024, (newDir k p pm).mem p i = templateWord k₀ i := by
  obtain ⟨hfree, -, -⟩ := h.alloc hb ha
  have hpm : ∀ f, f ≠ p → ∀ i, pm.mem f i = k.pm.mem f i := by
    intro f hf i
    unfold pageAlloc at ha
    cases hl : k.pm.pageFreeList with
    | nil => simp [hl] at ha
    | cons q rest =>
      simp only [hl, Option.some.injEq, Prod.mk.injEq] at ha
      obtain ⟨rfl, rfl⟩ := ha
      rw [Pmap.clear_mem, if_neg hf]
  constructor
  · intro f hf i
    unfold newDir
    rw [copyWords_mem, if_neg (fun hc => hf hc.1), Pmap.setRef_mem]
    exact hpm f hf i
  · intro i hi
    unfold newDir
    rw [copyWords_mem, if_pos ⟨rfl, hi⟩]
    refine h.template_eq hb ?_ i
    intro i
    refine hpm _ ?_ i
    rintro rfl
    have hrole := h.boot_role hb (base_role hb)
    rw [← h.base, hfree] at hrole
    simp at hrole

/-- The slots of the template below `UTOP`, and its window, are empty. -/
theorem template_low (hb : Booted b k₀ role₀) {i : Nat} (hi : i < PDX UTOP ∨ i = PDX UVPT) :
    templateWord k₀ i = 0 := by
  have hUT := PDX_UTOP
  have hUV := PDX_UVPT
  have hUL : PDX ULIM = 512 := by decide
  unfold templateWord
  rw [if_neg (by omega), hb.kernelPgdir_eq]
  exact b.kernelLow i (by omega)

/-- The frame after `page_alloc`, in either of the roles it may get. -/
theorem newDir_frames (h : KernelInv b k₀ role₀ k role) (hb : Booted b k₀ role₀) {p : Nat} {pm : Pmap}
    (ha : pageAlloc k.pm = some (p, pm)) :
    role p = .free ∧
    (FrameInv kernOwn (usedFrames b.freemem) (newDir k p pm) (Function.update role p .dir) ∧
      view kernOwn (Function.update role p .dir) (newDir k p pm) = view kernOwn role k.pm) ∧
    (FrameInv kernOwn (usedFrames b.freemem) (newDir k p pm) (Function.update role p .held) ∧
      view kernOwn (Function.update role p .held) (newDir k p pm) = view kernOwn role k.pm) := by
  obtain ⟨hfree, h₁, hv₁⟩ := h.alloc hb ha
  obtain ⟨-, href, -, -⟩ := h.allocHold hb ha
  have hp : Function.update role p .fresh p = .fresh := Function.update_self ..
  have hone : (pm.ppRef p + 1) % 2 ^ 16 = 1 := by
    rw [href]
    rfl
  obtain ⟨w, hw⟩ : ∃ w, newDir k p pm = (pm.copyWords p w).setRef p 1 := by
    refine ⟨templateWord { k with pm := pm.setRef p 1 }, ?_⟩
    unfold newDir
    rw [hone]
    rfl
  obtain ⟨h₂, hv₂⟩ := h₁.frames.copyWords (p := p) (by simp) (by simp) w
  have hzero : ∀ i, kernOwn i = true → testFlag ((pm.copyWords p w).mem p i) PTE_V = false := by
    intro i hi
    have hi' := kernOwn_iff.mp hi
    have hword := (h.newDir_mem hb ha).2 i (kernOwn_lt i hi)
    rw [hw, Pmap.setRef_mem, template_low hb (Or.inl hi')] at hword
    rw [hword, testFlag_zero_left]
  obtain ⟨h₃, hv₃⟩ := h₂.addDir hp hzero
  obtain ⟨h₄, hv₄⟩ := h₂.hold hp
  rw [Function.update_idem] at h₃ hv₃ h₄ hv₄
  rw [hw]
  exact ⟨hfree, ⟨h₃, hv₃.trans (hv₂.trans hv₁)⟩, ⟨h₄, hv₄.trans (hv₂.trans hv₁)⟩⟩

/-- **A new env.** A free slot becomes live with a new directory. -/
theorem newEnv (h : KernelInv b k₀ role₀ k role) (hb : Booted b k₀ role₀) {e p : Nat} {pm : Pmap}
    {rest : List Nat} (hl : k.envFreeList = e :: rest) (ha : pageAlloc k.pm = some (p, pm))
    {k' : Kernel} (hpm : k'.pm = newDir k p pm) (hlive : k'.Live e) (hpg : (k'.envs e).pgdir = p)
    (hcp : (k'.envs e).pgdirCopyPa = 0) (hdst : (k'.envs e).ipcDstva < UTOP)
    (hother : ∀ x, x ≠ e → k'.envs x = k.envs x) (hfree : k'.envFreeList = rest)
    (hbase : k'.basePgdir = k.basePgdir) (hkern : k'.kernelPgdir = k.kernelPgdir)
    (hcur : k'.curenv = k.curenv) (hcurd : k'.curPgdir = k.curPgdir) :
    KernelInv b k₀ role₀ k' (Function.update role p .dir) ∧
      view kernOwn (Function.update role p .dir) k'.pm = view kernOwn role k.pm := by
  obtain ⟨hp, ⟨hinv, hview⟩, -⟩ := h.newDir_frames hb ha
  obtain ⟨hmem, hnew⟩ := h.newDir_mem hb ha
  obtain ⟨helt, hdead⟩ := (h.freeIff e).mp (by simp [hl])
  have hnodup := h.freeNodup
  rw [hl, List.nodup_cons] at hnodup
  have hlt : p < npage := h.frames.lt_npage (by simp [hp])
  have hl' : ∀ x, x ≠ e → (k'.Live x ↔ k.Live x) := by
    intro x hx
    unfold Kernel.Live
    rw [hother x hx]
  have hdirp : ∀ x, k.Live x → (k.envs x).pgdir ≠ p := by
    intro x hx heq
    have hd := h.dir x hx
    rw [heq, hp] at hd
    simp at hd
  have hcopy : ∀ x f, k'.CopyAt x f → f < npage → x ≠ e ∧ k.CopyAt x f := by
    intro x f hc hf
    unfold Kernel.CopyAt at hc ⊢
    by_cases hx : x = e
    · rw [hx, hcp] at hc
      exact absurd hc.symm (page2pa_ne_zero hf)
    · rw [hother x hx] at hc
      exact ⟨hx, hc⟩
  have hheld : ∀ f, role f = .held → Function.update role p .dir f = .held := by
    intro f hf
    have hne : f ≠ p := by
      rintro rfl
      simp [hp] at hf
    rw [Function.update_of_ne hne]
    exact hf
  have hheld' : ∀ f, Function.update role p .dir f = .held → role f = .held :=
    fun f hf => (FrameInv.update_role_iff (by simp [hp]) (by simp) f).mp hf
  refine ⟨⟨by rw [hpm]; exact hinv, fun f hf => hheld f (h.held f hf), ?_, hbase.trans h.base,
    hkern.trans h.kernel, by rw [hfree]; exact hnodup.2, ?_, ?_, ?_, ?_, ?_, ?_, ?_, ?_, ?_, ?_, ?_⟩,
    by rw [hpm]; exact hview⟩
  · intro f hf i
    rw [hpm, hmem f ?_ i]
    · exact h.kept f hf i
    · rintro rfl
      rcases h.boot_role hb hf with e' | e' <;> simp [hp] at e'
  · intro x
    rw [hfree]
    by_cases hx : x = e
    · rw [hx]
      exact ⟨fun hm => absurd hm hnodup.1, fun hm => absurd hlive hm.2⟩
    · rw [hl' x hx, ← h.freeIff x, hl, List.mem_cons]
      exact ⟨Or.inr, fun hm => hm.resolve_left hx⟩
  · intro x hx
    by_cases hxe : x = e
    · rw [hxe]
      exact helt
    · exact h.liveLt x ((hl' x hxe).mp hx)
  · intro x hx
    by_cases hxe : x = e
    · rw [hxe, hpg, Function.update_self]
    · have hx' := (hl' x hxe).mp hx
      rw [hother x hxe, Function.update_of_ne (hdirp x hx')]
      exact h.dir x hx'
  · intro d hd
    by_cases hdp : d = p
    · exact ⟨e, hlive, by rw [hpg, hdp]⟩
    · rw [Function.update_of_ne hdp] at hd
      obtain ⟨x, hx, hxd⟩ := h.dirEnv d hd
      have hxe : x ≠ e := by
        rintro rfl
        exact hdead hx
      exact ⟨x, (hl' x hxe).mpr hx, by rw [hother x hxe]; exact hxd⟩
  · intro x x' hx hx' hxx
    by_cases hxe : x = e
    · by_cases hxe' : x' = e
      · rw [hxe, hxe']
      · rw [hxe, hpg, hother x' hxe'] at hxx
        exact absurd hxx.symm (hdirp x' ((hl' x' hxe').mp hx'))
    · by_cases hxe' : x' = e
      · rw [hxe', hpg, hother x hxe] at hxx
        exact absurd hxx (hdirp x ((hl' x hxe).mp hx))
      · rw [hother x hxe, hother x' hxe'] at hxx
        exact h.dirInj x x' ((hl' x hxe).mp hx) ((hl' x' hxe').mp hx') hxx
  · intro x hx i hi hi' hiu
    rw [hpm]
    by_cases hxe : x = e
    · rw [hxe, hpg]
      exact hnew i hi'
    · have hx' := (hl' x hxe).mp hx
      rw [hother x hxe, hmem _ (hdirp x hx') i]
      exact h.half x hx' i hi hi' hiu
  · intro x hx hne
    by_cases hxe : x = e
    · rw [hxe, hcp] at hne
      exact absurd rfl hne
    · rw [hother x hxe] at hne
      obtain ⟨f, hc, hr, hr₀⟩ := h.copy x ((hl' x hxe).mp hx) hne
      refine ⟨f, ?_, hheld f hr, hr₀⟩
      unfold Kernel.CopyAt
      rw [hother x hxe]
      exact hc
  · intro x x' f hx hx' hf hc hc'
    have hflt : f < npage := hinv.lt_npage (by simp [hf])
    obtain ⟨hxe, hc⟩ := hcopy x f hc hflt
    obtain ⟨hxe', hc'⟩ := hcopy x' f hc' hflt
    exact h.copyInj x x' f ((hl' x hxe).mp hx) ((hl' x' hxe').mp hx') (hheld' f hf) hc hc'
  · intro x hx
    rw [hpm]
    by_cases hxe : x = e
    · rw [hxe, hpg]
      refine Or.inl ?_
      rw [hnew _ (by decide), template_low hb (Or.inr rfl)]
    · have hx' := (hl' x hxe).mp hx
      rw [hother x hxe, hmem _ (hdirp x hx')]
      rcases h.window x hx' with hz | ⟨f, hr, hc, hw, hword⟩
      · exact Or.inl hz
      · have hfp : f ≠ p := by
          rintro rfl
          simp [hp] at hr
        refine Or.inr ⟨f, hheld f hr, ?_, hw, ?_⟩
        · unfold Kernel.CopyAt
          rw [hother x hxe]
          exact hc
        · intro i hi
          rw [hmem f hfp i, hword i hi]
          unfold copyWord
          rw [hmem _ (hdirp x hx') i]
  · intro c hc
    rw [hcur] at hc
    obtain ⟨hcl, hcd⟩ := h.cur c hc
    have hce : c ≠ e := by
      rintro rfl
      exact hdead hcl
    rw [hother c hce, hcurd]
    exact ⟨(hl' c hce).mpr hcl, hcd⟩
  · intro x
    by_cases hxe : x = e
    · rw [hxe]
      exact hdst
    · rw [hother x hxe]
      exact h.dst x

/-- The directory of an env that got no ASID: its frame stays with the kernel,
and the slot of `envs` stays free. -/
theorem lostDir (h : KernelInv b k₀ role₀ k role) (hb : Booted b k₀ role₀) {e p : Nat} {pm : Pmap}
    (hdead : ¬ k.Live e) (ha : pageAlloc k.pm = some (p, pm)) {k' : Kernel}
    (hpm : k'.pm = newDir k p pm) (hst : (k'.envs e).status = (k.envs e).status)
    (hdst : (k'.envs e).ipcDstva < UTOP) (hother : ∀ x, x ≠ e → k'.envs x = k.envs x)
    (hfree : k'.envFreeList = k.envFreeList) (hbase : k'.basePgdir = k.basePgdir)
    (hkern : k'.kernelPgdir = k.kernelPgdir) (hcur : k'.curenv = k.curenv)
    (hcurd : k'.curPgdir = k.curPgdir) :
    KernelInv b k₀ role₀ k' (Function.update role p .held) ∧
      view kernOwn (Function.update role p .held) k'.pm = view kernOwn role k.pm := by
  obtain ⟨hp, -, hinv, hview⟩ := h.newDir_frames hb ha
  obtain ⟨hmem, -⟩ := h.newDir_mem hb ha
  have hne : ∀ f, role f ≠ .free → f ≠ p := by
    rintro f hf rfl
    exact hf hp
  have h₁ : KernelInv b k₀ role₀ { k with pm := newDir k p pm } (Function.update role p .held) := by
    refine h.pages hb hinv ?_ (FrameInv.update_role_iff (by simp [hp]) (by simp)) ?_ ?_
    · intro f hf
      rw [Function.update_of_ne (hne f (by simp [hf]))]
      exact hf
    · intro f hf
      exact hmem f (hne f (by rcases hf with hf | hf <;> simp [hf]))
    · intro d hd
      exact Or.inl (hmem d (hne d (by simp [hd])))
  have hlive : ∀ x, k'.Live x ↔ k.Live x := by
    intro x
    unfold Kernel.Live
    by_cases hx : x = e
    · rw [hx, hst]
    · rw [hother x hx]
  have hsame : ∀ x, k.Live x → k'.envs x = k.envs x := by
    intro x hx
    refine hother x ?_
    rintro rfl
    exact hdead hx
  refine ⟨h₁.congr hpm hlive (fun x hx => by rw [hsame x hx]) (fun x hx => by rw [hsame x hx]) hbase
    hkern hfree ?_ ?_, by rw [hpm]; exact hview⟩
  · intro c hc
    rw [hcur] at hc
    obtain ⟨hcl, hcd⟩ := h.cur c hc
    rw [hsame c hcl, hcurd]
    exact ⟨(hlive c).mpr hcl, hcd⟩
  · intro x
    by_cases hx : x = e
    · rw [hx]
      exact hdst
    · rw [hother x hx]
      exact h.dst x

end KernelInv

-- ---------------------------------------------------------------------------
-- env_alloc and its callers
-- ---------------------------------------------------------------------------

/-- `env_setup_vm` finds a page for the new directory. -/
def EnvRoom (k : Kernel) : Prop := k.envFreeList ≠ [] → k.pm.pageFreeList ≠ []

/-- **`env_alloc`.** A failed call keeps the invariant; after a successful one it
holds as soon as the caller has given the new env a status. -/
theorem envAlloc_inv (h : KernelOk b k₀ role₀ k) (hb : Booted b k₀ role₀) (hroom : EnvRoom k)
    {parentId : Nat} {r : Except Int Nat} {k' : Kernel} (hrun : envAlloc k parentId = (r, k')) :
    (∀ m, r = .error m → KernelOk b k₀ role₀ k' ∧ KeepsMaps k k') ∧
    ∀ e, r = .ok e → ∀ f : Env → Env, (f (k'.envs e)).status ≠ .free →
      (f (k'.envs e)).pgdir = (k'.envs e).pgdir →
      (f (k'.envs e)).pgdirCopyPa = (k'.envs e).pgdirCopyPa →
      (f (k'.envs e)).ipcDstva = (k'.envs e).ipcDstva →
      KernelOk b k₀ role₀ (k'.setEnv e f) ∧ KeepsMaps k (k'.setEnv e f) := by
  obtain ⟨role, h, hbd⟩ := h
  have hpage : ∀ e rest, k.envFreeList = e :: rest →
      ∃ p pm, pageAlloc k.pm = some (p, pm) ∧ ¬ k.Live e := by
    intro e rest hl
    cases hf : k.pm.pageFreeList with
    | nil => exact absurd hf (hroom (by simp [hl]))
    | cons p fr => exact ⟨p, _, pageAlloc_cons hf, ((h.freeIff e).mp (by simp [hl])).2⟩
  cases envAlloc_outcome hrun with
  | full hl => exact ⟨fun _ _ => ⟨⟨role, h, hbd⟩, .refl k⟩, fun e he => by cases he⟩
  | @noAsid e rest hl hfull =>
    obtain ⟨p, pm, ha, hdead⟩ := hpage e rest hl
    refine ⟨fun _ _ => ?_, fun e he => by cases he⟩
    have hpre := envPrepare_eq k e
    have henv : (envPrepare k e).envs e = preparedEnv k e := by
      rw [hpre]
      exact Function.update_self ..
    have hother : ∀ x, x ≠ e → (envPrepare k e).envs x = k.envs x := by
      intro x hx
      rw [hpre]
      exact Function.update_of_ne hx ..
    have hpm : (envPrepare k e).pm = newDir k p pm := by
      rw [hpre]
      exact congrArg Prod.fst (setupPages_eq ha e)
    obtain ⟨h₁, hv⟩ := h.lostDir hb hdead ha hpm (by rw [henv]; rfl) (by rw [henv]; exact h.dst e)
      hother (by rw [hpre]) (by rw [hpre]) (by rw [hpre]) (by rw [hpre]) (by rw [hpre])
    refine ⟨⟨_, h₁, KernelInv.bounded_view hbd hv⟩, fun x hx => ?_⟩
    have hsame : (envPrepare k e).envs x = k.envs x := hother x fun hxe => hdead (hxe ▸ hx)
    exact h.keepsSpace hx (live_congr hsame hx) (by rw [hsame]) fun y _ _ => congrFun hv y
  | @ok e asid rest hl hlt hclear =>
    obtain ⟨p, pm, ha, hdead⟩ := hpage e rest hl
    refine ⟨fun m hm => (by cases hm), ?_⟩
    intro e' he' f hst hpg hcp hdst
    obtain rfl : e = e' := by simpa using he'
    have hset := setupPages_eq ha e
    generalize hk : ({ k with
        pm := (setupPages k e).1
        envs := Function.update k.envs e (givenEnv k e asid parentId)
        envFreeList := rest
        asidBitmap := Bitmap.set k.asidBitmap asid
        mkenvidCount := (k.mkenvidCount + 1) % 2 ^ 32 } : Kernel) = k₁ at hst hpg hcp hdst ⊢
    have henv : k₁.envs e = givenEnv k e asid parentId := by
      rw [← hk]
      exact Function.update_self ..
    have hother : ∀ x, x ≠ e → (k₁.setEnv e f).envs x = k.envs x := by
      intro x hx
      rw [Kernel.setEnv_of_ne _ _ _ hx, ← hk]
      exact Function.update_of_ne hx ..
    have hpm : (k₁.setEnv e f).pm = newDir k p pm := by
      rw [Kernel.setEnv_pm, ← hk]
      exact congrArg Prod.fst hset
    obtain ⟨h₁, hv⟩ := h.newEnv hb hl ha hpm
      (by unfold Kernel.Live; rw [Kernel.setEnv_self]; exact hst)
      (by rw [Kernel.setEnv_self, hpg, henv]; exact congrArg (fun x => x.2.1) hset)
      (by rw [Kernel.setEnv_self, hcp, henv]; exact congrArg (fun x => x.2.2) hset)
      (by rw [Kernel.setEnv_self, hdst, henv]; exact h.dst e) hother
      (by rw [← hk]; rfl) (by rw [← hk]; rfl) (by rw [← hk]; rfl) (by rw [← hk]; rfl)
      (by rw [← hk]; rfl)
    refine ⟨⟨_, h₁, KernelInv.bounded_view hbd hv⟩, fun x hx => ?_⟩
    have hsame : (k₁.setEnv e f).envs x = k.envs x := hother x fun hxe => hdead (hxe ▸ hx)
    exact h.keepsSpace hx (live_congr hsame hx) (by rw [hsame]) fun y _ _ => congrFun hv y

/-- The image of a user program: its segments are mapped below `UTOP`. -/
def UserElf (binary : Option Elf) : Prop :=
  ∀ elf, binary = some elf → ∀ ph ∈ elf.phdrs, ph.type = PT_LOAD → ∀ c ∈ elfSegCalls ph, c.1 < UTOP

/-- What loading gives: the invariant, and the mappings of the other envs. -/
structure LoadOk (b : BootState) (k₀ : Kernel) (role₀ : Nat → Role) (k k' : Kernel) (e : Nat) : Prop where
  ok : KernelOk b k₀ role₀ k'
  others : ∀ x, k.Live x → x ≠ e → KeepsSpace k k' x

theorem LoadOk.refl (h : KernelOk b k₀ role₀ k) (e : Nat) : LoadOk b k₀ role₀ k k e :=
  ⟨h, fun x hx _ => KeepsMaps.refl k x hx⟩

theorem LoadOk.trans {e : Nat} {k₁ k₂ : Kernel} (h : LoadOk b k₀ role₀ k k₁ e)
    (h' : LoadOk b k₀ role₀ k₁ k₂ e) : LoadOk b k₀ role₀ k k₂ e :=
  ⟨h'.ok, fun x hx hxe => (h.others x hx hxe).trans (h'.others x (h.others x hx hxe).live hxe)⟩

theorem loadIcodeMapper_inv (h : KernelOk b k₀ role₀ k) (hb : Booted b k₀ role₀)
    {e asid va off perm : Nat} {src : Option (List Nat)} (he : k.Live e) (hva : va < UTOP)
    (hperm : perm < 2 ^ 10) {r : Int} {pm' : Pmap}
    (hrun : loadIcodeMapper (k.envs e).pgdir asid va off perm src k.pm = .ok (r, pm')) :
    LoadOk b k₀ role₀ k { k with pm := pm' } e := by
  obtain ⟨role, h, hbd⟩ := h
  unfold loadIcodeMapper at hrun
  cases ha : pageAlloc k.pm with
  | none =>
    simp only [ha, Except.ok.injEq, Prod.mk.injEq] at hrun
    obtain ⟨-, rfl⟩ := hrun
    exact .refl ⟨role, h, hbd⟩ e
  | some x =>
    obtain ⟨p, pm⟩ := x
    obtain ⟨-, h₁, hv₁⟩ := h.alloc hb ha
    simp only [ha] at hrun
    -- the bytes go to the fresh page before it is mapped
    obtain ⟨pm₂, hins, h₂, hv₂⟩ : ∃ pm₂, pageInsert pm₂ (k.envs e).pgdir asid p va perm = .ok (r, pm') ∧
        KernelInv b k₀ role₀ { k with pm := pm₂ } (Function.update role p .fresh) ∧
        view kernOwn (Function.update role p .fresh) pm₂ = view kernOwn role k.pm := by
      cases src with
      | none => exact ⟨pm, hrun, h₁, hv₁⟩
      | some bytes =>
        obtain ⟨h₂, hv₂⟩ := h₁.storeBytes hb (f := p) (Or.inr (Function.update_self ..)) off bytes
        exact ⟨_, hrun, h₂, hv₂.trans hv₁⟩
    have hbd₂ : Bounded kernOwn (Function.update role p .fresh) pm₂ := KernelInv.bounded_view hbd hv₂
    have hused : Function.update role p .fresh p ≠ .reserved := by simp
    have hframe := h₂.frame_of_perm hused hperm
    rcases h₂.insert hb hbd₂ (e := e) he hva (Or.inl (Function.update_self ..)) hframe hins with
      ⟨-, rfl⟩ | ⟨-, role', h₃, -, hs⟩
    · exact ⟨⟨_, h₂, hbd₂⟩, fun x hx _ => h.keepsSpace hx hx rfl fun y _ _ => congrFun hv₂ y⟩
    · refine ⟨⟨role', h₃,
        KernelInv.bounded_fresh h₂.frames hbd₂ (Function.update_self ..) hframe hs⟩, ?_⟩
      intro x hx hxe
      have hview : ∀ y, y.1 = (k.envs x).pgdir → (view kernOwn role k.pm y).isSome →
          view kernOwn role' pm' y = view kernOwn role k.pm y := by
        intro y hy _
        have hne : y ≠ slotOf (k.envs e).pgdir va := by
          rintro rfl
          exact hxe (h.dirInj x e hx he hy.symm)
        rw [hs.view_eq, Function.update_of_ne hne]
        exact congrFun hv₂ y
      exact h.keepsSpace hx hx rfl hview

theorem elfLoadSeg_inv (h : KernelOk b k₀ role₀ k) (hb : Booted b k₀ role₀) {e asid perm : Nat}
    {calls : List (Nat × Nat × Option (List Nat))} (he : k.Live e) (hva : ∀ c ∈ calls, c.1 < UTOP)
    (hperm : perm < 2 ^ 10) {r : Int} {pm' : Pmap}
    (hrun : elfLoadSeg (k.envs e).pgdir asid perm calls k.pm = .ok (r, pm')) :
    LoadOk b k₀ role₀ k { k with pm := pm' } e := by
  induction calls generalizing k with
  | nil =>
    simp only [elfLoadSeg, Except.ok.injEq, Prod.mk.injEq] at hrun
    obtain ⟨-, rfl⟩ := hrun
    exact .refl h e
  | cons c calls ih =>
    obtain ⟨va, off, src⟩ := c
    obtain ⟨⟨r₁, pm₁⟩, hmap, hrest⟩ := bind_eq_ok.mp hrun
    have hlow : va < UTOP := hva (va, off, src) List.mem_cons_self
    have h₁ := loadIcodeMapper_inv h hb he hlow hperm hmap
    change (if r₁ ≠ 0 then _ else _) = _ at hrest
    split_ifs at hrest with hr
    · cases hrest
      exact h₁
    · exact h₁.trans (ih (k := { k with pm := pm₁ }) h₁.ok he
        (fun c hc => hva c (List.mem_cons_of_mem _ hc)) hrest)

theorem elfSegPerm_lt (ph : Phdr) : elfSegPerm ph < 2 ^ 10 := by
  have hbase : PTE_V ||| PTE_U < 2 ^ 10 := by decide
  have hR : (if testFlag ph.flags PF_R then PTE_R else 0) < 2 ^ 10 := by split_ifs <;> decide
  have hW : (if testFlag ph.flags PF_W then PTE_W else 0) < 2 ^ 10 := by split_ifs <;> decide
  have hX : (if testFlag ph.flags PF_X then PTE_X else 0) < 2 ^ 10 := by split_ifs <;> decide
  exact Nat.or_lt_two_pow (Nat.or_lt_two_pow (Nat.or_lt_two_pow hbase hR) hW) hX

theorem loadPhdrs_inv (h : KernelOk b k₀ role₀ k) (hb : Booted b k₀ role₀) {e asid : Nat}
    {phdrs : List Phdr} (he : k.Live e)
    (hva : ∀ ph ∈ phdrs, ph.type = PT_LOAD → ∀ c ∈ elfSegCalls ph, c.1 < UTOP) {pm' : Pmap}
    (hrun : phdrs.foldlM (loadPhdr (k.envs e).pgdir asid) k.pm = .ok pm') :
    LoadOk b k₀ role₀ k { k with pm := pm' } e := by
  induction phdrs generalizing k with
  | nil =>
    cases hrun
    exact .refl h e
  | cons ph phdrs ih =>
    rw [List.foldlM_cons] at hrun
    obtain ⟨pm₁, hph, hrest⟩ := bind_eq_ok.mp hrun
    have h₁ : LoadOk b k₀ role₀ k { k with pm := pm₁ } e := by
      unfold loadPhdr at hph
      split_ifs at hph with ht
      · obtain ⟨⟨r, pm₂⟩, hseg, hdone⟩ := bind_eq_ok.mp hph
        have h₂ := elfLoadSeg_inv h hb he (hva ph (by simp) ht) (elfSegPerm_lt ph) hseg
        change (if r ≠ 0 then _ else _) = _ at hdone
        split_ifs at hdone with hr
        cases hdone
        exact h₂
      · cases hph
        exact .refl h e
    exact h₁.trans
      (ih (k := { k with pm := pm₁ }) h₁.ok he (fun ph hph => hva ph (by simp [hph])) hrest)

/-- Fields the invariant does not look at. -/
theorem KernelOk.setEnv (h : KernelOk b k₀ role₀ k) (e : Nat) {f : Env → Env}
    (hst : (f (k.envs e)).status = .free ↔ (k.envs e).status = .free)
    (hpg : (f (k.envs e)).pgdir = (k.envs e).pgdir)
    (hcp : (f (k.envs e)).pgdirCopyPa = (k.envs e).pgdirCopyPa)
    (hdst : (f (k.envs e)).ipcDstva < UTOP) : KernelOk b k₀ role₀ (k.setEnv e f) := by
  obtain ⟨role, h, hbd⟩ := h
  have hcases : ∀ x, x = e ∧ (k.setEnv e f).envs x = f (k.envs e) ∨
      x ≠ e ∧ (k.setEnv e f).envs x = k.envs x := by
    intro x
    by_cases hx : x = e
    · rw [hx]
      exact Or.inl ⟨rfl, Kernel.setEnv_self k e f⟩
    · exact Or.inr ⟨hx, Kernel.setEnv_of_ne k e f hx⟩
  have hlive : ∀ x, (k.setEnv e f).Live x ↔ k.Live x := by
    intro x
    unfold Kernel.Live
    rcases hcases x with ⟨rfl, hx⟩ | ⟨-, hx⟩
    · rw [hx]
      exact not_congr hst
    · rw [hx]
  have hdir : ∀ x, ((k.setEnv e f).envs x).pgdir = (k.envs x).pgdir := by
    intro x
    rcases hcases x with ⟨rfl, hx⟩ | ⟨-, hx⟩
    · rw [hx, hpg]
    · rw [hx]
  refine ⟨role, h.congr rfl hlive (fun x _ => hdir x) ?_ rfl rfl rfl ?_ ?_, hbd⟩
  · intro x _
    rcases hcases x with ⟨rfl, hx⟩ | ⟨-, hx⟩
    · rw [hx, hcp]
    · rw [hx]
  · intro c hc
    obtain ⟨hcl, hcd⟩ := h.cur c hc
    exact ⟨(hlive c).mpr hcl, hcd.trans (hdir c).symm⟩
  · intro x
    rcases hcases x with ⟨rfl, hx⟩ | ⟨-, hx⟩
    · rw [hx]
      exact hdst
    · rw [hx]
      exact h.dst x

/-- Nor does it look at the queue, the counters and the devices. -/
theorem KernelOk.congr (h : KernelOk b k₀ role₀ k) {k' : Kernel} (hpm : k'.pm = k.pm)
    (henvs : k'.envs = k.envs) (hbase : k'.basePgdir = k.basePgdir)
    (hkern : k'.kernelPgdir = k.kernelPgdir) (hfree : k'.envFreeList = k.envFreeList)
    (hcur : k'.curenv = k.curenv) (hcurd : k'.curPgdir = k.curPgdir) : KernelOk b k₀ role₀ k' := by
  obtain ⟨role, h, hbd⟩ := h
  refine ⟨role, h.congr hpm (fun e => ?_) (fun e _ => by rw [henvs]) (fun e _ => by rw [henvs]) hbase
    hkern hfree ?_ (fun e => by rw [henvs]; exact h.dst e), by rw [hpm]; exact hbd⟩
  · unfold Kernel.Live
    rw [henvs]
  · intro c hc
    rw [hcur] at hc
    unfold Kernel.Live
    rw [henvs, hcurd]
    exact h.cur c hc

theorem loadIcode_inv (h : KernelOk b k₀ role₀ k) (hb : Booted b k₀ role₀) {e : Nat}
    {binary : Option Elf} (he : k.Live e) (helf : UserElf binary) {k' : Kernel}
    (hrun : loadIcode k e binary = .ok k') : LoadOk b k₀ role₀ k k' e := by
  obtain ⟨elf, pm, rfl, hph, rfl⟩ := loadIcode_cases hrun
  have h₁ := loadPhdrs_inv h hb he (helf elf rfl) hph
  obtain ⟨role, h₂, -⟩ := id h₁.ok
  refine ⟨h₁.ok.setEnv e Iff.rfl rfl rfl (h₂.dst e), fun x hx hxe => ?_⟩
  have hs := h₁.others x hx hxe
  have hsame := Kernel.setEnv_of_ne { k with pm := pm } e
    (fun env => { env with tf := { env.tf with sepc := elf.entry } }) hxe
  exact ⟨live_congr hsame hs.live, by rw [hsame], hs.maps⟩

theorem envCreate_inv (h : KernelOk b k₀ role₀ k) (hb : Booted b k₀ role₀) (hroom : EnvRoom k)
    {binary : Option Elf} {priority e : Nat} (helf : UserElf binary) {k' : Kernel}
    (hrun : envCreate k binary priority = .ok (e, k')) : KernelOk b k₀ role₀ k' ∧ KeepsMaps k k' := by
  obtain ⟨k₁, k₂, ha, hload, rfl⟩ := envCreate_cases hrun
  obtain ⟨h₁, hkept⟩ := (envAlloc_inv h hb hroom ha).2 e rfl
    (fun env => { env with pri := priority, status := .runnable }) (by simp) rfl rfl rfl
  have h₂ := loadIcode_inv h₁ hb (by unfold Kernel.Live; simp) helf hload
  have hdead : ¬ k.Live e := by
    obtain ⟨rest, -, hl, -⟩ := envAlloc_given ha
    obtain ⟨role, h, -⟩ := h
    exact ((h.freeIff e).mp (by simp [hl])).2
  refine ⟨h₂.ok.congr rfl rfl rfl rfl rfl rfl rfl, fun x hx => ?_⟩
  have hxe : x ≠ e := fun hxe => hdead (hxe ▸ hx)
  have hs := (hkept x hx).trans (h₂.others x (hkept x hx).live hxe)
  exact ⟨hs.live, hs.pgdir, hs.maps⟩

theorem sysExofork_inv (h : KernelOk b k₀ role₀ k) (hb : Booted b k₀ role₀) (hroom : EnvRoom k)
    {cur : Nat} {r : Option Int} {k' : Kernel} (hrun : sysExofork k cur = .ok (r, k')) :
    KernelOk b k₀ role₀ k' ∧ KeepsMaps k k' := by
  rcases sysExofork_cases hrun with ⟨m, ha, -⟩ | ⟨e, k₁, tf, ha, -, rfl⟩
  · exact (envAlloc_inv h hb hroom ha).1 m rfl
  · exact (envAlloc_inv h hb hroom ha).2 e rfl _ (by simp) rfl rfl rfl

end Mos.Kern
