import Mos.Kern.Boot
import Mos.Kern.StepCases

/-!
# MOS on RISC-V — the kernel invariant

What holds between the steps of every run from boot in which the page table
entries name the frames they were made for: the frame roles of `FrameInv`, one
directory for each live env, the kernel half that all directories share, and
the copy behind the `UVPT` window of each.

`KernelInv.pages` is the frame rule: a step that changes pages only has to say
what it does to directories and to the frames the kernel holds. Every page
operation, page fault and change to the table of envs has one lemma here.
-/

namespace Mos.Kern

open Mos.Lib

/-- Frame `f` is the copy of the directory of `e`. -/
def Kernel.CopyAt (k : Kernel) (e f : Nat) : Prop :=
  (k.envs e).pgdirCopyPa = page2pa f

/-- The invariant of a kernel that was booted to `k₀`, where the frames had the
roles `role₀`. -/
structure KernelInv (b : BootState) (k₀ : Kernel) (role₀ : Nat → Role) (k : Kernel)
    (role : Nat → Role) : Prop where
  frames : FrameInv kernOwn (usedFrames b.freemem) k.pm role
  held : ∀ f, role₀ f = .held → role f = .held
  kept : ∀ f, role₀ f ≠ .free → ∀ i, k.pm.mem f i = k₀.pm.mem f i
  base : k.basePgdir = k₀.basePgdir
  kernel : k.kernelPgdir = k₀.kernelPgdir
  freeNodup : k.envFreeList.Nodup
  freeIff : ∀ e, e ∈ k.envFreeList ↔ e < NENV ∧ ¬ k.Live e
  liveLt : ∀ e, k.Live e → e < NENV
  dir : ∀ e, k.Live e → role (k.envs e).pgdir = .dir
  dirEnv : ∀ d, role d = .dir → ∃ e, k.Live e ∧ (k.envs e).pgdir = d
  dirInj : ∀ e e', k.Live e → k.Live e' → (k.envs e).pgdir = (k.envs e').pgdir → e = e'
  half : ∀ e, k.Live e → ∀ i, PDX UTOP ≤ i → i < 1024 → i ≠ PDX UVPT →
    k.pm.mem (k.envs e).pgdir i = templateWord k₀ i
  copy : ∀ e, k.Live e → (k.envs e).pgdirCopyPa ≠ 0 →
    ∃ f, k.CopyAt e f ∧ role f = .held ∧ role₀ f ≠ .held
  copyInj : ∀ e e' f, k.Live e → k.Live e' → role f = .held → k.CopyAt e f → k.CopyAt e' f →
    e = e'
  window : ∀ e, k.Live e → k.pm.mem (k.envs e).pgdir (PDX UVPT) = 0 ∨
    ∃ f, role f = .held ∧ k.CopyAt e f ∧ k.pm.mem (k.envs e).pgdir (PDX UVPT) = mkPde f ∧
      ∀ i < 1024, k.pm.mem f i = copyWord k.pm (k.envs e).pgdir i
  cur : ∀ c, k.curenv = some c → k.Live c ∧ k.curPgdir = (k.envs c).pgdir
  dst : ∀ e, (k.envs e).ipcDstva < UTOP

theorem PDX_UTOP : PDX UTOP = 509 := by decide
theorem PDX_UVPT : PDX UVPT = 511 := by decide

theorem PDX_lt_UTOP {va : Nat} (h : va < UTOP) : PDX va < PDX UTOP := by
  have hU : UTOP = 0x7f400000 := by decide
  rw [hU] at h
  rw [PDX_UTOP, PDX_eq]
  omega

theorem page2pa_ne_zero {f : Nat} (hf : f < npage) : page2pa f ≠ 0 := by
  rw [page2pa_eq hf]
  omega

theorem live_congr {k k' : Kernel} {e : Nat} (h : k'.envs e = k.envs e) (he : k.Live e) : k'.Live e := by
  unfold Kernel.Live
  rw [h]
  exact he

/-- What faults leave alone: the envs but for their copies, and who runs. -/
structure SameEnvs (k k' : Kernel) : Prop where
  other : ∀ e, (k'.envs e).withoutCopy = (k.envs e).withoutCopy
  curenv : k'.curenv = k.curenv
  curPgdir : k'.curPgdir = k.curPgdir

theorem SameEnvs.refl (k : Kernel) : SameEnvs k k := ⟨fun _ => rfl, rfl, rfl⟩

theorem SameEnvs.trans {k k₁ k₂ : Kernel} (h : SameEnvs k k₁) (h' : SameEnvs k₁ k₂) :
    SameEnvs k k₂ :=
  ⟨fun e => (h'.other e).trans (h.other e), h'.curenv.trans h.curenv,
    h'.curPgdir.trans h.curPgdir⟩

theorem SameEnvs.status {k k' : Kernel} (h : SameEnvs k k') (e : Nat) :
    (k'.envs e).status = (k.envs e).status :=
  (congrArg Env.status (h.other e) : (k'.envs e).withoutCopy.status = (k.envs e).withoutCopy.status)

theorem SameEnvs.pgdir {k k' : Kernel} (h : SameEnvs k k') (e : Nat) :
    (k'.envs e).pgdir = (k.envs e).pgdir :=
  (congrArg Env.pgdir (h.other e) : (k'.envs e).withoutCopy.pgdir = (k.envs e).withoutCopy.pgdir)

theorem SameEnvs.live {k k' : Kernel} (h : SameEnvs k k') {e : Nat} (he : k.Live e) :
    k'.Live e := by
  unfold Kernel.Live
  rw [h.status]
  exact he

namespace KernelInv

variable {b : BootState} {k₀ k : Kernel} {role₀ role : Nat → Role}

/-- The frames boot left in use are in use for good. -/
theorem boot_role (h : KernelInv b k₀ role₀ k role) (hb : Booted b k₀ role₀) {f : Nat}
    (hf : role₀ f ≠ .free) : role f = .held ∨ role f = .reserved := by
  rcases hb.roles f with e | e | e
  · refine Or.inr ?_
    by_contra hne
    have hman := (h.frames.managed f).mp hne
    exact (hb.inv.managed f).mpr hman e
  · exact absurd e hf
  · exact Or.inl (h.held f e)

theorem base_role (hb : Booted b k₀ role₀) : role₀ k₀.basePgdir ≠ .free := by
  rw [hb.base]
  simp

-- ---------------------------------------------------------------------------
-- Frame rules
-- ---------------------------------------------------------------------------

/-- The invariant looks at pages, the table of envs and the current directory. -/
theorem congr (h : KernelInv b k₀ role₀ k role) {k' : Kernel} (hpm : k'.pm = k.pm)
    (hlive : ∀ e, k'.Live e ↔ k.Live e)
    (hpg : ∀ e, k.Live e → (k'.envs e).pgdir = (k.envs e).pgdir)
    (hcp : ∀ e, k.Live e → (k'.envs e).pgdirCopyPa = (k.envs e).pgdirCopyPa)
    (hbase : k'.basePgdir = k.basePgdir) (hkern : k'.kernelPgdir = k.kernelPgdir)
    (hfree : k'.envFreeList = k.envFreeList)
    (hcur : ∀ c, k'.curenv = some c → k'.Live c ∧ k'.curPgdir = (k'.envs c).pgdir)
    (hdst : ∀ e, (k'.envs e).ipcDstva < UTOP) : KernelInv b k₀ role₀ k' role := by
  have hcopy : ∀ e f, k.Live e → (k'.CopyAt e f ↔ k.CopyAt e f) := fun e f he => by
    unfold Kernel.CopyAt
    rw [hcp e he]
  refine ⟨by rw [hpm]; exact h.frames, h.held, by rw [hpm]; exact h.kept, hbase.trans h.base,
    hkern.trans h.kernel, by rw [hfree]; exact h.freeNodup, ?_, ?_, ?_, ?_, ?_, ?_, ?_, ?_, ?_, hcur,
    hdst⟩
  · intro e
    rw [hfree, hlive]
    exact h.freeIff e
  · intro e he
    exact h.liveLt e ((hlive e).mp he)
  · intro e he
    have he' := (hlive e).mp he
    rw [hpg e he']
    exact h.dir e he'
  · intro d hd
    obtain ⟨e, he, hed⟩ := h.dirEnv d hd
    exact ⟨e, (hlive e).mpr he, (hpg e he).trans hed⟩
  · intro e e' he he' hee
    have hel := (hlive e).mp he
    have hel' := (hlive e').mp he'
    rw [hpg e hel, hpg e' hel'] at hee
    exact h.dirInj e e' hel hel' hee
  · intro e he
    have he' := (hlive e).mp he
    rw [hpm, hpg e he']
    exact h.half e he'
  · intro e he hne
    have he' := (hlive e).mp he
    rw [hcp e he'] at hne
    obtain ⟨f, hf, hr, hr₀⟩ := h.copy e he' hne
    exact ⟨f, (hcopy e f he').mpr hf, hr, hr₀⟩
  · intro e e' f he he' hf hc hc'
    have hel := (hlive e).mp he
    have hel' := (hlive e').mp he'
    exact h.copyInj e e' f hel hel' hf ((hcopy e f hel).mp hc) ((hcopy e' f hel').mp hc')
  · intro e he
    have he' := (hlive e).mp he
    rw [hpm, hpg e he']
    rcases h.window e he' with hz | ⟨f, hr, hc, hw, hword⟩
    · exact Or.inl hz
    · exact Or.inr ⟨f, hr, (hcopy e f he').mpr hc, hw, hword⟩

/-- Pages change; the kernel half of every directory and the frames in use since
boot stay, and every window is as it should be. -/
theorem pagesCore (h : KernelInv b k₀ role₀ k role) {pm' : Pmap}
    {role' : Nat → Role} (hinv : FrameInv kernOwn (usedFrames b.freemem) pm' role')
    (hheld : ∀ f, role f = .held → role' f = .held)
    (hdir : ∀ f, role' f = .dir ↔ role f = .dir)
    (hkept : ∀ f, role₀ f ≠ .free → ∀ i, pm'.mem f i = k.pm.mem f i)
    (hhalf : ∀ d, role d = .dir → ∀ i, PDX UTOP ≤ i → i ≠ PDX UVPT →
      pm'.mem d i = k.pm.mem d i)
    (hwin : ∀ e, k.Live e → pm'.mem (k.envs e).pgdir (PDX UVPT) = 0 ∨
      ∃ f, role f = .held ∧ k.CopyAt e f ∧ pm'.mem (k.envs e).pgdir (PDX UVPT) = mkPde f ∧
        ∀ i < 1024, pm'.mem f i = copyWord pm' (k.envs e).pgdir i) :
    KernelInv b k₀ role₀ { k with pm := pm' } role' := by
  have hcopy : ∀ e f, k.Live e → k.CopyAt e f → role' f = .held → role f = .held := by
    intro e f he hc hr
    have hlt : f < npage := hinv.lt_npage (by simp [hr])
    have hne : (k.envs e).pgdirCopyPa ≠ 0 := by
      rw [show (k.envs e).pgdirCopyPa = page2pa f from hc]
      exact page2pa_ne_zero hlt
    obtain ⟨f', hf', hr', -⟩ := h.copy e he hne
    have hlt' : f' < npage := h.frames.lt_npage (by simp [hr'])
    have heq : f = f' := page2pa_inj hlt hlt' (hc.symm.trans hf')
    rw [heq]
    exact hr'
  refine ⟨hinv, fun f hf => hheld f (h.held f hf), ?_, h.base, h.kernel, h.freeNodup, h.freeIff,
    h.liveLt, ?_, ?_, h.dirInj, ?_, ?_, ?_, ?_, h.cur, h.dst⟩
  · intro f hf i
    exact (hkept f hf i).trans (h.kept f hf i)
  · intro e he
    exact (hdir _).mpr (h.dir e he)
  · intro d hd
    exact h.dirEnv d ((hdir d).mp hd)
  · intro e he i hi hlt hne
    exact (hhalf _ (h.dir e he) i hi hne).trans (h.half e he i hi hlt hne)
  · intro e he hne
    obtain ⟨f, hf, hr, hr₀⟩ := h.copy e he hne
    exact ⟨f, hf, hheld f hr, hr₀⟩
  · intro e e' f he he' hf hc hc'
    exact h.copyInj e e' f he he' (hcopy e f he hc hf) hc hc'
  · intro e he
    rcases hwin e he with hz | ⟨f, hr, hc, hw, hword⟩
    · exact Or.inl hz
    · exact Or.inr ⟨f, hheld f hr, hc, hw, hword⟩

/-- **Frame rule.** Pages change; directories, tables held by the kernel and
used frames stay, but a directory may get page tables below `UTOP` if its
window is closed. -/
theorem pages (h : KernelInv b k₀ role₀ k role) (hb : Booted b k₀ role₀) {pm' : Pmap}
    {role' : Nat → Role} (hinv : FrameInv kernOwn (usedFrames b.freemem) pm' role')
    (hheld : ∀ f, role f = .held → role' f = .held)
    (hdir : ∀ f, role' f = .dir ↔ role f = .dir)
    (hmem : ∀ f, role f = .held ∨ role f = .reserved → ∀ i, pm'.mem f i = k.pm.mem f i)
    (hmdir : ∀ d, role d = .dir → (∀ i, pm'.mem d i = k.pm.mem d i) ∨
      (pm'.mem d (PDX UVPT) = 0 ∧
        ∀ i, PDX UTOP ≤ i → i ≠ PDX UVPT → pm'.mem d i = k.pm.mem d i)) :
    KernelInv b k₀ role₀ { k with pm := pm' } role' := by
  refine h.pagesCore hinv hheld hdir (fun f hf => hmem f (h.boot_role hb hf)) ?_ ?_
  · intro d hd i hi hne
    rcases hmdir d hd with hall | ⟨-, hsome⟩
    · exact hall i
    · exact hsome i hi hne
  · intro e he
    rcases hmdir _ (h.dir e he) with hall | ⟨hz, -⟩
    · rcases h.window e he with hz | ⟨f, hr, hc, hw, hword⟩
      · exact Or.inl ((hall _).trans hz)
      · refine Or.inr ⟨f, hr, hc, (hall _).trans hw, ?_⟩
        intro i hi
        rw [hmem f (Or.inl hr) i, hword i hi]
        unfold copyWord
        rw [hall i]
    · exact Or.inl hz

/-- A map update below `UTOP`. -/
theorem mapStep (h : KernelInv b k₀ role₀ k role) (hb : Booted b k₀ role₀) {d va : Nat}
    {v : Option Nat} {pm' : Pmap} {role' : Nat → Role} (hva : va < UTOP)
    (hs : MapStep kernOwn (usedFrames b.freemem) k.pm role (slotOf d va) v pm' role') :
    KernelInv b k₀ role₀ { k with pm := pm' } role' := by
  have hlt := PDX_lt_UTOP hva
  refine h.pages hb hs.inv (fun f hf => (hs.held_iff f).mpr hf) hs.dir_iff ?_ ?_
  · intro f hf i
    refine hs.mem_other f i ?_ ?_ ?_
    · rcases hf with e | e <;> simp [e]
    · rcases hf with e | e <;> simp [e]
    · rcases hf with e | e <;> simp [e]
  · intro d' hd'
    by_cases hdd : d' = d
    · subst hdd
      rcases hs.mem_uvpt with hz | hall
      · refine Or.inr ⟨hz, ?_⟩
        intro i hi hne
        refine hs.mem_dir d' i hd' ?_ ?_
        · simp only [slotOf, ne_eq, Prod.mk.injEq, true_and]
          omega
        · simp only [slotOf, ne_eq, Prod.mk.injEq, true_and]
          exact hne
      · exact Or.inl hall
    · refine Or.inl ?_
      intro i
      refine hs.mem_dir d' i hd' ?_ ?_
      · simp [slotOf, hdd]
      · simp [slotOf, hdd]

/-- `page_alloc`. -/
theorem alloc (h : KernelInv b k₀ role₀ k role) (hb : Booted b k₀ role₀) {pp : Nat}
    {pm' : Pmap} (ha : pageAlloc k.pm = some (pp, pm')) :
    role pp = .free ∧ KernelInv b k₀ role₀ { k with pm := pm' } (Function.update role pp .fresh) ∧
      view kernOwn (Function.update role pp .fresh) pm' = view kernOwn role k.pm := by
  unfold pageAlloc at ha
  cases hl : k.pm.pageFreeList with
  | nil => simp [hl] at ha
  | cons p rest =>
    simp only [hl, Option.some.injEq, Prod.mk.injEq] at ha
    obtain ⟨rfl, rfl⟩ := ha
    have hp : role p = .free := (h.frames.freeIff p).mp (by simp [hl])
    obtain ⟨hinv, hview⟩ := h.frames.alloc hl
    refine ⟨hp, h.pages hb hinv ?_ ?_ ?_ ?_, hview⟩
    · intro f hf
      rw [FrameInv.update_role_iff (by simp [hp]) (by simp)]
      exact hf
    · exact FrameInv.update_role_iff (by simp [hp]) (by simp)
    · intro f hf i
      have hne : f ≠ p := by
        rintro rfl
        rcases hf with e | e <;> simp [e] at hp
      rw [Pmap.clear_mem, if_neg hne]
    · intro d hd
      have hne : d ≠ p := by rintro rfl; simp [hp] at hd
      exact Or.inl fun i => by rw [Pmap.clear_mem, if_neg hne]

/-- A word of a page of an env, or of a page just allocated. -/
theorem store (h : KernelInv b k₀ role₀ k role) (hb : Booted b k₀ role₀) {f : Nat}
    (hf : role f = .data ∨ role f = .fresh) (i w : Nat) :
    KernelInv b k₀ role₀ { k with pm := k.pm.store f i w } role ∧
      view kernOwn role (k.pm.store f i w) = view kernOwn role k.pm := by
  have hq : ∀ q, q ≠ .data → q ≠ .fresh → role f ≠ q := by
    intro q h1 h2 e
    rcases hf with e' | e'
    · exact h1 (e.symm.trans e')
    · exact h2 (e.symm.trans e')
  obtain ⟨hinv, hview⟩ := h.frames.store_other (f := f) (i := i) (w := w)
    (fun e => absurd e (hq _ (by simp) (by simp))) (fun d i' => hq _ (by simp) (by simp))
  refine ⟨h.pages hb hinv (fun _ hf' => hf') (fun _ => Iff.rfl) ?_ ?_, hview⟩
  · intro g hg i'
    rw [Pmap.store_mem_frame]
    rintro rfl
    rcases hg with e | e
    · exact hq _ (by simp) (by simp) e
    · exact hq _ (by simp) (by simp) e
  · intro d hd
    refine Or.inl fun i' => ?_
    rw [Pmap.store_mem_frame]
    rintro rfl
    exact hq _ (by simp) (by simp) hd

theorem storeBytes (h : KernelInv b k₀ role₀ k role) (hb : Booted b k₀ role₀) {f : Nat}
    (hf : role f = .data ∨ role f = .fresh) (off : Nat) (bytes : List Nat) :
    KernelInv b k₀ role₀ { k with pm := k.pm.storeBytes f off bytes } role ∧
      view kernOwn role (k.pm.storeBytes f off bytes) = view kernOwn role k.pm := by
  induction bytes generalizing k off with
  | nil => exact ⟨h, rfl⟩
  | cons x bytes ih =>
    obtain ⟨h₁, hv₁⟩ := h.store hb hf (off / 4) (setByte (k.pm.mem f (off / 4)) (off % 4) x)
    obtain ⟨h₂, hv₂⟩ := ih h₁ (off + 1)
    exact ⟨h₂, hv₂.trans hv₁⟩

-- ---------------------------------------------------------------------------
-- Reference counts
-- ---------------------------------------------------------------------------

theorem leaf_mapStep {own : Nat → Bool} {lo : Nat} {s s' : Pmap} {role role' : Nat → Role}
    {x : Nat × Nat × Nat} {v : Option Nat} (hs : MapStep own lo s role x v s' role') :
    leaf own role' s' = Function.update (leaf own role s) x (v.map pteFrame) := by
  funext y
  unfold leaf
  rw [hs.view_eq]
  by_cases hy : y = x
  · rw [hy, Function.update_self, Function.update_self]
  · rw [Function.update_of_ne hy, Function.update_of_ne hy]

theorem leafRefs_mapStep {own : Nat → Bool} {lo : Nat} {s s' : Pmap} {role role' : Nat → Role}
    {x : Nat × Nat × Nat} {v : Option Nat} (hs : MapStep own lo s role x v s' role') (f : Nat) :
    leafRefs own role' s' f ≤ leafRefs own role s f + (if v.map pteFrame = some f then 1 else 0) := by
  unfold leafRefs
  rw [leaf_mapStep hs]
  by_cases hx : x ∈ slots
  · have := refCount_update hx (v.map pteFrame) f (g := leaf own role s)
    omega
  · rw [refCount_update_of_notMem hx]
    omega

/-- Filling an empty slot gives one reference to the frame. -/
theorem leafRefs_fill {own : Nat → Bool} {lo : Nat} {s s' : Pmap} {role role' : Nat → Role}
    {d va w : Nat} (h : FrameInv own lo s role) (hd : role d = .dir)
    (hv : view own role s (slotOf d va) = none)
    (hs : MapStep own lo s role (slotOf d va) (some w) s' role') (f : Nat) :
    leafRefs own role' s' f = leafRefs own role s f + (if pteFrame w = f then 1 else 0) := by
  have hlt : d < npage := h.lt_npage (by simp [hd])
  have hx : slotOf d va ∈ slots := mem_slots.mpr ⟨hlt, PDX_lt va, PTX_lt va⟩
  have hnone : leaf own role s (slotOf d va) = none := by
    unfold leaf
    rw [hv]
    rfl
  unfold leafRefs
  rw [leaf_mapStep hs]
  exact refCount_fill hx hnone (pteFrame w) f

/-- Mapping a page that was just allocated. -/
theorem bounded_fresh {own : Nat → Bool} {lo : Nat} {s s' : Pmap} {role role' : Nat → Role}
    {x : Nat × Nat × Nat} {w pp : Nat} (h : FrameInv own lo s role) (hb : Bounded own role s)
    (hpp : role pp = .fresh) (hw : pteFrame w = pp) (hs : MapStep own lo s role x (some w) s' role') :
    Bounded own role' s' := by
  intro f
  have hle := leafRefs_mapStep hs f
  rw [Option.map_some, hw] at hle
  by_cases hf : pp = f
  · subst hf
    have hz := h.leafRefs_eq_zero (f := pp) (by simp [hpp])
    rw [hz, if_pos rfl] at hle
    omega
  · rw [if_neg (by simpa using hf)] at hle
    have := hb f
    omega

theorem bounded_none {own : Nat → Bool} {lo : Nat} {s s' : Pmap} {role role' : Nat → Role}
    {x : Nat × Nat × Nat} (hb : Bounded own role s) (hs : MapStep own lo s role x none s' role') :
    Bounded own role' s' := by
  intro f
  have hle := leafRefs_mapStep hs f
  have := hb f
  simp only [Option.map_none, reduceCtorEq, if_false, Nat.add_zero] at hle
  omega

theorem bounded_view {own : Nat → Bool} {s s' : Pmap} {role role' : Nat → Role}
    (hb : Bounded own role s) (hv : view own role' s' = view own role s) : Bounded own role' s' := by
  intro f
  rw [FrameInv.leafRefs_congr hv]
  exact hb f

-- ---------------------------------------------------------------------------
-- Page operations on the directory of an env
-- ---------------------------------------------------------------------------

theorem insert (h : KernelInv b k₀ role₀ k role) (hb : Booted b k₀ role₀)
    (hbd : Bounded kernOwn role k.pm) {e asid pp va perm : Nat} (he : k.Live e) (hva : va < UTOP)
    (hpp : role pp = .fresh ∨ role pp = .data)
    (hframe : pteFrame (mkPte pp (readable perm)) = pp) {r : Int} {pm' : Pmap}
    (hrun : pageInsert k.pm (k.envs e).pgdir asid pp va perm = .ok (r, pm')) :
    (r = -E_NO_MEM ∧ pm' = k.pm) ∨
    (r = 0 ∧ ∃ role', KernelInv b k₀ role₀ { k with pm := pm' } role' ∧ role' pp = .data ∧
      MapStep kernOwn (usedFrames b.freemem) k.pm role (slotOf (k.envs e).pgdir va)
        (some (mkPte pp (readable perm))) pm' role') := by
  rcases pageInsert_spec h.frames asid (h.dir e he) (kernOwn_iff.mpr (PDX_lt_UTOP hva))
    kernOwn_UVPT hpp hframe hbd with ⟨-, hno⟩ | ⟨-, s', role', hyes, hdata, hs⟩
  · rw [hno] at hrun
    obtain ⟨rfl, rfl⟩ := Prod.mk.inj (Except.ok.inj hrun)
    exact Or.inl ⟨rfl, rfl⟩
  · rw [hyes] at hrun
    obtain ⟨rfl, rfl⟩ := Prod.mk.inj (Except.ok.inj hrun)
    exact Or.inr ⟨rfl, role', h.mapStep hb hva hs, hdata, hs⟩

theorem remove (h : KernelInv b k₀ role₀ k role) (hb : Booted b k₀ role₀)
    (hbd : Bounded kernOwn role k.pm) {e asid va : Nat} (he : k.Live e) (hva : va < UTOP)
    {pm' : Pmap} (hrun : pageRemove k.pm (k.envs e).pgdir asid va = .ok pm') :
    ∃ role', KernelInv b k₀ role₀ { k with pm := pm' } role' ∧ Bounded kernOwn role' pm' ∧
      ∀ x, x ≠ slotOf (k.envs e).pgdir va → view kernOwn role' pm' x = view kernOwn role k.pm x := by
  have hown : kernOwn (PDX va) = true := kernOwn_iff.mpr (PDX_lt_UTOP hva)
  cases hv : view kernOwn role k.pm (slotOf (k.envs e).pgdir va) with
  | none =>
    rw [pageRemove_none h.frames asid (h.dir e he) hown hv] at hrun
    obtain rfl := Except.ok.inj hrun
    exact ⟨role, h, hbd, fun _ _ => rfl⟩
  | some w =>
    obtain ⟨s', t, -, hr, -, hs⟩ := pageRemove_some h.frames asid hv rfl (hbd _)
    rw [hr] at hrun
    obtain rfl := Except.ok.inj hrun
    exact ⟨_, h.mapStep hb hva hs, bounded_none hbd hs, fun x hx => by
      rw [hs.view_eq, Function.update_of_ne hx]⟩

/-- The page `page_lookup` finds below `UTOP` is a mapped one. -/
theorem lookup (h : KernelInv b k₀ role₀ k role) {e va : Nat} (he : k.Live e) (hva : va < UTOP)
    {pp : Nat} {p : PtePtr} (hrun : pageLookup k.pm (k.envs e).pgdir va = .ok (some (pp, p))) :
    role pp = .data := by
  have hown : kernOwn (PDX va) = true := kernOwn_iff.mpr (PDX_lt_UTOP hva)
  cases hv : view kernOwn role k.pm (slotOf (k.envs e).pgdir va) with
  | none =>
    rw [pageLookup_none h.frames (h.dir e he) hown hv] at hrun
    cases hrun
  | some w =>
    obtain ⟨t, -, -, hr⟩ := pageLookup_some h.frames hv
    rw [hr] at hrun
    obtain ⟨hpp, -⟩ := Prod.mk.inj (Option.some.inj (Except.ok.inj hrun))
    rw [← hpp]
    refine h.frames.data_of_leaf (d := (k.envs e).pgdir) (i := PDX va) (j := PTX va) (PTX_lt va) ?_
    unfold leaf
    rw [show ((k.envs e).pgdir, PDX va, PTX va) = slotOf (k.envs e).pgdir va from rfl, hv]
    rfl

/-- The page the hardware finds below `UTOP` is a mapped one. -/
theorem pteAt_data (h : KernelInv b k₀ role₀ k role) {e va w : Nat} (he : k.Live e)
    (hva : PDX va < PDX UTOP) (hw : k.pm.pteAt (k.envs e).pgdir (PDX va) (PTX va) = some w) :
    role (pteFrame w) = .data := by
  refine h.frames.data_of_leaf (d := (k.envs e).pgdir) (i := PDX va) (j := PTX va) (PTX_lt va) ?_
  unfold leaf view
  rw [if_pos ⟨h.dir e he, kernOwn_iff.mpr hva⟩, hw]
  rfl

/-- Flags below bit 10 keep the frame. -/
theorem frame_of_perm (h : KernelInv b k₀ role₀ k role) {pp perm : Nat}
    (hpp : role pp ≠ .reserved) (hperm : perm < 2 ^ 10) :
    pteFrame (mkPte pp (readable perm)) = pp := by
  have hlt := h.frames.lt_npage hpp
  have hr : readable perm < 2 ^ 10 := by
    unfold readable
    split_ifs
    · exact Nat.or_lt_two_pow hperm (by decide)
    · exact hperm
  unfold pteFrame
  rw [PTE_ADDR_mkPte hlt hr, pa2idx_page2pa hlt]

/-- `page_alloc`, then `page_insert` of the new page below `UTOP`. -/
theorem allocInsert (h : KernelInv b k₀ role₀ k role) (hb : Booted b k₀ role₀)
    (hbd : Bounded kernOwn role k.pm) {e asid pp va perm : Nat} (he : k.Live e) (hva : va < UTOP)
    {pm₁ pm' : Pmap} {r : Int} (ha : pageAlloc k.pm = some (pp, pm₁))
    (hframe : pteFrame (mkPte pp (readable perm)) = pp)
    (hrun : pageInsert pm₁ (k.envs e).pgdir asid pp va perm = .ok (r, pm')) :
    ∃ role', KernelInv b k₀ role₀ { k with pm := pm' } role' ∧ Bounded kernOwn role' pm' ∧
      ∀ x, x ≠ slotOf (k.envs e).pgdir va → view kernOwn role' pm' x = view kernOwn role k.pm x := by
  obtain ⟨-, h₁, hv₁⟩ := h.alloc hb ha
  have hbd₁ : Bounded kernOwn (Function.update role pp .fresh) pm₁ := bounded_view hbd hv₁
  rcases h₁.insert hb hbd₁ (e := e) he hva (Or.inl (Function.update_self ..)) hframe hrun with
    ⟨-, rfl⟩ | ⟨-, role', h₂, -, hs⟩
  · exact ⟨_, h₁, hbd₁, fun _ _ => by rw [hv₁]⟩
  · refine ⟨role', h₂, bounded_fresh h₁.frames hbd₁ (Function.update_self ..) hframe hs, ?_⟩
    intro x hx
    rw [hs.view_eq, Function.update_of_ne hx]
    exact congrFun hv₁ x

-- ---------------------------------------------------------------------------
-- The window
-- ---------------------------------------------------------------------------

/-- A frame that is free after boot. -/
theorem role₀_free (h : KernelInv b k₀ role₀ k role) (hb : Booted b k₀ role₀) {f : Nat}
    (hres : role f ≠ .reserved) (hheld : role₀ f ≠ .held) : role₀ f = .free := by
  rcases hb.roles f with e | e | e
  · have hman := (h.frames.managed f).mp hres
    exact absurd e ((hb.inv.managed f).mpr hman)
  · exact e
  · exact absurd e hheld

/-- The copy of a live env is a held frame of its own. -/
theorem copyAt_held (h : KernelInv b k₀ role₀ k role) {e f : Nat} (he : k.Live e)
    (hf : f < npage) (hc : k.CopyAt e f) : role f = .held ∧ role₀ f ≠ .held := by
  have hne : (k.envs e).pgdirCopyPa ≠ 0 := by
    rw [show (k.envs e).pgdirCopyPa = page2pa f from hc]
    exact page2pa_ne_zero hf
  obtain ⟨f', hf', hr', hr₀⟩ := h.copy e he hne
  have hlt' : f' < npage := h.frames.lt_npage (by simp [hr'])
  have heq : f = f' := page2pa_inj hf hlt' (hc.symm.trans hf')
  rw [heq]
  exact ⟨hr', hr₀⟩

/-- `p->pp_ref++` on a new page the kernel keeps. -/
theorem hold (h : KernelInv b k₀ role₀ k role) (hb : Booted b k₀ role₀) {p : Nat}
    (hp : role p = .fresh) :
    KernelInv b k₀ role₀ { k with pm := k.pm.setRef p 1 } (Function.update role p .held) ∧
      view kernOwn (Function.update role p .held) (k.pm.setRef p 1) = view kernOwn role k.pm := by
  obtain ⟨hinv, hview⟩ := h.frames.hold hp
  refine ⟨h.pages hb hinv ?_ ?_ (fun _ _ _ => rfl) (fun _ _ => Or.inl fun _ => rfl), hview⟩
  · intro f hf
    have hne : f ≠ p := by rintro rfl; simp [hp] at hf
    rw [Function.update_of_ne hne]
    exact hf
  · exact FrameInv.update_role_iff (by simp [hp]) (by simp)

/-- `p->pp_ref++` right after `page_alloc`. -/
theorem allocHold (h : KernelInv b k₀ role₀ k role) (hb : Booted b k₀ role₀) {p : Nat} {pm : Pmap}
    (ha : pageAlloc k.pm = some (p, pm)) :
    role p = .free ∧ pm.ppRef p = 0 ∧
    KernelInv b k₀ role₀ { k with pm := pm.setRef p ((pm.ppRef p + 1) % 2 ^ 16) }
      (Function.update role p .held) ∧
    view kernOwn (Function.update role p .held) (pm.setRef p ((pm.ppRef p + 1) % 2 ^ 16)) =
      view kernOwn role k.pm := by
  obtain ⟨hfree, h₁, hv₁⟩ := h.alloc hb ha
  have href : pm.ppRef p = 0 := by
    have hr : RefOk (Function.update role p .fresh p) (pm.ppRef p) _ := h₁.frames.refOk p
    rw [Function.update_self] at hr
    exact hr
  obtain ⟨h₂, hv₂⟩ := h₁.hold hb (Function.update_self ..)
  rw [Function.update_idem] at h₂ hv₂
  rw [href]
  exact ⟨hfree, rfl, h₂, hv₂.trans hv₁⟩

/-- A live env that has no copy gets a held frame nobody else has. -/
theorem setCopy (h : KernelInv b k₀ role₀ k role) {c p : Nat} (hp : role p = .held)
    (hp₀ : role₀ p ≠ .held) (hzero : (k.envs c).pgdirCopyPa = 0)
    (hnew : ∀ e, k.Live e → ¬ k.CopyAt e p) :
    KernelInv b k₀ role₀ (k.setEnv c fun env => { env with pgdirCopyPa := page2pa p }) role := by
  have hother : ∀ e, e ≠ c → (k.setEnv c fun env => { env with pgdirCopyPa := page2pa p }).envs e =
      k.envs e := fun e he => Kernel.setEnv_of_ne k c _ he
  have hpg : ∀ e, ((k.setEnv c fun env => { env with pgdirCopyPa := page2pa p }).envs e).pgdir =
      (k.envs e).pgdir := by
    intro e
    by_cases he : e = c
    · rw [he, Kernel.setEnv_self]
    · rw [hother e he]
  have hlive : ∀ e, (k.setEnv c fun env => { env with pgdirCopyPa := page2pa p }).Live e ↔
      k.Live e := by
    intro e
    unfold Kernel.Live
    by_cases he : e = c
    · rw [he, Kernel.setEnv_self]
    · rw [hother e he]
  have hcopy : ∀ e f, role f = .held →
      (k.setEnv c fun env => { env with pgdirCopyPa := page2pa p }).CopyAt e f →
      (e = c ∧ f = p) ∨ (e ≠ c ∧ k.CopyAt e f) := by
    intro e f hf hc
    unfold Kernel.CopyAt at hc ⊢
    by_cases he : e = c
    · rw [he, Kernel.setEnv_self] at hc
      exact Or.inl ⟨he, page2pa_inj (h.frames.lt_npage (by simp [hf]))
        (h.frames.lt_npage (by simp [hp])) hc.symm⟩
    · rw [hother e he] at hc
      exact Or.inr ⟨he, hc⟩
  refine ⟨h.frames, h.held, h.kept, h.base, h.kernel, h.freeNodup, ?_, ?_, ?_, ?_, ?_, ?_, ?_, ?_,
    ?_, ?_, ?_⟩
  · intro e
    rw [hlive]
    exact h.freeIff e
  · intro e he
    exact h.liveLt e ((hlive e).mp he)
  · intro e he
    rw [hpg]
    exact h.dir e ((hlive e).mp he)
  · intro d hd
    obtain ⟨e, he, hed⟩ := h.dirEnv d hd
    exact ⟨e, (hlive e).mpr he, (hpg e).trans hed⟩
  · intro e e' he he' hee
    rw [hpg, hpg] at hee
    exact h.dirInj e e' ((hlive e).mp he) ((hlive e').mp he') hee
  · intro e he
    rw [hpg]
    exact h.half e ((hlive e).mp he)
  · intro e he hne
    by_cases hec : e = c
    · refine ⟨p, ?_, hp, hp₀⟩
      unfold Kernel.CopyAt
      rw [hec, Kernel.setEnv_self]
    · rw [hother e hec] at hne
      obtain ⟨f, hf, hr, hr₀⟩ := h.copy e ((hlive e).mp he) hne
      refine ⟨f, ?_, hr, hr₀⟩
      unfold Kernel.CopyAt
      rw [hother e hec]
      exact hf
  · intro e e' f he he' hf hc hc'
    rcases hcopy e f hf hc with ⟨h1, h2⟩ | ⟨h1, h2⟩
    · rcases hcopy e' f hf hc' with ⟨h1', -⟩ | ⟨-, h2'⟩
      · rw [h1, h1']
      · exact absurd (h2 ▸ h2') (hnew e' ((hlive e').mp he'))
    · rcases hcopy e' f hf hc' with ⟨-, h2'⟩ | ⟨-, h2'⟩
      · exact absurd (h2' ▸ h2) (hnew e ((hlive e).mp he))
      · exact h.copyInj e e' f ((hlive e).mp he) ((hlive e').mp he') hf h2 h2'
  · intro e he
    rw [hpg]
    rcases h.window e ((hlive e).mp he) with hz | ⟨f, hr, hc, hw, hword⟩
    · exact Or.inl hz
    · have hec : e ≠ c := by
        rintro rfl
        unfold Kernel.CopyAt at hc
        rw [hzero] at hc
        exact page2pa_ne_zero (h.frames.lt_npage (by simp [hr])) hc.symm
      refine Or.inr ⟨f, hr, ?_, hw, hword⟩
      unfold Kernel.CopyAt
      rw [hother e hec]
      exact hc
  · intro c' hc'
    obtain ⟨hl, hd⟩ := h.cur c' hc'
    exact ⟨(hlive c').mpr hl, hd.trans (hpg c').symm⟩
  · intro e
    by_cases he : e = c
    · rw [he, Kernel.setEnv_self]
      exact h.dst c
    · rw [hother e he]
      exact h.dst e

theorem copyFrame_inv (h : KernelInv b k₀ role₀ k role) (hb : Booted b k₀ role₀) {c p : Nat}
    (hc : k.Live c) {k₁ : Kernel} (hrun : copyFrame k c = .ok (p, k₁)) :
    ∃ role₁, KernelInv b k₀ role₀ k₁ role₁ ∧ role₁ p = .held ∧ k₁.CopyAt c p ∧ SameEnvs k k₁ ∧
      view kernOwn role₁ k₁.pm = view kernOwn role k.pm := by
  unfold copyFrame at hrun
  by_cases hz : (k.envs c).pgdirCopyPa = 0
  · rw [if_pos hz] at hrun
    cases ha : pageAlloc k.pm with
    | none =>
      rw [ha] at hrun
      cases hrun
    | some x =>
      obtain ⟨q, pm⟩ := x
      rw [ha] at hrun
      obtain ⟨rfl, rfl⟩ := Prod.mk.inj (Except.ok.inj hrun)
      obtain ⟨hfree, -, h₁, hv₁⟩ := h.allocHold hb ha
      have hq₀ : role₀ q ≠ .held := by
        intro e
        rw [h.held q e] at hfree
        simp at hfree
      have hnew : ∀ e, k.Live e → ¬ k.CopyAt e q := by
        intro e he hcq
        have := (h.copyAt_held he (h.frames.lt_npage (by simp [hfree])) hcq).1
        rw [hfree] at this
        simp at this
      refine ⟨_, h₁.setCopy (c := c) (Function.update_self ..) hq₀ hz hnew,
        Function.update_self .., ?_, ⟨?_, rfl, rfl⟩, hv₁⟩
      · unfold Kernel.CopyAt
        rw [Kernel.setEnv_self]
      · intro e
        by_cases hec : e = c
        · rw [hec, Kernel.setEnv_self]
          simp only [Env.withoutCopy]
        · rw [Kernel.setEnv_of_ne _ _ _ hec]
  · rw [if_neg hz] at hrun
    obtain ⟨f, hf, hr, -⟩ := h.copy c hc hz
    have hlt : f < npage := h.frames.lt_npage (by simp [hr])
    rw [show (k.envs c).pgdirCopyPa = page2pa f from hf,
      pa2page_ok (by rw [pa2idx_page2pa hlt]; exact hlt), pa2idx_page2pa hlt] at hrun
    obtain ⟨rfl, rfl⟩ := Prod.mk.inj (Except.ok.inj hrun)
    exact ⟨role, h, hr, hf, SameEnvs.refl k, rfl⟩

theorem copyWords_mem (pm : Pmap) (p : Nat) (w : Nat → Nat) (f i : Nat) :
    (pm.copyWords p w).mem f i = if f = p ∧ i < 1024 then w i else pm.mem f i := rfl

theorem mapWindow_inv (h : KernelInv b k₀ role₀ k role) (hb : Booted b k₀ role₀) {c : Nat}
    (hcur : k.curenv = some c) {k' : Kernel} (hrun : mapWindow k c = .ok k') :
    ∃ role', KernelInv b k₀ role₀ k' role' ∧ SameEnvs k k' ∧
      view kernOwn role' k'.pm = view kernOwn role k.pm := by
  obtain ⟨hc, -⟩ := h.cur c hcur
  unfold mapWindow at hrun
  obtain ⟨⟨p, k₁⟩, hframe, hrun⟩ := bind_eq_ok.mp hrun
  obtain rfl := Except.ok.inj hrun
  obtain ⟨role₁, h₁, hp, hcopy, hsame, hv₁⟩ := h.copyFrame_inv hb hc hframe
  have hc₁ : k₁.Live c := hsame.live hc
  obtain ⟨-, hd⟩ := h₁.cur c (hsame.curenv.trans hcur)
  have hlt : p < npage := h₁.frames.lt_npage (by simp [hp])
  have hp₀ : role₀ p = .free := h₁.role₀_free hb (by simp [hp]) (h₁.copyAt_held hc₁ hlt hcopy).2
  have hdir : role₁ k₁.curPgdir = .dir := by
    rw [hd]
    exact h₁.dir c hc₁
  have hpd : p ≠ k₁.curPgdir := by
    intro heq
    rw [← heq, hp] at hdir
    simp at hdir
  obtain ⟨pm', hpm'⟩ : ∃ pm', pm' = (k₁.pm.copyWords p (copyWord k₁.pm k₁.curPgdir)).store
    k₁.curPgdir (PDX UVPT) (mkPde p) := ⟨_, rfl⟩
  have hmem : ∀ f, f ≠ p → f ≠ k₁.curPgdir → ∀ i, pm'.mem f i = k₁.pm.mem f i := by
    intro f hfp hfd i
    rw [hpm', Pmap.store_mem_frame _ hfd, copyWords_mem, if_neg (fun hc => hfp hc.1)]
  have hmemd : ∀ i, i ≠ PDX UVPT → pm'.mem k₁.curPgdir i = k₁.pm.mem k₁.curPgdir i := by
    intro i hi
    rw [hpm', Pmap.store_mem, if_neg (fun hc => hi hc.2), copyWords_mem,
      if_neg (fun hc => hpd hc.1.symm)]
  have hmemp : ∀ i < 1024, pm'.mem p i = copyWord k₁.pm k₁.curPgdir i := by
    intro i hi
    rw [hpm', Pmap.store_mem_frame _ hpd, copyWords_mem, if_pos ⟨rfl, hi⟩]
  have hmemu : pm'.mem k₁.curPgdir (PDX UVPT) = mkPde p := by
    rw [hpm', Pmap.store_mem_self]
  obtain ⟨hinv, hview⟩ := h₁.frames.frame (fun _ => Iff.rfl) (fun _ _ _ => Iff.rfl)
    (fun _ => Iff.rfl) (fun _ => Iff.rfl)
    (by
      intro d i hdd hown
      have hdp : d ≠ p := by rintro rfl; simp [hp] at hdd
      by_cases hdc : d = k₁.curPgdir
      · rw [hdc]
        refine hmemd i ?_
        rintro rfl
        rw [kernOwn_UVPT] at hown
        simp at hown
      · exact hmem d hdp hdc i)
    (by
      intro t d i j ht
      refine hmem t ?_ ?_ j
      · rintro rfl
        simp [hp] at ht
      · rintro rfl
        simp [hdir] at ht)
    (show pm'.pageFreeList.Nodup by rw [hpm']; exact h₁.frames.freeNodup)
    (by rw [hpm']; exact h₁.frames.freeIff) (by rw [hpm']; exact h₁.frames.refOk)
  refine ⟨role₁, ?_, hsame.trans ⟨fun _ => rfl, rfl, rfl⟩, ?_⟩
  · show KernelInv b k₀ role₀ { k₁ with pm := (k₁.pm.copyWords p
      (copyWord k₁.pm k₁.curPgdir)).store k₁.curPgdir (PDX UVPT) (mkPde p) } role₁
    rw [← hpm']
    refine h₁.pagesCore hinv (fun _ hf => hf) (fun _ => Iff.rfl) ?_ ?_ ?_
    · intro f hf
      refine hmem f ?_ ?_
      · rintro rfl
        exact hf hp₀
      · rintro rfl
        rcases h₁.boot_role hb hf with e | e <;> simp [hdir] at e
    · intro d hdd i _ hi
      by_cases hdc : d = k₁.curPgdir
      · rw [hdc]
        exact hmemd i hi
      · refine hmem d ?_ hdc i
        rintro rfl
        simp [hp] at hdd
    · intro e he
      by_cases hec : e = c
      · -- the window of the running env shows its directory
        refine Or.inr ⟨p, hp, by rw [hec]; exact hcopy, by rw [hec, ← hd]; exact hmemu, ?_⟩
        intro i hi
        rw [hmemp i hi, hec, ← hd]
        unfold copyWord
        by_cases hiu : i = PDX UVPT
        · rw [if_pos hiu, if_pos hiu]
        · rw [if_neg hiu, if_neg hiu, hmemd i hiu]
      · -- another env has another directory and another copy
        have hed : (k₁.envs e).pgdir ≠ k₁.curPgdir := by
          intro heq
          exact hec (h₁.dirInj e c he hc₁ (heq.trans hd))
        have hep : (k₁.envs e).pgdir ≠ p := by
          intro heq
          have := h₁.dir e he
          rw [heq, hp] at this
          simp at this
        rcases h₁.window e he with hz | ⟨f, hr, hcf, hw, hword⟩
        · exact Or.inl ((hmem _ hep hed _).trans hz)
        · have hfp : f ≠ p := by
            rintro rfl
            exact hec (h₁.copyInj e c f he hc₁ hr hcf hcopy)
          have hfd : f ≠ k₁.curPgdir := by
            rintro rfl
            simp [hdir] at hr
          refine Or.inr ⟨f, hr, hcf, (hmem _ hep hed _).trans hw, ?_⟩
          intro i hi
          rw [hmem f hfp hfd i, hword i hi]
          unfold copyWord
          rw [hmem _ hep hed i]
  · show view kernOwn role₁ ((k₁.pm.copyWords p (copyWord k₁.pm k₁.curPgdir)).store k₁.curPgdir
      (PDX UVPT) (mkPde p)) = _
    rw [← hpm']
    exact hview.trans hv₁

end KernelInv

end Mos.Kern
