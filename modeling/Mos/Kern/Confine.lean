import Mos.Kern.Apart
import Mos.Kern.Progress

/-!
# MOS on RISC-V — system calls and a third env

Seven system calls take an env id from the user and edit shared structures on
its behalf. The states are those in which the frames are accounted for
(`Accounted`): each `pp_ref` is the number of mappings of its frame, below
`2 ^ 16`, no two directories share a page table below `UTOP`, and no two live
envs a directory. From each of them, no system call but a send touches an env
that is neither `curenv` nor a child of it (`syscall_untouched`).

`envid2env` gives the caller itself or a child of it (`Onlooker.target`). Page
work on that env spares the frames of the onlooker (`Accounted.apart`), because
a frame with one reference left is mapped once (`Accounted.loose`).
-/

namespace Mos.Kern

open Mos.Lib

variable {lo : Nat} {k k' k₁ : Kernel} {role : Nat → Role} {x e cur : Nat}

-- ---------------------------------------------------------------------------
-- The frames of an env
-- ---------------------------------------------------------------------------

/-- Frame `t` is a page table of the env `x` below `UTOP`. -/
def Kernel.TableOf (k : Kernel) (x t : Nat) : Prop :=
  ∃ i < PDX UTOP, testFlag (k.pm.mem (k.envs x).pgdir i) PTE_V = true ∧
    pteFrame (k.pm.mem (k.envs x).pgdir i) = t

/-- The env `x` maps frame `f` below `UTOP`. -/
def Kernel.MapsFrame (k : Kernel) (x f : Nat) : Prop :=
  ∃ i < PDX UTOP, ∃ j < 1024, ∃ w, k.pm.pteAt (k.envs x).pgdir i j = some w ∧ pteFrame w = f

/-- The directory, the page tables and the mapped frames of `x`. -/
def Kernel.SpaceOf (k : Kernel) (x f : Nat) : Prop :=
  f = (k.envs x).pgdir ∨ k.TableOf x f ∨ k.MapsFrame x f

/-- Every frame is accounted for: the roles of `FrameInv` fix each `pp_ref`, and
the table of envs agrees with them. -/
structure Accounted (lo : Nat) (k : Kernel) (role : Nat → Role) : Prop where
  frames : FrameInv kernOwn lo k.pm role
  fits : Bounded kernOwn role k.pm
  dir : ∀ e, k.Live e → role (k.envs e).pgdir = .dir
  dirInj : ∀ e e', k.Live e → k.Live e' → (k.envs e).pgdir = (k.envs e').pgdir → e = e'
  copy : ∀ e, k.Live e → (k.envs e).pgdirCopyPa ≠ 0 → ∃ f, k.CopyAt e f ∧ role f = .held
  free : ∀ e ∈ k.envFreeList, ¬ k.Live e
  cur : ∀ c, k.curenv = some c → k.Live c ∧ k.curPgdir = (k.envs c).pgdir

/-- The kernel invariant accounts for every frame, as long as no counter wraps. -/
theorem KernelInv.accounted {b : BootState} {k₀ : Kernel} {role₀ : Nat → Role}
    (h : KernelInv b k₀ role₀ k role) (hbd : Bounded kernOwn role k.pm) :
    Accounted (usedFrames b.freemem) k role where
  frames := h.frames
  fits := hbd
  dir := h.dir
  dirInj := h.dirInj
  copy e he hne := by
    obtain ⟨f, hc, hf, -⟩ := h.copy e he hne
    exact ⟨f, hc, hf⟩
  free e hm := ((h.freeIff e).mp hm).2
  cur := h.cur

namespace Accounted

theorem lt_npage (h : Accounted lo k role) {f : Nat} (hf : role f ≠ .reserved) : f < npage :=
  h.frames.lt_npage hf

theorem table_role (h : Accounted lo k role) (hx : k.Live x) {t : Nat} (ht : k.TableOf x t) :
    ∃ i, role t = .table (k.envs x).pgdir i := by
  obtain ⟨i, hi, hV, rfl⟩ := ht
  obtain ⟨t, ht⟩ := h.frames.pdeTable _ i (h.dir x hx) (kernOwn_iff.mpr hi) hV
  exact ⟨i, by rw [h.frames.pteFrame_pde ht]; exact ht⟩

/-- What the hardware walk finds below `UTOP` is a mapping. -/
theorem leaf_pteAt (h : Accounted lo k role) (hx : k.Live x) {i j w : Nat} (hi : i < PDX UTOP)
    (hw : k.pm.pteAt (k.envs x).pgdir i j = some w) :
    leaf kernOwn role k.pm ((k.envs x).pgdir, i, j) = some (pteFrame w) := by
  unfold leaf view
  simp only
  rw [if_pos ⟨h.dir x hx, kernOwn_iff.mpr hi⟩, hw]
  rfl

theorem slot_mem (h : Accounted lo k role) (hx : k.Live x) {i j : Nat} (hi : i < PDX UTOP)
    (hj : j < 1024) : ((k.envs x).pgdir, i, j) ∈ slots := by
  rw [mem_slots]
  have hd := h.lt_npage (f := (k.envs x).pgdir) (by rw [h.dir x hx]; simp)
  rw [PDX_UTOP] at hi
  exact ⟨hd, by show i < 1024; omega, hj⟩

theorem data_role (h : Accounted lo k role) (hx : k.Live x) {f : Nat} (hf : k.MapsFrame x f) :
    role f = .data := by
  obtain ⟨i, hi, j, hj, w, hw, rfl⟩ := hf
  exact h.frames.data_of_leaf hj (h.leaf_pteAt hx hi hw)

/-- The role of a frame of `x` tells what it is. -/
theorem space_role (h : Accounted lo k role) (hx : k.Live x) {f : Nat} (hf : k.SpaceOf x f) :
    (role f = .dir ∧ f = (k.envs x).pgdir) ∨ (∃ i, role f = .table (k.envs x).pgdir i) ∨
      (role f = .data ∧ k.MapsFrame x f) := by
  rcases hf with rfl | hf | hf
  · exact Or.inl ⟨h.dir x hx, rfl⟩
  · exact Or.inr (Or.inl (h.table_role hx hf))
  · exact Or.inr (Or.inr ⟨h.data_role hx hf, hf⟩)

theorem not_space_free (h : Accounted lo k role) (hx : k.Live x) {f : Nat} (hf : role f = .free) :
    ¬ k.SpaceOf x f := by
  intro hs
  rcases h.space_role hx hs with ⟨hr, -⟩ | ⟨i, hr⟩ | ⟨hr, -⟩ <;> rw [hf] at hr <;> cases hr

theorem not_space_held (h : Accounted lo k role) (hx : k.Live x) {f : Nat} (hf : role f = .held) :
    ¬ k.SpaceOf x f := by
  intro hs
  rcases h.space_role hx hs with ⟨hr, -⟩ | ⟨i, hr⟩ | ⟨hr, -⟩ <;> rw [hf] at hr <;> cases hr

/-- **The spaces of two envs are apart**, but for the data frames they share. -/
theorem apart (h : Accounted lo k role) (hx : k.Live x) (he : k.Live e) (hne : e ≠ x) :
    Apart (k.SpaceOf x) (k.envs e).pgdir k.pm := by
  have hd := h.dir e he
  refine ⟨?_, ?_, ?_⟩
  · intro hs
    rcases h.space_role hx hs with ⟨-, heq⟩ | ⟨i, hr⟩ | ⟨hr, -⟩
    · exact hne (h.dirInj e x he hx heq)
    · rw [hd] at hr
      cases hr
    · rw [hd] at hr
      cases hr
  · intro f hf
    rw [h.frames.freeIff] at hf
    refine ⟨h.not_space_free hx hf, ?_, h.lt_npage (by simp [hf])⟩
    rintro rfl
    rw [hd] at hf
    cases hf
  · intro i hi hV
    obtain ⟨t, ht⟩ := h.frames.pdeTable _ i hd (kernOwn_iff.mpr hi) hV
    rw [h.frames.pteFrame_pde ht]
    constructor
    · intro hs
      rcases h.space_role hx hs with ⟨hr, -⟩ | ⟨i', hr⟩ | ⟨hr, -⟩
      · rw [ht] at hr
        cases hr
      · -- a page table belongs to one directory
        rw [ht, Role.table.injEq] at hr
        exact hne (h.dirInj e x he hx hr.1)
      · rw [ht] at hr
        cases hr
    · rintro rfl
      rw [hd] at ht
      cases ht

/-- A frame that `e` maps with one reference left is not mapped by `x`. -/
theorem loose (h : Accounted lo k role) (hx : k.Live x) (he : k.Live e) (hne : e ≠ x) {va : Nat}
    (hva : va < UTOP) : Loose (k.SpaceOf x) (k.envs e).pgdir k.pm va := by
  intro w hw hone
  have hi := PDX_lt_UTOP hva
  have hleaf := h.leaf_pteAt he hi hw
  have hdata := h.frames.data_of_leaf (PTX_lt va) hleaf
  refine ⟨?_, ?_⟩
  · intro hs
    rcases h.space_role hx hs with ⟨hr, -⟩ | ⟨i, hr⟩ | ⟨-, i, hi', j, hj, w', hw', hf⟩
    · rw [hdata] at hr
      cases hr
    · rw [hdata] at hr
      cases hr
    · -- two slots, so two references
      have hleaf' := h.leaf_pteAt hx hi' hw'
      rw [hf] at hleaf'
      have htwo := two_le_refCount (h.slot_mem he hi (PTX_lt va)) (h.slot_mem hx hi' hj)
        (fun hc => hne (h.dirInj e x he hx (Prod.mk.inj hc).1)) hleaf hleaf'
      have href := h.frames.refOk (pteFrame w)
      rw [hdata] at href
      obtain ⟨href, -⟩ := href
      have hbd := h.fits (pteFrame w)
      unfold leafRefs at href hbd
      omega
  · intro hc
    rw [hc, h.dir e he] at hdata
    cases hdata

end Accounted

-- ---------------------------------------------------------------------------
-- What a step leaves alone
-- ---------------------------------------------------------------------------

/-- The env `x` is as it was, but for the count of its runs: so are the words of
its directory and page tables, and none of the frames it maps is free. -/
structure Untouched (x : Nat) (k k' : Kernel) : Prop where
  env : ∃ runs, k'.envs x = { k.envs x with runs := runs }
  dir : ∀ i, k'.pm.mem (k.envs x).pgdir i = k.pm.mem (k.envs x).pgdir i
  table : ∀ t, k.TableOf x t → ∀ j, k'.pm.mem t j = k.pm.mem t j
  mapped : ∀ f, k.MapsFrame x f → f ∉ k'.pm.pageFreeList

namespace Untouched

/-- Steps on the pages as they are. -/
theorem andThen (h : Untouched x k k₁) (hpm : k'.pm = k₁.pm)
    (henv : ∃ runs, k'.envs x = { k₁.envs x with runs := runs }) : Untouched x k k' := by
  obtain ⟨n, hn⟩ := h.env
  obtain ⟨n', hn'⟩ := henv
  refine ⟨⟨n', by rw [hn', hn]⟩, ?_, ?_, ?_⟩
  · rw [hpm]
    exact h.dir
  · rw [hpm]
    exact h.table
  · rw [hpm]
    exact h.mapped

theorem same (h : Untouched x k k₁) (hpm : k'.pm = k₁.pm) (henv : k'.envs x = k₁.envs x) :
    Untouched x k k' :=
  h.andThen hpm ⟨(k₁.envs x).runs, henv⟩

/-- Page work that spares the frames of `x`. -/
theorem spares {d : Nat} (h : Spares (k.SpaceOf x) d k.pm k'.pm) (henv : k'.envs x = k.envs x) :
    Untouched x k k' where
  env := ⟨(k.envs x).runs, henv⟩
  dir := h.mem _ (Or.inl rfl)
  table t ht := h.mem t (Or.inr (Or.inl ht))
  mapped f hf hfree := (h.apart.free f hfree).1 (Or.inr (Or.inr hf))

end Untouched

/-- `schedule` moves the registers of `curenv` and counts a run. -/
theorem schedule_other {yield : Bool} (h : schedule k yield = .ok k') (hx : k.curenv ≠ some x) :
    k'.pm = k.pm ∧ ∃ runs, k'.envs x = { k.envs x with runs := runs } := by
  obtain ⟨disk, count, q, log, c, h⟩ := schedule_envRun h
  obtain ⟨-, -, -, -, envs, pgdir, cpu, heq⟩ := envRun_env h
  refine ⟨by rw [heq], ?_⟩
  unfold envRun at h
  split_ifs at h
  cases h
  obtain ⟨n, hn⟩ := resume_env (saveContext { k with
    disk := disk, schedCount := count, envSchedList := q, queueLog := log }) c x
  refine ⟨n, ?_⟩
  rw [hn]
  unfold saveContext
  cases hc : k.curenv with
  | none => rfl
  | some c' =>
    have hne : x ≠ c' := by
      rintro rfl
      exact hx hc
    rw [Kernel.setEnv_of_ne _ _ _ hne]

-- ---------------------------------------------------------------------------
-- System calls
-- ---------------------------------------------------------------------------

/-- A live env `x` that is neither the running env `cur` nor a child of it. -/
structure Onlooker (lo : Nat) (k : Kernel) (role : Nat → Role) (cur x : Nat) : Prop where
  acc : Accounted lo k role
  running : k.curenv = some cur
  live : k.Live x
  ne : x ≠ cur
  notChild : (k.envs x).parentId ≠ (k.envs cur).id

namespace Onlooker

theorem curenv_ne (h : Onlooker lo k role cur x) : k.curenv ≠ some x := by
  rw [h.running]
  intro hc
  exact h.ne (Option.some.inj hc).symm

theorem curLive (h : Onlooker lo k role cur x) : k.Live cur := (h.acc.cur cur h.running).1

/-- The env a system call works on is live and another one. -/
theorem target (h : Onlooker lo k role cur x) {envid : Nat}
    (he : envid2env k cur envid true = .ok e) : k.Live e ∧ e ≠ x := by
  rcases envid2env_cases he with ⟨-, rfl⟩ | ⟨-, -, hl, -, hperm⟩
  · exact ⟨h.curLive, Ne.symm h.ne⟩
  · refine ⟨hl, ?_⟩
    rintro rfl
    rcases hperm rfl with rfl | hp
    · exact h.ne rfl
    · exact h.notChild hp

theorem apart (h : Onlooker lo k role cur x) (he : k.Live e) (hne : e ≠ x) :
    Apart (k.SpaceOf x) (k.envs e).pgdir k.pm :=
  h.acc.apart h.live he hne

theorem loose (h : Onlooker lo k role cur x) (he : k.Live e) (hne : e ≠ x) {va : Nat}
    (hva : va < UTOP) : Loose (k.SpaceOf x) (k.envs e).pgdir k.pm va :=
  h.acc.loose h.live he hne hva

theorem curApart (h : Onlooker lo k role cur x) :
    Apart (k.SpaceOf x) (k.envs cur).pgdir k.pm :=
  h.apart h.curLive (Ne.symm h.ne)

theorem refl (h : Onlooker lo k role cur x) : Untouched x k k :=
  .spares (.refl h.curApart) rfl

/-- The running env reads memory on its own directory. -/
theorem aside (h : Onlooker lo k role cur x) : Aside (k.SpaceOf x) cur k := by
  have hdir := (h.acc.cur cur h.running).2
  refine ⟨by rw [hdir]; exact h.curApart, fun hne => ?_⟩
  obtain ⟨f, hc, hf⟩ := h.acc.copy cur h.curLive hne
  have hlt : f < npage := h.acc.lt_npage (by simp [hf])
  rw [show (k.envs cur).pgdirCopyPa = page2pa f from hc, pa2idx_page2pa hlt, hdir]
  refine ⟨h.acc.not_space_held h.live hf, ?_⟩
  rintro rfl
  rw [h.acc.dir cur h.curLive] at hf
  cases hf

theorem passes (h : Onlooker lo k role cur x) (hp : Passes (k.SpaceOf x) cur k k') :
    Untouched x k k' :=
  .spares ⟨hp.aside.apart, hp.mem⟩ (hp.other x h.ne)

theorem sysPrintCons (h : Onlooker lo k role cur x) {s num : Nat} {r : Option Int}
    (hrun : Kern.sysPrintCons k cur s num = .ok (r, k')) : Untouched x k k' := by
  unfold Kern.sysPrintCons at hrun
  split_ifs at hrun
  · cases hrun
    exact h.refl
  · obtain ⟨⟨bs, k₁⟩, hload, hrun⟩ := bind_eq_ok.mp hrun
    cases hrun
    exact h.passes (h.aside.kernelLoads hload)

theorem sysYield (h : Onlooker lo k role cur x) {r : Option Int}
    (hrun : Kern.sysYield k = .ok (r, k')) : Untouched x k k' := by
  obtain ⟨k₁, hsched, hrun⟩ := bind_eq_ok.mp hrun
  cases hrun
  obtain ⟨hpm, henv⟩ := schedule_other hsched h.curenv_ne
  exact h.refl.andThen hpm henv

/-- `env_free` of another env gives back no frame of `x`. -/
theorem envFree (h : Onlooker lo k role cur x) (he : k.Live e) (hne : e ≠ x)
    (hrun : Kern.envFree k e = .ok k') : Untouched x k k' ∧ k'.curenv = k.curenv := by
  obtain ⟨s, q, log, hpages, rfl⟩ := envFree_eq hrun
  obtain ⟨s', role', hpages', hr⟩ :=
    envFreePages_retires h.acc.frames h.acc.fits (h.acc.dir e he) (h.acc.copy e he)
  rw [hpages] at hpages'
  obtain rfl := Except.ok.inj hpages'
  have hd : (k.envs x).pgdir ≠ (k.envs e).pgdir := fun hc => hne (h.acc.dirInj x e h.live he hc).symm
  have hdir : role' (k.envs x).pgdir = .dir := (hr.dir_iff _).mpr ⟨h.acc.dir x h.live, hd⟩
  refine ⟨⟨⟨(k.envs x).runs, Function.update_of_ne (Ne.symm hne) _ _⟩,
    hr.mem _ (Or.inr (Or.inr hdir)), ?_, ?_⟩, rfl⟩
  · intro t ht
    obtain ⟨i, hi⟩ := h.acc.table_role h.live ht
    exact hr.tableMem t _ i hd hi
  · rintro f ⟨i, hi, j, hj, w, hw, rfl⟩ hfree
    -- the slot still maps the frame
    have hleaf := h.acc.leaf_pteAt h.live hi hw
    unfold leaf at hleaf
    rw [← hr.view_eq h.acc.frames hd i j] at hleaf
    have hdata := hr.inv.data_of_leaf hj hleaf
    rw [(hr.inv.freeIff _).mp hfree] at hdata
    cases hdata

theorem sysEnvDestroy (h : Onlooker lo k role cur x) {envid : Nat} {r : Option Int}
    (hrun : Kern.sysEnvDestroy k cur envid = .ok (r, k')) : Untouched x k k' := by
  rcases sysEnvDestroy_cases hrun with ⟨rfl, -⟩ | ⟨e, k₁, he, hfree, hret⟩
  · exact h.refl
  · obtain ⟨hl, hne⟩ := h.target he
    obtain ⟨h₁, hcur⟩ := h.envFree hl hne hfree
    rcases hret with ⟨-, rfl⟩ | ⟨-, hsched⟩
    · exact h₁
    · obtain ⟨hpm, henv⟩ := schedule_other hsched (x := x) nofun
      exact h₁.andThen hpm henv

theorem sysSetTlbModEntry (h : Onlooker lo k role cur x) {envid func : Nat} {r : Option Int}
    (hrun : Kern.sysSetTlbModEntry k cur envid func = .ok (r, k')) : Untouched x k k' := by
  unfold Kern.sysSetTlbModEntry at hrun
  cases he : envid2env k cur envid true with
  | error m =>
    simp only [he] at hrun
    cases hrun
    exact h.refl
  | ok e =>
    simp only [he] at hrun
    cases hrun
    exact h.refl.same rfl (Kernel.setEnv_of_ne _ _ _ (Ne.symm (h.target he).2))

theorem sysMemAlloc (h : Onlooker lo k role cur x) {envid va perm : Nat} {r : Option Int}
    (hrun : Kern.sysMemAlloc k cur envid va perm = .ok (r, k')) : Untouched x k k' := by
  rcases sysMemAlloc_cases hrun with rfl | ⟨e, pp, pm, r', pm', hva, he, ha, hins, -, rfl⟩
  · exact h.refl
  · obtain ⟨hl, hne⟩ := h.target he
    obtain ⟨h₁, -, hd, -⟩ := (h.apart hl hne).alloc ha
    have hloose : Loose (k.SpaceOf x) (k.envs e).pgdir pm va := by
      intro w hw hone
      rw [pageAlloc_ppRef ha] at hone
      exact h.loose hl hne hva w (pageAlloc_pteAt ha hd hw) hone
    exact .spares (h₁.trans (h₁.apart.pageInsert hva hloose hins)) rfl

theorem sysMemMap (h : Onlooker lo k role cur x) {srcid srcva dstid dstva perm : Nat} {r : Option Int}
    (hrun : Kern.sysMemMap k cur srcid srcva dstid dstva perm = .ok (r, k')) : Untouched x k k' := by
  rcases sysMemMap_cases hrun with rfl | ⟨src, dst, pp, p, r', pm', -, hva, -, hd, -, hins, -, rfl⟩
  · exact h.refl
  · obtain ⟨hl, hne⟩ := h.target hd
    exact .spares ((h.apart hl hne).pageInsert hva (h.loose hl hne hva) hins) rfl

theorem sysMemUnmap (h : Onlooker lo k role cur x) {envid va : Nat} {r : Option Int}
    (hrun : Kern.sysMemUnmap k cur envid va = .ok (r, k')) : Untouched x k k' := by
  rcases sysMemUnmap_cases hrun with rfl | ⟨e, pm', hva, he, hrem, -, rfl⟩
  · exact h.refl
  · obtain ⟨hl, hne⟩ := h.target he
    exact .spares ((h.apart hl hne).pageRemove hva (h.loose hl hne hva) hrem) rfl

/-- `env_alloc` takes a slot that is not live and a frame that is free. -/
theorem envAlloc (h : Onlooker lo k role cur x) {parentId : Nat} {r : Except Int Nat}
    (hrun : Kern.envAlloc k parentId = (r, k')) :
    Untouched x k k' ∧ ∀ e, r = .ok e → e ≠ x := by
  have hne : ∀ e rest, k.envFreeList = e :: rest → x ≠ e := by
    rintro e rest hl rfl
    exact h.acc.free x (by rw [hl]; exact List.mem_cons_self) h.live
  have hpages : ∀ e, Spares (k.SpaceOf x) (k.envs cur).pgdir k.pm (setupPages k e).1 := by
    intro e
    unfold setupPages
    cases ha : pageAlloc k.pm with
    | none => exact .refl h.curApart
    | some y =>
      obtain ⟨p, pm⟩ := y
      obtain ⟨h₁, hP, hd, -⟩ := h.curApart.alloc ha
      have h₂ : Spares (k.SpaceOf x) (k.envs cur).pgdir pm (pm.setRef p ((pm.ppRef p + 1) % 2 ^ 16)) :=
        h₁.apart.quiet rfl fun _ hf => hf
      exact (h₁.trans h₂).trans (h₂.apart.copyWords hP hd _)
  cases envAlloc_outcome hrun with
  | full hl => exact ⟨h.refl, fun e he => nomatch he⟩
  | noAsid hl hfull =>
    refine ⟨?_, fun e he => nomatch he⟩
    rw [envPrepare_eq]
    exact .spares (hpages _) (Function.update_of_ne (hne _ _ hl) _ _)
  | ok hl hlt hclear =>
    refine ⟨.spares (hpages _) (Function.update_of_ne (hne _ _ hl) _ _), ?_⟩
    intro e he
    obtain rfl := Except.ok.inj he
    exact (hne _ _ hl).symm

theorem sysExofork (h : Onlooker lo k role cur x) {r : Option Int}
    (hrun : Kern.sysExofork k cur = .ok (r, k')) : Untouched x k k' := by
  rcases sysExofork_cases hrun with ⟨m, ha, -⟩ | ⟨e, k₁, tf, ha, -, rfl⟩
  · exact (h.envAlloc ha).1
  · obtain ⟨h₁, hne⟩ := h.envAlloc ha
    exact h₁.same rfl (Kernel.setEnv_of_ne _ _ _ (Ne.symm (hne e rfl)))

theorem sysSetEnvStatus (h : Onlooker lo k role cur x) {envid status : Nat} {r : Option Int}
    (hrun : Kern.sysSetEnvStatus k cur envid status = .ok (r, k')) : Untouched x k k' := by
  rcases sysSetEnvStatus_cases hrun with rfl | ⟨e, st, q, log, he, -, -, rfl⟩
  · exact h.refl
  · exact h.refl.same rfl (Function.update_of_ne (Ne.symm (h.target he).2) _ _)

theorem sysSetTrapframe (h : Onlooker lo k role cur x) {envid va : Nat} {r : Option Int}
    (hrun : Kern.sysSetTrapframe k cur envid va = .ok (r, k')) : Untouched x k k' := by
  rcases sysSetTrapframe_cases hrun with rfl | ⟨e, bs, k₁, tf, he, hload, hend⟩
  · exact h.refl
  · have h₁ := h.passes (h.aside.kernelLoads hload)
    rcases hend with rfl | rfl
    · exact h₁.same rfl rfl
    · exact h₁.same rfl (Kernel.setEnv_of_ne _ _ _ (Ne.symm (h.target he).2))

theorem sysIpcRecv (h : Onlooker lo k role cur x) {dstva : Nat} {r : Option Int}
    (hrun : Kern.sysIpcRecv k cur dstva = .ok (r, k')) : Untouched x k k' := by
  rcases sysIpcRecv_cases hrun with rfl | ⟨q, log, tf, -, -, hsched⟩
  · exact h.refl
  · obtain ⟨hpm, n, hn⟩ := schedule_other hsched h.curenv_ne
    refine h.refl.andThen hpm ⟨n, ?_⟩
    rw [hn]
    simp only
    rw [Function.update_of_ne h.ne]

/-- One system call, on the registers the trap saved. -/
theorem exec (h : Onlooker lo k role cur x) {s : Syscall} {r : Option Int}
    (hs : ∀ envid value srcva perm, s ≠ .ipcTrySend envid value srcva perm)
    (hrun : s.exec k cur = .ok (r, k')) : Untouched x k k' := by
  cases s with
  | putchar left =>
    cases hrun
    exact h.refl
  | printCons s num => exact h.sysPrintCons hrun
  | getenvid =>
    cases hrun
    exact h.refl
  | yield => exact h.sysYield hrun
  | envDestroy envid => exact h.sysEnvDestroy hrun
  | setTlbModEntry envid func => exact h.sysSetTlbModEntry hrun
  | memAlloc envid va perm => exact h.sysMemAlloc hrun
  | memMap srcid srcva dstid dstva perm => exact h.sysMemMap hrun
  | memUnmap envid va => exact h.sysMemUnmap hrun
  | exofork => exact h.sysExofork hrun
  | setEnvStatus envid status => exact h.sysSetEnvStatus hrun
  | setTrapframe envid va => exact h.sysSetTrapframe hrun
  | panic => cases hrun
  | ipcTrySend envid value srcva perm => exact absurd rfl (hs envid value srcva perm)
  | ipcRecv dstva => exact h.sysIpcRecv hrun
  | cgetc ch =>
    cases hrun
    exact h.refl
  | devReq dev req =>
    obtain ⟨disk, rfl⟩ := sysDevReq_cases hrun
    exact h.refl.same rfl rfl

/-- The trap stores the registers of `cur` below `KSTACKTOP`. -/
theorem setTf (h : Onlooker lo k role cur x) (tf : Trapframe) :
    Onlooker lo { k with tf := tf } role cur x :=
  ⟨⟨h.acc.frames, h.acc.fits, h.acc.dir, h.acc.dirInj, h.acc.copy, h.acc.free, h.acc.cur⟩,
    h.running, h.live, h.ne, h.notChild⟩

end Onlooker

/-- Two envs made by the kernel, `a` and then `e`, which runs first. -/
structure Pair (k₀ : Kernel) (role₀ : Nat → Role) (k : Kernel) (a e : Nat) : Prop where
  boot : smallBoot.boot = .ok k₀
  booted : Booted smallBoot k₀ role₀
  reach : KernReach (fun _ _ => True) k₀ k
  order : InOrder smallBoot k₀ role₀ k [e, a] [e, a] 99
  cur : k.curenv = some e
  ne : a ≠ e
  parent : (k.envs a).parentId = 0
  first : (k.envs a).id ≠ 0
  second : (k.envs e).id ≠ 0
  space : EmptySpace k e

/-- A new env has the flag of the env that had its slot. -/
theorem Born.idle {k k' : Kernel} {e parentId : Nat} (h : Born k k' e parentId)
    (hidle : ∀ x, (k.envs x).ipcRecving = 0) (x : Nat) : (k'.envs x).ipcRecving = 0 := by
  by_cases hx : x = e
  · rw [hx, h.recving]
    exact hidle e
  · rw [h.other x hx]
    exact hidle x

/-- Such envs, none of which waits for a message. -/
theorem smallBoot_pair :
    ∃ k₀ role₀ k a e, Pair k₀ role₀ k a e ∧ ∀ x, (k.envs x).ipcRecving = 0 := by
  obtain ⟨k₀, role₀, hboot, hb⟩ := boot_ok smallBoot (by decide)
  have h₀ : InOrder smallBoot k₀ role₀ k₀ [] [] 101 := hb.inOrder rfl (by decide)
  obtain ⟨hcur₀, hcount₀, hidle₀⟩ :
      k₀.curenv = none ∧ k₀.mkenvidCount = 0 ∧ ∀ x, (k₀.envs x).ipcRecving = 0 := by
    obtain ⟨pm, p, hk⟩ := hb.eq
    rw [hk]
    exact ⟨rfl, rfl, fun _ => rfl⟩
  obtain ⟨a, k₁, hcreate₁, h₁, -, hborn₁⟩ := h₀.create hb (by decide) UTEXT 1
  obtain ⟨e, k₂, hcreate₂, h₂, hnew, hborn₂⟩ := h₁.create hb (show 1 < NASID by decide) UTEXT 1
  obtain ⟨k, htick, h, hcur, hres⟩ := h₂.tick zeroTrapframe fun c hc => by
    rw [hborn₂.curenv, hborn₁.curenv, hcur₀] at hc
    cases hc
  have hae : a ≠ e := fun hc => hnew (hc ▸ List.mem_cons_self)
  have hlt₁ : a < NENV := h₁.table.liveLt a ((h₁.live a).mpr List.mem_cons_self)
  have hlt₂ : e < NENV := h₂.table.liveLt e ((h₂.live e).mpr List.mem_cons_self)
  have hroom := h₁.room
  obtain ⟨hcopy, hlow⟩ := hborn₂.space fun hnil => by
    rw [hnil] at hroom
    exact absurd hroom (by decide)
  obtain ⟨role₁, hinv₁, -⟩ := h₁.ok
  refine ⟨k₀, role₀, k, a, e, ⟨hboot, hb,
    .step (.step (.step .refl trivial hcreate₁) trivial hcreate₂) trivial htick, h, hcur, hae,
    ?_, ?_, ?_, ?_, ?_⟩, fun x => ?_⟩
  · rw [hres.field Env.parentId fun _ _ _ => rfl, hborn₂.other a hae]
    exact hborn₁.parent
  · rw [hres.field Env.id fun _ _ _ => rfl, hborn₂.other a hae, hborn₁.id, mkenvid_eq k₀ hlt₁, hcount₀]
    omega
  · rw [hres.field Env.id fun _ _ _ => rfl, hborn₂.id, mkenvid_eq k₁ hlt₂, hborn₁.count, hcount₀]
    omega
  · rw [hres.field Env.pgdirCopyPa fun _ _ _ => rfl]
    exact hcopy
  · intro i hi
    rw [hres.field Env.pgdir fun _ _ _ => rfl, hres.pm, hlow i hi, hinv₁.kernel, hb.kernelPgdir_eq]
    rfl
  · rw [hres.field Env.ipcRecving fun _ _ _ => rfl, hborn₂.idle (hborn₁.idle hidle₀)]

end Mos.Kern
