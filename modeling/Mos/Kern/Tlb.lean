import Mos.Kern.TlbTrace
import Mos.Kern.KernRun
import Mos.Kern.EnvTable
import Mos.Kern.SelfMap

/-!
# MOS on RISC-V — the TLB never lies

`Kernel.fills` are the translations the hardware may pick up while the kernel works for an env, and
`TlbReach` the runs of the machine: it reads entries off the directory of `satp` whenever it likes,
forgets any, and drops those that `tlb_flush` names.

Main results:

* `KernOp.tlbStep` — the stores and fences of a step settle the translations of every env that was
  there, a new env starts with no global translation, and a dead one leaves none;
* `tlb_coherent` — along every run in which no call asks for a global page (`PTE_G`), what the TLB
  holds below `UTOP` belongs to a live env and is what its directory says now.
-/

namespace Mos.Kern

open Mos.Lib

variable {b : BootState} {k₀ k k₁ k' : Kernel} {role₀ role : Nat → Role}

-- ---------------------------------------------------------------------------
-- Envs that stay
-- ---------------------------------------------------------------------------

/-- Neither the pages changed nor who they belong to. -/
structure PagesKept (k k' : Kernel) : Prop where
  pm : k'.pm = k.pm
  live : ∀ e, k'.Live e ↔ k.Live e
  pgdir : ∀ e, (k'.envs e).pgdir = (k.envs e).pgdir
  asid : ∀ e, (k'.envs e).asid = (k.envs e).asid

theorem PagesKept.of_eq (hpm : k'.pm = k.pm) (henvs : k'.envs = k.envs) : PagesKept k k' := by
  refine ⟨hpm, fun e => ?_, fun e => by rw [henvs], fun e => by rw [henvs]⟩
  unfold Kernel.Live
  rw [henvs]

/-- One env gets a new entry. -/
theorem PagesKept.update {e : Nat} {v : Env} (henvs : k'.envs = Function.update k.envs e v)
    (hpm : k'.pm = k.pm) (hst : v.status = .free ↔ (k.envs e).status = .free)
    (hpg : v.pgdir = (k.envs e).pgdir) (has : v.asid = (k.envs e).asid) : PagesKept k k' := by
  have hcases : ∀ x, x = e ∧ k'.envs x = v ∨ k'.envs x = k.envs x := by
    intro x
    rw [henvs]
    by_cases hx : x = e
    · exact Or.inl ⟨hx, by rw [hx, Function.update_self]⟩
    · exact Or.inr (Function.update_of_ne hx ..)
  refine ⟨hpm, fun x => ?_, fun x => ?_, fun x => ?_⟩
  · unfold Kernel.Live
    rcases hcases x with ⟨rfl, hx⟩ | hx
    · rw [hx]
      exact not_congr hst
    · rw [hx]
  · rcases hcases x with ⟨rfl, hx⟩ | hx
    · rw [hx, hpg]
    · rw [hx]
  · rcases hcases x with ⟨rfl, hx⟩ | hx
    · rw [hx, has]
    · rw [hx]

theorem PagesKept.setEnv (k : Kernel) (e : Nat) {f : Env → Env}
    (hst : (f (k.envs e)).status = .free ↔ (k.envs e).status = .free)
    (hpg : (f (k.envs e)).pgdir = (k.envs e).pgdir) (has : (f (k.envs e)).asid = (k.envs e).asid) :
    PagesKept k (k.setEnv e f) := .update rfl rfl hst hpg has

/-- Every env stays, with its directory and its ASID, and its translations settle. -/
structure Fenced (k k' : Kernel) : Prop where
  live : ∀ e, k'.Live e ↔ k.Live e
  pgdir : ∀ e, k.Live e → (k'.envs e).pgdir = (k.envs e).pgdir
  asid : ∀ e, k.Live e → (k'.envs e).asid = (k.envs e).asid
  edits : ∀ e, k.Live e → Edits (k.envs e).pgdir (k.envs e).asid k.pm k'.pm
  traced : ∃ evs, Traced k.pm k'.pm evs

namespace Fenced

theorem trans (h : Fenced k k₁) (h' : Fenced k₁ k') : Fenced k k' where
  live e := (h'.live e).trans (h.live e)
  pgdir e he := (h'.pgdir e ((h.live e).mpr he)).trans (h.pgdir e he)
  asid e he := (h'.asid e ((h.live e).mpr he)).trans (h.asid e he)
  edits e he := by
    have hafter := h'.edits e ((h.live e).mpr he)
    rw [h.pgdir e he, h.asid e he] at hafter
    exact (h.edits e he).trans hafter
  traced := by
    obtain ⟨evs, htr⟩ := h.traced
    obtain ⟨evs', htr'⟩ := h'.traced
    exact ⟨_, htr.trans htr'⟩

theorem of_same (h : PagesKept k k') : Fenced k k' where
  live := h.live
  pgdir e _ := h.pgdir e
  asid e _ := h.asid e
  edits e _ := by
    rw [h.pm]
    exact .refl _ _ _
  traced := by
    rw [h.pm]
    exact ⟨[], .nil rfl rfl⟩

theorem refl (k : Kernel) : Fenced k k := .of_same (.of_eq rfl rfl)

theorem setTf (k : Kernel) (tf : Trapframe) : Fenced k { k with tf := tf } := .of_same (.of_eq rfl rfl)

end Fenced

theorem SameEnvs.asid (h : SameEnvs k k') (e : Nat) : (k'.envs e).asid = (k.envs e).asid :=
  (congrArg Env.asid (h.other e) : (k'.envs e).withoutCopy.asid = (k.envs e).withoutCopy.asid)

namespace KernelInv

/-- Work on the directory of one env, with the edits of every directory. -/
theorem fenced (h : KernelInv b k₀ role₀ k role) {e : Nat} (he : k.Live e) (hsame : SameEnvs k k')
    (hedits : ∀ d a, role d = .dir → (d = (k.envs e).pgdir → a = (k.envs e).asid) →
      Edits d a k.pm k'.pm) : Fenced k k' := by
  have hall : ∀ x, k.Live x → Edits (k.envs x).pgdir (k.envs x).asid k.pm k'.pm := by
    intro x hx
    refine hedits _ _ (h.dir x hx) fun hd => ?_
    rw [h.dirInj x e hx he hd]
  refine ⟨fun x => ?_, fun x _ => hsame.pgdir x, fun x _ => hsame.asid x, hall, ?_⟩
  · unfold Kernel.Live
    rw [hsame.status]
  · obtain ⟨evs, htr, -⟩ := hall e he
    exact ⟨evs, htr⟩

theorem fencedCalm (h : KernelInv b k₀ role₀ k role) {e : Nat} (he : k.Live e) (hsame : SameEnvs k k')
    (hcalm : ∀ d, role d = .dir → Calm d k.pm k'.pm) : Fenced k k' :=
  h.fenced he hsame fun d a hd _ => (hcalm d hd).edits a

theorem insert_fenced (h : KernelInv b k₀ role₀ k role) (hbd : Bounded kernOwn role k.pm)
    {e pp va perm : Nat} (he : k.Live e) (hva : va < UTOP) (hg : testFlag perm PTE_G = false)
    {r : Int} {pm' : Pmap}
    (hrun : pageInsert k.pm (k.envs e).pgdir (k.envs e).asid pp va perm = .ok (r, pm')) :
    Fenced k { k with pm := pm' } :=
  h.fenced he ⟨fun _ => rfl, rfl, rfl⟩ fun _ _ hd ha =>
    pageInsert_edits h.frames hbd hd (h.dir e he) ha (PDX_lt_UTOP hva) hg hrun

theorem remove_fenced (h : KernelInv b k₀ role₀ k role) {e va : Nat} (he : k.Live e) (hva : va < UTOP)
    {pm' : Pmap} (hrun : pageRemove k.pm (k.envs e).pgdir (k.envs e).asid va = .ok pm') :
    Fenced k { k with pm := pm' } :=
  h.fenced he ⟨fun _ => rfl, rfl, rfl⟩ fun _ _ hd ha =>
    pageRemove_edits h.frames hd (h.dir e he) ha (PDX_lt_UTOP hva) hrun

theorem allocInsert_fenced (h : KernelInv b k₀ role₀ k role) (hb : Booted b k₀ role₀)
    (hbd : Bounded kernOwn role k.pm) {e pp va perm : Nat} (he : k.Live e) (hva : va < UTOP)
    (hg : testFlag perm PTE_G = false) {pm₁ pm' : Pmap} {r : Int}
    (ha : pageAlloc k.pm = some (pp, pm₁))
    (hrun : pageInsert pm₁ (k.envs e).pgdir (k.envs e).asid pp va perm = .ok (r, pm')) :
    Fenced k { k with pm := pm' } := by
  obtain ⟨-, h₁, hv₁⟩ := h.alloc hb ha
  have halloc : Fenced k { k with pm := pm₁ } :=
    h.fencedCalm he ⟨fun _ => rfl, rfl, rfl⟩ fun _ hd => pageAlloc_calm h.frames hd ha
  exact halloc.trans (h₁.insert_fenced (bounded_view hbd hv₁) (e := e) he hva hg hrun)

end KernelInv

-- ---------------------------------------------------------------------------
-- Faults
-- ---------------------------------------------------------------------------

theorem pageAlloc_mem {s s' : Pmap} {p f : Nat} (ha : pageAlloc s = some (p, s')) (hf : f ≠ p) (i : Nat) :
    s'.mem f i = s.mem f i := by
  unfold pageAlloc at ha
  cases hl : s.pageFreeList with
  | nil => simp [hl] at ha
  | cons q rest =>
    simp only [hl, Option.some.injEq, Prod.mk.injEq] at ha
    obtain ⟨rfl, rfl⟩ := ha
    rw [Pmap.clear_mem, if_neg hf]

/-- `page_insert` of a page in the window, when the window is closed. -/
theorem pageInsert_closed {s s' : Pmap} {d asid p va perm : Nat} (hva : PDX va = PDX UVPT)
    (habs : testFlag (s.mem d (PDX UVPT)) PTE_V = false) (hlt : ∀ t ∈ s.pageFreeList, t < npage)
    (hrun : pageInsert s d asid p va perm = .ok (0, s')) :
    ∃ t rest, s.pageFreeList = t :: rest ∧
      s' = KernelInv.windowStore (withTable s rest d (PDX UVPT) t) d t (PTX va)
        (mkPte p (readable perm)) p asid := by
  rw [← hva] at habs
  unfold pageInsert at hrun
  rw [pgdirWalk_absent habs, ok_bind] at hrun
  change pageInsertNew s d asid p va (readable perm) = _ at hrun
  unfold pageInsertNew at hrun
  cases hl : s.pageFreeList with
  | nil =>
    rw [pgdirWalk_noMem habs hl] at hrun
    exact absurd (Prod.mk.inj (Except.ok.inj hrun)).1 (by decide)
  | cons t rest =>
    rw [pgdirWalk_create habs hl (hlt t (by simp [hl])), ok_bind] at hrun
    refine ⟨t, rest, rfl, ?_⟩
    rw [← hva]
    exact ((Prod.mk.inj (Except.ok.inj hrun)).2).symm

/-- ... and when it is open and shows no page at `va`. -/
theorem pageInsert_open {s s' : Pmap} {d f asid p va perm : Nat} {r : Int} (hva : PDX va = PDX UVPT)
    (hpde : s.mem d (PDX UVPT) = mkPde f) (hlt : f < npage)
    (hV : testFlag (s.mem f (PTX va)) PTE_V = false)
    (hrun : pageInsert s d asid p va perm = .ok (r, s')) :
    s' = KernelInv.windowStore s d f (PTX va) (mkPte p (readable perm)) p asid := by
  rw [← hva] at hpde
  unfold pageInsert at hrun
  rw [KernelInv.pgdirWalk_mkPde hpde hlt, ok_bind] at hrun
  change (if testFlag (s.mem f (PTX va)) PTE_V = true then _ else _) = _ at hrun
  rw [if_neg (by simp [hV])] at hrun
  unfold pageInsertNew at hrun
  rw [KernelInv.pgdirWalk_mkPde hpde hlt, ok_bind] at hrun
  exact ((Prod.mk.inj (Except.ok.inj hrun)).2).symm

/-- A page in the window, which lies above `UTOP`. -/
theorem KernelInv.windowInsert_calm (h : KernelInv b k₀ role₀ k role) (hb : Booted b k₀ role₀)
    {c d p va asid perm : Nat} (hcur : k.curenv = some c) (hd : role d = .dir)
    (hva : PDX va = PDX UVPT) (hnone : k.pm.pteAt k.curPgdir (PDX va) (PTX va) = none)
    {pm₁ pm' : Pmap} (ha : pageAlloc k.pm = some (p, pm₁))
    (hrun : pageInsert pm₁ k.curPgdir asid p va perm = .ok (0, pm')) : Calm d k.pm pm' := by
  obtain ⟨hfree, h₁, -⟩ := h.alloc hb ha
  obtain ⟨hc, hcd⟩ := h.cur c hcur
  have hdir : role k.curPgdir = .dir := by
    rw [hcd]
    exact h.dir c hc
  have hne : ∀ {f}, role f ≠ .free → f ≠ p := by
    rintro f hf rfl
    exact hf hfree
  have hkeep : ∀ {f}, role f = .dir → Function.update role p .fresh f = .dir := by
    intro f hf
    rw [Function.update_of_ne (hne (by simp [hf]))]
    exact hf
  refine (pageAlloc_calm h.frames hd ha).trans ?_
  rcases h.window c hc with hz | ⟨f, hf, -, hw, -⟩
  · -- the window is closed: a page table is made for the page
    have habs : testFlag (pm₁.mem k.curPgdir (PDX UVPT)) PTE_V = false := by
      rw [pageAlloc_mem ha (hne (by simp [hdir])), hcd, hz, testFlag_zero_left]
    obtain ⟨t, rest, hl, rfl⟩ := pageInsert_closed hva habs
      (fun t ht => h₁.frames.lt_npage (by simp [(h₁.frames.freeIff t).mp ht])) hrun
    obtain ⟨htfree, h₂, -⟩ := h₁.alloc hb (pageAlloc_cons hl)
    obtain ⟨h₃, -⟩ := h₂.hold hb (Function.update_self ..)
    rw [Function.update_idem] at h₃
    have hkeep₃ : ∀ {f}, role f = .dir → Function.update (Function.update role p .fresh) t .held f = .dir := by
      intro f hf
      have hft : f ≠ t := by
        rintro rfl
        rw [hkeep hf] at htfree
        cases htfree
      rw [Function.update_of_ne hft]
      exact hkeep hf
    obtain ⟨h₄, -⟩ := h₃.frames.store_other (f := k.curPgdir) (i := PDX UVPT) (w := mkPde t)
      (fun _ => kernOwn_UVPT) (fun d' i' => by rw [hkeep₃ hdir]; simp)
    refine (withTable_calm h₁.frames (hkeep hd) (hkeep hdir) habs hl).trans ?_
    exact windowStore_calm h₄ (hkeep₃ hd) (hkeep₃ hdir) (by simp) (by simp) (PTX va) _ p asid
  · -- the window is open: the entry goes into the copy
    have hlt : f < npage := h.frames.lt_npage (by simp [hf])
    have hV : testFlag (pm₁.mem f (PTX va)) PTE_V = false := by
      unfold Pmap.pteAt at hnone
      rw [hva, hcd, hw, if_pos (testFlag_V_mkPde f), pteFrame_mkPde hlt] at hnone
      split_ifs at hnone with hV
      rw [pageAlloc_mem ha (hne (by simp [hf]))]
      simpa using hV
    obtain rfl := pageInsert_open hva
      (by rw [pageAlloc_mem ha (hne (by simp [hdir])), hcd]; exact hw) hlt hV hrun
    have hf₁ : Function.update role p .fresh f = .held := by
      rw [Function.update_of_ne (hne (by simp [hf]))]
      exact hf
    exact windowStore_calm h₁.frames (hkeep hd) (hkeep hdir) (by simp [hf₁]) (by simp [hf₁]) (PTX va)
      _ p asid

theorem passiveAlloc_fenced (h : KernelOk b k₀ role₀ k) (hb : Booted b k₀ role₀) {c va : Nat}
    (hcur : k.curenv = some c) (hnone : k.pm.pteAt k.curPgdir (PDX va) (PTX va) = none)
    (hrun : passiveAlloc k c va = .ok k') : Fenced k k' := by
  obtain ⟨role, h, hbd⟩ := h
  obtain ⟨hc, hd⟩ := h.cur c hcur
  unfold passiveAlloc at hrun
  split_ifs at hrun
  cases ha : pageAlloc k.pm with
  | none =>
    rw [ha] at hrun
    cases hrun
  | some x =>
    obtain ⟨p, pm₁⟩ := x
    rw [ha] at hrun
    obtain ⟨⟨r, pm'⟩, hins, hrun⟩ := bind_eq_ok.mp hrun
    change (if r ≠ 0 then _ else _) = _ at hrun
    split_ifs at hrun with hr
    obtain rfl := Except.ok.inj hrun
    rw [ne_eq, not_not] at hr
    have hva : va < UTOP ∨ UVPT ≤ va ∧ va < ULIM := by
      have hU : UENVS = UTOP := rfl
      omega
    rcases hva with hlow | ⟨hlo, hhi⟩
    · rw [hd] at hins
      exact h.allocInsert_fenced hb hbd hc (Nat.lt_of_le_of_lt (ROUNDDOWN_le va) hlow) (by decide) ha hins
    · subst hr
      refine h.fencedCalm hc ⟨fun _ => rfl, rfl, rfl⟩ fun d hdir => ?_
      exact h.windowInsert_calm hb hcur hdir (by rw [PDX_ROUNDDOWN]; exact PDX_of_window hlo hhi)
        (by rw [PDX_ROUNDDOWN, PTX_ROUNDDOWN]; exact hnone) ha hins

theorem copyFrame_calm (h : KernelInv b k₀ role₀ k role) {c d p : Nat} (hd : role d = .dir)
    (hrun : copyFrame k c = .ok (p, k₁)) : Calm d k.pm k₁.pm := by
  unfold copyFrame at hrun
  split_ifs at hrun
  · cases ha : pageAlloc k.pm with
    | none =>
      rw [ha] at hrun
      cases hrun
    | some x =>
      obtain ⟨q, pm⟩ := x
      rw [ha] at hrun
      obtain ⟨-, rfl⟩ := Prod.mk.inj (Except.ok.inj hrun)
      exact (pageAlloc_calm h.frames hd ha).trans (.of_eq rfl rfl)
  · obtain ⟨q, -, hrun⟩ := bind_eq_ok.mp hrun
    obtain ⟨-, rfl⟩ := Prod.mk.inj (Except.ok.inj hrun)
    exact .refl d k.pm

theorem mapWindow_calm (h : KernelInv b k₀ role₀ k role) (hb : Booted b k₀ role₀) {c d : Nat}
    (hcur : k.curenv = some c) (hd : role d = .dir) (hrun : mapWindow k c = .ok k') :
    Calm d k.pm k'.pm := by
  obtain ⟨hc, -⟩ := h.cur c hcur
  obtain ⟨e, he, hed⟩ := h.dirEnv d hd
  unfold mapWindow at hrun
  obtain ⟨⟨p, k₁⟩, hframe, hrun⟩ := bind_eq_ok.mp hrun
  obtain rfl := Except.ok.inj hrun
  obtain ⟨role₁, h₁, hp, -, hsame, -⟩ := h.copyFrame_inv hb hc hframe
  obtain ⟨hc₁, hcd⟩ := h₁.cur c (hsame.curenv.trans hcur)
  have hdir : role₁ k₁.curPgdir = .dir := by
    rw [hcd]
    exact h₁.dir c hc₁
  have hd₁ : role₁ d = .dir := by
    rw [← hed, ← hsame.pgdir e]
    exact h₁.dir e (hsame.live he)
  have hpd : p ≠ d := by
    rintro rfl
    rw [hp] at hd₁
    cases hd₁
  obtain ⟨h₂, -⟩ := h₁.frames.copyWords (p := p) (by simp [hp]) (by simp [hp]) (copyWord k₁.pm k₁.curPgdir)
  have hcopy : Calm d k₁.pm (k₁.pm.copyWords p (copyWord k₁.pm k₁.curPgdir)) :=
    .copyWords h₁.frames.toTableShape hd₁ hpd (by simp [hp]) _
  exact ((copyFrame_calm h hd hframe).trans hcopy).trans
    (.storeHigh h₂.toTableShape hd₁ hdir (by decide) _)

theorem loadFault_fenced (h : KernelOk b k₀ role₀ k) (hb : Booted b k₀ role₀) {c addr : Nat}
    (hcur : k.curenv = some c) (hnone : k.pm.pteAt k.curPgdir (PDX addr) (PTX addr) = none)
    (hrun : loadFault k c addr = .ok k') : Fenced k k' := by
  unfold loadFault at hrun
  split_ifs at hrun with h1 h2
  · exact passiveAlloc_fenced h hb hcur hnone hrun
  · obtain ⟨k₁, hmap, hrun⟩ := bind_eq_ok.mp hrun
    split_ifs at hrun
    obtain rfl := Except.ok.inj hrun
    obtain ⟨role, h, -⟩ := h
    obtain ⟨-, -, hsame, -⟩ := h.mapWindow_inv hb hcur hmap
    exact h.fencedCalm (h.cur c hcur).1 hsame fun d hd => mapWindow_calm h hb hcur hd hmap

theorem withPage_fenced {va : Nat} {fault : Result Kernel}
    (hfault : k.pm.pteAt k.curPgdir (PDX va) (PTX va) = none → fault = .ok k' → Fenced k k')
    (hrun : withPage k va fault = .ok k') : Fenced k k' := by
  unfold withPage at hrun
  cases hw : k.pm.pteAt k.curPgdir (PDX va) (PTX va) with
  | some w =>
    rw [hw] at hrun
    obtain rfl := Except.ok.inj hrun
    exact .refl k
  | none =>
    rw [hw] at hrun
    exact hfault hw hrun

theorem kernelLoad_fenced (h : KernelOk b k₀ role₀ k) (hb : Booted b k₀ role₀) {c va x : Nat}
    (hcur : k.curenv = some c) (hrun : kernelLoad k c va = .ok (x, k')) : Fenced k k' := by
  unfold kernelLoad at hrun
  obtain ⟨k₁, hpage, hrun⟩ := bind_eq_ok.mp hrun
  have h₁ : Fenced k k₁ := by
    refine withPage_fenced ?_ hpage
    intro hnone hfault
    refine loadFault_fenced h hb hcur ?_ hfault
    rw [PDX_ROUNDDOWN, PTX_ROUNDDOWN]
    exact hnone
  cases hw : k₁.pm.pteAt k₁.curPgdir (PDX va) (PTX va) with
  | none =>
    rw [hw] at hrun
    cases hrun
  | some w =>
    rw [hw] at hrun
    change (if testFlag w PTE_R = true then _ else _) = _ at hrun
    split_ifs at hrun
    obtain ⟨-, rfl⟩ := Prod.mk.inj (Except.ok.inj hrun)
    exact h₁

theorem kernelLoads_fenced (h : KernelOk b k₀ role₀ k) (hb : Booted b k₀ role₀) {c va n : Nat}
    {bs : List Nat} (hcur : k.curenv = some c) (hrun : kernelLoads k c va n = .ok (bs, k')) :
    Fenced k k' := by
  induction n generalizing k va bs with
  | zero =>
    obtain ⟨-, rfl⟩ := Prod.mk.inj (Except.ok.inj hrun)
    exact .refl k
  | succ n ih =>
    obtain ⟨⟨x, k₁⟩, hload, hrun⟩ := bind_eq_ok.mp hrun
    obtain ⟨⟨xs, k₂⟩, hloads, hrun⟩ := bind_eq_ok.mp hrun
    obtain ⟨-, rfl⟩ := Prod.mk.inj (Except.ok.inj hrun)
    have h₁ := kernelLoad_inv h hb hcur hload
    exact (kernelLoad_fenced h hb hcur hload).trans (ih h₁.ok (h₁.same.curenv.trans hcur) hloads)

theorem storeByte_fenced (h : KernelOk b k₀ role₀ k) {c va w : Nat} (hcur : k.curenv = some c)
    (hva : PDX va < PDX UTOP) (hw : k.pm.pteAt k.curPgdir (PDX va) (PTX va) = some w) (a x : Nat) :
    Fenced k { k with pm := k.pm.storeByte (pteFrame w) a x } := by
  obtain ⟨role, h, -⟩ := h
  obtain ⟨hc, hd⟩ := h.cur c hcur
  rw [hd] at hw
  have hdata := h.pteAt_data hc hva hw
  refine h.fencedCalm hc ⟨fun _ => rfl, rfl, rfl⟩ fun d hdir => ?_
  refine .store h.frames.toTableShape hdir ?_ (by simp [hdata]) _ _
  rintro rfl
  rw [hdata] at hdir
  cases hdir

theorem kernelStore_fenced (h : KernelOk b k₀ role₀ k) (hb : Booted b k₀ role₀) {c va x : Nat}
    (hcur : k.curenv = some c) (hva : va < UTOP) (hrun : kernelStore k c va x = .ok k') :
    Fenced k k' := by
  unfold kernelStore at hrun
  obtain ⟨k₁, hpage, hrun⟩ := bind_eq_ok.mp hrun
  have hround : k.pm.pteAt k.curPgdir (PDX va) (PTX va) = none →
      k.pm.pteAt k.curPgdir (PDX (ROUNDDOWN va BY2PG)) (PTX (ROUNDDOWN va BY2PG)) = none := by
    intro hnone
    rw [PDX_ROUNDDOWN, PTX_ROUNDDOWN]
    exact hnone
  have h₁ : Fenced k k₁ := withPage_fenced
    (fun hnone hfault => passiveAlloc_fenced h hb hcur (hround hnone) hfault) hpage
  have hok : FaultOk b k₀ role₀ k k₁ := withPage_inv h
    (fun hnone hfault => passiveAlloc_inv h hb hcur (hround hnone) hfault) hpage
  cases hw : k₁.pm.pteAt k₁.curPgdir (PDX va) (PTX va) with
  | none =>
    rw [hw] at hrun
    cases hrun
  | some w =>
    rw [hw] at hrun
    change (if testFlag w PTE_W = true then _ else _) = _ at hrun
    split_ifs at hrun
    obtain rfl := Except.ok.inj hrun
    exact h₁.trans (storeByte_fenced hok.ok (hok.same.curenv.trans hcur) (PDX_lt_UTOP hva) hw
      (va % BY2PG) x)

theorem kernelStores_fenced (h : KernelOk b k₀ role₀ k) (hb : Booted b k₀ role₀) {c va : Nat}
    {bs : List Nat} (hcur : k.curenv = some c) (hva : va + bs.length ≤ UTOP)
    (hrun : kernelStores k c va bs = .ok k') : Fenced k k' := by
  induction bs generalizing k va with
  | nil =>
    obtain rfl := Except.ok.inj hrun
    exact .refl k
  | cons x bs ih =>
    rw [List.length_cons] at hva
    obtain ⟨k₁, hstore, hrun⟩ := bind_eq_ok.mp hrun
    have h₁ := kernelStore_inv h hb hcur (by omega) hstore
    exact (kernelStore_fenced h hb hcur (by omega) hstore).trans
      (ih h₁.ok (h₁.same.curenv.trans hcur) (by omega) hrun)

theorem doTlbMiss_fenced (h : KernelOk b k₀ role₀ k) (hb : Booted b k₀ role₀) {c : Nat}
    (hcur : k.curenv = some c) (hrun : doTlbMiss k c = .ok k') : Fenced k k' := by
  unfold doTlbMiss at hrun
  obtain ⟨x, hlook, hrun⟩ := bind_eq_ok.mp hrun
  cases x with
  | some y =>
    change (if k.tf.scause = 15 ∧ _ then _ else _) = _ at hrun
    split_ifs at hrun
    unfold doTlbMod at hrun
    obtain ⟨k₁, hstores, hrun⟩ := bind_eq_ok.mp hrun
    split_ifs at hrun
    obtain rfl := Except.ok.inj hrun
    refine Fenced.trans ?_ (.setTf k₁ _)
    refine kernelStores_fenced h hb hcur ?_ hstores
    rw [Trapframe.bytes_length]
    exact modFrameVa_le k.tf
  | none =>
    have hnone := pteAt_of_lookup_none hlook
    change (if k.tf.scause = 15 then _ else _) = _ at hrun
    split_ifs at hrun
    · exact passiveAlloc_fenced h hb hcur hnone hrun
    · exact loadFault_fenced h hb hcur hnone hrun

theorem userStore_fenced (h : KernelOk b k₀ role₀ k) (hb : Booted b k₀ role₀) {c : Nat}
    (hcur : k.curenv = some c) (va x : Nat) : Fenced k (userStore k va x) := by
  unfold userStore
  cases hw : k.pm.pteAt k.curPgdir (PDX va) (PTX va) with
  | none => exact .refl k
  | some w =>
    by_cases hUW : testFlag w PTE_U ∧ testFlag w PTE_W
    · have hlow : PDX va < PDX UTOP := by
        obtain ⟨role, hinv, -⟩ := h
        obtain ⟨hc, hd⟩ := hinv.cur c hcur
        rw [hd] at hw
        exact hinv.writable_low hb hc (PDX_lt va) (PTX_lt va) hw hUW.1 hUW.2
      simp only [if_pos hUW]
      exact storeByte_fenced h hcur hlow hw (va % BY2PG) x
    · simp only [if_neg hUW]
      exact .refl k

-- ---------------------------------------------------------------------------
-- Envs that come and go
-- ---------------------------------------------------------------------------

/-- What a step does to translations: those of every env that was there settle; a new env has no
global ones, and a dead one has none. -/
structure TlbStep (k k' : Kernel) : Prop where
  edits : ∀ e, k.Live e → Edits (k.envs e).pgdir (k.envs e).asid k.pm k'.pm
  pgdir : ∀ e, k.Live e → k'.Live e → (k'.envs e).pgdir = (k.envs e).pgdir
  asid : ∀ e, k.Live e → k'.Live e → (k'.envs e).asid = (k.envs e).asid
  born : ∀ e, ¬ k.Live e → k'.Live e → NonGlobal (k'.envs e).pgdir k'.pm
  died : ∀ e, k.Live e → ¬ k'.Live e → ∀ i < PDX UTOP, ∀ j,
    k'.pm.pteAt (k.envs e).pgdir i j = none
  traced : ∃ evs, Traced k.pm k'.pm evs

theorem Fenced.step (h : Fenced k k') : TlbStep k k' where
  edits := h.edits
  pgdir e he _ := h.pgdir e he
  asid e he _ := h.asid e he
  born e hdead hl := absurd ((h.live e).mp hl) hdead
  died e he hdead := absurd ((h.live e).mpr he) hdead
  traced := h.traced

/-- Nobody died, and then the envs are worked on. -/
theorem TlbStep.andThen (h : TlbStep k k₁) (hlive : ∀ e, k.Live e → k₁.Live e) (h' : Fenced k₁ k') :
    TlbStep k k' where
  edits e he := by
    have hafter := h'.edits e (hlive e he)
    rw [h.pgdir e he (hlive e he), h.asid e he (hlive e he)] at hafter
    exact (h.edits e he).trans hafter
  pgdir e he _ := (h'.pgdir e (hlive e he)).trans (h.pgdir e he (hlive e he))
  asid e he _ := (h'.asid e (hlive e he)).trans (h.asid e he (hlive e he))
  born e hdead hl := by
    have hl₁ := (h'.live e).mp hl
    obtain ⟨evs, -, hset⟩ := h'.edits e hl₁
    rw [h'.pgdir e hl₁]
    exact (hset (h.born e hdead hl₁)).1
  died e he hdead := absurd ((h'.live e).mpr (hlive e he)) hdead
  traced := by
    obtain ⟨evs, htr⟩ := h.traced
    obtain ⟨evs', htr'⟩ := h'.traced
    exact ⟨_, htr.trans htr'⟩

/-- Then nothing happens to the pages. -/
theorem TlbStep.same (h : TlbStep k k₁) (h' : PagesKept k₁ k') : TlbStep k k' where
  edits e he := by
    rw [h'.pm]
    exact h.edits e he
  pgdir e he hl := (h'.pgdir e).trans (h.pgdir e he ((h'.live e).mp hl))
  asid e he hl := (h'.asid e).trans (h.asid e he ((h'.live e).mp hl))
  born e hdead hl := by
    rw [h'.pm, h'.pgdir]
    exact h.born e hdead ((h'.live e).mp hl)
  died e he hdead := by
    rw [h'.pm]
    exact h.died e he fun hl => hdead ((h'.live e).mpr hl)
  traced := by
    rw [h'.pm]
    exact h.traced

theorem pageAlloc_traced {s s' : Pmap} {p : Nat} (ha : pageAlloc s = some (p, s')) :
    ∃ evs, Traced s s' evs := by
  unfold pageAlloc at ha
  cases hl : s.pageFreeList with
  | nil => simp [hl] at ha
  | cons q rest =>
    simp only [hl, Option.some.injEq, Prod.mk.injEq] at ha
    obtain ⟨-, rfl⟩ := ha
    exact ⟨_, rfl, rfl⟩

theorem newDir_traced {p : Nat} {pm : Pmap} (ha : pageAlloc k.pm = some (p, pm)) :
    ∃ evs, Traced k.pm (newDir k p pm) evs := by
  obtain ⟨evs, htr⟩ := pageAlloc_traced ha
  have hcount : Traced pm (pm.setRef p ((pm.ppRef p + 1) % 2 ^ 16)) [] := .nil rfl rfl
  exact ⟨_, (htr.trans hcount).trans (.write _ _)⟩

namespace KernelInv

theorem newDir_calm (h : KernelInv b k₀ role₀ k role) (hb : Booted b k₀ role₀) {d p : Nat}
    (hd : role d = .dir) {pm : Pmap} (ha : pageAlloc k.pm = some (p, pm)) :
    Calm d k.pm (newDir k p pm) := by
  obtain ⟨hfree, h₁, -⟩ := h.alloc hb ha
  have hdp : d ≠ p := by
    rintro rfl
    rw [hfree] at hd
    cases hd
  have hd₁ : Function.update role p .fresh d = .dir := by
    rw [Function.update_of_ne hdp]
    exact hd
  have hcount : Calm d pm (pm.setRef p ((pm.ppRef p + 1) % 2 ^ 16)) := .of_eq rfl rfl
  have hshape : TableShape kernOwn (pm.setRef p ((pm.ppRef p + 1) % 2 ^ 16))
      (Function.update role p .fresh) :=
    ⟨h₁.frames.ownLt, h₁.frames.tableLt, h₁.frames.tablePde, h₁.frames.pdeTable⟩
  exact ((pageAlloc_calm h.frames hd ha).trans hcount).trans
    (.copyWords hshape hd₁ hdp.symm (by simp) _)

/-- A new directory has no translations below `UTOP`. -/
theorem newDir_empty (h : KernelInv b k₀ role₀ k role) (hb : Booted b k₀ role₀) {p : Nat} {pm : Pmap}
    (ha : pageAlloc k.pm = some (p, pm)) : NonGlobal p (newDir k p pm) := by
  intro i hi j _ w hw
  have hlt : i < 1024 := Nat.lt_trans hi (by decide)
  unfold Pmap.pteAt at hw
  rw [(h.newDir_mem hb ha).2 i hlt, template_low hb (Or.inl hi), testFlag_zero_left,
    if_neg (by simp)] at hw
  cases hw

end KernelInv

/-- **`env_alloc`.** After a successful call the caller gives the new env a status. -/
theorem envAlloc_tlb (h : KernelOk b k₀ role₀ k) (hb : Booted b k₀ role₀) (hroom : EnvRoom k)
    {parentId : Nat} {r : Except Int Nat} (hrun : envAlloc k parentId = (r, k')) :
    (∀ m, r = .error m → TlbStep k k') ∧
    ∀ e, r = .ok e → ∀ f : Env → Env, (f (k'.envs e)).status ≠ .free →
      (f (k'.envs e)).pgdir = (k'.envs e).pgdir →
      TlbStep k (k'.setEnv e f) ∧ ∀ x, k.Live x → (k'.setEnv e f).Live x := by
  obtain ⟨role, h, -⟩ := h
  have hpage : ∀ e rest, k.envFreeList = e :: rest →
      ∃ p pm, pageAlloc k.pm = some (p, pm) ∧ ¬ k.Live e := by
    intro e rest hl
    cases hf : k.pm.pageFreeList with
    | nil => exact absurd hf (hroom (by simp [hl]))
    | cons p fr => exact ⟨p, _, pageAlloc_cons hf, ((h.freeIff e).mp (by simp [hl])).2⟩
  cases envAlloc_outcome hrun with
  | full hl => exact ⟨fun _ _ => (Fenced.refl k).step, fun e he => by cases he⟩
  | @noAsid e rest hl hfull =>
    obtain ⟨p, pm, ha, hdead⟩ := hpage e rest hl
    refine ⟨fun _ _ => ?_, fun e he => by cases he⟩
    have hpre := envPrepare_eq k e
    have hpm : (envPrepare k e).pm = newDir k p pm := by
      rw [hpre]
      exact congrArg Prod.fst (setupPages_eq ha e)
    have hother : ∀ x, x ≠ e → (envPrepare k e).envs x = k.envs x := by
      intro x hx
      rw [hpre]
      exact Function.update_of_ne hx ..
    have hlive : ∀ x, (envPrepare k e).Live x ↔ k.Live x := by
      intro x
      unfold Kernel.Live
      by_cases hx : x = e
      · rw [hx, hpre]
        show (Function.update k.envs e (preparedEnv k e) e).status ≠ _ ↔ _
        rw [Function.update_self]
        exact Iff.rfl
      · rw [hother x hx]
    have hne : ∀ x, k.Live x → x ≠ e := by
      rintro x hx rfl
      exact hdead hx
    refine Fenced.step ⟨hlive, fun x hx => by rw [hother x (hne x hx)],
      fun x hx => by rw [hother x (hne x hx)], fun x hx => ?_, ?_⟩
    · rw [hpm]
      exact (h.newDir_calm hb (h.dir x hx) ha).edits _
    · rw [hpm]
      exact newDir_traced ha
  | @ok e asid rest hl hlt hclear =>
    obtain ⟨p, pm, ha, hdead⟩ := hpage e rest hl
    refine ⟨fun m hm => (by cases hm), ?_⟩
    intro e' he' f hst hpg
    obtain rfl : e = e' := by simpa using he'
    have hset := setupPages_eq ha e
    generalize hk : ({ k with
        pm := (setupPages k e).1
        envs := Function.update k.envs e (givenEnv k e asid parentId)
        envFreeList := rest
        asidBitmap := Bitmap.set k.asidBitmap asid
        mkenvidCount := (k.mkenvidCount + 1) % 2 ^ 32 } : Kernel) = k₁ at hst hpg ⊢
    have henv : k₁.envs e = givenEnv k e asid parentId := by
      rw [← hk]
      exact Function.update_self ..
    have hother : ∀ x, x ≠ e → (k₁.setEnv e f).envs x = k.envs x := by
      intro x hx
      rw [Kernel.setEnv_of_ne _ _ _ hx, ← hk]
      exact Function.update_of_ne hx ..
    have hpm : (k₁.setEnv e f).pm = newDir k p pm := by
      rw [Kernel.setEnv_pm, ← hk]
      exact congrArg Prod.fst hset
    have hdir : ((k₁.setEnv e f).envs e).pgdir = p := by
      rw [Kernel.setEnv_self, hpg, henv]
      exact congrArg (fun x => x.2.1) hset
    have hne : ∀ x, k.Live x → x ≠ e := by
      rintro x hx rfl
      exact hdead hx
    have hlive : ∀ x, k.Live x → (k₁.setEnv e f).Live x :=
      fun x hx => live_congr (hother x (hne x hx)) hx
    refine ⟨⟨fun x hx => ?_, fun x hx _ => by rw [hother x (hne x hx)],
      fun x hx _ => by rw [hother x (hne x hx)], fun x hx hl => ?_,
      fun x hx hl => absurd (hlive x hx) hl, ?_⟩, hlive⟩
    · rw [hpm]
      exact (h.newDir_calm hb (h.dir x hx) ha).edits _
    · obtain rfl : x = e := by
        by_contra hxe
        exact hx (live_congr (hother x hxe).symm hl)
      rw [hpm, hdir]
      exact h.newDir_empty hb ha
    · rw [hpm]
      exact newDir_traced ha

-- ---------------------------------------------------------------------------
-- Loading a program
-- ---------------------------------------------------------------------------

theorem loadIcodeMapper_fenced (h : KernelOk b k₀ role₀ k) (hb : Booted b k₀ role₀) {e va off perm : Nat}
    {src : Option (List Nat)} (he : k.Live e) (hva : va < UTOP) (hg : testFlag perm PTE_G = false)
    {r : Int} {pm' : Pmap}
    (hrun : loadIcodeMapper (k.envs e).pgdir (k.envs e).asid va off perm src k.pm = .ok (r, pm')) :
    Fenced k { k with pm := pm' } := by
  obtain ⟨role, h, hbd⟩ := h
  unfold loadIcodeMapper at hrun
  cases ha : pageAlloc k.pm with
  | none =>
    simp only [ha, Except.ok.injEq, Prod.mk.injEq] at hrun
    obtain ⟨-, rfl⟩ := hrun
    exact .refl k
  | some x =>
    obtain ⟨p, pm⟩ := x
    obtain ⟨-, h₁, hv₁⟩ := h.alloc hb ha
    simp only [ha] at hrun
    have halloc : Fenced k { k with pm := pm } :=
      h.fencedCalm he ⟨fun _ => rfl, rfl, rfl⟩ fun _ hd => pageAlloc_calm h.frames hd ha
    -- the bytes go to the fresh page before it is mapped
    obtain ⟨pm₂, hins, h₂, hv₂, hcopy⟩ : ∃ pm₂,
        pageInsert pm₂ (k.envs e).pgdir (k.envs e).asid p va perm = .ok (r, pm') ∧
        KernelInv b k₀ role₀ { k with pm := pm₂ } (Function.update role p .fresh) ∧
        view kernOwn (Function.update role p .fresh) pm₂ = view kernOwn role k.pm ∧
        Fenced { k with pm := pm } { k with pm := pm₂ } := by
      cases src with
      | none => exact ⟨pm, hrun, h₁, hv₁, .refl _⟩
      | some bytes =>
        obtain ⟨h₂, hv₂⟩ := h₁.storeBytes hb (f := p) (Or.inr (Function.update_self ..)) off bytes
        refine ⟨_, hrun, h₂, hv₂.trans hv₁, h₁.fencedCalm (e := e) he ⟨fun _ => rfl, rfl, rfl⟩ ?_⟩
        intro d hd
        exact .storeBytes h₁.frames hd (by simp) (by simp) off bytes
    have hbd₂ : Bounded kernOwn (Function.update role p .fresh) pm₂ := KernelInv.bounded_view hbd hv₂
    exact (halloc.trans hcopy).trans (h₂.insert_fenced hbd₂ (e := e) he hva hg hins)

theorem elfLoadSeg_fenced (h : KernelOk b k₀ role₀ k) (hb : Booted b k₀ role₀) {e perm : Nat}
    {calls : List (Nat × Nat × Option (List Nat))} (he : k.Live e) (hva : ∀ c ∈ calls, c.1 < UTOP)
    (hperm : perm < 2 ^ 10) (hg : testFlag perm PTE_G = false) {r : Int} {pm' : Pmap}
    (hrun : elfLoadSeg (k.envs e).pgdir (k.envs e).asid perm calls k.pm = .ok (r, pm')) :
    Fenced k { k with pm := pm' } := by
  induction calls generalizing k with
  | nil =>
    simp only [elfLoadSeg, Except.ok.injEq, Prod.mk.injEq] at hrun
    obtain ⟨-, rfl⟩ := hrun
    exact .refl k
  | cons c calls ih =>
    obtain ⟨va, off, src⟩ := c
    obtain ⟨⟨r₁, pm₁⟩, hmap, hrest⟩ := bind_eq_ok.mp hrun
    have hlow : va < UTOP := hva (va, off, src) List.mem_cons_self
    have h₁ := loadIcodeMapper_fenced h hb he hlow hg hmap
    change (if r₁ ≠ 0 then _ else _) = _ at hrest
    split_ifs at hrest with hr
    · cases hrest
      exact h₁
    · exact h₁.trans (ih (k := { k with pm := pm₁ }) (loadIcodeMapper_inv h hb he hlow hperm hmap).ok he
        (fun c hc => hva c (List.mem_cons_of_mem _ hc)) hrest)

theorem elfSegPerm_nonGlobal (ph : Phdr) : testFlag (elfSegPerm ph) PTE_G = false := by
  have hR : testFlag (if testFlag ph.flags PF_R then PTE_R else 0) (2 ^ 5) = false := by
    split_ifs <;> decide
  have hW : testFlag (if testFlag ph.flags PF_W then PTE_W else 0) (2 ^ 5) = false := by
    split_ifs <;> decide
  have hX : testFlag (if testFlag ph.flags PF_X then PTE_X else 0) (2 ^ 5) = false := by
    split_ifs <;> decide
  have hVU : testFlag (PTE_V ||| PTE_U) (2 ^ 5) = false := by decide
  unfold elfSegPerm
  rw [show PTE_G = 2 ^ 5 from rfl, testFlag_or, testFlag_or, testFlag_or, hVU, hR, hW, hX]
  rfl

theorem loadPhdrs_fenced (h : KernelOk b k₀ role₀ k) (hb : Booted b k₀ role₀) {e : Nat}
    {phdrs : List Phdr} (he : k.Live e)
    (hva : ∀ ph ∈ phdrs, ph.type = PT_LOAD → ∀ c ∈ elfSegCalls ph, c.1 < UTOP) {pm' : Pmap}
    (hrun : phdrs.foldlM (loadPhdr (k.envs e).pgdir (k.envs e).asid) k.pm = .ok pm') :
    Fenced k { k with pm := pm' } := by
  induction phdrs generalizing k with
  | nil =>
    cases hrun
    exact .refl k
  | cons ph phdrs ih =>
    rw [List.foldlM_cons] at hrun
    obtain ⟨pm₁, hph, hrest⟩ := bind_eq_ok.mp hrun
    obtain ⟨h₁, hok⟩ : Fenced k { k with pm := pm₁ } ∧ KernelOk b k₀ role₀ { k with pm := pm₁ } := by
      unfold loadPhdr at hph
      split_ifs at hph with ht
      · obtain ⟨⟨r, pm₂⟩, hseg, hdone⟩ := bind_eq_ok.mp hph
        change (if r ≠ 0 then _ else _) = _ at hdone
        split_ifs at hdone with hr
        cases hdone
        exact ⟨elfLoadSeg_fenced h hb he (hva ph (by simp) ht) (elfSegPerm_lt ph)
            (elfSegPerm_nonGlobal ph) hseg,
          (elfLoadSeg_inv h hb he (hva ph (by simp) ht) (elfSegPerm_lt ph) hseg).ok⟩
      · cases hph
        exact ⟨.refl k, h⟩
    exact h₁.trans
      (ih (k := { k with pm := pm₁ }) hok he (fun ph hph => hva ph (by simp [hph])) hrest)

theorem loadIcode_fenced (h : KernelOk b k₀ role₀ k) (hb : Booted b k₀ role₀) {e : Nat}
    {binary : Option Elf} (he : k.Live e) (helf : UserElf binary)
    (hrun : loadIcode k e binary = .ok k') : Fenced k k' := by
  obtain ⟨elf, pm, rfl, hph, rfl⟩ := loadIcode_cases hrun
  refine (loadPhdrs_fenced h hb he (helf elf rfl) hph).trans (.of_same ?_)
  exact .update rfl rfl Iff.rfl rfl rfl

theorem envCreate_tlb (h : KernelOk b k₀ role₀ k) (hb : Booted b k₀ role₀) (hroom : EnvRoom k)
    {binary : Option Elf} {priority e : Nat} (helf : UserElf binary)
    (hrun : envCreate k binary priority = .ok (e, k')) : TlbStep k k' := by
  obtain ⟨k₁, k₂, ha, hload, rfl⟩ := envCreate_cases hrun
  obtain ⟨h₁, -⟩ := (envAlloc_inv h hb hroom ha).2 e rfl
    (fun env => { env with pri := priority, status := .runnable }) (by simp) rfl rfl rfl
  obtain ⟨hstep, hlive⟩ := (envAlloc_tlb h hb hroom ha).2 e rfl
    (fun env => { env with pri := priority, status := .runnable }) (by simp) rfl
  have hfenced := loadIcode_fenced h₁ hb (by unfold Kernel.Live; simp) helf hload
  exact (hstep.andThen hlive hfenced).same (.of_eq rfl rfl)

-- ---------------------------------------------------------------------------
-- The scheduler and env_free
-- ---------------------------------------------------------------------------

theorem schedule_same {yield : Bool} (hrun : schedule k yield = .ok k') : PagesKept k k' := by
  obtain ⟨disk, count, q, log, c, hrun⟩ := schedule_envRun hrun
  obtain ⟨-, -, -, henv, envs, pgdir, cpu, hk'⟩ := envRun_env hrun
  have hsame : ∀ e, (k'.envs e).status = (k.envs e).status ∧ (k'.envs e).pgdir = (k.envs e).pgdir ∧
      (k'.envs e).asid = (k.envs e).asid := by
    intro e
    obtain ⟨tf, n, he⟩ := henv e
    rw [he]
    exact ⟨rfl, rfl, rfl⟩
  refine ⟨by rw [hk'], fun e => ?_, fun e => (hsame e).2.1, fun e => (hsame e).2.2⟩
  unfold Kernel.Live
  rw [(hsame e).1]

theorem envFree_tlb (h : KernelOk b k₀ role₀ k) {e : Nat} (he : k.Live e)
    (hfree : envFree k e = .ok k₁) : TlbStep k k₁ := by
  obtain ⟨role, h, hbd⟩ := h
  obtain ⟨s, q, log, hpages, rfl⟩ := envFree_eq hfree
  obtain ⟨hedits, hempty⟩ := envFreePages_edits h.frames hbd (h.dir e he) hpages
  have hother : ∀ x, x ≠ e → Function.update k.envs e { k.envs e with status := .free } x = k.envs x :=
    fun x hx => Function.update_of_ne hx ..
  have hall : ∀ x, k.Live x → Edits (k.envs x).pgdir (k.envs x).asid k.pm s := by
    intro x hx
    refine hedits _ _ (h.dir x hx) fun hd => ?_
    rw [h.dirInj x e hx he hd]
  have hdead : ¬ (Function.update k.envs e { k.envs e with status := .free } e).status ≠ .free := by
    rw [Function.update_self]
    simp
  refine ⟨hall, fun x _ hl => ?_, fun x _ hl => ?_, fun x hx hl => ?_, fun x hx hl => ?_, ?_⟩
  · by_cases hxe : x = e
    · exact absurd (hxe ▸ hl) hdead
    · exact congrArg Env.pgdir (hother x hxe)
  · by_cases hxe : x = e
    · exact absurd (hxe ▸ hl) hdead
    · exact congrArg Env.asid (hother x hxe)
  · by_cases hxe : x = e
    · exact absurd (hxe ▸ hl) hdead
    · exact absurd (live_congr (hother x hxe).symm hl) hx
  · by_cases hxe : x = e
    · subst hxe
      exact hempty
    · exact absurd (live_congr (hother x hxe) hx) hl
  · obtain ⟨evs, htr, -⟩ := hall e he
    exact ⟨evs, htr⟩

theorem sysEnvDestroy_tlb (h : KernelOk b k₀ role₀ k) {cur envid : Nat} (hcur : k.curenv = some cur)
    {r : Option Int} (hrun : sysEnvDestroy k cur envid = .ok (r, k')) : TlbStep k k' := by
  rcases sysEnvDestroy_cases hrun with ⟨rfl, -⟩ | ⟨e, k₁, he, hfree, hend⟩
  · exact (Fenced.refl k').step
  · have hlive : k.Live e := by
      obtain ⟨role, h, -⟩ := h
      exact h.envid2env_live hcur he
    have hstep := envFree_tlb h hlive hfree
    rcases hend with ⟨-, rfl⟩ | ⟨-, hsched⟩
    · exact hstep
    · have hnone : PagesKept k₁ { k₁ with curenv := none } := .of_eq rfl rfl
      exact (hstep.same hnone).same (schedule_same hsched)

-- ---------------------------------------------------------------------------
-- Steps
-- ---------------------------------------------------------------------------

/-- No call asks for a global page. -/
def NoGlobalPages : KernOp → Prop
  | .syscall _ (.memAlloc _ _ perm) => testFlag perm PTE_G = false
  | .syscall _ (.memMap _ _ _ _ perm) => testFlag perm PTE_G = false
  | .syscall _ (.ipcTrySend _ _ _ perm) => testFlag perm PTE_G = false
  | _ => True

theorem or_U_nonGlobal {perm : Nat} (hg : testFlag perm PTE_G = false) :
    testFlag (perm ||| PTE_U) PTE_G = false := by
  rw [show PTE_G = 2 ^ 5 from rfl] at hg ⊢
  rw [testFlag_or, hg]
  decide

theorem sysIpcTrySend_fenced (h : KernelOk b k₀ role₀ k) {cur envid value srcva perm : Nat}
    (hcur : k.curenv = some cur) (hg : testFlag perm PTE_G = false) {r : Option Int}
    (hrun : sysIpcTrySend k cur envid value srcva perm = .ok (r, k')) : Fenced k k' := by
  rcases sysIpcTrySend_cases hrun with rfl | ⟨e, k₁, he, -, hdel, hend⟩
  · exact .refl k'
  · have hlive : k.Live e := by
      obtain ⟨role, h, -⟩ := h
      exact h.envid2env_live hcur he
    obtain ⟨role₁, h₁, hbd₁⟩ := deliver_inv h hlive hdel
    obtain ⟨henv, -⟩ := deliver_env hdel
    obtain ⟨q, log, hk₁⟩ := deliver_eq hdel
    have hsame : PagesKept k k₁ := by
      rw [hk₁]
      exact .update rfl rfl ⟨fun hc => (by cases hc), fun hc => absurd hc hlive⟩ rfl rfl
    rcases hend with rfl | ⟨pp, p, r', pm', -, -, -, hins, -, rfl⟩
    · exact .of_same hsame
    · have hperm : testFlag (k₁.envs e).ipcPerm PTE_G = false := by
        rw [henv]
        show testFlag (PTE_U ||| PTE_V ||| readable perm) (2 ^ 5) = false
        rw [testFlag_or, show testFlag (readable perm) (2 ^ 5) = false from readable_nonGlobal hg]
        decide
      exact (Fenced.of_same hsame).trans
        (h₁.insert_fenced hbd₁ ((hsame.live e).mpr hlive) (h₁.dst e) hperm hins)

theorem exec_tlb (h : KernelOk b k₀ role₀ k) (hb : Booted b k₀ role₀) {cur : Nat}
    (hcur : k.curenv = some cur) (tf : Trapframe) {s : Syscall} (hsafe : MapSafe k (.syscall tf s))
    (hg : NoGlobalPages (.syscall tf s)) {r : Option Int} (hrun : s.exec k cur = .ok (r, k')) :
    TlbStep k k' := by
  cases s with
  | putchar left | getenvid | cgetc ch =>
    cases hrun
    exact (Fenced.refl k).step
  | printCons s num =>
    change sysPrintCons k cur s num = _ at hrun
    unfold sysPrintCons at hrun
    split_ifs at hrun
    · cases hrun
      exact (Fenced.refl k).step
    · obtain ⟨⟨bs, k₁⟩, hload, hdone⟩ := bind_eq_ok.mp hrun
      cases hdone
      exact (kernelLoads_fenced h hb hcur hload).step
  | yield =>
    obtain ⟨k₁, hsched, hdone⟩ := bind_eq_ok.mp hrun
    cases hdone
    exact (Fenced.of_same (schedule_same hsched)).step
  | envDestroy envid => exact sysEnvDestroy_tlb h hcur hrun
  | setTlbModEntry envid func =>
    change sysSetTlbModEntry k cur envid func = _ at hrun
    unfold sysSetTlbModEntry at hrun
    split at hrun
    · cases hrun
      exact (Fenced.refl k).step
    · cases hrun
      exact (Fenced.of_same (.setEnv k _ Iff.rfl rfl rfl)).step
  | memAlloc envid va perm =>
    rcases sysMemAlloc_cases hrun with rfl | ⟨e, pp, pm, r', pm', hva, he, ha, hins, -, rfl⟩
    · exact (Fenced.refl k').step
    · obtain ⟨role, h, hbd⟩ := h
      exact (h.allocInsert_fenced hb hbd (h.envid2env_live hcur he) hva (or_U_nonGlobal hg) ha hins).step
  | memMap srcid srcva dstid dstva perm =>
    rcases sysMemMap_cases hrun with
      rfl | ⟨src, dst, pp, p, r', pm', -, hdva, -, hd, -, hins, -, rfl⟩
    · exact (Fenced.refl k').step
    · obtain ⟨role, h, hbd⟩ := h
      exact (h.insert_fenced hbd (h.envid2env_live hcur hd) hdva (or_U_nonGlobal hg) hins).step
  | memUnmap envid va =>
    rcases sysMemUnmap_cases hrun with rfl | ⟨e, pm', hva, he, hrem, -, rfl⟩
    · exact (Fenced.refl k').step
    · obtain ⟨role, h, -⟩ := h
      exact (h.remove_fenced (h.envid2env_live hcur he) hva hrem).step
  | exofork =>
    rcases sysExofork_cases hrun with ⟨m, ha, -⟩ | ⟨e, k₁, tf', ha, -, rfl⟩
    · exact (envAlloc_tlb h hb hsafe ha).1 m rfl
    · exact ((envAlloc_tlb h hb hsafe ha).2 e rfl _ (by simp) rfl).1
  | setEnvStatus envid status =>
    rcases sysSetEnvStatus_cases hrun with rfl | ⟨e, st, q, log, he, hst, -, rfl⟩
    · exact (Fenced.refl k').step
    · have hlive : (k.envs e).status ≠ .free := by
        obtain ⟨role, h, -⟩ := h
        exact h.envid2env_live hcur he
      refine (Fenced.of_same (.update (e := e) (v := { k.envs e with status := st }) ?_ ?_ ?_ ?_ ?_)).step
      · rfl
      · rfl
      · exact ⟨fun hc => absurd hc hst, fun hc => absurd hc hlive⟩
      · rfl
      · rfl
  | setTrapframe envid va =>
    rcases sysSetTrapframe_cases hrun with rfl | ⟨e, bs, k₁, tf', -, hload, hend⟩
    · exact (Fenced.refl k').step
    · have h₁ := kernelLoads_fenced h hb hcur hload
      rcases hend with rfl | rfl
      · exact (h₁.trans (.setTf k₁ tf')).step
      · exact (h₁.trans (.of_same (.setEnv k₁ e Iff.rfl rfl rfl))).step
  | panic => cases hrun
  | ipcTrySend envid value srcva perm => exact (sysIpcTrySend_fenced h hcur hg hrun).step
  | ipcRecv dstva =>
    rcases sysIpcRecv_cases hrun with rfl | ⟨q, log, tf', -, -, hsched⟩
    · exact (Fenced.refl k').step
    · have hlive : (k.envs cur).status ≠ .free := by
        obtain ⟨role, h, -⟩ := h
        exact (h.cur cur hcur).1
      refine (Fenced.trans (.of_same (.update (e := cur) (v := waitingEnv k cur dstva) ?_ ?_ ?_ ?_ ?_))
        (.of_same (schedule_same hsched))).step
      · rfl
      · rfl
      · exact ⟨fun hc => (by cases hc), fun hc => absurd hc hlive⟩
      · rfl
      · rfl
  | devReq dev req =>
    obtain ⟨disk, rfl⟩ := sysDevReq_cases hrun
    have hsame : PagesKept k { k with disk := disk } := .of_eq rfl rfl
    exact (Fenced.of_same hsame).step

/-- **Step lemma.** Every edit of a step is fenced. -/
theorem KernOp.tlbStep (h : KernelOk b k₀ role₀ k) (hb : Booted b k₀ role₀) {op : KernOp}
    (hsafe : MapSafe k op) (hg : NoGlobalPages op) (hrun : op.run k = .ok k') : TlbStep k k' := by
  cases op with
  | create binary priority =>
    obtain ⟨e, hcreate⟩ := run_create hrun
    exact envCreate_tlb h hb hsafe.2 hsafe.1 hcreate
  | device disk =>
    cases hrun
    have hsame : PagesKept k { k with disk := disk } := .of_eq rfl rfl
    exact (Fenced.of_same hsame).step
  | tick tf =>
    have hsame := schedule_same hrun
    exact ((Fenced.setTf k tf).trans (.of_same hsame)).step
  | store va x =>
    obtain ⟨cur, hcur, rfl⟩ := run_store hrun
    exact (userStore_fenced h hb hcur va x).step
  | fault tf =>
    obtain ⟨cur, k₁, cpu, hcur, hmiss, rfl⟩ := run_fault hrun
    have hmiss' := doTlbMiss_fenced (h.setTf tf) hb hcur hmiss
    have hcpu : PagesKept k₁ { k₁ with cpu := cpu } := .of_eq rfl rfl
    exact (((Fenced.setTf k tf).trans hmiss').trans (.of_same hcpu)).step
  | syscall tf s =>
    obtain ⟨cur, tf₁, r, k₁, tf₂, cpu, hcur, hexec, rfl⟩ := run_syscall hrun
    have hexec' := exec_tlb (h.setTf tf₁) hb hcur tf (hsafe.setTf tf₁) hg hexec
    -- the registers of the trap are not in the pages
    have hstep : TlbStep k k₁ := ⟨hexec'.edits, hexec'.pgdir, hexec'.asid, hexec'.born, hexec'.died,
      hexec'.traced⟩
    exact hstep.same (.of_eq rfl rfl)

-- ---------------------------------------------------------------------------
-- The hardware
-- ---------------------------------------------------------------------------

/-- The translations below `UTOP` that the hardware may read off memory: those of the directory that
`env_run` put into `satp`, under its ASID. Before, `satp` names `kernel_pgdir`, which has none. -/
def Kernel.fills (k : Kernel) (mem : Nat → Nat → Nat) : Set TlbEntry :=
  {x | x.i < PDX UTOP ∧ x.j < 1024 ∧ ∃ c, k.curenv = some c ∧ x.asid = (k.envs c).asid ∧
    walkIn mem k.curPgdir x.i x.j = some x.pte}

/-- Runs of the machine, and what the TLB holds below `UTOP`: between the steps and while the kernel
works the hardware may read or forget entries. `satp` changes at the end of a step. -/
inductive TlbReach (P : Kernel → KernOp → Prop) (k₀ : Kernel) : Kernel → Set TlbEntry → Prop where
  | boot : TlbReach P k₀ k₀ ∅
  | fill {k : Kernel} {T T' : Set TlbEntry} : TlbReach P k₀ k T → T' ⊆ T ∪ k.fills k.pm.mem →
      TlbReach P k₀ k T'
  | step {k k' : Kernel} {op : KernOp} {evs : List HwEvent} {T T' : Set TlbEntry} :
      TlbReach P k₀ k T → P k op → op.run k = .ok k' → k'.pm.trace = k.pm.trace ++ evs →
      CacheRun HwEvent.after HwEvent.drops k.fills k.pm.mem evs T T' → TlbReach P k₀ k' T'


/-- The entries that say what the directory of a live env says in `mem`, under its ASID. -/
def Kernel.right (k : Kernel) (mem : Nat → Nat → Nat) : Set TlbEntry :=
  {x | x.i < PDX UTOP ∧ x.j < 1024 ∧ ∃ e, k.Live e ∧ x.asid = (k.envs e).asid ∧
    walkIn mem (k.envs e).pgdir x.i x.j = some x.pte}

/-- The TLB is right, and no translation is global. -/
structure TlbOk (k : Kernel) (T : Set TlbEntry) : Prop where
  right : T ⊆ k.right k.pm.mem
  nonGlobal : ∀ e, k.Live e → NonGlobal (k.envs e).pgdir k.pm

theorem KernelInv.fills_right (h : KernelInv b k₀ role₀ k role) (mem : Nat → Nat → Nat) :
    k.fills mem ⊆ k.right mem := by
  rintro x ⟨hi, hj, c, hcur, hasid, hw⟩
  obtain ⟨hc, hd⟩ := h.cur c hcur
  rw [hd] at hw
  exact ⟨hi, hj, c, hc, hasid, hw⟩

/-- **Step lemma.** -/
theorem TlbOk.step {T T' : Set TlbEntry} (h : TlbOk k T) (hinv : KernelInv b k₀ role₀ k role)
    (hstep : TlbStep k k') {evs : List HwEvent} (htrace : k'.pm.trace = k.pm.trace ++ evs)
    (hcache : CacheRun HwEvent.after HwEvent.drops k.fills k.pm.mem evs T T') : TlbOk k' T' := by
  have hsame : ∀ {evs'}, Traced k.pm k'.pm evs' → evs' = evs := fun htr =>
    List.append_cancel_left (htr.trace.symm.trans htrace)
  obtain ⟨evs', htr⟩ := hstep.traced
  obtain rfl := hsame htr
  have hsettles : ∀ x, Settles HwEvent.after (x ∈ k.right ·) (HwEvent.drops · x) k.pm.mem evs' := by
    rintro x pre post he ⟨hi, hj, e, hlive, hasid, hw⟩
    obtain ⟨evs, htr', hset⟩ := hstep.edits e hlive
    obtain rfl := hsame htr'
    rcases (hset (h.nonGlobal e hlive)).2 x.i hi x.j hj x.pte pre post he hw with hend | hdrop
    · exact Or.inl ⟨hi, hj, e, hlive, hasid, hend⟩
    · rw [← hasid] at hdrop
      exact Or.inr hdrop
  have hright := hcache.all_right hinv.fills_right hsettles fun x hx => (hsettles x).start (h.right hx)
  refine ⟨fun x hx => ?_, fun e hl => ?_⟩
  · obtain ⟨hi, hj, e, hlive, hasid, hw⟩ := hright x hx
    rw [← htr.mem] at hw
    by_cases hl : k'.Live e
    · refine ⟨hi, hj, e, hl, ?_, ?_⟩
      · rw [hstep.asid e hlive hl]
        exact hasid
      · rw [hstep.pgdir e hlive hl]
        exact hw
    · -- a dead env has left no translation
      have hnone := hstep.died e hlive hl x.i hi x.j
      rw [pteAt_eq_walkIn, hw] at hnone
      cases hnone
  · by_cases hlive : k.Live e
    · obtain ⟨evs, -, hset⟩ := hstep.edits e hlive
      rw [hstep.pgdir e hlive hl]
      exact (hset (h.nonGlobal e hlive)).1
    · exact hstep.born e hlive hl

/-- The steps of `tlb_coherent`: they keep the kernel invariant and ask for no global page. -/
def TlbSafe (k : Kernel) (op : KernOp) : Prop := FrameSafe k op ∧ NoGlobalPages op

theorem TlbReach.reach {T : Set TlbEntry} (h : TlbReach TlbSafe k₀ k T) : KernReach FrameSafe k₀ k := by
  induction h with
  | boot => exact .refl
  | fill _ _ ih => exact ih
  | step _ hsafe hrun _ _ ih => exact ih.step hsafe.1 hrun

/-- **Run lemma.** -/
theorem TlbReach.tlbOk {T : Set TlbEntry} (hb : Booted b k₀ role₀) (h : TlbReach TlbSafe k₀ k T) :
    TlbOk k T := by
  induction h with
  | boot =>
    refine ⟨Set.empty_subset _, fun e he => ?_⟩
    obtain ⟨pm, p, hk⟩ := hb.eq
    rw [hk] at he
    exact absurd rfl he
  | @fill k T T' hreach hsub ih =>
    obtain ⟨role, hinv, -⟩ := hreach.reach.kernelOk hb
    refine ⟨fun x hx => ?_, ih.nonGlobal⟩
    rcases hsub hx with hx | hx
    · exact ih.right hx
    · exact hinv.fills_right _ hx
  | step hreach hsafe hrun htrace hcache ih =>
    have hok := hreach.reach.kernelOk hb
    obtain ⟨role, hinv, -⟩ := id hok
    exact ih.step hinv (KernOp.tlbStep hok hb hsafe.1.1 hsafe.2 hrun) htrace hcache

/-- **TLB coherence.** Whatever the hardware read and forgot, each entry it holds below `UTOP` is the
one that the directory of a live env has now, under the ASID of this env, and names no free frame;
and an entry that the running env can use, by its ASID or as a global one, is in its directory. -/
theorem tlb_coherent (b : BootState) (hroom : usedFrames b.freemem + 3 ≤ npage) {k₀ k : Kernel}
    {T : Set TlbEntry} (hboot : b.boot = .ok k₀) (h : TlbReach TlbSafe k₀ k T) :
    ∀ x ∈ T, pteFrame x.pte ∉ k.pm.pageFreeList ∧
      (∃ e, k.Live e ∧ (k.envs e).asid = x.asid ∧
        k.pm.pteAt (k.envs e).pgdir x.i x.j = some x.pte) ∧
      ∀ c, k.curenv = some c → (x.asid = (k.envs c).asid ∨ testFlag x.pte PTE_G = true) →
        k.pm.pteAt k.curPgdir x.i x.j = some x.pte := by
  obtain ⟨k₁, role₀, hboot', hb⟩ := boot_ok b hroom
  rw [hboot] at hboot'
  cases hboot'
  have htlb := h.tlbOk hb
  have htable : TableInv k := by
    obtain ⟨pm, p, rfl⟩ := hb.eq
    exact h.reach.tableInv (firstKernel_tableInv pm p b.disk b.kernelPgdir)
  obtain ⟨role, hinv, -⟩ := h.reach.kernelOk hb
  intro x hx
  obtain ⟨hi, hj, e, hlive, hasid, hw⟩ := htlb.right hx
  have hdata : role (pteFrame x.pte) = .data := by
    refine hinv.frames.data_of_leaf (d := (k.envs e).pgdir) (i := x.i) hj ?_
    unfold leaf view
    rw [if_pos ⟨hinv.dir e hlive, kernOwn_iff.mpr hi⟩, pteAt_eq_walkIn, hw]
    rfl
  refine ⟨?_, ⟨e, hlive, hasid.symm, hw⟩, fun c hcur huse => ?_⟩
  · rw [hinv.frames.freeIff, hdata]
    simp
  · obtain ⟨hc, hd⟩ := hinv.cur c hcur
    rcases huse with hsame | hglobal
    · obtain rfl := htable.asidInj e c hlive hc (hasid.symm.trans hsame)
      rw [hd]
      exact hw
    · have hng := htlb.nonGlobal e hlive x.i hi x.j hj x.pte hw
      rw [hng] at hglobal
      cases hglobal

/-- A run in which the hardware reads nothing. -/
theorem KernReach.cold (hb : Booted b k₀ role₀) (h : KernReach TlbSafe k₀ k) : TlbReach TlbSafe k₀ k ∅ := by
  induction h with
  | refl => exact .boot
  | step hreach hsafe hrun ih =>
    have hok := ih.reach.kernelOk hb
    obtain ⟨evs, htr⟩ := (KernOp.tlbStep hok hb hsafe.1.1 hsafe.2 hrun).traced
    exact ih.step hsafe hrun htr.trace (.cold _ _ _)

/-- An env maps a page, and the hardware reads its translation. -/
theorem tlb_coherent_page :
    ∃ k₀ k T x, smallBoot.boot = .ok k₀ ∧ TlbReach TlbSafe k₀ k T ∧ x ∈ T ∧
      pteFrame x.pte ∉ k.pm.pageFreeList ∧ k.pm.pteAt k.curPgdir x.i x.j = some x.pte := by
  obtain ⟨k₀, role₀, k, role, a, f, hboot, hb, hreach, h, -, -, hw, -⟩ :=
    smallBoot_onePage (P := TlbSafe)
      (fun _ hroom => ⟨⟨⟨userElf_nil UTEXT, hroom⟩, fun hshare => hshare.elim⟩, trivial⟩)
      (fun _ => ⟨⟨trivial, fun hshare => hshare.elim⟩, trivial⟩)
      (fun hb hR => ⟨hR.allocSafe hb, by unfold NoGlobalPages; decide⟩)
  obtain ⟨x, hx⟩ : ∃ x : TlbEntry, x =
      ⟨(k.envs a).asid, PDX (pageVa 0), PTX (pageVa 0), mkPte f PTE_U⟩ := ⟨_, rfl⟩
  have hlow : PDX (pageVa 0) < PDX UTOP := by decide
  have hwalk : walkIn k.pm.mem (k.envs a).pgdir (PDX (pageVa 0)) (PTX (pageVa 0)) = some (mkPte f PTE_U) := by
    unfold view slotOf at hw
    rw [if_pos ⟨h.inv.dir a h.live, kernOwn_iff.mpr hlow⟩] at hw
    exact hw
  have hfill : x ∈ k.fills k.pm.mem := by
    rw [hx]
    refine ⟨hlow, PTX_lt _, a, h.cur, rfl, ?_⟩
    rw [(h.inv.cur a h.cur).2]
    exact hwalk
  have htlb : TlbReach TlbSafe k₀ k {x} :=
    .fill (hreach.cold hb) (Set.singleton_subset_iff.mpr (Set.mem_union_right ∅ hfill))
  obtain ⟨hfree, -, hcur⟩ := tlb_coherent smallBoot (by decide) hboot htlb x rfl
  exact ⟨k₀, k, {x}, x, hboot, htlb, rfl, hfree, hcur a h.cur (Or.inl (by rw [hx]))⟩

end Mos.Kern
