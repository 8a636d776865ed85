import Mos.Kern.Confine
import Mos.Kern.OwnPages

/-!
# MOS on RISC-V — what a failing call leaves behind

A system call takes what it needs one thing after another, and a later step
can fail when the earlier ones are done.

* `memCalls_undo`: an error of `sys_mem_map` leaves pages and page tables as
  they were, and so does one of `sys_mem_alloc` unless the page it took was the
  last and the page table of its address is missing.
* `envAlloc_undo`: `env_alloc` keeps the directory it made when no ASID is left.
* `ipcTrySend_undo`: a send that finds no page to send, or no memory for a page
  table, has woken the receiver.

Each of these is an equivalence; the runs from boot after them reach the states
where the call goes wrong.
-/

namespace Mos.Kern

open Mos.Lib

variable {lo : Nat} {k k' : Kernel} {role : Nat → Role} {e cur : Nat}

-- ---------------------------------------------------------------------------
-- page_insert
-- ---------------------------------------------------------------------------

section

variable {d : Nat} {s s' : Pmap}

theorem pageDecref_mem {pp : Nat} (h : pageDecref s pp = .ok s') : s'.mem = s.mem := by
  unfold pageDecref at h
  split_ifs at h with hpos
  simp only at h
  split_ifs at h
  · unfold pageFree at h
    split_ifs at h
    cases h
    rfl
  · cases h
    rfl

/-- `page_remove` leaves the directory alone. -/
theorem pageRemove_dir {P : Nat → Prop} (h : Apart P d s) {asid va : Nat} (hva : va < UTOP)
    (hrun : pageRemove s d asid va = .ok s') (i : Nat) : s'.mem d i = s.mem d i := by
  obtain ⟨x, hlook, hrun⟩ := bind_eq_ok.mp hrun
  cases x with
  | none =>
    cases hrun
    rfl
  | some y =>
    obtain ⟨pp, p⟩ := y
    obtain ⟨w, -, -, -, hV, rfl⟩ := pageLookup_pteAt hlook
    obtain ⟨s₁, hdec, hrun⟩ := bind_eq_ok.mp hrun
    cases hrun
    have hd := (h.table _ (PDX_lt_UTOP hva) hV).2
    rw [tlbFlush_mem, Pmap.store_mem_frame _ (Ne.symm hd), pageDecref_mem hdec]

/-- `pgdir_walk` finds no page table only where there is none and none can be made. -/
theorem pgdirWalk_none {va : Nat} {r : Int} (hrun : pgdirWalk s d va true = .ok (r, none, s')) :
    NoTable s d va ∧ s' = s := by
  unfold pgdirWalk at hrun
  by_cases hV : testFlag (s.mem d (PDX va)) PTE_V = true
  · rw [if_pos hV] at hrun
    obtain ⟨t, -, hrun⟩ := bind_eq_ok.mp hrun
    cases hrun
  · rw [if_neg hV, if_pos rfl] at hrun
    cases hl : s.pageFreeList with
    | nil =>
      unfold pageAlloc at hrun
      rw [hl] at hrun
      cases hrun
      exact ⟨⟨Bool.eq_false_iff.mpr hV, hl⟩, rfl⟩
    | cons pp rest =>
      unfold pageAlloc at hrun
      rw [hl] at hrun
      obtain ⟨t, -, hrun⟩ := bind_eq_ok.mp hrun
      cases hrun

theorem pageInsertNew_fails {asid pp va perm : Nat} {r : Int}
    (hrun : pageInsertNew s d asid pp va perm = .ok (r, s')) (hr : r ≠ 0) :
    NoTable s d va ∧ s' = s := by
  obtain ⟨⟨r₁, pte, s₁⟩, hwalk, hrun⟩ := bind_eq_ok.mp hrun
  cases pte with
  | none =>
    cases hrun
    exact pgdirWalk_none hwalk
  | some p =>
    cases hrun
    exact absurd rfl hr

/-- **An error of `page_insert`** changes nothing: there was no page table, and no
page for one. -/
theorem pageInsert_fails {P : Nat → Prop} (h : Apart P d s) {asid pp va perm : Nat} (hva : va < UTOP)
    {r : Int} (hrun : pageInsert s d asid pp va perm = .ok (r, s')) (hr : r ≠ 0) :
    NoTable s d va ∧ s' = s := by
  obtain ⟨⟨r₁, pte, s₁⟩, hwalk, hrun⟩ := bind_eq_ok.mp hrun
  obtain ⟨rfl, ⟨hV, rfl⟩ | ⟨-, rfl⟩⟩ := pgdirWalk_false hwalk
  · simp only at hrun
    split_ifs at hrun with hW
    · obtain ⟨old, -, hrun⟩ := bind_eq_ok.mp hrun
      change (if old ≠ pp then _ else _) = _ at hrun
      split_ifs at hrun
      · obtain ⟨s₂, hrem, hrun⟩ := bind_eq_ok.mp hrun
        -- the page table that held the old entry is still there
        obtain ⟨⟨hno, -⟩, -⟩ := pageInsertNew_fails hrun hr
        rw [pageRemove_dir h hva hrem, hV] at hno
        cases hno
      · cases hrun
        exact absurd rfl hr
    · exact pageInsertNew_fails hrun hr
  · exact pageInsertNew_fails hrun hr

theorem pageInsert_noTable {asid pp va perm : Nat} (h : NoTable s d va) :
    pageInsert s d asid pp va perm = .ok (-E_NO_MEM, s) := by
  unfold pageInsert
  rw [pgdirWalk_absent h.1, ok_bind]
  show pageInsertNew s d asid pp va (readable perm) = _
  unfold pageInsertNew
  rw [pgdirWalk_noMem h.1 h.2]
  rfl

end

/-- The space of a live env, without any other in view. -/
theorem Accounted.walk (h : Accounted lo k role) (he : k.Live e) :
    Apart (fun _ => False) (k.envs e).pgdir k.pm := by
  have hd := h.dir e he
  refine ⟨fun hf => hf, fun f hf => ⟨fun hc => hc, ?_, ?_⟩, fun i hi hV => ⟨fun hc => hc, ?_⟩⟩
  · rintro rfl
    rw [(h.frames.freeIff _).mp hf] at hd
    cases hd
  · exact h.lt_npage (by simp [(h.frames.freeIff f).mp hf])
  · obtain ⟨t, ht⟩ := h.frames.pdeTable _ i hd (kernOwn_iff.mpr hi) hV
    rw [h.frames.pteFrame_pde ht]
    rintro rfl
    rw [hd] at ht
    cases ht

-- ---------------------------------------------------------------------------
-- sys_mem_alloc and sys_mem_map
-- ---------------------------------------------------------------------------

/-- The free pages, the counters and the page tables are as they were. -/
structure SamePages (k k' : Kernel) : Prop where
  free : ∀ f, f ∈ k'.pm.pageFreeList ↔ f ∈ k.pm.pageFreeList
  ref : k'.pm.ppRef = k.pm.ppRef
  dir : ∀ e, k.Live e → ∀ i, k'.pm.mem (k.envs e).pgdir i = k.pm.mem (k.envs e).pgdir i
  table : ∀ e t, k.Live e → k.TableOf e t → ∀ j, k'.pm.mem t j = k.pm.mem t j

theorem SamePages.refl (k : Kernel) : SamePages k k :=
  ⟨fun _ => Iff.rfl, rfl, fun _ _ _ => rfl, fun _ _ _ _ _ => rfl⟩

/-- An error leaves the pages as they were. -/
def Undoes (k : Kernel) (x : SysResult) : Prop :=
  ∀ r k', x = .ok (some r, k') → r ≠ 0 → SamePages k k'

/-- `sys_mem_alloc` takes the last page, and then there is none for a page table. -/
def LosesPage (k : Kernel) (cur envid va : Nat) : Prop :=
  isIllegalVa va = false ∧ ∃ e pp, envid2env k cur envid true = .ok e ∧ k.pm.pageFreeList = [pp] ∧
    testFlag (k.pm.mem (k.envs e).pgdir (PDX va)) PTE_V = false

/-- Who a system call may work on is live. -/
theorem Accounted.target (h : Accounted lo k role) (hcur : k.curenv = some cur) {envid : Nat}
    {checkperm : Bool} (he : envid2env k cur envid checkperm = .ok e) : k.Live e := by
  rcases envid2env_cases he with ⟨-, rfl⟩ | ⟨-, -, hl, -⟩
  · exact (h.cur e hcur).1
  · exact hl

/-- `page_alloc` empties a frame off the list. -/
theorem pageAlloc_eq {s s' : Pmap} {pp : Nat} (h : pageAlloc s = some (pp, s')) :
    ∃ rest, s.pageFreeList = pp :: rest ∧ s' = { s with pageFreeList := rest }.clear pp := by
  unfold pageAlloc at h
  split at h
  · cases h
  · rename_i q rest hl
    cases h
    exact ⟨rest, hl, rfl⟩

theorem losesPage_run {envid va pp : Nat} (perm : Nat) (hlegal : isIllegalVa va = false)
    (he : envid2env k cur envid true = .ok e) (hl : k.pm.pageFreeList = [pp])
    (hd : pp ≠ (k.envs e).pgdir)
    (hpde : testFlag (k.pm.mem (k.envs e).pgdir (PDX va)) PTE_V = false) :
    sysMemAlloc k cur envid va perm =
      .ok (some (-E_NO_MEM), { k with pm := { k.pm with pageFreeList := [] }.clear pp }) := by
  have ha := pageAlloc_cons hl
  have hno : NoTable ({ k.pm with pageFreeList := [] }.clear pp) (k.envs e).pgdir va := by
    refine ⟨?_, rfl⟩
    rw [Pmap.clear_mem, if_neg (Ne.symm hd)]
    exact hpde
  unfold sysMemAlloc
  rw [hlegal, if_neg (by simp), he]
  simp only [ha, pageInsert_noTable hno]
  rfl

theorem sysMemAlloc_undo (h : Accounted lo k role) (hcur : k.curenv = some cur) (envid va perm : Nat) :
    Undoes k (sysMemAlloc k cur envid va perm) ↔ ¬ LosesPage k cur envid va := by
  constructor
  · rintro hundo ⟨hlegal, e, pp, he, hl, hpde⟩
    have hin : pp ∈ k.pm.pageFreeList := by
      rw [hl]
      exact List.mem_cons_self
    have hd := ((h.walk (h.target hcur he)).free pp hin).2.1
    have hrun := losesPage_run perm hlegal he hl hd hpde
    exact absurd (((hundo _ _ hrun (by decide)).free pp).mpr hin) List.not_mem_nil
  · intro hlose r k' hrun hr
    cases hlegal : isIllegalVa va with
    | true =>
      unfold sysMemAlloc at hrun
      rw [hlegal, if_pos rfl] at hrun
      cases hrun
      exact SamePages.refl k
    | false =>
      rcases sysMemAlloc_cases hrun with rfl | ⟨e, pp, pm, r', pm', hva, he, ha, hins, hr', rfl⟩
      · exact SamePages.refl k'
      · exfalso
        obtain rfl := Option.some.inj hr'
        obtain ⟨h₁, -, hd, -⟩ := (h.walk (h.target hcur he)).alloc ha
        obtain ⟨⟨hpde, hnil⟩, -⟩ := pageInsert_fails h₁.apart hva hins hr
        obtain ⟨rest, hl, rfl⟩ := pageAlloc_eq ha
        change rest = [] at hnil
        rw [hnil] at hl
        rw [Pmap.clear_mem, if_neg (Ne.symm hd)] at hpde
        exact hlose ⟨hlegal, e, pp, he, hl, hpde⟩

theorem sysMemMap_undo (h : Accounted lo k role) (hcur : k.curenv = some cur)
    (srcid srcva dstid dstva perm : Nat) :
    Undoes k (sysMemMap k cur srcid srcva dstid dstva perm) := by
  intro r k' hrun hr
  rcases sysMemMap_cases hrun with rfl | ⟨src, dst, pp, p, r', pm', -, hva, -, hd, -, hins, hr', rfl⟩
  · exact SamePages.refl k'
  · obtain rfl := Option.some.inj hr'
    obtain ⟨-, rfl⟩ := pageInsert_fails (h.walk (h.target hcur hd)) hva hins hr
    exact SamePages.refl k

/-- **Errors of `sys_mem_alloc` and `sys_mem_map`** change nothing, but for the one
case in which `sys_mem_alloc` loses a page. -/
theorem memCalls_undo (h : Accounted lo k role) (hcur : k.curenv = some cur) :
    (∀ envid va perm, Undoes k (sysMemAlloc k cur envid va perm) ↔ ¬ LosesPage k cur envid va) ∧
      ∀ srcid srcva dstid dstva perm, Undoes k (sysMemMap k cur srcid srcva dstid dstva perm) :=
  ⟨sysMemAlloc_undo h hcur, sysMemMap_undo h hcur⟩

/-- The running env uses up all pages but one. Page 0 keeps a page table for the
last step, and slot 508 stays empty. -/
theorem Running.drain {b : BootState} {k₀ : Kernel} {role₀ : Nat → Role} {a : Nat}
    (hb : Booted b k₀ role₀) (n i : Nat) {k : Kernel} {role : Nat → Role}
    (h : Running b k₀ role₀ k role a) (hreach : KernReach (fun _ _ => True) k₀ k)
    (hpos : k.pm.pageFreeList ≠ []) (hlen : k.pm.pageFreeList.length ≤ n + 1) (hi : 1024 ≤ i)
    (hroom : i + n ≤ 507 * 1024) (hempty : EmptyFrom role k a i)
    (hone : view kernOwn role k.pm (slotOf (k.envs a).pgdir (pageVa 1)) = none)
    (htable : testFlag (k.pm.mem (k.envs a).pgdir 1) PTE_V = true)
    (htop : k.pm.mem (k.envs a).pgdir 508 = 0) :
    ∃ k' role' f, KernReach (fun _ _ => True) k₀ k' ∧ Running b k₀ role₀ k' role' a ∧
      k'.envs = k.envs ∧ k'.pm.pageFreeList = [f] ∧ k'.pm.mem (k.envs a).pgdir 508 = 0 := by
  have hown : ∀ j, j < 507 * 1024 → j < ownPages := fun j hj => by
    unfold ownPages
    omega
  induction n generalizing i k role with
  | zero =>
    obtain ⟨f, rest, hl⟩ := List.exists_cons_of_ne_nil hpos
    rw [hl, List.length_cons] at hlen
    have hrest : rest = [] := List.length_eq_zero_iff.mp (by omega)
    exact ⟨k, role, f, hreach, h, rfl, by rw [hl, hrest], htop⟩
  | succ n ih =>
    obtain ⟨f, rest, hl⟩ := List.exists_cons_of_ne_nil hpos
    have h1 : (1 : Nat) < ownPages := hown 1 (by omega)
    have hi' : i < ownPages := hown i (by omega)
    have hslot := pageVa_slot hi'
    cases rest with
    | nil => exact ⟨k, role, f, hreach, h, rfl, hl, htop⟩
    | cons g rest =>
      cases rest with
      | nil =>
        -- two pages left: the page table is there, so one is taken
        obtain ⟨k', role', hrun, h', henvs, hleft, -, hword, -⟩ := h.memAlloc hb (pageVa_legal h1)
          (show 0 < 2 ^ 10 by decide) hone hl zeroTrapframe
        rw [(pageVa_slot h1).1] at hleft hword
        rw [if_pos htable] at hleft
        refine ⟨k', role', g, hreach.step trivial hrun, h', henvs, hleft, ?_⟩
        rw [hword 508 (by omega) (by rw [PDX_UVPT]; omega)]
        exact htop
      | cons g' rest =>
        obtain ⟨k', role', hrun, h', henvs, hleft, hother, hword, -⟩ := h.memAlloc hb
          (pageVa_legal hi') (show 0 < 2 ^ 10 by decide) (hempty i (Nat.le_refl i) hi') hl zeroTrapframe
        obtain ⟨hmost, hleast⟩ := taken_length hleft
        rw [hl] at hlen
        simp only [List.length_cons] at hlen hmost hleast
        rw [hslot.1] at hword
        have hdir : (k'.envs a).pgdir = (k.envs a).pgdir := by rw [henvs]
        obtain ⟨k₂, role₂, f₂, hreach₂, h₂, henvs₂, hl₂, htop₂⟩ := ih (i + 1) h'
          (hreach.step trivial hrun) (by rintro hnil; rw [hnil] at hleast; simp at hleast)
          (by omega) (by omega) (by omega) (by
            intro j hij hj
            rw [hdir, hother _ (slotOf_pageVa_ne _ hj hi' (by omega))]
            exact hempty j (by omega) hj)
          (by
            rw [hdir, hother _ (slotOf_pageVa_ne _ h1 hi' (by omega))]
            exact hone)
          (by
            rw [hdir, hword 1 (by omega) (by rw [PDX_UVPT]; omega)]
            exact htable)
          (by
            rw [hdir, hword 508 (by omega) (by rw [PDX_UVPT]; omega)]
            exact htop)
        rw [hdir] at htop₂
        exact ⟨k₂, role₂, f₂, hreach₂, h₂, henvs₂.trans henvs, hl₂, htop₂⟩

/-- **The page that is lost.** An env that leaves one page free and asks for a page
where it has no page table gets an error, and nobody has the page. -/
theorem memAlloc_losesPage :
    ∃ k₀ k a f k', smallBoot.boot = .ok k₀ ∧ KernReach (fun _ _ => True) k₀ k ∧ k.curenv = some a ∧
      sysMemAlloc k a 0 (pageVa (507 * 1024)) 0 = .ok (some (-E_NO_MEM), k') ∧
      f ∈ k.pm.pageFreeList ∧ f ∉ k'.pm.pageFreeList ∧ k'.pm.ppRef f = 0 ∧
      ¬ Undoes k (sysMemAlloc k a 0 (pageVa (507 * 1024)) 0) := by
  obtain ⟨k₀, role₀, k₁, k₂, a, hboot, hb, hcreate, htick, -, -, h₂, hcur, -, hspace⟩ := smallBoot_first
  obtain ⟨role, hinv, -⟩ := h₂.ok
  have hR : Running smallBoot k₀ role₀ k₂ role a := ⟨hinv, hcur⟩
  have hempty := hspace.emptyFrom role
  have hroom := h₂.room
  have hzero : 0 < ownPages := by decide
  have hone : 1 < ownPages := by decide
  have htop : 507 * 1024 < ownPages := by decide
  obtain ⟨g, rest, hl⟩ : ∃ g rest, k₂.pm.pageFreeList = g :: rest :=
    List.exists_cons_of_ne_nil (by rintro hnil; rw [hnil] at hroom; simp at hroom)
  -- page 0 and its page table
  obtain ⟨k₃, role₃, hrun₃, h₃, henvs₃, hleft₃, hother₃, hword₃, hnew₃⟩ := hR.memAlloc hb
    (pageVa_legal hzero) (show 0 < 2 ^ 10 by decide) (hempty 0 (Nat.le_refl 0) hzero) hl zeroTrapframe
  obtain ⟨-, hleast⟩ := taken_length hleft₃
  rw [hl, List.length_cons] at hroom
  obtain ⟨-, -, hstep⟩ := hnew₃ (by rintro rfl; simp at hroom)
  have hdir₃ : (k₃.envs a).pgdir = (k₂.envs a).pgdir := by rw [henvs₃]
  have hfirst : PDX (pageVa 0) = 1 := (pageVa_slot hzero).1
  have htable : testFlag (k₃.pm.mem (k₃.envs a).pgdir 1) PTE_V = true := by
    have hview : view kernOwn role₃ k₃.pm (slotOf (k₂.envs a).pgdir (pageVa 0)) =
        some (mkPte g (readable (0 ||| PTE_U))) := by
      rw [hstep.view_eq, Function.update_self]
    rw [hdir₃, ← hfirst]
    exact h₃.inv.pde_of_view hview
  have hslot : ∀ j, 0 < j → j < ownPages →
      view kernOwn role₃ k₃.pm (slotOf (k₃.envs a).pgdir (pageVa j)) = none := by
    intro j hj hlt
    rw [hdir₃, hother₃ _ (slotOf_pageVa_ne _ hlt hzero (by omega))]
    exact hempty j (Nat.zero_le j) hlt
  obtain ⟨k, role', f, hreach, h, henvs, hlf, hz⟩ := Running.drain hb npage 1024 h₃
    (.step (.step (.step .refl trivial hcreate) trivial htick) trivial hrun₃)
    (by rintro hnil; rw [hnil, List.length_nil] at hleast; omega)
    (Nat.le_succ_of_le h₃.inv.free_le) (Nat.le_refl _) (by rw [npage_eq]; omega)
    (fun j hj hlt => hslot j (by omega) hlt) (hslot 1 (by omega) hone) htable
    (by
      rw [hdir₃, hword₃ 508 (by rw [hfirst]; omega) (by rw [PDX_UVPT]; omega)]
      exact hspace.slots 508 (by rw [PDX_UTOP]; omega))
  have hf : role' f = .free := (h.inv.frames.freeIff f).mp (by rw [hlf]; exact List.mem_cons_self)
  have hd : f ≠ (k.envs a).pgdir := by
    rintro rfl
    rw [h.inv.dir a h.live] at hf
    cases hf
  have hrun := losesPage_run 0 (pageVa_legal htop) (envid2env_self k a true) hlf hd (by
    rw [(pageVa_slot htop).1, henvs, hz]
    exact testFlag_zero_left PTE_V)
  refine ⟨k₀, k, a, f, _, hboot, hreach, h.cur, hrun, by rw [hlf]; exact List.mem_cons_self,
    List.not_mem_nil, ?_, ?_⟩
  · have href := h.inv.frames.refOk f
    rw [hf] at href
    exact href
  · intro hundo
    exact absurd (((hundo _ _ hrun (by decide)).free f).mpr (by rw [hlf]; exact List.mem_cons_self))
      List.not_mem_nil

/-- Any failing `sys_mem_map` of the first env leaves the pages alone. -/
theorem memCalls_undo_first :
    ∃ lo k role cur, Accounted lo k role ∧ k.curenv = some cur ∧
      (∀ envid va perm, Undoes k (sysMemAlloc k cur envid va perm) ↔ ¬ LosesPage k cur envid va) ∧
      ∀ srcid srcva dstid dstva perm, Undoes k (sysMemMap k cur srcid srcva dstid dstva perm) := by
  obtain ⟨k₀, role₀, k₁, k₂, a, -, -, -, -, -, -, h₂, hcur, -, -⟩ := smallBoot_first
  obtain ⟨role, hinv, hbd⟩ := h₂.ok
  exact ⟨_, k₂, role, a, hinv.accounted hbd, hcur, memCalls_undo (hinv.accounted hbd) hcur⟩

-- ---------------------------------------------------------------------------
-- env_alloc
-- ---------------------------------------------------------------------------

/-- What `env_alloc` draws on, and the live envs, are as they were. -/
structure SameStock (k k' : Kernel) : Prop where
  free : k'.pm.pageFreeList = k.pm.pageFreeList
  ref : k'.pm.ppRef = k.pm.ppRef
  asid : k'.asidBitmap = k.asidBitmap
  envFree : k'.envFreeList = k.envFreeList
  envs : ∀ e, k.Live e → k'.envs e = k.envs e

/-- A slot and a page for its directory are there, but no ASID. -/
def OutOfAsids (k : Kernel) : Prop :=
  k.envFreeList ≠ [] ∧ k.pm.pageFreeList ≠ [] ∧ ∀ i < NASID, Bitmap.isSet k.asidBitmap i

/-- **Errors of `env_alloc`** change nothing, unless it has made the directory of an
env that gets no ASID. -/
theorem envAlloc_undo (hfree : ∀ e ∈ k.envFreeList, ¬ k.Live e) (parentId : Nat) :
    (∀ r k', envAlloc k parentId = (.error r, k') → SameStock k k') ↔ ¬ OutOfAsids k := by
  constructor
  · rintro hundo ⟨hslot, hpage, hfull⟩
    obtain ⟨e, rest, hl⟩ := List.exists_cons_of_ne_nil hslot
    obtain ⟨pp, pages, hpp⟩ := List.exists_cons_of_ne_nil hpage
    cases hrun : envAlloc k parentId with
    | mk r k' =>
      cases envAlloc_outcome hrun with
      | full hnil =>
        rw [hl] at hnil
        cases hnil
      | ok _ hlt hclear => exact hclear (hfull _ hlt)
      | noAsid hl' _ =>
        have hsame := (hundo _ _ hrun).free
        rw [envPrepare_eq] at hsame
        unfold setupPages at hsame
        rw [pageAlloc_cons hpp, hpp] at hsame
        exact absurd hsame.symm (List.cons_ne_self pp pages)
  · intro hstock r k' hrun
    generalize hr : (Except.error r : Except Int Nat) = x at hrun
    cases envAlloc_outcome hrun with
    | full _ => exact ⟨rfl, rfl, rfl, rfl, fun _ _ => rfl⟩
    | ok _ _ _ => cases hr
    | noAsid hl hfull =>
      rename_i e rest
      -- no page was free, so none is lost
      have hnil : k.pm.pageFreeList = [] := by
        by_contra hne
        exact hstock ⟨by rw [hl]; exact List.cons_ne_nil _ _, hne, hfull⟩
      have hpages : (setupPages k e).1 = k.pm := by
        unfold setupPages pageAlloc
        rw [hnil]
      rw [envPrepare_eq, hpages]
      refine ⟨rfl, rfl, rfl, rfl, fun x hx => Function.update_of_ne ?_ _ _⟩
      rintro rfl
      exact hfree x (by rw [hl]; exact List.mem_cons_self) hx

section

variable {b : BootState} {k₀ : Kernel} {role₀ : Nat → Role} {l s : List Nat} {n : Nat}

/-- 64 live envs have all the ASIDs. -/
theorem InOrder.asids_full (h : InOrder b k₀ role₀ k l s n) (hnodup : s.Nodup)
    (hs : s.length = NASID) : ∀ i < NASID, Bitmap.isSet k.asidBitmap i := by
  have hlive : ∀ x ∈ s, k.Live x := fun x hx => (h.live x).mpr hx
  have hmap : (s.map fun x => (k.envs x).asid).Nodup :=
    hnodup.map_on fun x hx y hy hxy => h.table.asidInj x y (hlive x hx) (hlive y hy) hxy
  have hsub : (s.map fun x => (k.envs x).asid).toFinset ⊆ Finset.range NASID := by
    intro i hi
    rw [List.mem_toFinset, List.mem_map] at hi
    obtain ⟨x, hx, rfl⟩ := hi
    exact Finset.mem_range.mpr (h.table.asidLt x (hlive x hx))
  have hall := Finset.eq_of_subset_of_card_le hsub (by
    rw [List.toFinset_card_of_nodup hmap, List.length_map, hs, Finset.card_range])
  intro i hi
  rw [← Finset.mem_range, ← hall, List.mem_toFinset, List.mem_map] at hi
  obtain ⟨x, hx, rfl⟩ := hi
  exact (h.table.asidSet _ (h.table.asidLt x (hlive x hx))).mpr ⟨x, hlive x hx, rfl⟩

/-- The kernel creates `m` envs, one after another. -/
theorem InOrder.createMany (hb : Booted b k₀ role₀) (m : Nat) (hm : m ≤ NASID)
    (h : InOrder b k₀ role₀ k₀ [] [] (n + m)) (hcur : k₀.curenv = none) :
    ∃ k l, KernReach (fun _ _ => True) k₀ k ∧ InOrder b k₀ role₀ k l l n ∧ l.length = m ∧
      l.Nodup ∧ k.curenv = none := by
  induction m generalizing n with
  | zero => exact ⟨k₀, [], .refl, h, rfl, List.nodup_nil, hcur⟩
  | succ m ih =>
    have hn : n + (m + 1) = n + 1 + m := by omega
    obtain ⟨k, l, hreach, hk, hlen, hnodup, hnone⟩ := ih (by omega) (hn ▸ h)
    obtain ⟨e, k', hrun, hk', hnew, hborn⟩ := hk.create hb (by omega) UTEXT 1
    exact ⟨k', e :: l, hreach.step trivial hrun, hk', by rw [List.length_cons, hlen],
      List.nodup_cons.mpr ⟨hnew, hnodup⟩, hborn.curenv.trans hnone⟩

end

/-- After boot, 64 envs are created and the first tick resumes one. -/
theorem smallBoot_full :
    ∃ k₀ role₀ k a l, smallBoot.boot = .ok k₀ ∧ Booted smallBoot k₀ role₀ ∧
      KernReach (fun _ _ => True) k₀ k ∧ k.curenv = some a ∧ InOrder smallBoot k₀ role₀ k l l 37 ∧
      (∀ i < NASID, Bitmap.isSet k.asidBitmap i) ∧ k.envFreeList ≠ [] := by
  obtain ⟨k₀, role₀, hboot, hb⟩ := boot_ok smallBoot (by decide)
  have hnone : k₀.curenv = none := by
    obtain ⟨pm, p, hk⟩ := hb.eq
    rw [hk]
    rfl
  have h₀ : InOrder smallBoot k₀ role₀ k₀ [] [] (37 + 64) := hb.inOrder rfl (by decide)
  obtain ⟨k₁, l, hreach, h₁, hlen, hnodup, hnone₁⟩ := h₀.createMany hb 64 (by decide) hnone
  cases l with
  | nil => cases hlen
  | cons a l =>
    obtain ⟨k, htick, h, hcur, -⟩ := h₁.tick zeroTrapframe fun c hc => by
      rw [hnone₁] at hc
      cases hc
    obtain ⟨e, hlt, he⟩ := InOrder.exists_not_mem (t := a :: l) (m := NENV) (by rw [hlen]; decide)
    refine ⟨k₀, role₀, k, a, a :: l, hboot, hb, hreach.step trivial htick, hcur, h,
      h.asids_full hnodup hlen, List.ne_nil_of_mem ((h.table.freeIff e).mpr ⟨hlt, ?_⟩)⟩
    exact fun hl => he ((h.live e).mp hl)

/-- **The directory that is lost.** With 64 envs alive, a fork fails and has used up a
page. -/
theorem envAlloc_losesDir :
    ∃ k₀ k a k' f, smallBoot.boot = .ok k₀ ∧ KernReach (fun _ _ => True) k₀ k ∧ k.curenv = some a ∧
      envAlloc k (k.envs a).id = (.error (-E_NO_FREE_ENV), k') ∧
      f ∈ k.pm.pageFreeList ∧ f ∉ k'.pm.pageFreeList ∧ ¬ SameStock k k' := by
  obtain ⟨k₀, role₀, k, a, l, hboot, hb, hreach, hcur, h, hfull, hslots⟩ := smallBoot_full
  have hroom := h.room
  obtain ⟨f, rest, hf⟩ : ∃ f rest, k.pm.pageFreeList = f :: rest :=
    List.exists_cons_of_ne_nil (by rintro hnil; rw [hnil] at hroom; simp at hroom)
  obtain ⟨role, hinv, -⟩ := h.ok
  have hout := hinv.frames.freeNodup
  rw [hf, List.nodup_cons] at hout
  cases hrun : envAlloc k (k.envs a).id with
  | mk r k' =>
    cases envAlloc_outcome hrun with
    | full hnil => exact absurd hnil hslots
    | ok _ hlt hclear => exact absurd (hfull _ hlt) hclear
    | noAsid hl' _ =>
      rename_i y ys _
      have hleft : (envPrepare k y).pm.pageFreeList = rest := by
        rw [envPrepare_eq]
        unfold setupPages
        rw [pageAlloc_cons hf]
        rfl
      refine ⟨k₀, k, a, _, f, hboot, hreach, hcur, hrun,
        by rw [hf]; exact List.mem_cons_self, by rw [hleft]; exact hout.1, ?_⟩
      intro hsame
      have hcons := hsame.free
      rw [hleft, hf] at hcons
      exact List.cons_ne_self f rest hcons.symm

/-- In the first kernel there is nothing to lose: ASIDs are left. -/
theorem envAlloc_undo_first :
    ∃ k, smallBoot.boot = .ok k ∧ ((∀ r k', envAlloc k 0 = (.error r, k') → SameStock k k') ↔
      ¬ OutOfAsids k) := by
  obtain ⟨k₀, role₀, hboot, hb⟩ := boot_ok smallBoot (by decide)
  have h₀ : InOrder smallBoot k₀ role₀ k₀ [] [] 101 := hb.inOrder rfl (by decide)
  exact ⟨k₀, hboot, envAlloc_undo (fun e he => ((h₀.table.freeIff e).mp he).2) 0⟩

-- ---------------------------------------------------------------------------
-- The directory of a new env
-- ---------------------------------------------------------------------------

/-- The directory of `e` was a free page, is nobody else's, and maps nothing. -/
structure OwnDir (k k' : Kernel) (e : Nat) : Prop where
  taken : (k'.envs e).pgdir ∈ k.pm.pageFreeList
  gone : (k'.envs e).pgdir ∉ k'.pm.pageFreeList
  ref : k'.pm.ppRef (k'.envs e).pgdir = 1
  alone : ∀ x, k'.Live x → x ≠ e → ¬ k'.SpaceOf x (k'.envs e).pgdir
  empty : ∀ i < PDX UTOP, testFlag (k'.pm.mem (k'.envs e).pgdir i) PTE_V = false

/-- Words of a free frame do not count: the space of `x` is as it was. -/
theorem Accounted.space_of_mem (h : Accounted lo k role) {x pp : Nat} (hx : k.Live x)
    (hpg : (k'.envs x).pgdir = (k.envs x).pgdir) (hpp : role pp = .free)
    (hmem : ∀ f i, f ≠ pp → k'.pm.mem f i = k.pm.mem f i) {f : Nat} (hf : k'.SpaceOf x f) :
    k.SpaceOf x f := by
  have hdir : (k.envs x).pgdir ≠ pp := by
    rintro rfl
    rw [h.dir x hx] at hpp
    cases hpp
  have hword : ∀ i, k'.pm.mem (k'.envs x).pgdir i = k.pm.mem (k.envs x).pgdir i := fun i => by
    rw [hpg, hmem _ i hdir]
  rcases hf with rfl | ⟨i, hi, hV, rfl⟩ | ⟨i, hi, j, hj, w, hw, rfl⟩
  · exact Or.inl hpg
  · rw [hword] at hV ⊢
    exact Or.inr (Or.inl ⟨i, hi, hV, rfl⟩)
  · refine Or.inr (Or.inr ⟨i, hi, j, hj, w, ?_, rfl⟩)
    unfold Pmap.pteAt at hw ⊢
    rw [hword] at hw
    split_ifs at hw with hV hW
    obtain ⟨t, ht⟩ := h.frames.pdeTable _ i (h.dir x hx) (kernOwn_iff.mpr hi) hV
    have htp : pteFrame (k.pm.mem (k.envs x).pgdir i) ≠ pp := by
      rw [h.frames.pteFrame_pde ht]
      rintro rfl
      rw [ht] at hpp
      cases hpp
    rw [hmem _ j htp] at hW hw
    rw [if_pos hV, if_pos hW]
    exact hw

theorem newDir_other {p f : Nat} (pm : Pmap) (hf : f ≠ p) (i : Nat) :
    (newDir k p pm).mem f i = pm.mem f i :=
  if_neg fun hc => hf hc.1

/-- Below `UTOP` a new directory has the words of the kernel's. -/
theorem newDir_low {p i : Nat} (pm : Pmap) (hi : i < PDX UTOP) :
    (newDir k p pm).mem p i = k.kernelPgdir i := by
  have hi' := hi
  rw [PDX_UTOP] at hi'
  show (if p = p ∧ i < 1024 then templateWord _ i else _) = _
  rw [if_pos ⟨rfl, by omega⟩]
  exact if_neg fun hc => absurd hi (Nat.not_lt.mpr hc.1)

/-- **The directory of a new env** is its own exactly when a page was free: the
result of `env_setup_vm` is not looked at. -/
theorem envAlloc_ownDir (h : Accounted lo k role)
    (hkern : ∀ i < PDX UTOP, testFlag (k.kernelPgdir i) PTE_V = false) {parentId : Nat}
    (hrun : envAlloc k parentId = (.ok e, k')) : OwnDir k k' e ↔ k.pm.pageFreeList ≠ [] := by
  obtain ⟨envs, asid, hl, -, -, rfl⟩ := envAlloc_given hrun
  have hdead : ¬ k.Live e := h.free e (by rw [hl]; exact List.mem_cons_self)
  constructor
  · intro hown
    exact List.ne_nil_of_mem hown.taken
  · intro hpage
    obtain ⟨pp, rest, hpp⟩ := List.exists_cons_of_ne_nil hpage
    have hset : setupPages k e = (newDir k pp ({ k.pm with pageFreeList := rest }.clear pp), pp, 0) := by
      unfold setupPages
      rw [pageAlloc_cons hpp]
    have hin : pp ∈ k.pm.pageFreeList := by
      rw [hpp]
      exact List.mem_cons_self
    have hfree : role pp = .free := (h.frames.freeIff pp).mp hin
    have hdir : (Function.update k.envs e (givenEnv k e asid parentId) e).pgdir = pp := by
      rw [Function.update_self]
      show (setupPages k e).2.1 = pp
      rw [hset]
    refine ⟨?_, ?_, ?_, ?_, ?_⟩
    · simp only [hdir]
      exact hin
    · simp only [hdir, hset]
      have hnodup := h.frames.freeNodup
      rw [hpp, List.nodup_cons] at hnodup
      exact hnodup.1
    · simp only [hdir, hset]
      have href := h.frames.refOk pp
      rw [hfree] at href
      have href : k.pm.ppRef pp = 0 := href
      unfold newDir Pmap.copyWords Pmap.write
      simp [href]
    · intro x hx hne hspace
      simp only [hdir] at hspace
      have hsame : Function.update k.envs e (givenEnv k e asid parentId) x = k.envs x :=
        Function.update_of_ne hne _ _
      have hlive : k.Live x := by
        unfold Kernel.Live at hx ⊢
        simp only [hsame] at hx
        exact hx
      refine h.not_space_free hlive hfree (h.space_of_mem hlive (congrArg Env.pgdir hsame) hfree ?_ hspace)
      intro f i hf
      simp only [hset]
      rw [newDir_other _ hf, Pmap.clear_mem, if_neg hf]
    · intro i hi
      simp only [hdir, hset]
      rw [newDir_low _ hi]
      exact hkern i hi

/-- The kernel's directory has no page table below `UTOP`. -/
theorem KernelInv.kernelLow {b : BootState} {k₀ : Kernel} {role₀ : Nat → Role}
    (h : KernelInv b k₀ role₀ k role) (hb : Booted b k₀ role₀) :
    ∀ i < PDX UTOP, testFlag (k.kernelPgdir i) PTE_V = false := by
  intro i hi
  have hlow : PDX UTOP < PDX ULIM := by decide
  rw [h.kernel, hb.kernelPgdir_eq, b.kernelLow i (by omega)]
  exact testFlag_zero_left PTE_V

/-- The first env. -/
theorem envAlloc_ownDir_first :
    ∃ k e k', smallBoot.boot = .ok k ∧ envAlloc k 0 = (.ok e, k') ∧
      (OwnDir k k' e ↔ k.pm.pageFreeList ≠ []) := by
  obtain ⟨k₀, role₀, hboot, hb⟩ := boot_ok smallBoot (by decide)
  have h₀ : InOrder smallBoot k₀ role₀ k₀ [] [] 101 := hb.inOrder rfl (by decide)
  obtain ⟨⟨e, rest, hl⟩, hasid⟩ := h₀.slot (by decide)
  obtain ⟨k', hrun⟩ := envAlloc_succeeds hl hasid 0
  obtain ⟨role, hinv, hbd⟩ := h₀.ok
  exact ⟨k₀, e, k', hboot, hrun, envAlloc_ownDir (hinv.accounted hbd) (hinv.kernelLow hb) hrun⟩

/-- **A directory from the past.** An env that has used up memory forks: the child gets
whatever its slot held. -/
theorem envAlloc_oldDir :
    ∃ k₀ k a e k', smallBoot.boot = .ok k₀ ∧ KernReach (fun _ _ => True) k₀ k ∧ k.curenv = some a ∧
      k.pm.pageFreeList = [] ∧ envAlloc k (k.envs a).id = (.ok e, k') ∧
      (k'.envs e).pgdir = (k.envs e).pgdir ∧ ¬ OwnDir k k' e := by
  obtain ⟨k₀, role₀, k₁, k₂, a, hboot, hb, hcreate, htick, h₀, -, h₂, hcur, -, hspace⟩ := smallBoot_first
  obtain ⟨role, hinv, -⟩ := h₂.ok
  have hR : Running smallBoot k₀ role₀ k₂ role a := ⟨hinv, hcur⟩
  obtain ⟨k, role', hreach, h, henvs, hnil, -⟩ := hR.exhaust (P := fun _ _ => True) hb
    (fun _ _ _ _ => trivial) npage 0 (.step (.step .refl trivial hcreate) trivial htick)
    hinv.free_le (by decide) (hspace.emptyFrom role)
  have htable := hreach.tableInv h₀.table
  have honly : ∀ x, k.Live x → x = a := by
    intro x hx
    unfold Kernel.Live at hx
    rw [henvs] at hx
    exact List.mem_singleton.mp ((h₂.live x).mp hx)
  obtain ⟨x, hlt, hxa⟩ := InOrder.exists_not_mem (t := [a]) (show 1 < NENV by decide)
  obtain ⟨e, rest, hl⟩ : ∃ e rest, k.envFreeList = e :: rest := by
    refine List.exists_cons_of_ne_nil (List.ne_nil_of_mem ((htable.freeIff x).mpr ⟨hlt, ?_⟩))
    exact fun hx => hxa (List.mem_singleton.mpr (honly x hx))
  have hasid : ∃ i < NASID, ¬ Bitmap.isSet k.asidBitmap i := by
    obtain ⟨i, hi, hne⟩ := InOrder.exists_not_mem (t := [(k.envs a).asid])
      (show 1 < NASID by decide)
    refine ⟨i, hi, fun hset => hne ?_⟩
    obtain ⟨y, hy, rfl⟩ := (htable.asidSet i hi).mp hset
    rw [honly y hy]
    exact List.mem_singleton.mpr rfl
  obtain ⟨k', hrun⟩ := envAlloc_succeeds hl hasid (k.envs a).id
  obtain ⟨_, _, -, -, -, hk'⟩ := envAlloc_given hrun
  refine ⟨k₀, k, a, e, k', hboot, hreach, h.cur, hnil, hrun, ?_, ?_⟩
  · rw [hk']
    simp only [Function.update_self]
    unfold givenEnv preparedEnv setupPages pageAlloc
    rw [hnil]
  · intro hown
    have htaken := hown.taken
    rw [hnil] at htaken
    exact absurd htaken List.not_mem_nil

-- ---------------------------------------------------------------------------
-- sys_ipc_try_send
-- ---------------------------------------------------------------------------

/-- The receiver is waiting, but its page cannot be sent: the sender has none at
`srcva`, or the receiver has no page table for it and none can be made. -/
def WakesInVain (k : Kernel) (cur envid srcva : Nat) : Prop :=
  srcva ≠ 0 ∧ isIllegalVa srcva = false ∧ ∃ e, envid2env k cur envid false = .ok e ∧
    (k.envs e).ipcRecving ≠ 0 ∧ (k.envSchedList.insertTail e).isSome ∧
    (pageLookup k.pm (k.envs cur).pgdir srcva = .ok none ∨
      (∃ x, pageLookup k.pm (k.envs cur).pgdir srcva = .ok (some x)) ∧
        NoTable k.pm (k.envs e).pgdir (k.envs e).ipcDstva)

/-- The state after steps 4 and 5 of a send. -/
theorem deliver_some (cur value perm : Nat) {q : TailQueue Nat}
    (hq : k.envSchedList.insertTail e = some q) :
    ∃ k₁, deliver k cur e value perm = .ok k₁ ∧ k₁.pm = k.pm ∧
      k₁.envs = Function.update k.envs e (deliveredEnv k cur e value perm) := by
  obtain ⟨k₁, hdel⟩ : ∃ k₁, deliver k cur e value perm = .ok k₁ := by
    unfold deliver tailqInsertTail
    simp only [Kernel.setEnv_envSchedList, hq]
    exact ⟨_, rfl⟩
  obtain ⟨q', log, rfl⟩ := deliver_eq hdel
  exact ⟨_, hdel, rfl, rfl⟩

/-- The pages of an env do not depend on its message. -/
theorem deliveredEnv_space {value perm : Nat} (x : Nat) :
    (Function.update k.envs e (deliveredEnv k cur e value perm) x).pgdir = (k.envs x).pgdir := by
  by_cases hx : x = e
  · rw [hx, Function.update_self]
    rfl
  · rw [Function.update_of_ne hx]

/-- A send that wakes its receiver and then fails. -/
theorem wakesInVain_run {envid srcva : Nat} (value perm : Nat) (h : WakesInVain k cur envid srcva) :
    ∃ r k' e, sysIpcTrySend k cur envid value srcva perm = .ok (some r, k') ∧ r ≠ 0 ∧
      (k.envs e).ipcRecving ≠ 0 ∧ (k'.envs e).ipcRecving = 0 ∧ (k'.envs e).status = .runnable := by
  obtain ⟨hne, hlegal, e, he, hrecv, hqueue, hpage⟩ := h
  obtain ⟨q, hq⟩ := Option.isSome_iff_exists.mp hqueue
  obtain ⟨k₁, hdel, hpm, henvs⟩ := deliver_some cur value perm hq
  have hcur : (k₁.envs cur).pgdir = (k.envs cur).pgdir := by
    rw [henvs]
    exact deliveredEnv_space cur
  have hwoken : (k₁.envs e).ipcRecving = 0 ∧ (k₁.envs e).status = .runnable := by
    rw [henvs, Function.update_self]
    exact ⟨rfl, rfl⟩
  have hva : ¬ (srcva ≠ 0 ∧ isIllegalVa srcva = true) := fun hc => by
    rw [hlegal] at hc
    exact absurd hc.2 (by simp)
  rcases hpage with hlook | ⟨⟨x, hlook⟩, hno⟩
  · refine ⟨-E_INVAL, k₁, e, ?_, by decide, hrecv, hwoken⟩
    unfold sysIpcTrySend
    rw [if_neg hva, he]
    simp only
    rewrite [if_neg hrecv, hdel, ok_bind, if_pos hne, hpm, hcur, hlook]
    rfl
  · have hno₁ : NoTable k.pm (k₁.envs e).pgdir (k₁.envs e).ipcDstva := by
      rw [henvs, Function.update_self]
      exact hno
    refine ⟨-E_NO_MEM, { k₁ with pm := k.pm }, e, ?_, by decide, hrecv, hwoken⟩
    unfold sysIpcTrySend
    rw [if_neg hva, he]
    simp only
    rewrite [if_neg hrecv, hdel, ok_bind, if_pos hne, hpm, hcur, hlook, ok_bind]
    simp only [pageInsert_noTable hno₁]
    rfl

/-- **Errors of `sys_ipc_try_send`** change nothing, unless they come after the
receiver was woken. -/
theorem ipcTrySend_undo (h : Accounted lo k role) (hcur : k.curenv = some cur)
    (hdst : ∀ e, (k.envs e).ipcDstva < UTOP) (envid value srcva perm : Nat) :
    (∀ r k', sysIpcTrySend k cur envid value srcva perm = .ok (some r, k') → r ≠ 0 → k' = k) ↔
      ¬ WakesInVain k cur envid srcva := by
  constructor
  · intro hundo hvain
    obtain ⟨r, k', e, hrun, hr, hrecv, hwoken, -⟩ := wakesInVain_run value perm hvain
    rw [hundo r k' hrun hr] at hwoken
    exact hrecv hwoken
  · intro hvain r k' hrun hr
    unfold sysIpcTrySend at hrun
    by_cases hva : srcva ≠ 0 ∧ isIllegalVa srcva = true
    · rw [if_pos hva] at hrun
      cases hrun
      rfl
    · rw [if_neg hva] at hrun
      cases he : envid2env k cur envid false with
      | error m =>
        simp only [he] at hrun
        cases hrun
        rfl
      | ok e =>
        simp only [he] at hrun
        by_cases hrecv : (k.envs e).ipcRecving = 0
        · rw [if_pos hrecv] at hrun
          cases hrun
          rfl
        · exfalso
          rw [if_neg hrecv] at hrun
          obtain ⟨k₁, hdel, hrun⟩ := bind_eq_ok.mp hrun
          have hqueue : (k.envSchedList.insertTail e).isSome := by
            unfold deliver tailqInsertTail at hdel
            simp only [Kernel.setEnv_envSchedList] at hdel
            cases hq : k.envSchedList.insertTail e with
            | none => simp [hq] at hdel
            | some q => rfl
          obtain ⟨q, log, rfl⟩ := deliver_eq hdel
          by_cases hsrc : srcva ≠ 0
          · rw [if_pos hsrc] at hrun
            have hlegal : isIllegalVa srcva = false := by
              by_contra hc
              exact hva ⟨hsrc, by simpa using hc⟩
            obtain ⟨x, hlook, hrun⟩ := bind_eq_ok.mp hrun
            rw [deliveredEnv_space] at hlook
            cases x with
            | none => exact hvain ⟨hsrc, hlegal, e, he, hrecv, hqueue, Or.inl hlook⟩
            | some y =>
              obtain ⟨pp, p⟩ := y
              obtain ⟨⟨r', pm'⟩, hins, hrun⟩ := bind_eq_ok.mp hrun
              cases hrun
              simp only [Function.update_self] at hins
              obtain ⟨hno, -⟩ := pageInsert_fails (h.walk (h.target hcur he)) (hdst e) hins hr
              exact hvain ⟨hsrc, hlegal, e, he, hrecv, hqueue, Or.inr ⟨⟨_, hlook⟩, hno⟩⟩
          · rw [if_neg hsrc] at hrun
            cases hrun
            exact hr rfl

/-- The first env waits for a message, and the second one runs. -/
structure Waiting (k₀ : Kernel) (role₀ : Nat → Role) (k : Kernel) (a e : Nat) : Prop where
  boot : smallBoot.boot = .ok k₀
  booted : Booted smallBoot k₀ role₀
  reach : KernReach (fun _ _ => True) k₀ k
  order : InOrder smallBoot k₀ role₀ k [e] [e, a] 99
  cur : k.curenv = some e
  ne : a ≠ e
  recving : (k.envs a).ipcRecving = 1
  dstva : (k.envs a).ipcDstva = 0
  named : envid2env k e (k.envs a).id false = .ok a
  space : EmptySpace k e

theorem smallBoot_waiting : ∃ k₀ role₀ k a e, Waiting k₀ role₀ k a e := by
  obtain ⟨k₀, role₀, k₁, a, e, h₁, -⟩ := smallBoot_pair
  have hturn : [e, a].erase e ++ [e] = a :: [e] := by
    rw [List.erase_cons_head]
    rfl
  obtain ⟨k₂, hyield, h₂, hcur₂, hres₂⟩ := h₁.order.yield h₁.cur List.mem_cons_self hturn zeroTrapframe
  have hstop : [a, e].erase a = e :: [] := List.erase_cons_head ..
  obtain ⟨k, hrecv, h, hcur, hres⟩ := h₂.recv hcur₂ List.mem_cons_self hstop zeroTrapframe
  have hother : ∀ {α : Type} (g : Env → α), (∀ env tf runs, g { env with tf := tf, runs := runs } = g env) →
      g (k.envs e) = g (k₁.envs e) := fun g hg => by
    rw [hres.field g hg]
    show g (Function.update k₂.envs a (waitingEnv k₂ a 0) e) = _
    rw [Function.update_of_ne (Ne.symm h₁.ne), hres₂.field g hg]
  have hwait : ∀ {α : Type} (g : Env → α), (∀ env tf runs, g { env with tf := tf, runs := runs } = g env) →
      g (k.envs a) = g (waitingEnv k₂ a 0) := fun g hg => by
    rw [hres.field g hg]
    show g (Function.update k₂.envs a (waitingEnv k₂ a 0) a) = _
    rw [Function.update_self]
  have hlive : k.Live a := (h.live a).mpr (List.mem_cons_of_mem e List.mem_cons_self)
  have hid : (k.envs a).id ≠ 0 := by
    rw [hwait Env.id fun _ _ _ => rfl]
    show (k₂.envs a).id ≠ 0
    rw [hres₂.field Env.id fun _ _ _ => rfl]
    exact h₁.first
  have hpm : k.pm = k₁.pm := hres.pm.trans hres₂.pm
  refine ⟨k₀, role₀, k, a, e, h₁.boot, h₁.booted,
    (h₁.reach.step trivial hyield).step trivial hrecv, h, hcur, h₁.ne,
    hwait Env.ipcRecving fun _ _ _ => rfl, hwait Env.ipcDstva fun _ _ _ => rfl,
    envid2env_ok rfl hid (h.table.slot a hlive) hlive (fun hc => by cases hc), ?_, ?_⟩
  · rw [hother Env.pgdirCopyPa fun _ _ _ => rfl]
    exact h₁.space.copy
  · intro i hi
    rw [hother Env.pgdir fun _ _ _ => rfl, hpm]
    exact h₁.space.slots i hi

/-- A page that is not there. -/
theorem Waiting.inVain {k₀ : Kernel} {role₀ : Nat → Role} {a : Nat} (h : Waiting k₀ role₀ k a e) :
    WakesInVain k e (k.envs a).id UTEXT := by
  have hslot : k.pm.mem (k.envs e).pgdir (PDX UTEXT) = 0 := h.space.slots _ (by decide)
  have hnot : a ∉ [e] := fun hm => h.ne (List.mem_singleton.mp hm)
  obtain ⟨q, hq, -⟩ := h.order.queue.insertTail hnot
  refine ⟨by decide, by decide, a, h.named, by rw [h.recving]; decide, by rw [hq]; rfl, Or.inl ?_⟩
  unfold pageLookup
  rw [pgdirWalk_absent (by rw [hslot]; exact testFlag_zero_left PTE_V)]
  rfl

/-- **Woken in vain.** A send of a page the sender does not have fails, and the
receiver waits no more. -/
theorem ipcTrySend_wakes :
    ∃ k₀ k a e k' r, smallBoot.boot = .ok k₀ ∧ KernReach (fun _ _ => True) k₀ k ∧ k.curenv = some e ∧
      sysIpcTrySend k e (k.envs a).id 7 UTEXT 0 = .ok (some r, k') ∧ r ≠ 0 ∧ k' ≠ k := by
  obtain ⟨k₀, role₀, k, a, e, h⟩ := smallBoot_waiting
  obtain ⟨r, k', x, hrun, hr, hwait, hwoken, -⟩ := wakesInVain_run 7 0 h.inVain
  refine ⟨k₀, k, a, e, k', r, h.boot, h.reach, h.cur, hrun, hr, ?_⟩
  rintro rfl
  exact hwait hwoken

/-- The send of `ipcTrySend_undo` at the waiting env: it fails cleanly or not at all when
no page goes with it. -/
theorem ipcTrySend_undo_waiting :
    ∃ k a e, k.curenv = some e ∧ (k.envs a).ipcRecving = 1 ∧
      ∀ r k', sysIpcTrySend k e (k.envs a).id 7 0 0 = .ok (some r, k') → r ≠ 0 → k' = k := by
  obtain ⟨k₀, role₀, k, a, e, h⟩ := smallBoot_waiting
  obtain ⟨role, hinv, hbd⟩ := h.order.ok
  exact ⟨k, a, e, h.cur, h.recving, (ipcTrySend_undo (hinv.accounted hbd) h.cur hinv.dst _ 7 0 0).mpr
    fun hvain => hvain.1 rfl⟩

end Mos.Kern
