import Mos.Lib.Except
import Mos.Kern.Syscall

/-!
# MOS on RISC-V — what page work leaves alone

The functions of `pmap.c`, the loader and the fault handlers change pages, the
saved trap frame and the frames of directory copies, and nothing else of the
kernel (`PageWork`); and none of them stores through a null pointer (`Keeps`).
The run queue and the table of envs rest on this.
-/

namespace Mos.Kern

open Mos.Lib

/-- What a step that may stop must give: no store through a null pointer, and
`Q` on success. -/
structure Keeps {α : Type} (Q : α → Prop) (x : Result α) : Prop where
  quiet : Raises (fun p => p ≠ .nullStore) x
  post : ∀ a, x = .ok a → Q a

namespace Keeps

variable {α β : Type} {Q : α → Prop}

theorem ok {a : α} (h : Q a) : Keeps Q (.ok a) := by
  refine ⟨Raises.ok a, ?_⟩
  intro a' he
  obtain rfl := Except.ok.inj he
  exact h

theorem error {p : Panic} (h : p ≠ .nullStore) : Keeps Q (.error p) := by
  refine ⟨Raises.error h, ?_⟩
  intro a he
  cases he

theorem bind {R : β → Prop} {x : Result α} {f : α → Result β} (hx : Keeps Q x)
    (hf : ∀ a, Q a → Keeps R (f a)) : Keeps R (x >>= f) := by
  refine ⟨hx.quiet.bind fun a ha => (hf a (hx.post a ha)).quiet, ?_⟩
  intro b hb
  obtain ⟨a, ha, hfa⟩ := bind_eq_ok.mp hb
  exact (hf a (hx.post a ha)).post b hfa

theorem imp {R : α → Prop} {x : Result α} (h : Keeps Q x) (hR : ∀ a, Q a → R a) : Keeps R x :=
  ⟨h.quiet, fun a ha => hR a (h.post a ha)⟩

theorem of_quiet {x : Result α} (h : Raises (fun p => p ≠ .nullStore) x) :
    Keeps (fun _ => True) x := ⟨h, fun _ _ => trivial⟩

end Keeps

-- ---------------------------------------------------------------------------
-- Page, disk and loader functions do not touch the queue
-- ---------------------------------------------------------------------------

section

variable {pm : Pmap} {pgdir asid pp va perm : Nat}

theorem kaddr_quiet (pa : Nat) : Raises (fun p => p ≠ .nullStore) (kaddr pa) :=
  Raises.ite (fun _ => Raises.error (by simp)) (fun _ => Raises.ok _)

theorem pa2page_quiet (pa : Nat) : Raises (fun p => p ≠ .nullStore) (pa2page pa) :=
  Raises.ite (fun _ => Raises.error (by simp)) (fun _ => Raises.ok _)

theorem pageFree_quiet (pm : Pmap) (pp : Nat) : Raises (fun p => p ≠ .nullStore) (pageFree pm pp) :=
  Raises.ite (fun _ => Raises.ok _) (fun _ => Raises.error (by simp))

theorem pageDecref_quiet (pm : Pmap) (pp : Nat) :
    Raises (fun p => p ≠ .nullStore) (pageDecref pm pp) :=
  Raises.ite (fun _ => Raises.ite (fun _ => pageFree_quiet _ _) (fun _ => Raises.ok _))
    (fun _ => Raises.error (by simp))

theorem pgdirWalk_quiet (pm : Pmap) (pgdir va : Nat) (create : Bool) :
    Raises (fun p => p ≠ .nullStore) (pgdirWalk pm pgdir va create) := by
  unfold pgdirWalk
  refine Raises.ite (fun _ => (kaddr_quiet _).bind fun _ _ => Raises.ok _) (fun _ => ?_)
  refine Raises.ite (fun _ => ?_) (fun _ => Raises.ok _)
  cases pageAlloc pm with
  | none => exact Raises.ok _
  | some x => exact (kaddr_quiet _).bind fun _ _ => Raises.ok _

theorem pageLookup_quiet (pm : Pmap) (pgdir va : Nat) :
    Raises (fun p => p ≠ .nullStore) (pageLookup pm pgdir va) := by
  unfold pageLookup
  refine (pgdirWalk_quiet _ _ _ _).bind fun x _ => ?_
  obtain ⟨r, pte, pm'⟩ := x
  cases pte with
  | none => exact Raises.ok _
  | some p =>
    refine Raises.ite (fun _ => ?_) (fun _ => Raises.ok _)
    exact (pa2page_quiet _).bind fun _ _ => Raises.ok _

theorem pageRemove_quiet (pm : Pmap) (pgdir asid va : Nat) :
    Raises (fun p => p ≠ .nullStore) (pageRemove pm pgdir asid va) := by
  unfold pageRemove
  refine (pageLookup_quiet _ _ _).bind fun x _ => ?_
  cases x with
  | none => exact Raises.ok _
  | some y => exact (pageDecref_quiet _ _).bind fun _ _ => Raises.ok _

theorem pageInsertNew_quiet (pm : Pmap) (pgdir asid pp va perm : Nat) :
    Raises (fun p => p ≠ .nullStore) (pageInsertNew pm pgdir asid pp va perm) := by
  unfold pageInsertNew
  refine (pgdirWalk_quiet _ _ _ _).bind fun x _ => ?_
  obtain ⟨r, pte, pm'⟩ := x
  cases pte with
  | none => exact Raises.ok _
  | some p => exact Raises.ok _

theorem pageInsert_quiet (pm : Pmap) (pgdir asid pp va perm : Nat) :
    Raises (fun p => p ≠ .nullStore) (pageInsert pm pgdir asid pp va perm) := by
  unfold pageInsert
  refine (pgdirWalk_quiet _ _ _ _).bind fun x _ => ?_
  obtain ⟨r, pte, pm'⟩ := x
  cases pte with
  | none => exact pageInsertNew_quiet _ _ _ _ _ _
  | some p =>
    refine Raises.ite (fun _ => ?_) (fun _ => pageInsertNew_quiet _ _ _ _ _ _)
    refine (pa2page_quiet _).bind fun old _ => ?_
    exact Raises.ite (fun _ => (pageRemove_quiet _ _ _ _).bind fun _ _ => pageInsertNew_quiet _ _ _ _ _ _)
      (fun _ => Raises.ok _)

theorem envFreePages_quiet (pm : Pmap) (pgdir asid copy : Nat) :
    Raises (fun p => p ≠ .nullStore) (envFreePages pm pgdir asid copy) := by
  have hpte : ∀ pdeno t pm pteno,
      Raises (fun p => p ≠ .nullStore) (envFreePte pgdir asid pdeno t pm pteno) :=
    fun _ _ _ _ => Raises.ite (fun _ => pageRemove_quiet _ _ _ _) (fun _ => Raises.ok _)
  have hpde : ∀ pm pdeno, Raises (fun p => p ≠ .nullStore) (envFreePde pgdir asid pm pdeno) := by
    intro pm pdeno
    refine Raises.ite (fun _ => ?_) (fun _ => Raises.ok _)
    refine (kaddr_quiet _).bind fun t _ => ?_
    refine (Raises.foldlM (hpte pdeno t) _ _).bind fun pm' _ => ?_
    refine (pa2page_quiet _).bind fun pp _ => ?_
    exact (pageDecref_quiet _ _).bind fun _ _ => Raises.ok _
  have hcopy : ∀ pm, Raises (fun p => p ≠ .nullStore) (envFreeCopy pm copy) := by
    intro pm
    refine Raises.ite (fun _ => ?_) (fun _ => Raises.ok _)
    refine (pa2page_quiet _).bind fun pp _ => ?_
    exact Raises.ite (fun _ => Raises.error (by simp)) (fun _ => pageDecref_quiet _ _)
  refine (Raises.foldlM hpde _ _).bind fun pm₁ _ => ?_
  refine (hcopy pm₁).bind fun pm₂ _ => ?_
  exact (pageDecref_quiet _ _).bind fun _ _ => Raises.ok _

theorem elfLoadSeg_quiet (pgdir asid perm : Nat) (calls : List (Nat × Nat × Option (List Nat)))
    (pm : Pmap) : Raises (fun p => p ≠ .nullStore) (elfLoadSeg pgdir asid perm calls pm) := by
  induction calls generalizing pm with
  | nil => exact Raises.ok _
  | cons c calls ih =>
    obtain ⟨va, offset, src⟩ := c
    have hmap : Raises (fun p => p ≠ .nullStore)
        (loadIcodeMapper pgdir asid va offset perm src pm) := by
      unfold loadIcodeMapper
      cases pageAlloc pm with
      | none => exact Raises.ok _
      | some x => exact pageInsert_quiet _ _ _ _ _ _
    refine hmap.bind fun x _ => ?_
    exact Raises.ite (fun _ => Raises.ok _) (fun _ => ih _)

theorem loadPhdr_quiet (pgdir asid : Nat) (pm : Pmap) (ph : Phdr) :
    Raises (fun p => p ≠ .nullStore) (loadPhdr pgdir asid pm ph) := by
  refine Raises.ite (fun _ => ?_) (fun _ => Raises.ok _)
  refine (elfLoadSeg_quiet _ _ _ _ _).bind fun x _ => ?_
  exact Raises.ite (fun _ => Raises.error (by simp)) (fun _ => Raises.ok _)

theorem freeDesc_quiet (d : Vring) (i : Nat) : Raises (fun p => p ≠ .nullStore) (freeDesc d i) :=
  Raises.ite (fun _ => Raises.ok _) (fun _ => Raises.error (by simp))

theorem allocDesc_quiet (d : Vring) : Raises (fun p => p ≠ .nullStore) (allocDesc d) := by
  refine Raises.ite (fun _ => Raises.ok _) (fun _ => ?_)
  cases (List.range VIRTIO_QUEUE_NUM).find? fun i => d.descFreeBitmap &&& (1#32 <<< i) ≠ 0#32 with
  | none => exact Raises.error (by simp)
  | some i => exact Raises.ok _

theorem virtioDiskReq_quiet (d : Vring) (req : Nat) :
    Raises (fun p => p ≠ .nullStore) (virtioDiskReq d req) := by
  have hdescs : ∀ n idx d, Raises (fun p => p ≠ .nullStore) (allocDescs n idx d) := by
    intro n
    induction n with
    | zero =>
      intro idx d
      exact Raises.ok _
    | succ n ih =>
      intro idx d
      refine (allocDesc_quiet d).bind fun x _ => Raises.ite (fun _ => ?_) (fun _ => ih _ _)
      exact (Raises.foldlM freeDesc_quiet _ _).bind fun _ _ => Raises.ok _
  refine Raises.ite (fun _ => Raises.ok _) (fun _ => ?_)
  refine (hdescs 3 [] d).bind fun x _ => ?_
  split
  · refine Raises.ite (fun _ => Raises.ok _) (fun _ => ?_)
    exact Raises.ite (fun _ => Raises.error (by simp)) (fun _ => Raises.ok _)
  · exact Raises.error (by simp)
  · exact Raises.ok _

theorem virtioDiskIntr_quiet (d : Vring) : Raises (fun p => p ≠ .nullStore) (virtioDiskIntr d) := by
  have hchain : ∀ n d i, Raises (fun p => p ≠ .nullStore) (freeChainLoop n d i) := by
    intro n
    induction n with
    | zero =>
      intro d i
      exact Raises.error (by simp)
    | succ n ih =>
      intro d i
      exact (freeDesc_quiet d i).bind fun d' _ => Raises.ite (fun _ => ih d' _) (fun _ => Raises.ok _)
  have hrounds : ∀ n d, Raises (fun p => p ≠ .nullStore) (intrRounds n d) := by
    intro n
    induction n with
    | zero =>
      intro d
      exact Raises.ok d
    | succ n ih =>
      intro d
      exact ((hchain _ d _).bind fun _ _ => Raises.ok _).bind fun d' _ => ih d'
  exact hrounds _ _

theorem va2pa_quiet (pm : Pmap) (pgdir va : Nat) :
    Raises (fun p => p ≠ .nullStore) (va2pa pm pgdir va) := by
  refine Raises.ite (fun _ => ?_) (fun _ => Raises.ok _)
  refine (kaddr_quiet _).bind fun t _ => ?_
  exact Raises.ite (fun _ => Raises.ok _) (fun _ => Raises.ok _)

end

-- ---------------------------------------------------------------------------
-- Page faults
-- ---------------------------------------------------------------------------

/-- An env but for the copy of its directory. -/
def Env.withoutCopy (env : Env) : Env := { env with pgdirCopyPa := 0 }

/-- The kernel but for its pages, the trap frame and the directory copies. -/
def Kernel.withoutPages (k : Kernel) : Kernel :=
  { k with pm := ⟨fun _ => 0, [], fun _ _ => 0, []⟩, tf := zeroTrapframe,
           envs := fun e => (k.envs e).withoutCopy }

/-- Only pages, the trap frame and directory copies differ. -/
def PageWork (k k' : Kernel) : Prop := k'.withoutPages = k.withoutPages

namespace PageWork

theorem trans {k k₁ k₂ : Kernel} (h : PageWork k k₁) (h' : PageWork k₁ k₂) : PageWork k k₂ :=
  Eq.trans h' h

theorem pages (k : Kernel) (pm : Pmap) : PageWork k { k with pm := pm } := rfl

/-- The copy of the directory of `c`. -/
theorem copy (k : Kernel) (pm : Pmap) (c pa : Nat) :
    PageWork k ({ k with pm := pm }.setEnv c fun env => { env with pgdirCopyPa := pa }) := by
  have henvs : ∀ e, (Function.update k.envs c { k.envs c with pgdirCopyPa := pa } e).withoutCopy =
      (k.envs e).withoutCopy := by
    intro e
    by_cases he : e = c
    · rw [he, Function.update_self]
      rfl
    · rw [Function.update_of_ne he]
  unfold PageWork Kernel.withoutPages
  exact congrArg (fun g => { k with pm := ⟨fun _ => 0, [], fun _ _ => 0, []⟩, tf := zeroTrapframe,
                                    envs := g }) (funext henvs)

theorem env {k k' : Kernel} (h : PageWork k k') (e : Nat) :
    (k'.envs e).withoutCopy = (k.envs e).withoutCopy :=
  congrFun (congrArg Kernel.envs h : k'.withoutPages.envs = k.withoutPages.envs) e

/-- A field that is not a page, the trap frame or a copy. -/
theorem field {k k' : Kernel} (h : PageWork k k') {α : Type} (g : Kernel → α)
    (hg : ∀ k : Kernel, g k.withoutPages = g k) : g k' = g k := by
  rw [← hg k', ← hg k]
  exact congrArg g h

theorem envField {k k' : Kernel} (h : PageWork k k') {α : Type} (g : Env → α)
    (hg : ∀ env : Env, g env.withoutCopy = g env) (e : Nat) : g (k'.envs e) = g (k.envs e) := by
  rw [← hg (k'.envs e), ← hg (k.envs e)]
  exact congrArg g (h.env e)

end PageWork

/-- Page work that leaves the trap frame alone, too. -/
def SlotWork (k k' : Kernel) : Prop := PageWork k k' ∧ k'.tf = k.tf

theorem SlotWork.trans {k k₁ k₂ : Kernel} (h : SlotWork k k₁) (h' : SlotWork k₁ k₂) : SlotWork k k₂ :=
  ⟨h.1.trans h'.1, h'.2.trans h.2⟩

theorem SlotWork.pages (k : Kernel) (pm : Pmap) : SlotWork k { k with pm := pm } :=
  ⟨PageWork.pages k pm, rfl⟩

theorem passiveAlloc_slot (k : Kernel) (c va : Nat) : Keeps (SlotWork k) (passiveAlloc k c va) := by
  unfold passiveAlloc
  split_ifs
  · exact Keeps.error (by simp)
  · exact Keeps.error (by simp)
  · exact Keeps.error (by simp)
  · exact Keeps.error (by simp)
  · exact Keeps.error (by simp)
  · cases pageAlloc k.pm with
    | none => exact Keeps.error (by simp)
    | some x =>
      refine (Keeps.of_quiet (pageInsert_quiet _ _ _ _ _ _)).bind fun y _ => ?_
      obtain ⟨r, pm⟩ := y
      simp only
      split_ifs
      · exact Keeps.error (by simp)
      · exact Keeps.ok (SlotWork.pages k pm)

theorem loadFault_slot (k : Kernel) (c addr : Nat) : Keeps (SlotWork k) (loadFault k c addr) := by
  have hframe : Keeps (fun x => SlotWork k x.2) (copyFrame k c) := by
    unfold copyFrame
    split_ifs
    · cases pageAlloc k.pm with
      | none => exact Keeps.error (by simp)
      | some x => exact Keeps.ok ⟨PageWork.copy _ _ _ _, rfl⟩
    · refine (Keeps.of_quiet (pa2page_quiet _)).bind fun p _ => ?_
      exact Keeps.ok ⟨rfl, rfl⟩
  unfold loadFault
  split_ifs
  · exact passiveAlloc_slot k c addr
  · exact Keeps.error (by simp)
  · have hwin : Keeps (SlotWork k) (mapWindow k c) :=
      hframe.bind fun x hx => Keeps.ok (hx.trans (SlotWork.pages _ _))
    refine hwin.bind fun k₁ h₁ => ?_
    split_ifs
    · exact Keeps.ok h₁
    · exact Keeps.error (by simp)

theorem withPage_slot {k : Kernel} {va : Nat} {fault : Result Kernel}
    (h : Keeps (SlotWork k) fault) : Keeps (SlotWork k) (withPage k va fault) := by
  unfold withPage
  cases k.pm.pteAt k.curPgdir (PDX va) (PTX va) with
  | none => exact h
  | some w => exact Keeps.ok ⟨rfl, rfl⟩

theorem kernelLoad_slot (k : Kernel) (c va : Nat) :
    Keeps (fun x => SlotWork k x.2) (kernelLoad k c va) := by
  refine (withPage_slot (loadFault_slot k c _)).bind fun k₁ h₁ => ?_
  cases k₁.pm.pteAt k₁.curPgdir (PDX va) (PTX va) with
  | none => exact Keeps.error (by simp)
  | some w =>
    simp only
    split_ifs
    · exact Keeps.ok h₁
    · exact Keeps.error (by simp)

theorem kernelLoads_slot (k : Kernel) (c va n : Nat) :
    Keeps (fun x => SlotWork k x.2) (kernelLoads k c va n) := by
  induction n generalizing k va with
  | zero => exact Keeps.ok ⟨rfl, rfl⟩
  | succ n ih =>
    refine (kernelLoad_slot k c va).bind fun x hx => ?_
    refine (ih x.2 (va + 1)).bind fun y hy => ?_
    exact Keeps.ok (hx.trans hy)

theorem passiveAlloc_keeps (k : Kernel) (c va : Nat) : Keeps (PageWork k) (passiveAlloc k c va) :=
  (passiveAlloc_slot k c va).imp fun _ h => h.1

theorem loadFault_keeps (k : Kernel) (c addr : Nat) : Keeps (PageWork k) (loadFault k c addr) :=
  (loadFault_slot k c addr).imp fun _ h => h.1

theorem kernelLoads_keeps (k : Kernel) (c va n : Nat) :
    Keeps (fun x => PageWork k x.2) (kernelLoads k c va n) :=
  (kernelLoads_slot k c va n).imp fun _ h => h.1

theorem kernelStores_keeps (k : Kernel) (c va : Nat) (bs : List Nat) :
    Keeps (PageWork k) (kernelStores k c va bs) := by
  induction bs generalizing k va with
  | nil => exact Keeps.ok rfl
  | cons b bs ih =>
    have hstore : Keeps (PageWork k) (kernelStore k c va b) := by
      refine ((withPage_slot (passiveAlloc_slot k c _)).imp fun _ h => h.1).bind fun k₁ h₁ => ?_
      cases k₁.pm.pteAt k₁.curPgdir (PDX va) (PTX va) with
      | none => exact Keeps.error (by simp)
      | some w =>
        simp only
        split_ifs
        · exact Keeps.ok (h₁.trans (PageWork.pages _ _))
        · exact Keeps.error (by simp)
    refine hstore.bind fun k₁ h₁ => ?_
    exact ⟨(ih k₁ (va + 1)).quiet, fun k₂ h₂ => h₁.trans ((ih k₁ (va + 1)).post k₂ h₂)⟩

theorem doTlbMiss_keeps (k : Kernel) (c : Nat) : Keeps (PageWork k) (doTlbMiss k c) := by
  unfold doTlbMiss
  refine (Keeps.of_quiet (pageLookup_quiet _ _ _)).bind fun x _ => ?_
  cases x with
  | some y =>
    simp only
    split_ifs
    · unfold doTlbMod
      refine (kernelStores_keeps k c _ _).bind fun k₁ h₁ => ?_
      split_ifs
      · exact Keeps.ok (h₁.trans rfl)
      · exact Keeps.error (by simp)
    · exact Keeps.error (by simp)
  | none =>
    simp only
    split_ifs
    · exact passiveAlloc_keeps k c _
    · exact loadFault_keeps k c _
    · exact Keeps.error (by simp)

theorem userStore_pageWork (k : Kernel) (va b : Nat) : PageWork k (userStore k va b) := by
  unfold userStore
  cases k.pm.pteAt k.curPgdir (PDX va) (PTX va) with
  | none => rfl
  | some w =>
    simp only
    split_ifs
    · exact PageWork.pages _ _
    · rfl

end Mos.Kern
