import Mos.Kern.Waiting
import Mos.Kern.Errors
import Mos.Kern.DevReq
import Mos.Kern.UserMode

/-!
# MOS on RISC-V — where the kernel stops

The kernel stops at an assertion, an address it refuses or a null pointer. `StopsWith` lists,
for each kind of step, the stops a running system can come to: a user access that has no
page to go to, a disk that misbehaves, nobody left to run, a bad image.

* `StopsWith` — the stops of a step.
* `KernelOk.stops` — one step of a state that keeps the invariants.
* `stops_only` — every step of every run from boot.

The assertions on reference counts, on page tables, on the status of the env to run and on
the links of the run queue are in no line of the list.
-/

namespace Mos.Kern

open Mos.Lib

variable {b : BootState} {k₀ k : Kernel} {role₀ role : Nat → Role}

-- ---------------------------------------------------------------------------
-- The stops
-- ---------------------------------------------------------------------------

/-- The stops of an access to user memory. -/
def AccessStop (p : Panic) : Prop :=
  p = .badAddr ∨ p = .badPerm ∨ p = .passiveAlloc ∨ p = .pgdirCopy ∨ p = .notValidPte

/-- The stops of `schedule` when the envs in `gone` are not to run again. -/
def ScheduleStop (k : Kernel) (gone : Nat → Prop) (p : Panic) : Prop :=
  virtioDiskIntr k.disk = .error p ∨
    p = .noRunnable ∧ ∀ x, (k.envs x).status = .runnable → gone x

/-- The stops of a system call of `cur`. -/
def Syscall.StopsWith (k : Kernel) (cur : Nat) (p : Panic) : Syscall → Prop
  | .panic => p = .sysPanic
  | .printCons .. | .setTrapframe .. => AccessStop p
  | .yield => ScheduleStop k (fun _ => False) p
  | .ipcRecv _ => ScheduleStop k (· = cur) p
  | .envDestroy envid => envid2env k cur envid true = .ok cur ∧ ScheduleStop k (· = cur) p
  | .devReq dev req => ∃ pa, handed k dev req = some pa ∧ virtioDiskReq k.disk pa = .error p
  | _ => False

/-- The fault is at an address the kernel keeps for itself, and its entry names no frame. -/
def DeviceFault (k : Kernel) (stval : Nat) : Prop :=
  UTOP ≤ stval ∧ ∃ w, k.pm.pteAt k.curPgdir (PDX stval) (PTX stval) = some w ∧ npage ≤ pteFrame w

/-- The stops of a step. -/
def KernOp.StopsWith (k : Kernel) (p : Panic) : KernOp → Prop
  | .create _ _ => p = .envCreate ∨ p = .loadIcode
  | .device _ => False
  | .tick _ => ScheduleStop k (fun _ => False) p
  | .store _ _ => k.curenv = none ∧ p = .nullCurenv
  | .fault tf => match k.curenv with
    | none => p = .nullCurenv
    | some _ => AccessStop p ∨ p = .noModHandler ∨ p = .pa2page ∧ DeviceFault k tf.stval
  | .syscall _ s => match k.curenv with
    | none => p = .nullCurenv
    | some cur => s.StopsWith k cur p

-- ---------------------------------------------------------------------------
-- Page operations that go through
-- ---------------------------------------------------------------------------

namespace KernelInv

theorem lookup_total (h : KernelInv b k₀ role₀ k role) {e va : Nat} (he : k.Live e)
    (hva : va < UTOP) : ∃ x, pageLookup k.pm (k.envs e).pgdir va = .ok x := by
  have hown : kernOwn (PDX va) = true := kernOwn_iff.mpr (PDX_lt_UTOP hva)
  cases hv : view kernOwn role k.pm (slotOf (k.envs e).pgdir va) with
  | none => exact ⟨none, pageLookup_none h.frames (h.dir e he) hown hv⟩
  | some w =>
    obtain ⟨t, -, -, hlook⟩ := pageLookup_some h.frames hv
    exact ⟨_, hlook⟩

theorem insert_total (h : KernelInv b k₀ role₀ k role) (hbd : Bounded kernOwn role k.pm)
    (asid : Nat) {e pp va perm : Nat} (he : k.Live e) (hva : va < UTOP)
    (hpp : role pp = .fresh ∨ role pp = .data)
    (hframe : pteFrame (mkPte pp (readable perm)) = pp) :
    ∃ x, pageInsert k.pm (k.envs e).pgdir asid pp va perm = .ok x := by
  rcases pageInsert_spec h.frames asid (h.dir e he) (kernOwn_iff.mpr (PDX_lt_UTOP hva))
    kernOwn_UVPT hpp hframe hbd with ⟨-, hno⟩ | ⟨-, s', role', hyes, -⟩
  · exact ⟨_, hno⟩
  · exact ⟨_, hyes⟩

theorem remove_total (h : KernelInv b k₀ role₀ k role) (hbd : Bounded kernOwn role k.pm)
    (asid : Nat) {e va : Nat} (he : k.Live e) (hva : va < UTOP) :
    ∃ pm, pageRemove k.pm (k.envs e).pgdir asid va = .ok pm := by
  have hown : kernOwn (PDX va) = true := kernOwn_iff.mpr (PDX_lt_UTOP hva)
  cases hv : view kernOwn role k.pm (slotOf (k.envs e).pgdir va) with
  | none => exact ⟨_, pageRemove_none h.frames asid (h.dir e he) hown hv⟩
  | some w =>
    obtain ⟨s', t, -, hrem, -⟩ := pageRemove_some h.frames asid hv rfl (hbd _)
    exact ⟨s', hrem⟩

/-- A page just allocated, below `UTOP`. -/
theorem allocInsert_total (h : KernelInv b k₀ role₀ k role) (hb : Booted b k₀ role₀)
    (hbd : Bounded kernOwn role k.pm) (asid : Nat) {e pp va perm : Nat} {pm : Pmap} (he : k.Live e)
    (hva : va < UTOP) (ha : pageAlloc k.pm = some (pp, pm))
    (hframe : pteFrame (mkPte pp (readable perm)) = pp) :
    ∃ x, pageInsert pm (k.envs e).pgdir asid pp va perm = .ok x := by
  obtain ⟨-, h₁, hv₁⟩ := h.alloc hb ha
  have hbd₁ : Bounded kernOwn (Function.update role pp .fresh) pm := bounded_view hbd hv₁
  exact h₁.insert_total hbd₁ asid (e := e) he hva (Or.inl (Function.update_self ..)) hframe

/-- A page just allocated, in the window of the running env. -/
theorem windowInsert_total (h : KernelInv b k₀ role₀ k role) (hb : Booted b k₀ role₀)
    {c p va asid perm : Nat} {pm : Pmap} (hcur : k.curenv = some c) (hva : PDX va = PDX UVPT)
    (hnone : k.pm.pteAt k.curPgdir (PDX va) (PTX va) = none) (ha : pageAlloc k.pm = some (p, pm)) :
    ∃ x, pageInsert pm k.curPgdir asid p va perm = .ok x := by
  obtain ⟨hfree, h₁, -⟩ := h.alloc hb ha
  obtain ⟨hc, hd⟩ := h.cur c hcur
  have hdir : role k.curPgdir = .dir := by
    rw [hd]
    exact h.dir c hc
  have hmem : ∀ f, f ≠ p → ∀ i, pm.mem f i = k.pm.mem f i := by
    obtain ⟨rest, -, rfl⟩ := pageAlloc_eq ha
    intro f hf i
    rw [Pmap.clear_mem, if_neg hf]
  have hdp : k.curPgdir ≠ p := by
    rintro heq
    simp [heq, hfree] at hdir
  rcases h.window c hc with hz | ⟨f, hf, -, hw, -⟩
  · -- the window is closed
    rw [← hd, ← hva] at hz
    have habs : testFlag (pm.mem k.curPgdir (PDX va)) PTE_V = false := by
      rw [hmem _ hdp, hz, testFlag_zero_left]
    unfold pageInsert pageInsertNew
    rw [pgdirWalk_absent habs, ok_bind]
    cases hl : pm.pageFreeList with
    | nil => exact ⟨_, by simp only [pgdirWalk_noMem habs hl]; rfl⟩
    | cons t rest =>
      have hlt : t < npage :=
        h₁.frames.lt_npage (by rw [(h₁.frames.freeIff t).mp (by simp [hl])]; simp)
      exact ⟨_, by simp only [pgdirWalk_create habs hl hlt]; rfl⟩
  · -- the window is open
    rw [← hd, ← hva] at hw
    have hlt : f < npage := h.frames.lt_npage (by simp [hf])
    have hfp : f ≠ p := by
      rintro rfl
      simp [hfree] at hf
    have hpde : pm.mem k.curPgdir (PDX va) = mkPde f := (hmem _ hdp _).trans hw
    have hV : ¬ testFlag (pm.mem f (PTX va)) PTE_V = true := by
      unfold Pmap.pteAt at hnone
      rw [hw, if_pos (testFlag_V_mkPde f), pteFrame_mkPde hlt] at hnone
      split_ifs at hnone with hV
      rw [hmem f hfp]
      exact hV
    unfold pageInsert pageInsertNew
    rw [pgdirWalk_mkPde hpde hlt, ok_bind]
    simp only [if_neg hV, pgdirWalk_mkPde hpde hlt]
    exact ⟨_, rfl⟩

/-- What a directory leads to are page tables in managed frames. -/
theorem pde_managed (h : KernelInv b k₀ role₀ k role) (hb : Booted b k₀ role₀) {e i : Nat}
    (he : k.Live e) (hi : i < 1024) (hV : testFlag (k.pm.mem (k.envs e).pgdir i) PTE_V = true) :
    pteFrame (k.pm.mem (k.envs e).pgdir i) < npage := by
  rcases Nat.lt_or_ge i (PDX UTOP) with hlow | hhigh
  · obtain ⟨t, ht⟩ := h.frames.pdeTable _ i (h.dir e he) (kernOwn_iff.mpr hlow) hV
    have hlt := h.frames.tableLt t _ i ht
    rw [(h.frames.tablePde t _ i ht).2.2, pteFrame_mkPde hlt]
    exact hlt
  by_cases hiu : i = PDX UVPT
  · subst hiu
    rcases h.window e he with hz | ⟨f, hf, -, hw, -⟩
    · rw [hz, testFlag_zero_left] at hV
      cases hV
    · have hlt : f < npage := h.frames.lt_npage (by simp [hf])
      rw [hw, pteFrame_mkPde hlt]
      exact hlt
  rw [h.half e he i hhigh hi hiu] at hV ⊢
  unfold templateWord at hV ⊢
  split_ifs at hV ⊢ with hbase
  · obtain ⟨t, -, ht, hw, -⟩ := hb.tables i hbase.2 hV
    have hlt : t < npage := hb.inv.lt_npage (by simp [ht])
    rw [hw, pteFrame_mkPde hlt]
    exact hlt
  · rw [hb.kernelPgdir_eq] at hV ⊢
    exact Nat.lt_of_lt_of_le (b.kernelPte i hV).1 b.usedLe

/-- `page_lookup` in the directory of an env stops only at an entry that names no frame. -/
theorem lookup_stops (h : KernelInv b k₀ role₀ k role) (hb : Booted b k₀ role₀) {e va : Nat}
    (he : k.Live e) :
    Raises (fun p => p = .pa2page ∧ ∃ w,
      k.pm.pteAt (k.envs e).pgdir (PDX va) (PTX va) = some w ∧ npage ≤ pteFrame w)
      (pageLookup k.pm (k.envs e).pgdir va) := by
  by_cases hV : testFlag (k.pm.mem (k.envs e).pgdir (PDX va)) PTE_V = true
  · have hlt := h.pde_managed hb he (PDX_lt va) hV
    have hwalk : pgdirWalk k.pm (k.envs e).pgdir va false =
        .ok (0, some (pteFrame (k.pm.mem (k.envs e).pgdir (PDX va)), PTX va), k.pm) := by
      unfold pgdirWalk
      rw [if_pos hV, kaddr_ok hlt]
      rfl
    unfold pageLookup
    rw [hwalk, ok_bind]
    refine Raises.ite (fun hpte => Raises.bind ?_ fun _ _ => Raises.ok _) (fun _ => Raises.ok _)
    refine Raises.ite (fun hout => Raises.error ⟨rfl, _, ?_, hout⟩) (fun _ => Raises.ok _)
    unfold Pmap.pteAt
    rw [if_pos hV, if_pos hpte]
  · have habs : testFlag (k.pm.mem (k.envs e).pgdir (PDX va)) PTE_V = false := by simpa using hV
    unfold pageLookup
    rw [pgdirWalk_absent habs]
    exact Raises.ok _

end KernelInv

-- ---------------------------------------------------------------------------
-- Faults
-- ---------------------------------------------------------------------------

theorem raises_of_total {α : Type} {P : Panic → Prop} {x : Result α} (h : ∃ a, x = .ok a) :
    Raises P x := by
  obtain ⟨a, rfl⟩ := h
  exact Raises.ok a

theorem passiveAlloc_stops (h : KernelOk b k₀ role₀ k) (hb : Booted b k₀ role₀) {c va : Nat}
    (hcur : k.curenv = some c) (hnone : k.pm.pteAt k.curPgdir (PDX va) (PTX va) = none) :
    Raises AccessStop (passiveAlloc k c va) := by
  obtain ⟨role, h, hbd⟩ := h
  obtain ⟨hc, hd⟩ := h.cur c hcur
  have hbad : AccessStop .badAddr := Or.inl rfl
  unfold passiveAlloc
  refine Raises.ite (fun _ => Raises.error hbad) fun h1 => ?_
  refine Raises.ite (fun _ => Raises.error hbad) fun h2 => ?_
  refine Raises.ite (fun _ => Raises.error hbad) fun h3 => ?_
  refine Raises.ite (fun _ => Raises.error hbad) fun h4 => ?_
  refine Raises.ite (fun _ => Raises.error hbad) fun h5 => ?_
  cases ha : pageAlloc k.pm with
  | none => exact Raises.error (Or.inr (Or.inr (Or.inl rfl)))
  | some x =>
    obtain ⟨p, pm⟩ := x
    have hfull : AccessStop .passiveAlloc := Or.inr (Or.inr (Or.inl rfl))
    refine Raises.bind (raises_of_total ?_) fun y _ =>
      Raises.ite (fun _ => Raises.error hfull) fun _ => Raises.ok _
    have hva : va < UTOP ∨ UVPT ≤ va ∧ va < ULIM := by
      have hU : UENVS = UTOP := rfl
      omega
    rcases hva with hlow | ⟨hlo, hhi⟩
    · rw [hd]
      refine h.allocInsert_total hb hbd _ hc (Nat.lt_of_le_of_lt (ROUNDDOWN_le va) hlow) ha ?_
      exact h.frame_of_perm (by simp [(h.alloc hb ha).1]) (by decide)
    · refine h.windowInsert_total hb hcur ?_ ?_ ha
      · rw [PDX_ROUNDDOWN]
        exact PDX_of_window hlo hhi
      · rw [PDX_ROUNDDOWN, PTX_ROUNDDOWN]
        exact hnone

theorem copyFrame_stops (h : KernelOk b k₀ role₀ k) {c : Nat} (hc : k.Live c) :
    Raises AccessStop (copyFrame k c) := by
  obtain ⟨role, h, -⟩ := h
  unfold copyFrame
  refine Raises.ite (fun _ => ?_) fun hne => ?_
  · cases pageAlloc k.pm with
    | none => exact Raises.error (Or.inr (Or.inr (Or.inr (Or.inl rfl))))
    | some x => exact Raises.ok _
  · obtain ⟨f, hf, hr, -⟩ := h.copy c hc hne
    have hlt : f < npage := h.frames.lt_npage (by simp [hr])
    have hpa : pa2page (k.envs c).pgdirCopyPa = .ok f := by
      rw [show (k.envs c).pgdirCopyPa = page2pa f from hf,
        pa2page_ok (by rw [pa2idx_page2pa hlt]; exact hlt), pa2idx_page2pa hlt]
    rw [hpa]
    exact Raises.ok _

theorem loadFault_stops (h : KernelOk b k₀ role₀ k) (hb : Booted b k₀ role₀) {c addr : Nat}
    (hcur : k.curenv = some c) (hnone : k.pm.pteAt k.curPgdir (PDX addr) (PTX addr) = none) :
    Raises AccessStop (loadFault k c addr) := by
  have hc : k.Live c := by
    obtain ⟨role, h, -⟩ := h
    exact (h.cur c hcur).1
  have hpte : AccessStop .notValidPte := Or.inr (Or.inr (Or.inr (Or.inr rfl)))
  unfold loadFault
  refine Raises.ite (fun _ => passiveAlloc_stops h hb hcur hnone) fun _ => ?_
  refine Raises.ite (fun _ => Raises.error (Or.inl rfl)) fun _ => ?_
  refine Raises.bind ?_ fun _ _ => Raises.ite (fun _ => Raises.ok _) fun _ => Raises.error hpte
  exact Raises.bind (copyFrame_stops h hc) fun _ _ => Raises.ok _

/-- An access, with the fault it may take. -/
theorem withPage_stops {va : Nat} {fault : Result Kernel}
    (hfault : k.pm.pteAt k.curPgdir (PDX va) (PTX va) = none → Raises AccessStop fault) :
    Raises AccessStop (withPage k va fault) := by
  unfold withPage
  cases hw : k.pm.pteAt k.curPgdir (PDX va) (PTX va) with
  | some w => exact Raises.ok _
  | none => exact hfault hw

theorem kernelLoad_stops (h : KernelOk b k₀ role₀ k) (hb : Booted b k₀ role₀) {c va : Nat}
    (hcur : k.curenv = some c) : Raises AccessStop (kernelLoad k c va) := by
  unfold kernelLoad
  refine Raises.bind (withPage_stops fun hnone => ?_) fun k₁ _ => ?_
  · refine loadFault_stops h hb hcur ?_
    rw [PDX_ROUNDDOWN, PTX_ROUNDDOWN]
    exact hnone
  · cases k₁.pm.pteAt k₁.curPgdir (PDX va) (PTX va) with
    | none => exact Raises.error (Or.inl rfl)
    | some w => exact Raises.ite (fun _ => Raises.ok _) fun _ => Raises.error (Or.inr (Or.inl rfl))

theorem kernelLoads_stops (h : KernelOk b k₀ role₀ k) (hb : Booted b k₀ role₀) {c va n : Nat}
    (hcur : k.curenv = some c) : Raises AccessStop (kernelLoads k c va n) := by
  induction n generalizing k va with
  | zero => exact Raises.ok _
  | succ n ih =>
    refine Raises.bind (kernelLoad_stops h hb hcur) fun x hload => ?_
    have h₁ := kernelLoad_inv h hb hcur hload
    exact Raises.bind (ih h₁.ok (h₁.same.curenv.trans hcur)) fun _ _ => Raises.ok _

theorem kernelStore_stops (h : KernelOk b k₀ role₀ k) (hb : Booted b k₀ role₀) {c va x : Nat}
    (hcur : k.curenv = some c) : Raises AccessStop (kernelStore k c va x) := by
  unfold kernelStore
  refine Raises.bind (withPage_stops fun hnone => ?_) fun k₁ _ => ?_
  · refine passiveAlloc_stops h hb hcur ?_
    rw [PDX_ROUNDDOWN, PTX_ROUNDDOWN]
    exact hnone
  · cases k₁.pm.pteAt k₁.curPgdir (PDX va) (PTX va) with
    | none => exact Raises.error (Or.inl rfl)
    | some w => exact Raises.ite (fun _ => Raises.ok _) fun _ => Raises.error (Or.inr (Or.inl rfl))

theorem kernelStores_stops (h : KernelOk b k₀ role₀ k) (hb : Booted b k₀ role₀) {c va : Nat}
    {bs : List Nat} (hcur : k.curenv = some c) (hva : va + bs.length ≤ UTOP) :
    Raises AccessStop (kernelStores k c va bs) := by
  induction bs generalizing k va with
  | nil => exact Raises.ok _
  | cons x bs ih =>
    rw [List.length_cons] at hva
    refine Raises.bind (kernelStore_stops h hb hcur) fun k₁ hstore => ?_
    have h₁ := kernelStore_inv h hb hcur (by omega) hstore
    exact ih h₁.ok (h₁.same.curenv.trans hcur) (by omega)

theorem doTlbMiss_stops (h : KernelOk b k₀ role₀ k) (hb : Booted b k₀ role₀) {c : Nat}
    (hcur : k.curenv = some c) :
    Raises (fun p => AccessStop p ∨ p = .noModHandler ∨ p = .pa2page ∧ DeviceFault k k.tf.stval)
      (doTlbMiss k c) := by
  obtain ⟨role, hinv, -⟩ := id h
  obtain ⟨hc, hd⟩ := hinv.cur c hcur
  unfold doTlbMiss
  refine Raises.bind ?_ fun x hlook => ?_
  · -- below `UTOP` the lookup goes through
    intro p hp
    rw [hd] at hp
    obtain ⟨rfl, w, hw, hout⟩ := hinv.lookup_stops hb hc p hp
    rw [PDX_ROUNDDOWN, PTX_ROUNDDOWN, ← hd] at hw
    refine Or.inr (Or.inr ⟨rfl, Nat.le_of_not_lt fun hlow => ?_, w, hw, hout⟩)
    obtain ⟨y, hy⟩ := hinv.lookup_total hc
      (Nat.lt_of_le_of_lt (ROUNDDOWN_le k.tf.stval) hlow)
    rw [hy] at hp
    cases hp
  have hperm : AccessStop .badPerm := Or.inr (Or.inl rfl)
  cases x with
  | some y =>
    refine Raises.ite (fun _ => ?_) fun _ => Raises.error (Or.inl hperm)
    have hlen : modFrameVa k.tf + k.tf.bytes.length ≤ UTOP := by
      rw [Trapframe.bytes_length]
      exact modFrameVa_le k.tf
    unfold doTlbMod
    refine Raises.bind (fun p hp => Or.inl (kernelStores_stops h hb hcur hlen p hp)) fun _ _ => ?_
    exact Raises.ite (fun _ => Raises.ok _) fun _ => Raises.error (Or.inr (Or.inl rfl))
  | none =>
    have hnone := pteAt_of_lookup_none hlook
    refine Raises.ite (fun _ p hp => Or.inl (passiveAlloc_stops h hb hcur hnone p hp)) fun _ => ?_
    refine Raises.ite (fun _ p hp => Or.inl (loadFault_stops h hb hcur hnone p hp)) fun _ => ?_
    exact Raises.error (Or.inl (Or.inl rfl))

-- ---------------------------------------------------------------------------
-- The scheduler
-- ---------------------------------------------------------------------------

/-- Without a runnable env `schedule` stops at the end of the queue. -/
theorem schedule_none (hq : QueueInv k) (hno : ∀ x, (k.envs x).status ≠ .runnable) {disk : Vring}
    (hdisk : virtioDiskIntr k.disk = .ok disk) (yield : Bool) :
    schedule k yield = .error .noRunnable := by
  obtain ⟨l, hl, hmem⟩ := hq.queued.rep
  have hnil : l = [] := List.eq_nil_iff_forall_not_mem.mpr fun x hx => hno x ((hmem x).mp hx)
  subst hnil
  unfold Mos.Kern.schedule
  rw [hdisk, ok_bind]
  have hkeep : keepRunning { k with disk := disk } yield = none := by
    cases h : keepRunning { k with disk := disk } yield with
    | none => rfl
    | some c => exact absurd (keepRunning_some h).2.2 (hno c)
  have hreq : requeue { k with disk := disk } = .ok { k with disk := disk } := by
    unfold requeue
    cases hc : k.curenv with
    | none => rfl
    | some c => exact if_neg (hno c)
  simp only [hkeep, hreq, ok_bind]
  rw [hl.first_eq]
  rfl

theorem schedule_stops (hq : QueueInv k) (yield : Bool) :
    Raises (ScheduleStop k fun _ => False) (schedule k yield) := by
  intro p hp
  cases hdisk : virtioDiskIntr k.disk with
  | error p' =>
    unfold Mos.Kern.schedule at hp
    rw [hdisk] at hp
    obtain rfl := Except.error.inj hp
    exact Or.inl hdisk
  | ok disk =>
    have hno : ∀ x, (k.envs x).status ≠ .runnable := by
      intro x hx
      obtain ⟨l, hl, hmem⟩ := hq.queued.rep
      obtain ⟨k', hk'⟩ := schedule_total hq hl ((hmem x).mpr hx) hdisk yield
      rw [hk'] at hp
      cases hp
    rw [schedule_none hq hno hdisk yield] at hp
    obtain rfl := Except.error.inj hp
    exact Or.inr ⟨rfl, fun x hx => hno x hx⟩

/-- The env `c` has just stopped being runnable. -/
theorem ScheduleStop.gone (k₁ : Kernel) {c : Nat} {p : Panic} (hdisk : k₁.disk = k.disk)
    (hother : ∀ x, x ≠ c → (k₁.envs x).status = (k.envs x).status)
    (h : ScheduleStop k₁ (fun _ => False) p) : ScheduleStop k (· = c) p := by
  rcases h with h | ⟨rfl, hno⟩
  · rw [hdisk] at h
    exact Or.inl h
  · refine Or.inr ⟨rfl, fun x hx => ?_⟩
    by_contra hxc
    exact hno x ((hother x hxc).trans hx)

-- ---------------------------------------------------------------------------
-- System calls
-- ---------------------------------------------------------------------------

section

variable {cur : Nat}

theorem sysMemAlloc_total (h : KernelOk b k₀ role₀ k) (hb : Booted b k₀ role₀)
    (hcur : k.curenv = some cur) {envid va perm : Nat}
    (hsafe : ∀ pp pm, pageAlloc k.pm = some (pp, pm) → KeepsFrame pp (perm ||| PTE_U)) :
    ∃ x, sysMemAlloc k cur envid va perm = .ok x := by
  obtain ⟨role, h, hbd⟩ := h
  unfold sysMemAlloc
  split_ifs with hva
  · exact ⟨_, rfl⟩
  have hlow := (isIllegalVa_eq_false hva).2
  cases he : envid2env k cur envid true with
  | error r => exact ⟨_, rfl⟩
  | ok e =>
    cases ha : pageAlloc k.pm with
    | none => exact ⟨_, rfl⟩
    | some y =>
      obtain ⟨pp, pm⟩ := y
      obtain ⟨x, hx⟩ := h.allocInsert_total hb hbd (k.envs e).asid (h.envid2env_live hcur he)
        hlow ha (hsafe pp pm ha)
      exact ⟨_, bind_eq_ok.mpr ⟨x, hx, rfl⟩⟩

theorem sysMemMap_total (h : KernelOk b k₀ role₀ k) (hcur : k.curenv = some cur)
    {srcid srcva dstid dstva perm : Nat}
    (hsafe : ∀ src pp p, srcva < UTOP → envid2env k cur srcid true = .ok src →
      pageLookup k.pm (k.envs src).pgdir srcva = .ok (some (pp, p)) → KeepsFrame pp (perm ||| PTE_U)) :
    ∃ x, sysMemMap k cur srcid srcva dstid dstva perm = .ok x := by
  obtain ⟨role, h, hbd⟩ := h
  unfold sysMemMap
  split_ifs with hsva hdva
  · exact ⟨_, rfl⟩
  · exact ⟨_, rfl⟩
  have hslow := (isIllegalVa_eq_false hsva).2
  have hdlow := (isIllegalVa_eq_false hdva).2
  cases hs : envid2env k cur srcid true with
  | error r => exact ⟨_, rfl⟩
  | ok src =>
    cases hd : envid2env k cur dstid true with
    | error r => exact ⟨_, rfl⟩
    | ok dst =>
      have hlive := h.envid2env_live hcur hs
      obtain ⟨y, hlook⟩ := h.lookup_total hlive hslow
      simp only [hlook, ok_bind]
      cases y with
      | none => exact ⟨_, rfl⟩
      | some z =>
        obtain ⟨pp, p⟩ := z
        obtain ⟨x, hx⟩ := h.insert_total hbd (k.envs dst).asid (h.envid2env_live hcur hd)
          hdlow (Or.inr (h.lookup hlive hslow hlook)) (hsafe src pp p hslow hs hlook)
        exact ⟨_, bind_eq_ok.mpr ⟨x, hx, rfl⟩⟩

theorem sysMemUnmap_total (h : KernelOk b k₀ role₀ k) (hcur : k.curenv = some cur)
    {envid va : Nat} : ∃ x, sysMemUnmap k cur envid va = .ok x := by
  obtain ⟨role, h, hbd⟩ := h
  unfold sysMemUnmap
  split_ifs with hva
  · exact ⟨_, rfl⟩
  have hlow := (isIllegalVa_eq_false hva).2
  cases he : envid2env k cur envid true with
  | error r => exact ⟨_, rfl⟩
  | ok e =>
    obtain ⟨pm, hpm⟩ := h.remove_total hbd (k.envs e).asid (h.envid2env_live hcur he) hlow
    exact ⟨_, bind_eq_ok.mpr ⟨pm, hpm, rfl⟩⟩

theorem sysSetEnvStatus_total (hq : QueueInv k) (hcur : k.curenv = some cur) {envid status : Nat} :
    ∃ x, sysSetEnvStatus k cur envid status = .ok x := by
  unfold sysSetEnvStatus
  cases hst : statusOfNat status with
  | none => exact ⟨_, rfl⟩
  | some st =>
    cases he : envid2env k cur envid true with
    | error r => exact ⟨_, rfl⟩
    | ok e =>
      have hlive := hq.envid2env_live hcur he
      have hset : ∀ f : Env → Env, ∀ x, ∃ y, (Except.ok x >>= fun k' : Kernel =>
          (.ok (some 0, k'.setEnv e f) : SysResult)) = .ok y := fun f x => ⟨_, rfl⟩
      simp only
      split_ifs with hne hrun
      · subst hrun
        obtain ⟨q, hins, -⟩ := hq.link hlive hne (f := fun env => { env with status := .runnable }) rfl
        rw [hins]
        exact hset _ _
      · have hrunnable : (k.envs e).status = .runnable := by
          unfold statusOfNat at hst
          split_ifs at hst with h1 h2
          · exact absurd (Option.some.inj hst).symm hrun
          · obtain rfl := Option.some.inj hst
            cases hs : (k.envs e).status with
            | free => exact absurd hs hlive
            | runnable => rfl
            | notRunnable => exact absurd hs hne
        obtain ⟨q, hrem, -⟩ :=
          hq.unlink hrunnable (f := fun env => { env with status := .notRunnable }) rfl
        rw [hrem]
        exact hset _ _
      · exact hset _ _

theorem sysIpcTrySend_total (h : KernelOk b k₀ role₀ k) (hq : QueueInv k)
    (hcur : k.curenv = some cur) {envid value srcva perm : Nat}
    (hfree : ∀ e, (srcva = 0 ∨ isIllegalVa srcva = false) → envid2env k cur envid false = .ok e →
      (k.envs e).ipcRecving ≠ 0 → (k.envs e).status ≠ .runnable)
    (hsafe : ∀ pp p, srcva < UTOP → pageLookup k.pm (k.envs cur).pgdir srcva = .ok (some (pp, p)) →
      KeepsFrame pp (PTE_U ||| PTE_V ||| readable perm)) :
    ∃ x, sysIpcTrySend k cur envid value srcva perm = .ok x := by
  unfold sysIpcTrySend
  by_cases hbad : srcva ≠ 0 ∧ isIllegalVa srcva
  · exact ⟨_, if_pos hbad⟩
  rw [if_neg hbad]
  have hlegal : srcva = 0 ∨ isIllegalVa srcva = false := by
    by_cases h0 : srcva = 0
    · exact Or.inl h0
    · exact Or.inr (by simpa [h0] using hbad)
  cases he : envid2env k cur envid false with
  | error r => exact ⟨_, rfl⟩
  | ok e =>
    by_cases hrecv : (k.envs e).ipcRecving = 0
    · exact ⟨_, if_pos hrecv⟩
    simp only [if_neg hrecv]
    have hlive := hq.envid2env_live hcur he
    obtain ⟨q, hins, -⟩ := hq.link hlive (hfree e hlegal he hrecv)
      (f := fun env => { env with
        ipcValue := value
        ipcFrom := (k.envs cur).id
        ipcPerm := PTE_U ||| PTE_V ||| readable perm
        ipcRecving := 0
        status := .runnable }) rfl
    obtain ⟨k₁, hdel⟩ : ∃ k₁, deliver k cur e value perm = .ok k₁ :=
      ⟨_, QueueInv.tailqInsertTail_setEnv _ hins⟩
    rw [hdel, ok_bind]
    by_cases hsrc : srcva = 0
    · exact ⟨_, if_neg (not_not.mpr hsrc)⟩
    rw [if_pos hsrc]
    have hlow : srcva < UTOP :=
      (isIllegalVa_eq_false (by rw [hlegal.resolve_left hsrc]; exact Bool.false_ne_true)).2
    obtain ⟨henv, hpg, hpm, hcur₁⟩ := deliver_env hdel
    obtain ⟨role₁, h₁, hbd₁⟩ := deliver_inv h hlive hdel
    have hcurl := (h₁.cur cur (hcur₁.trans hcur)).1
    obtain ⟨y, hlook⟩ := h₁.lookup_total hcurl hlow
    rw [hlook, ok_bind]
    cases y with
    | none => exact ⟨_, rfl⟩
    | some z =>
      obtain ⟨pp, p⟩ := z
      have hlive₁ : k₁.Live e := by
        unfold Kernel.Live
        rw [henv]
        exact fun hc => by cases hc
      have hkeep : KeepsFrame pp (k₁.envs e).ipcPerm := by
        rw [hpm, hpg] at hlook
        rw [henv]
        exact hsafe pp p hlow hlook
      obtain ⟨x, hx⟩ := h₁.insert_total hbd₁ (k₁.envs e).asid hlive₁ (h₁.dst e)
        (Or.inr (h₁.lookup hcurl hlow hlook)) hkeep
      exact ⟨_, bind_eq_ok.mpr ⟨x, hx, rfl⟩⟩

theorem sysIpcRecv_stops (hq : QueueInv k) {dstva : Nat}
    (hrun : (dstva = 0 ∨ isIllegalVa dstva = false) → (k.envs cur).status = .runnable) :
    Raises (ScheduleStop k (· = cur)) (sysIpcRecv k cur dstva) := by
  unfold sysIpcRecv
  refine Raises.ite (fun _ => Raises.ok _) fun hbad => ?_
  have hlegal : dstva = 0 ∨ isIllegalVa dstva = false := by
    by_cases h0 : dstva = 0
    · exact Or.inl h0
    · exact Or.inr (by simpa [h0] using hbad)
  obtain ⟨q, hrem, hq₁⟩ := hq.unlink (hrun hlegal) (f := fun env =>
    { env with ipcRecving := 1, ipcDstva := dstva, status := .notRunnable }) rfl
  simp only [QueueInv.tailqRemove_setEnv _ hrem, ok_bind]
  generalize hk₁ : (k.withQueue .remove cur q).setEnv cur _ = k₁ at hq₁ ⊢
  refine Raises.bind (fun p hp => ?_) fun _ _ => Raises.ok _
  have hq₂ : QueueInv { k₁ with
      tf := { k₁.tf with regs := Function.update k₁.tf.regs 10 0 } } :=
    hq₁.congr (fun _ => rfl) rfl rfl rfl rfl
  refine ScheduleStop.gone k₁ (by rw [← hk₁]; rfl) ?_ (schedule_stops hq₂ true p hp)
  intro x hx
  rw [← hk₁, Kernel.setEnv_of_ne _ _ _ hx]
  rfl

/-- `env_free` of a runnable env. -/
theorem envFree_total (h : KernelOk b k₀ role₀ k) (hq : QueueInv k) {e : Nat}
    (he : (k.envs e).status = .runnable) : ∃ k₁, envFree k e = .ok k₁ := by
  have hlive : k.Live e := by
    unfold Kernel.Live
    simp [he]
  obtain ⟨pm, -, hfree⟩ := envFree_retires h hlive k.tf
  obtain ⟨l, hl, hmem⟩ := hq.queued.rep
  obtain ⟨q, hrem, -⟩ := tailqRemove_rep (k := retired k e pm) hl ((hmem e).mpr he)
  exact ⟨_, hfree.trans hrem⟩

theorem sysEnvDestroy_stopsWith (h : KernelOk b k₀ role₀ k) (hq : QueueInv k)
    (hcur : k.curenv = some cur) {envid : Nat}
    (hrun : ∀ e, envid2env k cur envid true = .ok e → (k.envs e).status = .runnable) :
    Raises (fun p => envid2env k cur envid true = .ok cur ∧ ScheduleStop k (· = cur) p)
      (sysEnvDestroy k cur envid) := by
  unfold sysEnvDestroy
  cases he : envid2env k cur envid true with
  | error r => exact Raises.ok _
  | ok e =>
    obtain ⟨k₁, hfree⟩ := envFree_total h hq (hrun e he)
    have hq₁ := ((hq.envFree_keeps (hrun e he)).post _ hfree).1
    obtain ⟨s, q, log, -, hk₁⟩ := envFree_eq hfree
    refine Raises.bind ?_ fun _ _ => Raises.ok _
    unfold envDestroy
    rw [hfree, ok_bind]
    refine Raises.ite (fun hself => ?_) fun _ => Raises.ok _
    have hec : e = cur := by
      rw [hk₁] at hself
      exact Option.some.inj (hself.symm.trans hcur)
    subst hec
    refine Raises.bind (fun p hp => ⟨rfl, ?_⟩) fun _ _ => Raises.ok _
    refine ScheduleStop.gone k₁ (by rw [hk₁]) ?_ (schedule_stops hq₁ true p hp)
    intro x hx
    rw [hk₁]
    exact congrArg Env.status (Function.update_of_ne hx ..)

theorem sysDevReq_stops (h : KernelOk b k₀ role₀ k) (hcur : k.curenv = some cur) {dev req : Nat} :
    Raises (fun p => ∃ pa, handed k dev req = some pa ∧ virtioDiskReq k.disk pa = .error p)
      (sysDevReq k dev req) := by
  obtain ⟨role, h, -⟩ := h
  obtain ⟨hc, hd⟩ := h.cur cur hcur
  intro p hp
  by_cases hbad : req % 2 ^ 12 ≠ 0 ∨ isIllegalVa req = true
  · rw [(sysDevReq_bad k dev hbad).1] at hp
    cases hp
  have hlow := (isIllegalVa_eq_false (not_or.mp hbad).2).2
  have htable : k.ReqTable req := by
    intro hpde
    rw [hd] at hpde ⊢
    obtain ⟨t, ht⟩ := h.frames.pdeTable _ _ (h.dir cur hc) (kernOwn_iff.mpr (PDX_lt_UTOP hlow)) hpde
    have hlt := h.frames.tableLt t _ _ ht
    rw [(h.frames.tablePde t _ _ ht).2.2, pteFrame_mkPde hlt]
    exact hlt
  rcases va2pa_cases k req with ⟨hlost, -⟩ | ⟨-, hpa⟩
  · exact absurd htable hlost
  by_cases hdev : dev = 8
  · subst hdev
    have hhanded := handed_disk hbad hpa
    rw [sysDevReq_handed hhanded] at hp
    refine ⟨_, hhanded, ?_⟩
    cases hreq : virtioDiskReq k.disk ((k.reqPte req).elim (2 ^ 32 - 1) PTE_ADDR) with
    | error p' =>
      rw [hreq] at hp
      obtain rfl := Except.error.inj hp
      rfl
    | ok x =>
      rw [hreq] at hp
      cases hp
  · rw [(sysDevReq_other hbad hdev hpa).1] at hp
    cases hp

/-- The stops of a system call. -/
theorem exec_stopsWith (h : KernelOk b k₀ role₀ k) (hb : Booted b k₀ role₀) (hq : QueueInv k)
    (hcur : k.curenv = some cur) (tf : Trapframe) {s : Syscall} (hqs : QueueSafe k (.syscall tf s))
    (hsafe : MapSafe k (.syscall tf s)) : Raises (fun p => s.StopsWith k cur p) (s.exec k cur) := by
  cases s with
  | putchar left | getenvid | cgetc ch => exact Raises.ok _
  | printCons s num =>
    refine Raises.ite (fun _ => Raises.ok _) fun _ => ?_
    exact Raises.bind (kernelLoads_stops h hb hcur) fun _ _ => Raises.ok _
  | yield => exact Raises.bind (schedule_stops hq true) fun _ _ => Raises.ok _
  | envDestroy envid => exact sysEnvDestroy_stopsWith h hq hcur fun e => hqs cur e hcur
  | setTlbModEntry envid func =>
    show Raises _ (sysSetTlbModEntry k cur envid func)
    unfold sysSetTlbModEntry
    split
    · exact Raises.ok _
    · exact Raises.ok _
  | memAlloc envid va perm => exact raises_of_total (sysMemAlloc_total h hb hcur hsafe)
  | memMap srcid srcva dstid dstva perm =>
    exact raises_of_total (sysMemMap_total h hcur fun src pp p => hsafe cur src pp p hcur)
  | memUnmap envid va => exact raises_of_total (sysMemUnmap_total h hcur)
  | exofork =>
    show Raises _ (sysExofork k cur)
    unfold sysExofork
    split
    · exact Raises.ok _
    · exact Raises.ok _
  | setEnvStatus envid status => exact raises_of_total (sysSetEnvStatus_total hq hcur)
  | setTrapframe envid va =>
    refine Raises.ite (fun _ => Raises.ok _) fun _ => ?_
    cases envid2env k cur envid true with
    | error r => exact Raises.ok _
    | ok e =>
      refine Raises.bind (kernelLoads_stops h hb hcur) fun _ _ => ?_
      exact Raises.ite (fun _ => Raises.ok _) fun _ => Raises.ok _
  | panic => exact Raises.error rfl
  | ipcTrySend envid value srcva perm =>
    exact raises_of_total (sysIpcTrySend_total h hq hcur (fun e => hqs cur e hcur)
      fun pp p => hsafe cur pp p hcur)
  | ipcRecv dstva => exact sysIpcRecv_stops hq (hqs cur hcur)
  | devReq dev req => exact sysDevReq_stops h hcur

end

-- ---------------------------------------------------------------------------
-- The loader
-- ---------------------------------------------------------------------------

theorem loadIcodeMapper_total (h : KernelOk b k₀ role₀ k) (hb : Booted b k₀ role₀)
    (asid off : Nat) (src : Option (List Nat)) {e va perm : Nat} (he : k.Live e) (hva : va < UTOP)
    (hperm : perm < 2 ^ 10) :
    ∃ x, loadIcodeMapper (k.envs e).pgdir asid va off perm src k.pm = .ok x := by
  obtain ⟨role, h, hbd⟩ := h
  unfold loadIcodeMapper
  cases ha : pageAlloc k.pm with
  | none => exact ⟨_, rfl⟩
  | some x =>
    obtain ⟨p, pm⟩ := x
    obtain ⟨-, h₁, hv₁⟩ := h.alloc hb ha
    have hused : Function.update role p .fresh p ≠ .reserved := by simp
    have hframe := h₁.frame_of_perm hused hperm
    have hfresh : Function.update role p .fresh p = .fresh := Function.update_self ..
    cases src with
    | none =>
      exact h₁.insert_total (KernelInv.bounded_view hbd hv₁) asid (e := e) he hva (Or.inl hfresh) hframe
    | some bytes =>
      obtain ⟨h₂, hv₂⟩ := h₁.storeBytes hb (f := p) (Or.inr hfresh) off bytes
      exact h₂.insert_total (KernelInv.bounded_view hbd (hv₂.trans hv₁)) asid (e := e) he hva
        (Or.inl hfresh) hframe

theorem elfLoadSeg_total (h : KernelOk b k₀ role₀ k) (hb : Booted b k₀ role₀) {e asid perm : Nat}
    {calls : List (Nat × Nat × Option (List Nat))} (he : k.Live e) (hva : ∀ c ∈ calls, c.1 < UTOP)
    (hperm : perm < 2 ^ 10) :
    ∃ x, elfLoadSeg (k.envs e).pgdir asid perm calls k.pm = .ok x := by
  induction calls generalizing k with
  | nil => exact ⟨_, rfl⟩
  | cons c calls ih =>
    obtain ⟨va, off, src⟩ := c
    have hlow : va < UTOP := hva (va, off, src) List.mem_cons_self
    obtain ⟨⟨r, pm⟩, hmap⟩ :=
      loadIcodeMapper_total h hb asid off src he hlow hperm
    unfold elfLoadSeg
    rw [hmap, ok_bind]
    by_cases hr : r = 0
    · have h₁ := loadIcodeMapper_inv h hb he hlow hperm hmap
      obtain ⟨x, hx⟩ := ih (k := { k with pm := pm }) h₁.ok he
        fun c hc => hva c (List.mem_cons_of_mem _ hc)
      exact ⟨x, (if_neg (not_not.mpr hr)).trans hx⟩
    · exact ⟨_, if_pos hr⟩

theorem loadPhdrs_stops (h : KernelOk b k₀ role₀ k) (hb : Booted b k₀ role₀) {e asid : Nat}
    {phdrs : List Phdr} (he : k.Live e)
    (hva : ∀ ph ∈ phdrs, ph.type = PT_LOAD → ∀ c ∈ elfSegCalls ph, c.1 < UTOP) :
    Raises (fun p => p = .loadIcode) (phdrs.foldlM (loadPhdr (k.envs e).pgdir asid) k.pm) := by
  induction phdrs generalizing k with
  | nil => exact Raises.ok _
  | cons ph phdrs ih =>
    rw [List.foldlM_cons]
    refine Raises.bind ?_ fun pm hph => ?_
    · refine Raises.ite (fun ht => ?_) fun _ => Raises.ok _
      have hcalls := hva ph List.mem_cons_self ht
      refine Raises.bind (raises_of_total (elfLoadSeg_total h hb he hcalls (elfSegPerm_lt ph))) ?_
      exact fun x _ => Raises.ite (fun _ => Raises.error rfl) fun _ => Raises.ok _
    · have hone : [ph].foldlM (loadPhdr (k.envs e).pgdir asid) k.pm = .ok pm := by
        rw [List.foldlM_cons, hph]
        rfl
      have h₁ := loadPhdrs_inv h hb he (fun ph' hm => by
        obtain rfl := List.mem_singleton.mp hm
        exact hva ph' List.mem_cons_self) hone
      exact ih (k := { k with pm := pm }) h₁.ok he
        fun ph' hm => hva ph' (List.mem_cons_of_mem _ hm)

theorem envCreate_stops (h : KernelOk b k₀ role₀ k) (hb : Booted b k₀ role₀) {binary : Option Elf}
    {priority : Nat} (helf : UserElf binary) (hroom : EnvRoom k) :
    Raises (fun p => p = .envCreate ∨ p = .loadIcode) (envCreate k binary priority) := by
  unfold envCreate
  rcases ha : envAlloc k 0 with ⟨r, k₁⟩
  cases r with
  | error m => exact Raises.error (Or.inl rfl)
  | ok e =>
    obtain ⟨h₁, -⟩ := (envAlloc_inv h hb hroom ha).2 e rfl
      (fun env => { env with pri := priority, status := .runnable }) (by simp) rfl rfl rfl
    refine Raises.bind ?_ fun _ _ => Raises.ok _
    have hlive : (k₁.setEnv e fun env => { env with pri := priority, status := .runnable }).Live e := by
      unfold Kernel.Live
      simp
    generalize k₁.setEnv e _ = k₂ at h₁ hlive
    cases binary with
    | none => exact Raises.error (Or.inr rfl)
    | some elf =>
      refine Raises.bind (fun p hp => Or.inr ?_) fun _ _ => Raises.ok _
      exact loadPhdrs_stops h₁ hb hlive (helf elf rfl) p hp

-- ---------------------------------------------------------------------------
-- Steps and runs
-- ---------------------------------------------------------------------------

theorem ScheduleStop.setTf {tf : Trapframe} {gone : Nat → Prop} {p : Panic}
    (h : ScheduleStop { k with tf := tf } gone p) : ScheduleStop k gone p := h

/-- The registers a trap stores do not matter for the stops of a call. -/
theorem Syscall.StopsWith.setTf {s : Syscall} {cur : Nat} {p : Panic} {tf : Trapframe}
    (h : s.StopsWith { k with tf := tf } cur p) : s.StopsWith k cur p := by
  cases s <;> exact h

theorem QueueSafe.setTf {op : KernOp} (hqs : QueueSafe k op) (tf : Trapframe) :
    QueueSafe { k with tf := tf } op := by
  cases op with
  | syscall tf' s => cases s <;> exact hqs
  | create _ _ | device _ | tick _ | fault _ | store _ _ => exact hqs

/-- **Step lemma.** -/
theorem KernelOk.stops (h : KernelOk b k₀ role₀ k) (hb : Booted b k₀ role₀) (hq : QueueInv k)
    {op : KernOp} (hqs : QueueSafe k op) (hsafe : MapSafe k op) {p : Panic}
    (hrun : op.run k = .error p) : op.StopsWith k p := by
  cases op with
  | create binary priority =>
    have hall : Raises (fun p => p = .envCreate ∨ p = .loadIcode)
        ((KernOp.create binary priority).run k) :=
      (envCreate_stops h hb hsafe.1 hsafe.2).bind fun _ _ => Raises.ok _
    exact hall p hrun
  | device disk => cases hrun
  | tick tf =>
    have hq₁ : QueueInv { k with tf := tf } := hq.congr (fun _ => rfl) rfl rfl rfl rfl
    exact schedule_stops hq₁ false p hrun
  | store va x =>
    cases hcur : k.curenv with
    | none =>
      simp only [KernOp.run, hcur] at hrun
      exact ⟨hcur, (Except.error.inj hrun).symm⟩
    | some cur =>
      simp only [KernOp.run, hcur, trap] at hrun
      cases hrun
  | fault tf =>
    unfold KernOp.StopsWith
    cases hcur : k.curenv with
    | none =>
      simp only [KernOp.run, hcur] at hrun
      exact (Except.error.inj hrun).symm
    | some cur =>
      rw [KernOp.run_of_curenv (.fault tf) trivial hcur] at hrun
      have hall := (doTlbMiss_stops (h.setTf tf) hb hcur).bind
        (f := fun k₁ => (.ok (retFromException k₁) : Result Kernel)) fun _ _ => Raises.ok _
      exact hall p hrun
  | syscall tf s =>
    unfold KernOp.StopsWith
    cases hcur : k.curenv with
    | none =>
      simp only [KernOp.run, hcur] at hrun
      exact (Except.error.inj hrun).symm
    | some cur =>
      rw [KernOp.run_of_curenv (.syscall tf s) trivial hcur] at hrun
      have hq₁ : QueueInv { k with tf := { tf with sepc := (tf.sepc + 4) % 2 ^ 32 } } :=
        hq.congr (fun _ => rfl) rfl rfl rfl rfl
      have hexec := exec_stopsWith (h.setTf _) hb hq₁ hcur tf (hqs.setTf _) (hsafe.setTf _)
      have hdo : Raises (fun p => s.StopsWith k cur p) (doSyscall { k with tf := tf } cur s) := by
        refine Raises.bind (fun p hp => (hexec p hp).setTf) fun x _ => ?_
        rcases x with ⟨r, k₁⟩
        cases r with
        | none => exact Raises.ok _
        | some r => exact Raises.ok _
      exact (hdo.bind fun _ _ => Raises.ok _) p hrun

/-- **Where the kernel stops.** In every run from boot whose steps use the run queue and the page
tables as they are meant to be used, a step that stops does so at one of the stops listed for it:
no assertion on a reference count, a page table, the env to run or a link of the queue fails. -/
theorem stops_only (b : BootState) (hroom : usedFrames b.freemem + 3 ≤ npage)
    (hboot : b.boot = .ok k₀)
    (hreach : KernReach (fun k op => QueueSafe k op ∧ FrameSafe k op) k₀ k) {op : KernOp}
    (hqs : QueueSafe k op) (hsafe : MapSafe k op) {p : Panic} (hrun : op.run k = .error p) :
    op.StopsWith k p := by
  obtain ⟨k₁, role₀, hboot', hb⟩ := boot_ok b hroom
  rw [hboot] at hboot'
  cases hboot'
  have hframes := (hreach.mono fun _ _ hP => hP.2).kernelOk hb
  have hqueue := (hreach.mono fun _ _ hP => hP.1).queueInv (envInit_queueInv hboot)
  exact hframes.stops hb hqueue hqs hsafe hrun

/-- A receive of the only runnable env. -/
theorem sysIpcRecv_last (hq : QueueInv k) {cur : Nat} (honly : ∀ x, (k.envs x).status = .runnable ↔ x = cur)
    (hidle : Drained k.disk) : sysIpcRecv k cur 0 = .error .noRunnable := by
  obtain ⟨q, hrem, hq₁⟩ := hq.unlink ((honly cur).mpr rfl) (f := fun env =>
    { env with ipcRecving := 1, ipcDstva := 0, status := .notRunnable }) rfl
  unfold sysIpcRecv
  rw [if_neg (by simp)]
  simp only [QueueInv.tailqRemove_setEnv _ hrem, ok_bind]
  have hnone : ∀ x, (((k.withQueue .remove cur q).setEnv cur fun env =>
      { env with ipcRecving := 1, ipcDstva := 0, status := .notRunnable }).envs x).status ≠
        .runnable := by
    intro x hx
    by_cases hxc : x = cur
    · rw [hxc, Kernel.setEnv_self] at hx
      cases hx
    · rw [Kernel.setEnv_of_ne _ _ _ hxc] at hx
      exact hxc ((honly x).mp hx)
  have hdisk : virtioDiskIntr ((k.withQueue .remove cur q).setEnv cur fun env =>
      { env with ipcRecving := 1, ipcDstva := 0, status := .notRunnable }).disk = .ok (intrAck k.disk) :=
    hidle.intr.1
  generalize (k.withQueue .remove cur q).setEnv cur _ = k₁ at hq₁ hnone hdisk ⊢
  have hq₂ : QueueInv { k₁ with
      tf := { k₁.tf with regs := Function.update k₁.tf.regs 10 0 } } :=
    hq₁.congr (fun _ => rfl) rfl rfl rfl rfl
  rw [schedule_none hq₂ hnone hdisk true]
  rfl

/-- The first env of a small kernel waits for a message that nobody can send. -/
theorem stops_only_receive :
    ∃ k₀ k a, smallBoot.boot = .ok k₀ ∧ k.curenv = some a ∧
      (KernOp.syscall zeroTrapframe (.ipcRecv 0)).run k = .error .noRunnable ∧
      ScheduleStop k (· = a) .noRunnable := by
  obtain ⟨k₀, role₀, k₁, k, a, hboot, hb, hcreate, htick, h₀, h₁, h, hcur, -, -⟩ := smallBoot_first
  have hreach : KernReach (fun k op => QueueSafe k op ∧ FrameSafe k op) k₀ k := by
    refine .step (.step .refl ?_ hcreate) ?_ htick
    · exact ⟨trivial, ⟨userElf_nil UTEXT, h₀.envRoom⟩, fun hshare => hshare.elim⟩
    · exact ⟨trivial, trivial, fun hshare => hshare.elim⟩
  have honly : ∀ x, (k.envs x).status = .runnable ↔ x = a := fun x => by
    rw [← h.runnable x, List.mem_singleton]
  have hq := (hreach.mono fun _ _ hP => hP.1).queueInv (envInit_queueInv hboot)
  have hq₁ : QueueInv { k with tf := { zeroTrapframe with sepc := 4 } } :=
    hq.congr (fun _ => rfl) rfl rfl rfl rfl
  have hrun := run_syscall_error (c := .ipcRecv 0) zeroTrapframe hcur
    (sysIpcRecv_last hq₁ honly h.idle)
  have hqs : QueueSafe k (.syscall zeroTrapframe (.ipcRecv 0)) := fun cur hc _ => by
    rw [hcur] at hc
    exact (honly cur).mpr (Option.some.inj hc).symm
  have hstop := stops_only smallBoot (by decide) hboot hreach hqs trivial hrun
  unfold KernOp.StopsWith at hstop
  rw [hcur] at hstop
  exact ⟨k₀, k, a, hboot, hcur, hrun, hstop⟩

end Mos.Kern
