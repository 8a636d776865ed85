import Mos.Lib.Bitmap
import Mos.Kern.PageWork

/-!
# MOS on RISC-V — what each call can do

One inversion lemma for each function that works on more than pages: the
outcomes of `env_alloc`, the env that `schedule` resumes, what `env_free` leaves
behind, and for each system call the ways it can end. The invariants of the
later modules are case analyses over these lemmas and never look into the
functions themselves.
-/

namespace Mos.Kern

open Mos.Lib

variable {k k' : Kernel}

def Kernel.Live (k : Kernel) (e : Nat) : Prop := (k.envs e).status ≠ .free

-- ---------------------------------------------------------------------------
-- env_alloc
-- ---------------------------------------------------------------------------

/-- `asid_alloc` sets a bit that was clear. -/
theorem asidAlloc_some {i : Nat} (h : asidAlloc k = some (i, k')) :
    i < NASID ∧ ¬ Bitmap.isSet k.asidBitmap i ∧
      k' = { k with asidBitmap := Bitmap.set k.asidBitmap i } := by
  unfold asidAlloc at h
  split at h
  · rename_i j hj
    simp only [Option.some.injEq, Prod.mk.injEq] at h
    obtain ⟨rfl, rfl⟩ := h
    have hlt : j ∈ List.range NASID := List.mem_of_find?_eq_some hj
    have hclear := List.find?_some hj
    refine ⟨List.mem_range.mp hlt, ?_, rfl⟩
    intro hset
    exact hset (of_decide_eq_true hclear)
  · cases h

theorem asidAlloc_none (h : asidAlloc k = none) : ∀ i < NASID, Bitmap.isSet k.asidBitmap i := by
  intro i hi
  unfold asidAlloc at h
  split at h
  · cases h
  · rename_i hnone
    intro hclear
    exact List.find?_eq_none.mp hnone i (List.mem_range.mpr hi) (decide_eq_true hclear)

/-- The page work of `env_setup_vm` on the new frame `p`. -/
def newDir (k : Kernel) (p : Nat) (pm : Pmap) : Pmap :=
  let pm := pm.setRef p ((pm.ppRef p + 1) % 2 ^ 16)
  pm.copyWords p (templateWord { k with pm := pm })

/-- The pages, the directory and the copy that `env_setup_vm` leaves. -/
def setupPages (k : Kernel) (e : Nat) : Pmap × Nat × Nat :=
  match pageAlloc k.pm with
  | none => (k.pm, (k.envs e).pgdir, (k.envs e).pgdirCopyPa)
  | some (p, pm) => (newDir k p pm, p, 0)

/-- Slot `e` before `env_alloc` asks for an ASID. -/
def preparedEnv (k : Kernel) (e : Nat) : Env :=
  { k.envs e with
    pgdir := (setupPages k e).2.1
    pgdirCopyPa := (setupPages k e).2.2
    userTlbModEntry := 0
    runs := 0
    id := (mkenvid k e).1 }

/-- Slot `e` when `env_alloc` returns. -/
def givenEnv (k : Kernel) (e asid parentId : Nat) : Env :=
  { preparedEnv k e with
    asid := asid
    parentId := parentId
    tf := { (k.envs e).tf with sstatus := 2, sscratch := USTACKTOP - 8 } }

theorem envPrepare_eq (k : Kernel) (e : Nat) :
    envPrepare k e = { k with
      pm := (setupPages k e).1
      envs := Function.update k.envs e (preparedEnv k e)
      mkenvidCount := (k.mkenvidCount + 1) % 2 ^ 32 } := by
  unfold envPrepare envSetupVm preparedEnv setupPages
  cases pageAlloc k.pm with
  | none => simp [Kernel.setEnv, mkenvid]
  | some x => simp [Kernel.setEnv, mkenvid, newDir]

/-- The outcomes of `env_alloc`. -/
inductive AllocOutcome (k : Kernel) (parentId : Nat) : Except Int Nat → Kernel → Prop where
  | full (hl : k.envFreeList = []) : AllocOutcome k parentId (.error (-E_NO_FREE_ENV)) k
  | noAsid {e : Nat} {rest : List Nat} (hl : k.envFreeList = e :: rest)
      (hfull : ∀ i < NASID, Bitmap.isSet k.asidBitmap i) :
      AllocOutcome k parentId (.error (-E_NO_FREE_ENV)) (envPrepare k e)
  | ok {e asid : Nat} {rest : List Nat} (hl : k.envFreeList = e :: rest) (hlt : asid < NASID)
      (hclear : ¬ Bitmap.isSet k.asidBitmap asid) :
      AllocOutcome k parentId (.ok e) { k with
        pm := (setupPages k e).1
        envs := Function.update k.envs e (givenEnv k e asid parentId)
        envFreeList := rest
        asidBitmap := Bitmap.set k.asidBitmap asid
        mkenvidCount := (k.mkenvidCount + 1) % 2 ^ 32 }

theorem envAlloc_outcome {parentId : Nat} {r : Except Int Nat}
    (h : envAlloc k parentId = (r, k')) : AllocOutcome k parentId r k' := by
  unfold envAlloc at h
  cases hl : k.envFreeList with
  | nil =>
    simp only [hl, Prod.mk.injEq] at h
    obtain ⟨rfl, rfl⟩ := h
    exact .full hl
  | cons e rest =>
    cases ha : asidAlloc (envPrepare k e) with
    | none =>
      simp only [hl, ha, Prod.mk.injEq] at h
      obtain ⟨rfl, rfl⟩ := h
      have hfull := asidAlloc_none ha
      rw [envPrepare_eq] at hfull
      exact .noAsid hl hfull
    | some x =>
      obtain ⟨asid, k₁⟩ := x
      simp only [hl, ha, Prod.mk.injEq] at h
      obtain ⟨rfl, rfl⟩ := h
      obtain ⟨hlt, hclear, rfl⟩ := asidAlloc_some ha
      simp only [envPrepare_eq] at hclear ⊢
      simp only [Kernel.setEnv, Function.update_self, Function.update_idem]
      exact .ok hl hlt hclear

/-- A successful `env_alloc` takes the first free slot and an ASID. -/
theorem envAlloc_given {parentId e : Nat} (h : envAlloc k parentId = (.ok e, k')) :
    ∃ rest asid, k.envFreeList = e :: rest ∧ asid < NASID ∧ ¬ Bitmap.isSet k.asidBitmap asid ∧
      k' = { k with
        pm := (setupPages k e).1
        envs := Function.update k.envs e (givenEnv k e asid parentId)
        envFreeList := rest
        asidBitmap := Bitmap.set k.asidBitmap asid
        mkenvidCount := (k.mkenvidCount + 1) % 2 ^ 32 } := by
  generalize hr : (Except.ok e : Except Int Nat) = r at h
  cases envAlloc_outcome h with
  | full hl => cases hr
  | noAsid hl hfull => cases hr
  | ok hl hlt hclear =>
    cases hr
    exact ⟨_, _, hl, hlt, hclear, rfl⟩

-- ---------------------------------------------------------------------------
-- The scheduler
-- ---------------------------------------------------------------------------

theorem saveContext_env (k : Kernel) (e : Nat) :
    ∃ tf, (saveContext k).envs e = { k.envs e with tf := tf } := by
  unfold saveContext
  cases k.curenv with
  | none => exact ⟨(k.envs e).tf, rfl⟩
  | some c =>
    by_cases he : e = c
    · rw [he]
      exact ⟨k.tf, Kernel.setEnv_self ..⟩
    · exact ⟨(k.envs e).tf, Kernel.setEnv_of_ne _ _ _ he⟩

theorem saveContext_eq (k : Kernel) : saveContext k = { k with envs := (saveContext k).envs } := by
  unfold saveContext
  split <;> rfl

theorem resume_env (k : Kernel) (c e : Nat) :
    ∃ runs, (resume k c).envs e = { k.envs e with runs := runs } := by
  by_cases he : e = c
  · rw [he]
    refine ⟨((k.envs c).runs + 1) % 2 ^ 32, ?_⟩
    exact Function.update_self c _ k.envs
  · refine ⟨(k.envs e).runs, ?_⟩
    exact Function.update_of_ne he _ k.envs

/-- `env_run` changes the registers it saves, the count of runs and who runs. -/
theorem envRun_env {k k' : Kernel} {c : Nat} (hrun : envRun k c = .ok k') :
    (k.envs c).status = .runnable ∧ k'.curenv = some c ∧ k'.curPgdir = (k.envs c).pgdir ∧
      (∀ e, ∃ tf runs, k'.envs e = { k.envs e with tf := tf, runs := runs }) ∧
      ∃ envs pgdir cpu, k' = { k with envs := envs, curenv := some c, curPgdir := pgdir, cpu := cpu } := by
  unfold envRun at hrun
  split_ifs at hrun with hst
  cases hrun
  obtain ⟨tf, htf⟩ := saveContext_env k c
  obtain ⟨n, hn⟩ := resume_env (saveContext k) c c
  refine ⟨hst, rfl, ?_, ?_, ?_⟩
  · show ((resume (saveContext k) c).envs c).pgdir = _
    rw [hn, htf]
  · intro e
    obtain ⟨tf, htf⟩ := saveContext_env k e
    obtain ⟨n, hn⟩ := resume_env (saveContext k) c e
    exact ⟨tf, n, by rw [hn, htf]⟩
  · refine ⟨(resume (saveContext k) c).envs, (resume (saveContext k) c).curPgdir,
      (resume (saveContext k) c).cpu, ?_⟩
    rw [resume, saveContext_eq k]
    rfl

/-- Taking an env off the queue, or linking one, moves nothing else. -/
theorem tailqRemove_eq {k k' : Kernel} {e : Nat} (h : tailqRemove k e = .ok k') :
    ∃ q, k' = k.withQueue .remove e q := by
  unfold tailqRemove at h
  split at h
  · cases h
  · cases h
    exact ⟨_, rfl⟩

theorem tailqInsertTail_eq {k k' : Kernel} {e : Nat} (h : tailqInsertTail k e = .ok k') :
    ∃ q, k' = k.withQueue .insert e q := by
  unfold tailqInsertTail at h
  split at h
  · cases h
  · cases h
    exact ⟨_, rfl⟩

/-- `requeue` moves the queue only. -/
theorem requeue_eq {k k' : Kernel} (h : requeue k = .ok k') :
    ∃ q log, k' = { k with envSchedList := q, queueLog := log } := by
  unfold requeue at h
  split at h
  · cases h
    exact ⟨_, _, rfl⟩
  · split_ifs at h
    · obtain ⟨k₁, h₁, h₂⟩ := bind_eq_ok.mp h
      obtain ⟨q₁, rfl⟩ := tailqRemove_eq h₁
      obtain ⟨q₂, rfl⟩ := tailqInsertTail_eq h₂
      exact ⟨_, _, rfl⟩
    · cases h
      exact ⟨_, _, rfl⟩

/-- `schedule` ends in `env_run`, on the same pages and envs. -/
theorem schedule_envRun {k k' : Kernel} {yield : Bool} (h : schedule k yield = .ok k') :
    ∃ disk count q log c, envRun { k with
      disk := disk, schedCount := count, envSchedList := q, queueLog := log } c = .ok k' := by
  unfold schedule at h
  obtain ⟨disk, -, h⟩ := bind_eq_ok.mp h
  cases hkeep : keepRunning { k with disk := disk } yield with
  | some c =>
    simp only [hkeep] at h
    exact ⟨disk, _, k.envSchedList, k.queueLog, c, h⟩
  | none =>
    simp only [hkeep] at h
    obtain ⟨k₁, hq, h⟩ := bind_eq_ok.mp h
    obtain ⟨q, log, rfl⟩ := requeue_eq hq
    cases hfirst : q.first with
    | none => simp [hfirst] at h
    | some c =>
      simp only [hfirst] at h
      exact ⟨disk, _, q, log, c, h⟩

-- ---------------------------------------------------------------------------
-- env_free and the delivery of a message
-- ---------------------------------------------------------------------------

theorem envFree_eq {e : Nat} (h : envFree k e = .ok k') :
    ∃ s q log, envFreePages k.pm (k.envs e).pgdir (k.envs e).asid (k.envs e).pgdirCopyPa = .ok s ∧
      k' = { k with
        pm := s
        envs := Function.update k.envs e { k.envs e with status := .free }
        envFreeList := e :: k.envFreeList
        asidBitmap := Bitmap.clear k.asidBitmap (k.envs e).asid
        envSchedList := q
        queueLog := log } := by
  obtain ⟨s, hpages, h⟩ := bind_eq_ok.mp h
  obtain ⟨q, rfl⟩ := tailqRemove_eq h
  exact ⟨s, _, _, hpages, rfl⟩

/-- The message slots of the env `e`, as a send fills them. -/
def deliveredEnv (k : Kernel) (cur e value perm : Nat) : Env :=
  { k.envs e with
    ipcValue := value
    ipcFrom := (k.envs cur).id
    ipcPerm := PTE_U ||| PTE_V ||| readable perm
    ipcRecving := 0
    status := .runnable }

theorem deliver_eq {cur e value perm : Nat} (h : deliver k cur e value perm = .ok k') :
    ∃ q log, k' = { k with
      envs := Function.update k.envs e (deliveredEnv k cur e value perm)
      envSchedList := q
      queueLog := log } := by
  obtain ⟨q, rfl⟩ := tailqInsertTail_eq h
  exact ⟨_, _, rfl⟩

-- ---------------------------------------------------------------------------
-- System calls
-- ---------------------------------------------------------------------------

theorem isIllegalVa_eq_false {va : Nat} (h : ¬ isIllegalVa va = true) : UTEMP ≤ va ∧ va < UTOP := by
  unfold isIllegalVa at h
  simpa only [decide_eq_true_eq, not_or, not_le, not_lt] using h

theorem envid2env_cases {cur envid e : Nat} {checkperm : Bool}
    (h : envid2env k cur envid checkperm = .ok e) :
    (envid = 0 ∧ e = cur) ∨
    (envid ≠ 0 ∧ e = ENVX envid ∧ k.Live e ∧ (k.envs e).id = envid ∧
      (checkperm = true → e = cur ∨ (k.envs e).parentId = (k.envs cur).id)) := by
  unfold envid2env at h
  by_cases h0 : envid = 0
  · rw [if_pos h0] at h
    exact Or.inl ⟨h0, (Except.ok.inj h).symm⟩
  · rw [if_neg h0] at h
    simp only at h
    split_ifs at h with h1 h2
    obtain rfl := Except.ok.inj h
    rw [not_or, not_not] at h1
    refine Or.inr ⟨h0, rfl, h1.1, h1.2, fun hc => ?_⟩
    by_contra hne
    rw [not_or] at hne
    exact h2 ⟨hc, hne⟩

theorem sysMemAlloc_cases {cur envid va perm : Nat} {r : Option Int}
    (h : sysMemAlloc k cur envid va perm = .ok (r, k')) :
    k' = k ∨ ∃ e pp pm r' pm', va < UTOP ∧ envid2env k cur envid true = .ok e ∧
      pageAlloc k.pm = some (pp, pm) ∧
      pageInsert pm (k.envs e).pgdir (k.envs e).asid pp va (perm ||| PTE_U) = .ok (r', pm') ∧
      r = some r' ∧ k' = { k with pm := pm' } := by
  unfold sysMemAlloc at h
  split_ifs at h with hva
  · cases h
    exact Or.inl rfl
  · cases he : envid2env k cur envid true with
    | error m =>
      simp only [he] at h
      cases h
      exact Or.inl rfl
    | ok e =>
      simp only [he] at h
      cases ha : pageAlloc k.pm with
      | none =>
        simp only [ha] at h
        cases h
        exact Or.inl rfl
      | some x =>
        obtain ⟨pp, pm⟩ := x
        simp only [ha] at h
        obtain ⟨⟨r', pm'⟩, hins, hdone⟩ := bind_eq_ok.mp h
        cases hdone
        exact Or.inr ⟨e, pp, pm, r', pm', (isIllegalVa_eq_false hva).2, rfl, rfl, hins, rfl, rfl⟩

theorem sysMemMap_cases {cur srcid srcva dstid dstva perm : Nat} {r : Option Int}
    (h : sysMemMap k cur srcid srcva dstid dstva perm = .ok (r, k')) :
    k' = k ∨ ∃ src dst pp p r' pm', srcva < UTOP ∧ dstva < UTOP ∧
      envid2env k cur srcid true = .ok src ∧ envid2env k cur dstid true = .ok dst ∧
      pageLookup k.pm (k.envs src).pgdir srcva = .ok (some (pp, p)) ∧
      pageInsert k.pm (k.envs dst).pgdir (k.envs dst).asid pp dstva (perm ||| PTE_U) = .ok (r', pm') ∧
      r = some r' ∧ k' = { k with pm := pm' } := by
  unfold sysMemMap at h
  split_ifs at h with hsva hdva
  · cases h
    exact Or.inl rfl
  · cases h
    exact Or.inl rfl
  · cases hs : envid2env k cur srcid true with
    | error m =>
      simp only [hs] at h
      cases h
      exact Or.inl rfl
    | ok src =>
      simp only [hs] at h
      cases hd : envid2env k cur dstid true with
      | error m =>
        simp only [hd] at h
        cases h
        exact Or.inl rfl
      | ok dst =>
        simp only [hd] at h
        obtain ⟨x, hlook, h⟩ := bind_eq_ok.mp h
        cases x with
        | none =>
          cases h
          exact Or.inl rfl
        | some y =>
          obtain ⟨pp, p⟩ := y
          obtain ⟨⟨r', pm'⟩, hins, hdone⟩ := bind_eq_ok.mp h
          cases hdone
          exact Or.inr ⟨src, dst, pp, p, r', pm', (isIllegalVa_eq_false hsva).2,
            (isIllegalVa_eq_false hdva).2, rfl, rfl, hlook, hins, rfl, rfl⟩

theorem sysMemUnmap_cases {cur envid va : Nat} {r : Option Int}
    (h : sysMemUnmap k cur envid va = .ok (r, k')) :
    k' = k ∨ ∃ e pm', va < UTOP ∧ envid2env k cur envid true = .ok e ∧
      pageRemove k.pm (k.envs e).pgdir (k.envs e).asid va = .ok pm' ∧ r = some 0 ∧
      k' = { k with pm := pm' } := by
  unfold sysMemUnmap at h
  split_ifs at h with hva
  · cases h
    exact Or.inl rfl
  · cases he : envid2env k cur envid true with
    | error m =>
      simp only [he] at h
      cases h
      exact Or.inl rfl
    | ok e =>
      simp only [he] at h
      obtain ⟨pm', hrem, hdone⟩ := bind_eq_ok.mp h
      cases hdone
      exact Or.inr ⟨e, pm', (isIllegalVa_eq_false hva).2, rfl, hrem, rfl, rfl⟩

theorem sysExofork_cases {cur : Nat} {r : Option Int} (h : sysExofork k cur = .ok (r, k')) :
    (∃ m, envAlloc k (k.envs cur).id = (.error m, k') ∧ r = some m) ∨
    ∃ e k₁ tf, envAlloc k (k.envs cur).id = (.ok e, k₁) ∧ r = some ((k₁.envs e).id : Int) ∧
      k' = k₁.setEnv e fun env =>
        { env with tf := tf, status := .notRunnable, pri := (k₁.envs cur).pri } := by
  unfold sysExofork at h
  cases ha : envAlloc k (k.envs cur).id with
  | mk r₁ k₁ =>
    cases r₁ with
    | error m =>
      simp only [ha, Except.ok.injEq, Prod.mk.injEq] at h
      obtain ⟨rfl, rfl⟩ := h
      exact Or.inl ⟨m, rfl, rfl⟩
    | ok e =>
      simp only [ha, Except.ok.injEq, Prod.mk.injEq] at h
      obtain ⟨rfl, rfl⟩ := h
      exact Or.inr ⟨e, k₁, _, rfl, by rw [Kernel.setEnv_self], rfl⟩

theorem envCreate_cases {binary : Option Elf} {priority e : Nat}
    (h : envCreate k binary priority = .ok (e, k')) :
    ∃ k₁ k₂, envAlloc k 0 = (.ok e, k₁) ∧
      loadIcode (k₁.setEnv e fun env => { env with pri := priority, status := .runnable }) e binary =
        .ok k₂ ∧ k' = tailqInsertHead k₂ e := by
  unfold envCreate at h
  cases ha : envAlloc k 0 with
  | mk r k₁ =>
    cases r with
    | error m => simp [ha] at h
    | ok e₁ =>
      simp only [ha] at h
      obtain ⟨k₂, hload, hdone⟩ := bind_eq_ok.mp h
      cases hdone
      exact ⟨k₁, k₂, rfl, hload, rfl⟩

theorem loadIcode_cases {e : Nat} {binary : Option Elf} (h : loadIcode k e binary = .ok k') :
    ∃ elf pm, binary = some elf ∧
      elf.phdrs.foldlM (loadPhdr (k.envs e).pgdir (k.envs e).asid) k.pm = .ok pm ∧
      k' = { k with pm := pm }.setEnv e fun env => { env with tf := { env.tf with sepc := elf.entry } } := by
  cases binary with
  | none => cases h
  | some elf =>
    obtain ⟨pm, hph, hdone⟩ := bind_eq_ok.mp h
    cases hdone
    exact ⟨elf, pm, rfl, hph, rfl⟩

theorem statusOfNat_ne_free {status : Nat} {st : EnvStatus} (h : statusOfNat status = some st) :
    st ≠ .free := by
  unfold statusOfNat at h
  split_ifs at h <;> cases h <;> simp

theorem sysSetEnvStatus_cases {cur envid status : Nat} {r : Option Int}
    (h : sysSetEnvStatus k cur envid status = .ok (r, k')) :
    k' = k ∨ ∃ e st q log, envid2env k cur envid true = .ok e ∧ st ≠ .free ∧ r = some 0 ∧
      k' = { k with
        envs := Function.update k.envs e { k.envs e with status := st }
        envSchedList := q
        queueLog := log } := by
  unfold sysSetEnvStatus at h
  cases hst : statusOfNat status with
  | none =>
    simp only [hst] at h
    cases h
    exact Or.inl rfl
  | some st =>
    simp only [hst] at h
    cases he : envid2env k cur envid true with
    | error m =>
      simp only [he] at h
      cases h
      exact Or.inl rfl
    | ok e =>
      simp only [he] at h
      refine Or.inr ⟨e, st, ?_⟩
      split_ifs at h with hne hrun
      · obtain ⟨k₁, hq, hdone⟩ := bind_eq_ok.mp h
        cases hdone
        obtain ⟨q, rfl⟩ := tailqInsertTail_eq hq
        exact ⟨_, _, rfl, statusOfNat_ne_free hst, rfl, rfl⟩
      · obtain ⟨k₁, hq, hdone⟩ := bind_eq_ok.mp h
        cases hdone
        obtain ⟨q, rfl⟩ := tailqRemove_eq hq
        exact ⟨_, _, rfl, statusOfNat_ne_free hst, rfl, rfl⟩
      · cases h
        exact ⟨_, _, rfl, statusOfNat_ne_free hst, rfl, rfl⟩

theorem sysSetTrapframe_cases {cur envid va : Nat} {r : Option Int}
    (h : sysSetTrapframe k cur envid va = .ok (r, k')) :
    k' = k ∨ ∃ e bs k₁ tf, envid2env k cur envid true = .ok e ∧
      kernelLoads k cur va TRAPFRAME_SIZE = .ok (bs, k₁) ∧
      (k' = { k₁ with tf := tf } ∨ k' = k₁.setEnv e fun env => { env with tf := tf }) := by
  unfold sysSetTrapframe at h
  split_ifs at h
  · cases h
    exact Or.inl rfl
  · cases he : envid2env k cur envid true with
    | error m =>
      simp only [he] at h
      cases h
      exact Or.inl rfl
    | ok e =>
      simp only [he] at h
      obtain ⟨⟨bs, k₁⟩, hload, h⟩ := bind_eq_ok.mp h
      refine Or.inr ⟨e, bs, k₁, Trapframe.ofBytes bs, rfl, hload, ?_⟩
      change (if e = cur then _ else _) = _ at h
      split_ifs at h
      · cases h
        exact Or.inl rfl
      · cases h
        exact Or.inr rfl

/-- The env that calls `sys_ipc_recv`, when it stops. -/
def waitingEnv (k : Kernel) (cur dstva : Nat) : Env :=
  { k.envs cur with ipcRecving := 1, ipcDstva := dstva, status := .notRunnable }

theorem sysIpcRecv_cases {cur dstva : Nat} {r : Option Int}
    (h : sysIpcRecv k cur dstva = .ok (r, k')) :
    k' = k ∨ ∃ q log tf, dstva < UTOP ∧ r = none ∧ schedule { k with
      envs := Function.update k.envs cur (waitingEnv k cur dstva)
      envSchedList := q
      queueLog := log
      tf := tf } true = .ok k' := by
  unfold sysIpcRecv at h
  split_ifs at h with hva
  · cases h
    exact Or.inl rfl
  · obtain ⟨k₁, hq, h⟩ := bind_eq_ok.mp h
    obtain ⟨k₂, hsched, hdone⟩ := bind_eq_ok.mp h
    cases hdone
    obtain ⟨q, rfl⟩ := tailqRemove_eq hq
    have hlow : dstva < UTOP := by
      by_cases h0 : dstva = 0
      · rw [h0]
        decide
      · exact (isIllegalVa_eq_false fun hc => hva ⟨h0, hc⟩).2
    exact Or.inr ⟨_, _, _, hlow, rfl, hsched⟩

theorem sysIpcTrySend_cases {cur envid value srcva perm : Nat} {r : Option Int}
    (h : sysIpcTrySend k cur envid value srcva perm = .ok (r, k')) :
    k' = k ∨ ∃ e k₁, envid2env k cur envid false = .ok e ∧ (k.envs e).ipcRecving ≠ 0 ∧
      deliver k cur e value perm = .ok k₁ ∧
      (k' = k₁ ∨ ∃ pp p r' pm', srcva < UTOP ∧ srcva ≠ 0 ∧
        pageLookup k₁.pm (k₁.envs cur).pgdir srcva = .ok (some (pp, p)) ∧
        pageInsert k₁.pm (k₁.envs e).pgdir (k₁.envs e).asid pp (k₁.envs e).ipcDstva
          (k₁.envs e).ipcPerm = .ok (r', pm') ∧ r = some r' ∧ k' = { k₁ with pm := pm' }) := by
  unfold sysIpcTrySend at h
  by_cases hva : srcva ≠ 0 ∧ isIllegalVa srcva
  · rw [if_pos hva] at h
    cases h
    exact Or.inl rfl
  · rw [if_neg hva] at h
    cases he : envid2env k cur envid false with
    | error m =>
      simp only [he] at h
      cases h
      exact Or.inl rfl
    | ok e =>
      simp only [he] at h
      by_cases hrecv : (k.envs e).ipcRecving = 0
      · rw [if_pos hrecv] at h
        cases h
        exact Or.inl rfl
      · rw [if_neg hrecv] at h
        obtain ⟨k₁, hdel, h⟩ := bind_eq_ok.mp h
        refine Or.inr ⟨e, k₁, rfl, hrecv, hdel, ?_⟩
        by_cases hsv : srcva ≠ 0
        · rw [if_pos hsv] at h
          obtain ⟨x, hlook, h⟩ := bind_eq_ok.mp h
          cases x with
          | none =>
            cases h
            exact Or.inl rfl
          | some y =>
            obtain ⟨pp, p⟩ := y
            obtain ⟨⟨r', pm'⟩, hins, hdone⟩ := bind_eq_ok.mp h
            cases hdone
            have hlow := (isIllegalVa_eq_false fun hc => hva ⟨hsv, hc⟩).2
            exact Or.inr ⟨pp, p, r', pm', hlow, hsv, hlook, hins, rfl, rfl⟩
        · rw [if_neg hsv] at h
          cases h
          exact Or.inl rfl

theorem sysEnvDestroy_cases {cur envid : Nat} {r : Option Int}
    (h : sysEnvDestroy k cur envid = .ok (r, k')) :
    (k' = k ∧ ∃ m, envid2env k cur envid true = .error m) ∨ ∃ e k₁, envid2env k cur envid true = .ok e ∧ envFree k e = .ok k₁ ∧
      ((k₁.curenv ≠ some e ∧ k' = k₁) ∨
        (k₁.curenv = some e ∧ schedule { k₁ with curenv := none } true = .ok k')) := by
  unfold sysEnvDestroy at h
  cases he : envid2env k cur envid true with
  | error m =>
    simp only [he] at h
    cases h
    exact Or.inl ⟨rfl, m, rfl⟩
  | ok e =>
    simp only [he] at h
    obtain ⟨⟨returns, k₂⟩, hdes, hdone⟩ := bind_eq_ok.mp h
    cases hdone
    obtain ⟨k₁, hfree, hrest⟩ := bind_eq_ok.mp hdes
    refine Or.inr ⟨e, k₁, rfl, hfree, ?_⟩
    split_ifs at hrest with hcur
    · obtain ⟨k₃, hsched, hdone⟩ := bind_eq_ok.mp hrest
      cases hdone
      exact Or.inr ⟨hcur, hsched⟩
    · cases hrest
      exact Or.inl ⟨hcur, rfl⟩

theorem sysDevReq_cases {dev req : Nat} {r : Option Int} (h : sysDevReq k dev req = .ok (r, k')) :
    ∃ disk, k' = { k with disk := disk } := by
  unfold sysDevReq at h
  split_ifs at h
  · cases h
    exact ⟨k.disk, rfl⟩
  · obtain ⟨pa, -, h⟩ := bind_eq_ok.mp h
    obtain ⟨⟨r', disk⟩, -, hdone⟩ := bind_eq_ok.mp h
    cases hdone
    exact ⟨disk, rfl⟩
  · obtain ⟨pa, -, h⟩ := bind_eq_ok.mp h
    cases h
    exact ⟨k.disk, rfl⟩

-- ---------------------------------------------------------------------------
-- Boot and steps
-- ---------------------------------------------------------------------------

/-- `env_init` that returns leaves no env and nobody running. -/
theorem envInit_firstKernel {pm : Pmap} {disk : Vring} {kernelPgdir : Nat → Nat}
    {pagesPa envsPa : Nat} (h : envInit pm disk kernelPgdir pagesPa envsPa = .ok k) :
    ∃ pm' p, k = firstKernel pm' p disk kernelPgdir := by
  unfold envInit at h
  cases ha : pageAlloc pm with
  | none =>
    rw [ha] at h
    cases h
  | some x =>
    rw [ha] at h
    obtain ⟨pm₁, -, h⟩ := bind_eq_ok.mp h
    obtain ⟨pm₂, -, h⟩ := bind_eq_ok.mp h
    exact ⟨pm₂, x.1, (Except.ok.inj h).symm⟩

/-- A system call, between the trap that stored the registers and the return. -/
theorem run_syscall {tf : Trapframe} {s : Syscall} (h : (KernOp.syscall tf s).run k = .ok k') :
    ∃ cur tf₁ r k₁ tf₂ cpu, k.curenv = some cur ∧ s.exec { k with tf := tf₁ } cur = .ok (r, k₁) ∧
      k' = { k₁ with tf := tf₂, cpu := cpu } := by
  obtain ⟨cur, hcur, h⟩ := KernOp.trap_of_run (.syscall tf s) trivial h
  obtain ⟨⟨r, k₁⟩, hsys, hdone⟩ := bind_eq_ok.mp h
  obtain ⟨⟨r₂, k₂⟩, hexec, hret⟩ := bind_eq_ok.mp hsys
  refine ⟨cur, { tf with sepc := (tf.sepc + 4) % 2 ^ 32 }, r₂, k₂, ?_⟩
  cases r₂ with
  | none =>
    cases hret
    cases hdone
    exact ⟨_, _, hcur, hexec, rfl⟩
  | some x =>
    cases hret
    cases hdone
    exact ⟨_, _, hcur, hexec, rfl⟩

theorem run_fault {tf : Trapframe} (h : (KernOp.fault tf).run k = .ok k') :
    ∃ cur k₁ cpu, k.curenv = some cur ∧ doTlbMiss { k with tf := tf } cur = .ok k₁ ∧
      k' = { k₁ with cpu := cpu } := by
  obtain ⟨cur, hcur, h⟩ := KernOp.trap_of_run (.fault tf) trivial h
  obtain ⟨k₁, hmiss, hdone⟩ := bind_eq_ok.mp h
  cases hdone
  exact ⟨cur, k₁, _, hcur, hmiss, rfl⟩

theorem run_store {va x : Nat} (h : (KernOp.store va x).run k = .ok k') :
    ∃ cur, k.curenv = some cur ∧ k' = userStore k va x := by
  obtain ⟨cur, hcur, h⟩ := KernOp.trap_of_run (.store va x) trivial h
  cases h
  exact ⟨cur, hcur, rfl⟩

theorem run_create {binary : Option Elf} {priority : Nat}
    (h : (KernOp.create binary priority).run k = .ok k') :
    ∃ e, envCreate k binary priority = .ok (e, k') := by
  obtain ⟨⟨e, k₁⟩, hcreate, hdone⟩ := bind_eq_ok.mp h
  cases hdone
  exact ⟨e, hcreate⟩

end Mos.Kern
