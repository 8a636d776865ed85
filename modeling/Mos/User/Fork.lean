import Mos.Kern.Errors
import Mos.User.Process

/-!
# MOS on RISC-V — fork when there is no child

`fork` keeps the id of its child in an unsigned variable. An error code of `sys_exofork`
does not look different there: `fork` goes on, and hands the code to `duppage` and to the
system calls as an id.

Main results:

* `fork_never` — when `sys_exofork` fails, `fork` does not return its error: it ends in
  `user_panic`, or returns the `-E_BAD_ENV` of a later call;
* `fork_panics` — the run of an env in a kernel that has no ASID left.
-/

namespace Mos.User

open Mos.Lib Mos.Kern

variable {a : Nat} {k k' : Kernel} {b : BootState} {k₀ : Kernel}

-- ---------------------------------------------------------------------------
-- The source
-- ---------------------------------------------------------------------------

def duppage (envid vpn : Nat) : UserM Unit := do
  let addr := vpn * BY2PG
  let perm := (← load (vpt vpn)) &&& 0x3FF
  if testFlag perm PTE_W ∧ ¬ testFlag perm PTE_COW ∧ ¬ testFlag perm PTE_LIBRARY then
    let perm := (perm ^^^ PTE_W) ||| PTE_COW
    panicOn (← syscall (.memMap 0 addr envid addr perm))
    panicOn (← syscall (.memMap 0 addr 0 addr perm))
  else
    panicOn (← syscall (.memMap 0 addr envid addr perm))

/-- One round of step 3 of `fork`. -/
def dupMapped (child i : Nat) : UserM Unit := do
  if testFlag (← load (vpd (PDX (i * BY2PG)))) PTE_V then
    if testFlag (← load (vpt i)) PTE_V then
      duppage child i

/-- Step 3 of `fork`, for the first `n` pages. -/
@[irreducible] def dupPages (n child : Nat) : UserM Unit := (List.range n).forM (dupMapped child)

/-- Steps 3 and 4. -/
def forkChild (cowEntry child : Nat) : UserM Int := do
  dupPages (USTACKTOP >>> 12) child
  let r ← syscall (.setTlbModEntry child cowEntry)
  if r ≠ 0 then return r
  else
    let r ← syscall (.setEnvStatus child 1)
    if r ≠ 0 then return r else return toInt child

/-- `fork`, once `sys_exofork` has returned. -/
def forkWith (cowEntry child : Nat) : UserM Int := do
  if child = 0 then
    setEnv (ENVX (toWord (← syscall .getenvid)))
    return 0
  else forkChild cowEntry child

/-- From step 2 on. -/
def forkFrom (cowEntry : Nat) : UserM Int := do
  forkWith cowEntry (toWord (← syscall .exofork))

/-- Step 1; `cowEntry` is the address of `cow_entry`. -/
def setEntry (cowEntry entry : Nat) : UserM Int :=
  if entry ≠ cowEntry then syscall (.setTlbModEntry 0 cowEntry) else pure 0

def fork (cowEntry : Nat) : UserM Int := do
  let r ← setEntry cowEntry (← tlbModEntry)
  if r ≠ 0 then return r else forkFrom cowEntry

-- ---------------------------------------------------------------------------
-- Error codes as ids
-- ---------------------------------------------------------------------------

/-- The error codes of `error.h`. -/
def IsError (r : Int) : Prop := -E_NO_RING_DESC ≤ r ∧ r < 0

theorem IsError.word {r : Int} (hr : IsError r) : (toWord r : Int) = 2 ^ 32 + r := by
  obtain ⟨hlo, hneg⟩ := hr
  simp only [E_NO_RING_DESC] at hlo
  unfold toWord
  omega

/-- No live env has such an id. -/
theorem envid2env_error (h : SlotIds k) {r : Int} (hr : IsError r) (checkperm : Bool) :
    envid2env k a (toWord r) checkperm = .error (-E_BAD_ENV) := by
  have hword := hr.word
  obtain ⟨hlo, hneg⟩ := hr
  simp only [E_NO_RING_DESC] at hlo
  refine envid2env_dead (by omega) (fun e he hid => ?_) checkperm
  have hslot := h e he
  omega

/-- `sys_exofork` has one error. -/
theorem exofork_error (h : SlotIds k') {r : Int} (hr : IsError r)
    (hasks : Asks a k (.syscall .exofork) r k') : r = -E_NO_FREE_ENV := by
  obtain ⟨k₁, res, k₂, -, -, ⟨tf, hexec⟩, henvs, hres⟩ := hasks.exec
  change sysExofork _ a = _ at hexec
  unfold sysExofork at hexec
  cases halloc : envAlloc { k₁ with tf := tf } (({ k₁ with tf := tf } : Kernel).envs a).id with
  | mk x k₃ =>
    rw [halloc] at hexec
    cases x with
    | error v =>
      have hv : v = -E_NO_FREE_ENV := by
        generalize hx : (Except.error v : Except Int Nat) = x at halloc
        cases envAlloc_outcome halloc with
        | full _ => exact Except.error.inj hx
        | noAsid _ _ => exact Except.error.inj hx
        | ok _ _ _ => cases hx
      cases hexec
      rw [hres v rfl, hv]
      decide
    | ok e =>
      cases hexec
      have hlive : k'.Live e := by
        unfold Kernel.Live
        rw [henvs, Kernel.setEnv_self]
        exact nofun
      have hslot := h e hlive
      have hr' := hres _ rfl
      rw [henvs] at hslot
      -- the id of the child is no error code
      exfalso
      have hword := hr.word
      obtain ⟨hlo, hneg⟩ := hr
      simp only [E_NO_RING_DESC] at hlo
      rw [hr'] at hlo hneg
      unfold toInt toWord at hlo hneg
      rw [Int.bmod_def] at hlo hneg
      omega

theorem setTlbModEntry_error (hreach : KernReach (fun _ _ => True) k₀ k) (hboot : b.boot = .ok k₀) {r x : Int}
    (hr : IsError r) {func : Nat} (hasks : Asks a k (.syscall (.setTlbModEntry (toWord r) func)) x k') :
    x = -E_BAD_ENV := by
  obtain ⟨k₁, res, k₂, hmore, -, ⟨tf, hexec⟩, -, hres⟩ := hasks.exec
  have hids : SlotIds k₁ := (hreach.trans hmore).slotIds hboot
  have hslots : SlotIds { k₁ with tf := tf } := hids
  change sysSetTlbModEntry _ a (toWord r) func = _ at hexec
  unfold sysSetTlbModEntry at hexec
  rw [envid2env_error hslots hr] at hexec
  cases hexec
  rw [hres _ rfl]
  decide

-- ---------------------------------------------------------------------------
-- fork goes on
-- ---------------------------------------------------------------------------

variable {tr : List UserEvent} {r : Int}

theorem panicOn_ne (hr : r ≠ 0) : panicOn r = .abort := if_pos hr

/-- Steps 3 and 4, with an error code for a child. -/
theorem forkChild_error (hboot : b.boot = .ok k₀) (hreach : KernReach (fun _ _ => True) k₀ k) (hr : IsError r)
    {cowEntry : Nat} {out : Option Int} (h : (forkChild cowEntry (toWord r)).Runs (Asks a) k tr out k') :
    out = none ∨ out = some (-E_BAD_ENV) := by
  rcases h.bind_cases with ⟨_, k₁, tr₁, tr₂, hloop, hrest, -⟩ | ⟨hout, -⟩
  · have hreach₁ : KernReach (fun _ _ => True) k₀ k₁ :=
      hloop.keeps (fun _ _ _ _ hk hasks => hk.trans hasks.reach) hreach
    cases hrest with
    | ask hasks hrest =>
      have hx := setTlbModEntry_error hreach₁ hboot hr hasks
      change (if (_ : Int) ≠ 0 then _ else _ : UserM Int).Runs _ _ _ _ _ at hrest
      rw [hx, if_pos (by decide)] at hrest
      cases hrest
      exact Or.inr rfl
  · exact Or.inl hout

/-- A request that makes no child. -/
def NoFork (req : UserReq) : Prop := req ≠ .syscall .exofork

theorem panicOn_sends (x : Int) : (panicOn x).Sends NoFork := by
  unfold panicOn
  split_ifs <;> trivial

theorem duppage_sends (child vpn : Nat) : (duppage child vpn).Sends NoFork := by
  refine ⟨nofun, fun w => ?_⟩
  show (if _ then _ else _ : UserM Unit).Sends _
  split_ifs
  · exact ⟨nofun, fun x => (panicOn_sends x).bind fun _ => ⟨nofun, panicOn_sends⟩⟩
  · exact ⟨nofun, panicOn_sends⟩

theorem dupMapped_sends (child i : Nat) : (dupMapped child i).Sends NoFork := by
  refine ⟨nofun, fun w => ?_⟩
  show (if _ then _ else _ : UserM Unit).Sends _
  split_ifs
  · refine ⟨nofun, fun w => ?_⟩
    show (if _ then _ else _ : UserM Unit).Sends _
    split_ifs
    · exact duppage_sends child i
    · trivial
  · trivial

theorem dupPages_sends (n child : Nat) : (dupPages n child).Sends NoFork := by
  unfold dupPages
  exact Program.Sends.forM _ fun i _ => dupMapped_sends child i

/-- After step 2, `fork` does not fork again. -/
theorem forkChild_sends (cowEntry child : Nat) : (forkChild cowEntry child).Sends NoFork := by
  refine (dupPages_sends _ child).bind fun _ => ⟨nofun, fun (x : Int) => ?_⟩
  show (if x ≠ 0 then _ else _ : UserM Int).Sends _
  split_ifs
  · trivial
  · refine ⟨nofun, fun (x : Int) => ?_⟩
    show (if x ≠ 0 then _ else _ : UserM Int).Sends _
    split_ifs <;> trivial

theorem forkWith_sends (cowEntry child : Nat) : (forkWith cowEntry child).Sends NoFork := by
  unfold forkWith
  split_ifs
  · exact ⟨nofun, fun _ => ⟨nofun, fun _ => trivial⟩⟩
  · exact forkChild_sends cowEntry child

theorem setEntry_sends (cowEntry entry : Nat) : (setEntry cowEntry entry).Sends NoFork := by
  unfold setEntry
  split_ifs
  · exact ⟨nofun, fun _ => trivial⟩
  · trivial

/-- From the call of `sys_exofork` on. -/
theorem forkFrom_error (hboot : b.boot = .ok k₀) (hreach : KernReach (fun _ _ => True) k₀ k) {cowEntry : Nat}
    {out : Option Int} (h : (forkFrom cowEntry).Runs (Asks a) k tr out k') (hr : IsError r)
    (hfails : (⟨.syscall .exofork, r⟩ : UserEvent) ∈ tr) :
    (out = none ∨ out = some (-E_BAD_ENV)) ∧ out ≠ some r := by
  cases h with
  | @ask _ k₁ _ _ _ x tr' _ hasks hrest =>
    have hreach₁ : KernReach (fun _ _ => True) k₀ k₁ := hreach.trans hasks.reach
    change (forkWith cowEntry (toWord x)).Runs _ _ _ _ _ at hrest
    obtain rfl : r = x := by
      rcases List.mem_cons.mp hfails with heq | hev
      · cases heq
        rfl
      · exact absurd rfl (hrest.sends (forkWith_sends cowEntry _) _ hev)
    have hne : toWord r ≠ 0 := by
      have hword := hr.word
      obtain ⟨hlo, hneg⟩ := hr
      simp only [E_NO_RING_DESC] at hlo
      omega
    unfold forkWith at hrest
    rw [if_neg hne] at hrest
    have hout := forkChild_error hboot hreach₁ hr hrest
    refine ⟨hout, ?_⟩
    rw [exofork_error (hreach₁.slotIds hboot) hr hasks]
    rcases hout with rfl | rfl
    · exact nofun
    · exact fun h => absurd (Option.some.inj h) (by decide)

/-- **A fork without a child.** In every run of `fork` in which `sys_exofork` fails. -/
theorem fork_never (hboot : b.boot = .ok k₀) (hreach : KernReach (fun _ _ => True) k₀ k) {cowEntry : Nat}
    {out : Option Int} (hrun : (fork cowEntry).Runs (Asks a) k tr out k') (hr : IsError r)
    (hfails : (⟨.syscall .exofork, r⟩ : UserEvent) ∈ tr) :
    (out = none ∨ out = some (-E_BAD_ENV)) ∧ out ≠ some r := by
  cases hrun with
  | @ask _ k₁ _ _ _ entry tr' _ hentry hrest =>
    have hreach₁ := hreach.trans hentry.reach
    have hmem := (List.mem_cons.mp hfails).resolve_left fun h => by cases h
    change (setEntry cowEntry entry >>= fun r => if r ≠ 0 then pure r else forkFrom cowEntry).Runs _ _ _ _ _
      at hrest
    rcases hrest.bind_cases with ⟨x, k₂, tr₁, tr₂, hset, hafter, rfl⟩ | ⟨rfl, hset⟩
    · have hreach₂ := hreach₁.trans (runs_reach hset)
      have hmem₂ := (List.mem_append.mp hmem).resolve_left fun hev =>
        hset.sends (setEntry_sends cowEntry entry) _ hev rfl
      split_ifs at hafter
      · cases hafter
        exact absurd hmem₂ List.not_mem_nil
      · exact forkFrom_error hboot hreach₂ hafter hr hmem₂
    · exact absurd rfl (hset.sends (setEntry_sends cowEntry entry) _ hmem)

-- ---------------------------------------------------------------------------
-- A kernel without ASIDs
-- ---------------------------------------------------------------------------

variable {role₀ role : Nat → Role}

theorem memMap_runs (hcur : k.curenv = some a) (hids : SlotIds k) (hr : IsError r) (va perm : Nat) :
    ∃ (x : Int) (k' : Kernel), Asks a k (.syscall (.memMap 0 va (toWord r) va perm)) x k' ∧ x ≠ 0 := by
  have hids' : SlotIds { k with tf := zeroTrapframe.pastEcall } := hids
  obtain ⟨v, hexec, hv⟩ : ∃ v, (Syscall.memMap 0 va (toWord r) va perm).exec
      { k with tf := zeroTrapframe.pastEcall } a =
        .ok (some v, { k with tf := zeroTrapframe.pastEcall }) ∧ (v = -E_INVAL ∨ v = -E_BAD_ENV) := by
    show ∃ v, sysMemMap _ a 0 va (toWord r) va perm = _ ∧ _
    unfold sysMemMap
    rw [envid2env_self, envid2env_error hids' hr]
    split_ifs
    · exact ⟨_, rfl, Or.inl rfl⟩
    · exact ⟨_, rfl, Or.inr rfl⟩
  obtain ⟨tf, cpu, hasks, -⟩ := Asks.of_exec hcur hexec hcur
  refine ⟨_, _, hasks, ?_⟩
  rcases hv with rfl | rfl <;> decide

theorem duppage_runs (hcur : k.curenv = some a) (hids : SlotIds k) (hr : IsError r) {vpn w : Nat}
    (hload : userLoad k (vpt vpn) = some w) :
    ∃ tr s', (duppage (toWord r) vpn).Runs (Asks a) k tr none s' := by
  have hask : Asks a k (.load (vpt vpn)) w k := .load (Turn.refl hcur) hload
  have hmap : ∀ (perm : Nat) (f : Int → UserM Unit), (∀ x, x ≠ 0 → f x = .abort) →
      ∃ tr s', (syscall (.memMap 0 (vpn * BY2PG) (toWord r) (vpn * BY2PG) perm) >>= f).Runs (Asks a) k
        tr none s' := by
    intro perm f hf
    obtain ⟨x, k₁, hasks, hx⟩ := memMap_runs hcur hids hr (vpn * BY2PG) perm
    have habort : (f x).Runs (Asks a) k₁ [] none k₁ := by
      rw [hf x hx]
      exact .abort k₁
    exact ⟨_, k₁, .request hasks habort⟩
  obtain ⟨tr, s', hrest⟩ : ∃ tr s', (if testFlag (w &&& 0x3FF) PTE_W ∧ ¬ testFlag (w &&& 0x3FF) PTE_COW ∧
      ¬ testFlag (w &&& 0x3FF) PTE_LIBRARY then (do
        let perm := ((w &&& 0x3FF) ^^^ PTE_W) ||| PTE_COW
        panicOn (← syscall (.memMap 0 (vpn * BY2PG) (toWord r) (vpn * BY2PG) perm))
        panicOn (← syscall (.memMap 0 (vpn * BY2PG) 0 (vpn * BY2PG) perm)))
      else do
        panicOn (← syscall (.memMap 0 (vpn * BY2PG) (toWord r) (vpn * BY2PG) (w &&& 0x3FF))) :
        UserM Unit).Runs (Asks a) k tr none s' := by
    split_ifs
    · refine hmap _ _ fun x hx => ?_
      rw [panicOn_ne hx]
      rfl
    · exact hmap _ _ fun x hx => panicOn_ne hx
  exact ⟨_, s', .request hask hrest⟩

/-- With the window open, a round of the loop skips the page or ends in `user_panic`. -/
theorem dupMapped_runs (h : KernelInv b k₀ role₀ k role) (hcur : k.curenv = some a)
    (hopen : k.pm.mem (k.envs a).pgdir (PDX UVPT) ≠ 0) (hids : SlotIds k) (hr : IsError r) {i : Nat}
    (hi : i < 2 ^ 20) :
    ∃ tr s', (dupMapped (toWord r) i).Runs (Asks a) k tr none s' ∨
      s' = k ∧ (dupMapped (toWord r) i).Runs (Asks a) k tr (some ()) s' := by
  have hUV := PDX_UVPT
  have hpdx : PDX (i * BY2PG) = i / 1024 := by
    rw [PDX_eq]
    unfold BY2PG
    omega
  obtain ⟨w, hw⟩ : ∃ w, userLoad k (vpd (PDX (i * BY2PG))) = some w := by
    have hdiv : (PDX UVPT * 1024 + i / 1024) / 1024 = PDX UVPT := by omega
    rw [hpdx, vpd_eq_vpt, h.load_window hcur (by omega) hopen, hdiv, if_pos (copyWord_readable (Or.inl rfl)).1]
    exact ⟨_, rfl⟩
  have hword : w = k.pm.mem (k.envs a).pgdir (i / 1024) := by
    rw [hpdx] at hw
    exact h.load_vpd hcur (by omega) hw
  have hask : Asks a k (.load (vpd (PDX (i * BY2PG)))) w k := .load (Turn.refl hcur) hw
  -- what the first load leads to
  have hrest : ∃ tr s', (if testFlag w PTE_V then (do
        if testFlag (← load (vpt i)) PTE_V then duppage (toWord r) i) else pure () :
      UserM Unit).Runs (Asks a) k tr none s' ∨ s' = k ∧ (if testFlag w PTE_V then (do
        if testFlag (← load (vpt i)) PTE_V then duppage (toWord r) i) else pure () :
      UserM Unit).Runs (Asks a) k tr (some ()) s' := by
    by_cases hV : testFlag w PTE_V = true
    · obtain ⟨v, hv⟩ := Option.isSome_iff_exists.mp (h.load_completes hcur hi hopen (hword ▸ hV))
      have hask' : Asks a k (.load (vpt i)) v k := .load (Turn.refl hcur) hv
      rw [if_pos hV]
      by_cases hVv : testFlag v PTE_V = true
      · obtain ⟨tr, s', hdup⟩ := duppage_runs hcur hids hr hv
        exact ⟨_, s', Or.inl (.request hask' (.ite_pos hVv hdup))⟩
      · exact ⟨_, k, Or.inr ⟨rfl, .request hask' (.ite_neg hVv (.ret k ()))⟩⟩
    · rw [if_neg hV]
      exact ⟨_, k, Or.inr ⟨rfl, .ret k ()⟩⟩
  obtain ⟨tr, s', hrest | ⟨hs, hrest⟩⟩ := hrest
  · exact ⟨_, s', Or.inl (.request hask hrest)⟩
  · exact ⟨_, s', Or.inr ⟨hs, .request hask hrest⟩⟩

/-- Steps 3 and 4 come to an end. -/
theorem forkChild_runs (h : KernelInv b k₀ role₀ k role) (hcur : k.curenv = some a)
    (hopen : k.pm.mem (k.envs a).pgdir (PDX UVPT) ≠ 0) (hids : SlotIds k) (hr : IsError r) (cowEntry : Nat) :
    ∃ tr out k', (forkChild cowEntry (toWord r)).Runs (Asks a) k tr out k' := by
  obtain ⟨tr₁, s₁, hpages⟩ : ∃ tr s', (dupPages (USTACKTOP >>> 12) (toWord r)).Runs (Asks a) k tr none s' ∨
      s' = k ∧ (dupPages (USTACKTOP >>> 12) (toWord r)).Runs (Asks a) k tr (some ()) s' := by
    unfold dupPages
    refine Program.Runs.forM fun i hi => dupMapped_runs h hcur hopen hids hr ?_
    have hlt := List.mem_range.mp hi
    have hU : USTACKTOP >>> 12 < 2 ^ 20 := by decide
    omega
  unfold forkChild
  rcases hpages with hpages | ⟨rfl, hpages⟩
  · exact ⟨tr₁, none, s₁, hpages.bind_abort⟩
  · have hids' : SlotIds { s₁ with tf := zeroTrapframe.pastEcall } := hids
    have hexec : (Syscall.setTlbModEntry (toWord r) cowEntry).exec
        { s₁ with tf := zeroTrapframe.pastEcall } a =
          .ok (some (-E_BAD_ENV), { s₁ with tf := zeroTrapframe.pastEcall }) := by
      show sysSetTlbModEntry _ a (toWord r) cowEntry = _
      unfold sysSetTlbModEntry
      rw [envid2env_error hids' hr]
    obtain ⟨tf, cpu, hasks, -⟩ := Asks.of_exec hcur hexec hcur
    exact ⟨_, _, _, hpages.bind (.request hasks (.ite_pos (by decide) (.ret _ _)))⟩

/-- A load of `vpd` opens the window, if it is not open yet. -/
theorem window_opens (h : KernelOk b k₀ role₀ k) (hb : Booted b k₀ role₀) (hcur : k.curenv = some a)
    (hroom : k.pm.pageFreeList ≠ []) :
    ∃ k' role', Turn a k k' ∧ KernelInv b k₀ role₀ k' role' ∧ k'.pm.mem (k'.envs a).pgdir (PDX UVPT) ≠ 0 := by
  by_cases hopen : k.pm.mem (k.envs a).pgdir (PDX UVPT) = 0
  · obtain ⟨tf, htf⟩ : ∃ tf, tf = { zeroTrapframe with scause := 13, stval := vpt (PDX UVPT * 1024) } := ⟨_, rfl⟩
    have hn : PDX UVPT * 1024 < 2 ^ 20 := by decide
    obtain ⟨role, hinv, -⟩ := h.setTf tf
    have hd : k.curPgdir = (k.envs a).pgdir := (hinv.cur a hcur).2
    obtain ⟨k₁, role₁, hmap, h₁, hcur₁, hopen₁, -⟩ := hinv.mapWindow_ok hb hcur (Or.inr hroom)
    obtain ⟨-, -, hsame, -⟩ := hinv.mapWindow_inv hb hcur hmap
    obtain ⟨hlow, hlo, hhi, hidx⟩ := vpt_page hn
    obtain ⟨ha₁, hd₁⟩ := h₁.cur a hcur₁
    have hV : testFlag (k₁.pm.mem k₁.curPgdir (PDX UVPT)) PTE_V = true := by
      obtain ⟨f, -, -, hwin, -⟩ := (h₁.window a ha₁).resolve_left hopen₁
      rw [hd₁, hwin]
      exact testFlag_V_mkPde f
    have hmiss : doTlbMiss { k with tf := tf } a = .ok k₁ := by
      rw [doTlbMiss_closed hn (by rw [htf]) (by rw [htf]) (by rw [← hd] at hopen; exact hopen)]
      unfold loadFault
      rw [if_neg hlow, if_neg (by omega), hmap, hidx, ok_bind, Nat.mul_div_cancel _ (by decide), if_pos hV]
      rfl
    have hrun : (KernOp.fault tf).run k = .ok (retFromException k₁) := by
      rw [KernOp.run_of_curenv (.fault tf) trivial hcur]
      exact bind_eq_ok.mpr ⟨k₁, hmiss, rfl⟩
    refine ⟨retFromException k₁, role₁, ⟨KernReach.refl.step trivial hrun, hcur₁, ?_⟩, ?_, hopen₁⟩
    · exact congrArg (fun env => env.id) (hsame.other a)
    · exact h₁.congr rfl (fun _ => Iff.rfl) (fun _ _ => rfl) (fun _ _ => rfl) rfl rfl rfl h₁.cur h₁.dst
  · obtain ⟨role, hinv, -⟩ := h
    exact ⟨k, role, .refl hcur, hinv, hopen⟩

/-- `sys_exofork` of the running env, with all ASIDs taken. -/
theorem exofork_noAsid (h : KernelOk b k₀ role₀ k) (hb : Booted b k₀ role₀) (hcur : k.curenv = some a)
    (hfull : ∀ i < NASID, Bitmap.isSet k.asidBitmap i) (hslots : k.envFreeList ≠ [])
    (hroom : 2 ≤ k.pm.pageFreeList.length) :
    ∃ k', Asks a k (.syscall .exofork) (-E_NO_FREE_ENV) k' ∧ KernelOk b k₀ role₀ k' ∧ k'.curenv = some a ∧
      k'.pm.pageFreeList ≠ [] := by
  have hne : k.pm.pageFreeList ≠ [] := by
    rintro hnil
    rw [hnil] at hroom
    exact absurd hroom (by decide)
  obtain ⟨kt, hkt⟩ : ∃ kt : Kernel, kt = { k with tf := zeroTrapframe.pastEcall } := ⟨_, rfl⟩
  obtain ⟨e, rest, hl⟩ := List.exists_cons_of_ne_nil hslots
  obtain ⟨f, pages, hf⟩ := List.exists_cons_of_ne_nil hne
  have halloc : ∃ x, envAlloc kt (kt.envs a).id = (.error (-E_NO_FREE_ENV), envPrepare kt x) := by
    cases hrun : envAlloc kt (kt.envs a).id with
    | mk r k₁ =>
      cases envAlloc_outcome hrun with
      | full hnil =>
        rw [hkt] at hnil
        exact absurd hnil hslots
      | ok _ hlt hclear =>
        rw [hkt] at hclear
        exact absurd (hfull _ hlt) hclear
      | noAsid _ _ => exact ⟨_, rfl⟩
  obtain ⟨x, halloc⟩ := halloc
  have hexec : Syscall.exofork.exec { k with tf := zeroTrapframe.pastEcall } a =
      .ok (some (-E_NO_FREE_ENV), envPrepare kt x) := by
    show sysExofork _ a = _
    rw [← hkt]
    unfold sysExofork
    rw [halloc]
  have hcur₁ : (envPrepare kt x).curenv = some a := by
    rw [envPrepare_eq, hkt]
    exact hcur
  have hfree : (envPrepare kt x).pm.pageFreeList = pages := by
    rw [envPrepare_eq, hkt]
    unfold setupPages
    rw [pageAlloc_cons hf]
    rfl
  obtain ⟨tf, cpu, hasks, hrun⟩ := Asks.of_exec hcur hexec hcur₁
  rw [show toInt (toWord (-E_NO_FREE_ENV)) = -E_NO_FREE_ENV by decide] at hasks
  have hroom' : EnvRoom k := fun _ => hne
  have hok := (h.step hb (show MapSafe k (.syscall zeroTrapframe .exofork) from hroom') hrun).ok
    fun hshare => absurd hshare id
  refine ⟨_, hasks, hok, hcur₁, ?_⟩
  show (envPrepare kt x).pm.pageFreeList ≠ []
  rw [hfree]
  rintro rfl
  rw [hf, List.length_singleton] at hroom
  exact absurd hroom (by decide)

/-- After boot and the creation of 64 envs, the first of them calls `fork`. -/
theorem smallBoot_fork :
    ∃ k₀ k a tr out k', smallBoot.boot = .ok k₀ ∧ KernReach (fun _ _ => True) k₀ k ∧ k.curenv = some a ∧
      (fork UTEXT).Runs (Asks a) k tr out k' ∧
      (⟨.syscall .exofork, (-E_NO_FREE_ENV : Int)⟩ : UserEvent) ∈ tr ∧
      (out = none ∨ out = some (-E_BAD_ENV)) := by
  obtain ⟨k₀, role₀, k, a, l, hboot, hb, hreach, hcur, h, hfull, hslots⟩ := smallBoot_full
  -- the handler was set before
  obtain ⟨k₁, tf₁, cpu₁, hrun₁, hk₁⟩ : ∃ k₁ tf cpu,
      (KernOp.syscall zeroTrapframe (.setTlbModEntry 0 UTEXT)).run k = .ok k₁ ∧
      k₁ = { k.setEnv a fun env => { env with userTlbModEntry := UTEXT } with tf := tf, cpu := cpu } := by
    have hset : (Syscall.setTlbModEntry 0 UTEXT).exec { k with tf := zeroTrapframe.pastEcall } a =
        .ok (some 0, ({ k with tf := zeroTrapframe.pastEcall } : Kernel).setEnv a fun env =>
          { env with userTlbModEntry := UTEXT }) := by
      show sysSetTlbModEntry _ a 0 UTEXT = _
      unfold sysSetTlbModEntry
      rw [envid2env_self]
    obtain ⟨tf₁, cpu₁, -, hrun₁⟩ := Asks.of_exec hcur hset hcur
    exact ⟨_, tf₁, cpu₁, hrun₁, rfl⟩
  have hok₁ : KernelOk smallBoot k₀ role₀ k₁ :=
    (h.ok.step hb (show MapSafe k (.syscall zeroTrapframe (.setTlbModEntry 0 UTEXT)) from trivial) hrun₁).ok
      fun hshare => absurd hshare id
  have hcur₁ : k₁.curenv = some a := by
    rw [hk₁]
    exact hcur
  have hentry : (k₁.envs a).userTlbModEntry = UTEXT := by
    have henvs : k₁.envs = (k.setEnv a fun env => { env with userTlbModEntry := UTEXT }).envs := by rw [hk₁]
    rw [henvs, Kernel.setEnv_self]
  have hreach₁ : KernReach (fun _ _ => True) k₀ k₁ := hreach.step trivial hrun₁
  have hpm₁ : k₁.pm = k.pm := by rw [hk₁]; rfl
  obtain ⟨k₂, hfork, hok₂, hcur₂, hroom₂⟩ := exofork_noAsid hok₁ hb hcur₁ (by rw [hk₁]; exact hfull)
    (by rw [hk₁]; exact hslots) (by rw [hpm₁]; exact Nat.le_trans (by decide) h.room)
  obtain ⟨k₃, role, hturn, hinv, hopen⟩ := window_opens hok₂ hb hcur₂ hroom₂
  have hreach₃ : KernReach (fun _ _ => True) k₀ k₃ := (hreach₁.trans hfork.reach).trans hturn.between
  have hr : IsError (-E_NO_FREE_ENV) := by
    unfold IsError
    decide
  obtain ⟨tr, out, k₄, hchild⟩ := forkChild_runs hinv hturn.cur hopen (hreach₃.slotIds hboot) hr UTEXT
  obtain ⟨k₅, hchild'⟩ := runs_later hturn hchild
  have hask : Asks a k₁ .tlbModEntry UTEXT k₁ := by
    have hasks := Asks.tlbModEntry (Turn.refl hcur₁)
    rw [hentry] at hasks
    exact hasks
  have hwith : (forkWith UTEXT (toWord (-E_NO_FREE_ENV))).Runs (Asks a) k₂ tr out k₅ :=
    .ite_neg (by decide) hchild'
  have hfrom : (forkFrom UTEXT).Runs (Asks a) k₁ (⟨.syscall .exofork, (-E_NO_FREE_ENV : Int)⟩ :: tr) out k₅ :=
    .request hfork hwith
  have hset : (setEntry UTEXT UTEXT).Runs (Asks a) k₁ [] (some 0) k₁ := .ite_neg (by decide) (.ret k₁ 0)
  have hbody : (setEntry UTEXT UTEXT >>= fun r => if r ≠ 0 then pure r else forkFrom UTEXT).Runs (Asks a) k₁
      ([] ++ ⟨.syscall .exofork, (-E_NO_FREE_ENV : Int)⟩ :: tr) out k₅ := hset.bind (.ite_neg (by decide) hfrom)
  exact ⟨k₀, k₁, a, _, out, k₅, hboot, hreach₁, hcur₁, .request hask hbody,
    List.mem_cons_of_mem _ List.mem_cons_self, forkChild_error hboot hreach₃ hr hchild⟩

theorem fork_never_full :
    ∃ (a : Nat) (k k' : Kernel) (tr : List UserEvent) (out : Option Int),
      (fork UTEXT).Runs (Asks a) k tr out k' ∧
      ((out = none ∨ out = some (-E_BAD_ENV)) ∧ out ≠ some (-E_NO_FREE_ENV)) := by
  obtain ⟨k₀, k, a, tr, out, k', hboot, hreach, -, hrun, hfails, -⟩ := smallBoot_fork
  exact ⟨a, k, k', tr, out, hrun, fork_never hboot hreach hrun (by unfold IsError; decide) hfails⟩

/-- **No ASID left.** `sys_exofork` fails, and `fork` does not return its error. -/
theorem fork_panics :
    ∃ k₀ k a tr out k', smallBoot.boot = .ok k₀ ∧ KernReach (fun _ _ => True) k₀ k ∧ k.curenv = some a ∧
      (fork UTEXT).Runs (Asks a) k tr out k' ∧
      (⟨.syscall .exofork, (-E_NO_FREE_ENV : Int)⟩ : UserEvent) ∈ tr ∧ out ≠ some (-E_NO_FREE_ENV) := by
  obtain ⟨k₀, k, a, tr, out, k', hboot, hreach, hcur, hrun, hfails, hout⟩ := smallBoot_fork
  refine ⟨k₀, k, a, tr, out, k', hboot, hreach, hcur, hrun, hfails, ?_⟩
  rcases hout with rfl | rfl
  · exact nofun
  · exact fun heq => absurd (Option.some.inj heq) (by decide)

end Mos.User
