import Mos.Lib.Ahead
import Mos.Kern.Progress
import Mos.Kern.Sched

/-!
# MOS on RISC-V — a runnable env gets its turn

An env that is runnable and does not run is in the queue, and every call of
`schedule` that does not pick it brings its turn nearer: a tick of the env that
runs, or the first of the slices of an env ahead of it. `waitTicks` counts what
is left. The other calls put envs at the tail or take them out.

* `Wait.schedule` — one call of `schedule`.
* `Wait.step` — one step.
* `wait_bounded` — in every run in which an env stays runnable and does not run,
  `schedule` is called at most `waitTicks` times.

Only `env_create` puts an env before those that wait; the kernel creates its envs
before the first of them runs.
-/

namespace Mos.Kern

open Mos.Lib

variable {k k' : Kernel} {e : Nat} {l : List Nat}

-- ---------------------------------------------------------------------------
-- Turns
-- ---------------------------------------------------------------------------

/-- The ticks on which `count` lets the env run on. -/
def ticksLeft (count : Int) : Nat := if count = 0 then 0 else ((count - 1) % 2 ^ 32).toNat + 1

/-- The ticks of a whole slice. -/
def turns (env : Env) : Nat := ticksLeft (countDown (slices env)) + 1

/-- The ticks before the turn of `e` in the queue `l`. -/
def waitTicks (k : Kernel) (e : Nat) (l : List Nat) : Nat :=
  ticksLeft k.schedCount + delay (fun x => turns (k.envs x)) k.curenv e l

theorem ticksLeft_countDown {count : Int} (h : count ≠ 0) :
    ticksLeft (countDown count) + 1 = ticksLeft count := by
  unfold ticksLeft countDown toInt
  rw [if_neg h, Int.bmod_def]
  split_ifs <;> omega

/-- A slice has as many ticks as the priority says. -/
theorem turns_eq {env : Env} (h : 1 ≤ env.pri) (hlt : env.pri < 2 ^ 32) : turns env = env.pri := by
  have hcount : countDown (slices env) = toInt ((env.pri - 1 : Nat) : Int) := countDown_slices rfl h
  unfold turns ticksLeft
  rw [hcount]
  unfold toInt
  rw [Int.bmod_def]
  split_ifs <;> omega

/-- `e` is in the queue, and its turn comes in `n` ticks at the latest. -/
def Wait (e : Nat) (k : Kernel) (n : Nat) : Prop :=
  ∃ l, k.envSchedList.Rep l ∧ e ∈ l ∧ waitTicks k e l ≤ n

/-- What the wait of the queued envs rests on is as before. -/
structure SameWait (k k' : Kernel) : Prop where
  sched : k'.envSchedList = k.envSchedList
  curenv : k'.curenv = k.curenv
  count : k'.schedCount = k.schedCount
  pri : ∀ x, (k.envs x).status = .runnable → (k'.envs x).pri = (k.envs x).pri

theorem turns_congr {env env' : Env} (h : env'.pri = env.pri) : turns env' = turns env := by
  unfold turns slices
  rw [h]

theorem SameWait.of_pageWork (h : PageWork k k') : SameWait k k' where
  sched := h.field Kernel.envSchedList fun _ => rfl
  curenv := h.field Kernel.curenv fun _ => rfl
  count := h.field Kernel.schedCount fun _ => rfl
  pri x _ := h.envField Env.pri (fun _ => rfl) x

/-- The queue of the runnable envs. -/
theorem QueueInv.runnable (h : QueueInv k) (hl : k.envSchedList.Rep l) {x : Nat} :
    x ∈ l ↔ (k.envs x).status = .runnable := by
  obtain ⟨l', hl', hmem⟩ := h.queued.rep
  rw [hl.unique hl']
  exact hmem x

namespace Wait

variable {n : Nat}

theorem same (h : Wait e k n) (hq : QueueInv k) (hs : SameWait k k') : Wait e k' n := by
  obtain ⟨l, hl, he, hn⟩ := h
  refine ⟨l, by rw [hs.sched]; exact hl, he, ?_⟩
  have hdelay : delay (fun x => turns (k'.envs x)) k.curenv e l =
      delay (fun x => turns (k.envs x)) k.curenv e l :=
    delay_congr fun x hx => turns_congr (hs.pri x ((hq.runnable hl).mp hx))
  unfold waitTicks
  rw [hs.count, hs.curenv, hdelay]
  exact hn

/-- An env is linked at the tail. -/
theorem linked (h : Wait e k n) (hq : QueueInv k) {x : Nat} (hx : (k.envs x).status ≠ .runnable)
    (hins : k.envSchedList.insertTail x = some k'.envSchedList) (hcur : k'.curenv = k.curenv)
    (hcount : k'.schedCount = k.schedCount) (hpri : ∀ y, y ≠ x → (k'.envs y).pri = (k.envs y).pri) :
    Wait e k' n := by
  obtain ⟨l, hl, he, hn⟩ := h
  have hxl : x ∉ l := fun hm => hx ((hq.runnable hl).mp hm)
  obtain ⟨q, hins', hrep⟩ := hl.insertTail hxl
  obtain rfl : q = k'.envSchedList := Option.some.inj (hins'.symm.trans hins)
  refine ⟨l ++ [x], hrep, List.mem_append_left [x] he, ?_⟩
  have hdelay : delay (fun y => turns (k'.envs y)) k.curenv e l =
      delay (fun y => turns (k.envs y)) k.curenv e l :=
    delay_congr fun y hy => turns_congr (hpri y fun hyx => hxl (hyx ▸ hy))
  unfold waitTicks
  rw [hcur, hcount, delay_append he, hdelay]
  exact hn

/-- Another env is unlinked; if it ran, nobody does now. -/
theorem unlinked (h : Wait e k n) (hq : QueueInv k) {x : Nat} (hx : (k.envs x).status = .runnable)
    (hne : x ≠ e) (hrem : k.envSchedList.remove x = some k'.envSchedList)
    (hcur : k'.curenv = k.curenv ∨ k.curenv = some x ∧ k'.curenv = none)
    (hcount : k'.schedCount = k.schedCount) (hpri : ∀ y, y ≠ x → (k'.envs y).pri = (k.envs y).pri) :
    Wait e k' n := by
  obtain ⟨l, hl, he, hn⟩ := h
  obtain ⟨q, hrem', hrep⟩ := hl.remove ((hq.runnable hl).mpr hx)
  obtain rfl : q = k'.envSchedList := Option.some.inj (hrem'.symm.trans hrem)
  have he' : e ∈ l.erase x := (List.mem_erase_of_ne (Ne.symm hne)).mpr he
  refine ⟨l.erase x, hrep, he', ?_⟩
  have hdelay : delay (fun y => turns (k'.envs y)) k'.curenv e (l.erase x) =
      delay (fun y => turns (k.envs y)) k'.curenv e (l.erase x) :=
    delay_congr fun y hy => turns_congr (hpri y (hl.nodup.mem_erase_iff.mp hy).1)
  have hle : delay (fun y => turns (k.envs y)) k'.curenv e (l.erase x) ≤
      delay (fun y => turns (k.envs y)) k.curenv e l := by
    rcases hcur with hcur | ⟨hcur, hnone⟩
    · rw [hcur]
      exact delay_erase_le hne
    · rw [hcur, hnone, delay_rotate hl.nodup he hne, delay_append he']
  unfold waitTicks at hn ⊢
  rw [hcount, hdelay]
  omega

theorem mono {m : Nat} (h : Wait e k n) (hnm : n ≤ m) : Wait e k m := by
  obtain ⟨l, hl, he, hn⟩ := h
  exact ⟨l, hl, he, hn.trans hnm⟩

end Wait

-- ---------------------------------------------------------------------------
-- The scheduler
-- ---------------------------------------------------------------------------

theorem keepRunning_some {yield : Bool} {c : Nat} (h : keepRunning k yield = some c) :
    k.curenv = some c ∧ k.schedCount ≠ 0 ∧ (k.envs c).status = .runnable := by
  unfold keepRunning at h
  cases hc : k.curenv with
  | none => simp [hc] at h
  | some c' =>
    simp only [hc] at h
    split_ifs at h with hstop
    obtain rfl := Option.some.inj h
    simp only [not_or, not_not] at hstop
    exact ⟨rfl, hstop.2⟩

/-- A runnable `curenv` goes to the tail. -/
theorem requeue_rep (hq : QueueInv k) (hl : k.envSchedList.Rep l) :
    ∃ k₂ l₂, requeue k = .ok k₂ ∧ k₂.envSchedList.Rep l₂ ∧
      ((∀ x ∈ l, k.curenv ≠ some x) ∧ l₂ = l ∨
        ∃ c ∈ l, k.curenv = some c ∧ l₂ = l.erase c ++ [c]) := by
  unfold requeue
  cases hc : k.curenv with
  | none => exact ⟨k, l, rfl, hl, Or.inl ⟨by simp, rfl⟩⟩
  | some c =>
    simp only
    split_ifs with hst
    · have hmem : c ∈ l := (hq.runnable hl).mpr hst
      have hnot : c ∉ l.erase c := hl.nodup.not_mem_erase
      obtain ⟨q, hrem, hrep⟩ := tailqRemove_rep hl hmem
      obtain ⟨q', hins, hrep'⟩ := tailqInsertTail_rep (k := k.withQueue .remove c q) hrep hnot
      exact ⟨_, _, bind_eq_ok.mpr ⟨_, hrem, hins⟩, hrep', Or.inr ⟨c, hmem, rfl, rfl⟩⟩
    · refine ⟨k, l, rfl, hl, Or.inl ⟨fun x hx heq => ?_, rfl⟩⟩
      obtain rfl := Option.some.inj heq
      exact hst ((hq.runnable hl).mp hx)

/-- Those that wait already do not wait longer. -/
theorem requeue_delay (hq : QueueInv k) (hl : k.envSchedList.Rep l) (he : e ∈ l)
    (hcur : k.curenv ≠ some e) (w : Nat → Nat) :
    ∃ k₂ l₂, requeue k = .ok k₂ ∧ k₂.envSchedList.Rep l₂ ∧ e ∈ l₂ ∧
      delay w none e l₂ = delay w k.curenv e l := by
  obtain ⟨k₂, l₂, hreq, hl₂, ⟨hnone, rfl⟩ | ⟨c, -, hc, rfl⟩⟩ := requeue_rep hq hl
  · exact ⟨k₂, l₂, hreq, hl₂, he, (delay_skip_notMem hnone).symm⟩
  · have hce : c ≠ e := fun h => hcur (hc.trans (congrArg some h))
    refine ⟨k₂, _, hreq, hl₂, ?_, ?_⟩
    · exact List.mem_append_left _ ((List.mem_erase_of_ne (Ne.symm hce)).mpr he)
    · rw [hc, delay_rotate hl.nodup he hce]

/-- The env that runs has another tick of its slice. -/
theorem Wait.keep {n c : Nat} (h : Wait e k n) (hc : k.curenv = some c) (hcount : k.schedCount ≠ 0)
    (hst : (k.envs c).status = .runnable)
    (hrun : envRun { k with schedCount := countDown k.schedCount } c = .ok k') :
    ∃ m, n = m + 1 ∧ Wait e k' m := by
  obtain ⟨l, hl, he, hn⟩ := h
  obtain ⟨k'', hk'', hsame, hcur', hsched, hcount', -⟩ :=
    envRun_turn (e := c) (k := { k with schedCount := countDown k.schedCount }) hst
  obtain rfl : k'' = k' := Except.ok.inj (hk''.symm.trans hrun)
  have hdelay : delay (fun x => turns (k''.envs x)) (some c) e l =
      delay (fun x => turns (k.envs x)) (some c) e l :=
    delay_congr fun x _ => turns_congr (hsame.pri x)
  have hleft := ticksLeft_countDown hcount
  unfold waitTicks at hn
  rw [hc] at hn
  dsimp only at hcount'
  refine ⟨n - 1, by omega, l, by rw [hsched]; exact hl, he, ?_⟩
  unfold waitTicks
  rw [hcount', hcur', hdelay]
  omega

/-- The first of the queue begins its slice. -/
theorem Wait.slice {f : Nat} (hl : k.envSchedList.Rep (f :: l)) (he : e ∈ f :: l)
    (hst : (k.envs f).status = .runnable)
    (hrun : envRun { k with schedCount := countDown (slices (k.envs f)) } f = .ok k')
    (hne : k'.curenv ≠ some e) :
    ∃ m, delay (fun x => turns (k.envs x)) none e (f :: l) = m + 1 ∧ Wait e k' m := by
  obtain ⟨k'', hk'', hsame, hcur', hsched, hcount', -⟩ :=
    envRun_turn (e := f) (k := { k with schedCount := countDown (slices (k.envs f)) }) hst
  obtain rfl : k'' = k' := Except.ok.inj (hk''.symm.trans hrun)
  have hfe : f ≠ e := fun h => hne (hcur'.trans (congrArg some h))
  have hdelay : delay (fun x => turns (k''.envs x)) (some f) e (f :: l) =
      delay (fun x => turns (k.envs x)) (some f) e (f :: l) :=
    delay_congr fun x _ => turns_congr (hsame.pri x)
  have hhead := delay_head (w := fun x => turns (k.envs x)) hl.nodup hfe
  dsimp only at hcount'
  refine ⟨_, ?_, f :: l, by rw [hsched]; exact hl, he, Nat.le_refl _⟩
  unfold waitTicks
  rw [hcount', hcur', hdelay, hhead]
  unfold turns
  exact Nat.add_right_comm _ _ _

/-- A call of `schedule` that does not pick `e` brings its turn nearer. -/
theorem Wait.schedule {n : Nat} (h : Wait e k n) (hq : QueueInv k) (hcur : k.curenv ≠ some e)
    {yield : Bool} (hrun : schedule k yield = .ok k') (hne : k'.curenv ≠ some e) :
    ∃ m, n = m + 1 ∧ Wait e k' m := by
  unfold Mos.Kern.schedule at hrun
  obtain ⟨disk, -, hrun⟩ := bind_eq_ok.mp hrun
  have hq₁ : QueueInv { k with disk := disk } := hq.congr (fun _ => rfl) rfl rfl rfl rfl
  have h₁ : Wait e { k with disk := disk } n := h
  have hcur₁ : ({ k with disk := disk } : Kernel).curenv ≠ some e := hcur
  -- the disk does not matter from here on
  generalize { k with disk := disk } = k₁ at hrun hq₁ h₁ hcur₁
  cases hkeep : keepRunning k₁ yield with
  | some c =>
    simp only [hkeep] at hrun
    obtain ⟨hc, hcount, hst⟩ := keepRunning_some hkeep
    exact h₁.keep hc hcount hst hrun
  | none =>
    simp only [hkeep] at hrun
    obtain ⟨l, hl, he, hn⟩ := h₁
    obtain ⟨k₂, l₂, hreq, hl₂, he₂, hdelay⟩ :=
      requeue_delay hq₁ hl he hcur₁ fun x => turns (k₁.envs x)
    rw [hreq, ok_bind] at hrun
    have henvs : k₂.envs = k₁.envs := by
      obtain ⟨q, log, rfl⟩ := requeue_eq hreq
      rfl
    obtain ⟨f, r, rfl⟩ := List.exists_cons_of_ne_nil (List.ne_nil_of_mem he₂)
    have hst : (k₂.envs f).status = .runnable :=
      ((hq₁.requeue_keeps.post _ hreq).runnable hl₂).mp List.mem_cons_self
    simp only [hl₂.first_eq, List.head?_cons] at hrun
    obtain ⟨m, hm, l', hl', he', hn'⟩ := Wait.slice hl₂ he₂ hst hrun hne
    rw [henvs, hdelay] at hm
    unfold waitTicks at hn
    exact ⟨n - 1, by omega, l', hl', he', by omega⟩

-- ---------------------------------------------------------------------------
-- System calls
-- ---------------------------------------------------------------------------

theorem tailqRemove_inv {x : Nat} (h : tailqRemove k x = .ok k') :
    ∃ q, k.envSchedList.remove x = some q ∧ k' = k.withQueue .remove x q := by
  unfold tailqRemove at h
  split at h
  · cases h
  · rename_i q hq
    exact ⟨q, hq, (Except.ok.inj h).symm⟩

theorem tailqInsertTail_inv {x : Nat} (h : tailqInsertTail k x = .ok k') :
    ∃ q, k.envSchedList.insertTail x = some q ∧ k' = k.withQueue .insert x q := by
  unfold tailqInsertTail at h
  split at h
  · cases h
  · rename_i q hq
    exact ⟨q, hq, (Except.ok.inj h).symm⟩

section

variable {n cur : Nat} {r : Option Int}

/-- An env that is not runnable may change. -/
theorem SameWait.update {x : Nat} (hx : (k.envs x).status ≠ .runnable)
    (hsched : k'.envSchedList = k.envSchedList) (hcur : k'.curenv = k.curenv)
    (hcount : k'.schedCount = k.schedCount) (henv : ∀ y, y ≠ x → k'.envs y = k.envs y) :
    SameWait k k' := by
  refine ⟨hsched, hcur, hcount, fun y hy => ?_⟩
  have hyx : y ≠ x := fun h => hx (h ▸ hy)
  rw [henv y hyx]

theorem sysExofork_sameWait (hq : QueueInv k) (hrun : sysExofork k cur = .ok (r, k')) :
    SameWait k k' := by
  have hfree : ∀ x rest, k.envFreeList = x :: rest → (k.envs x).status ≠ .runnable := by
    intro x rest hl hrun
    have hst := hq.freeStatus x (hl ▸ List.mem_cons_self)
    rw [hst] at hrun
    cases hrun
  rcases sysExofork_cases hrun with ⟨m, ha, -⟩ | ⟨x, k₁, tf, ha, -, rfl⟩
  · generalize hm : (Except.error m : Except Int Nat) = res at ha
    cases envAlloc_outcome ha with
    | full => exact ⟨rfl, rfl, rfl, fun _ _ => rfl⟩
    | noAsid hl hnone =>
      rw [envPrepare_eq]
      exact .update (hfree _ _ hl) rfl rfl rfl fun y hy => Function.update_of_ne hy ..
    | ok => cases hm
  · obtain ⟨rest, asid, hl, -, -, rfl⟩ := envAlloc_given ha
    refine .update (hfree _ _ hl) rfl rfl rfl fun y hy => ?_
    rw [Kernel.setEnv_of_ne _ _ _ hy]
    exact Function.update_of_ne hy ..

/-- An env keeps its place when another field changes. -/
theorem SameWait.setEnv (k : Kernel) (x : Nat) {f : Env → Env} (hf : (f (k.envs x)).pri = (k.envs x).pri) :
    SameWait k (k.setEnv x f) := by
  refine ⟨rfl, rfl, rfl, fun y _ => ?_⟩
  by_cases hy : y = x
  · rw [hy, Kernel.setEnv_self, hf]
  · rw [Kernel.setEnv_of_ne _ _ _ hy]

theorem Wait.sysSetEnvStatus (h : Wait e k n) (hq : QueueInv k) {envid status : Nat}
    (hcur : k.curenv = some cur) (hrun : sysSetEnvStatus k cur envid status = .ok (r, k'))
    (he : (k'.envs e).status = .runnable) : Wait e k' n := by
  unfold Mos.Kern.sysSetEnvStatus at hrun
  split at hrun
  · cases hrun
    exact h
  rename_i st hst
  split at hrun
  · cases hrun
    exact h
  rename_i x hx
  have hlive := hq.envid2env_live hcur hx
  have hother : ∀ (k₁ : Kernel) y, y ≠ x →
      (k₁.setEnv x fun env => { env with status := st }).envs y = k₁.envs y :=
    fun k₁ y hy => Kernel.setEnv_of_ne _ _ _ hy
  split_ifs at hrun with hne hrunnable
  · obtain ⟨k₁, hk₁, hdone⟩ := bind_eq_ok.mp hrun
    cases hdone
    obtain ⟨q, hins, rfl⟩ := tailqInsertTail_inv hk₁
    rw [hrunnable] at hne
    exact h.linked hq hne hins rfl rfl fun y hy => congrArg Env.pri (hother _ y hy)
  · obtain ⟨k₁, hk₁, hdone⟩ := bind_eq_ok.mp hrun
    cases hdone
    obtain ⟨q, hrem, rfl⟩ := tailqRemove_inv hk₁
    have hxrun : (k.envs x).status = .runnable := by
      have hnot := statusOfNat_ne_free hst
      cases hs : (k.envs x).status with
      | free => exact absurd hs hlive
      | runnable => rfl
      | notRunnable =>
        cases st with
        | free => exact absurd rfl hnot
        | runnable => exact absurd rfl hrunnable
        | notRunnable => exact absurd hs hne
    have hxe : x ≠ e := by
      rintro rfl
      rw [Kernel.setEnv_self] at he
      exact hrunnable he
    exact h.unlinked hq hxrun hxe hrem (Or.inl rfl) rfl fun y hy =>
      congrArg Env.pri (hother _ y hy)
  · cases hrun
    exact h.same hq (SameWait.setEnv k x rfl)

/-- A receiver that blocks leaves the queue, and `schedule` picks another env. -/
theorem Wait.sysIpcRecv (h : Wait e k n) (hq : QueueInv k) {dstva : Nat} (hcur : k.curenv = some cur)
    (hsafe : (dstva = 0 ∨ isIllegalVa dstva = false) → (k.envs cur).status = .runnable)
    (hne : k.curenv ≠ some e) (hrun : sysIpcRecv k cur dstva = .ok (r, k'))
    (hne' : k'.curenv ≠ some e) : Wait e k' n := by
  have hce : cur ≠ e := fun h => hne (hcur.trans (congrArg some h))
  unfold Mos.Kern.sysIpcRecv at hrun
  split_ifs at hrun with hbad
  · cases hrun
    exact h
  · have hst : (k.envs cur).status = .runnable := by
      refine hsafe ?_
      by_contra hlegal
      simp only [not_or, Bool.not_eq_false] at hlegal
      exact hbad hlegal
    obtain ⟨q, hq', hinv⟩ := hq.unlink hst (f := fun env =>
      { env with ipcRecving := 1, ipcDstva := dstva, status := .notRunnable }) rfl
    obtain ⟨k₁, hk₁, hrun⟩ := bind_eq_ok.mp hrun
    obtain ⟨k₂, hsched, hdone⟩ := bind_eq_ok.mp hrun
    cases hdone
    rw [QueueInv.tailqRemove_setEnv _ hq'] at hk₁
    obtain rfl := Except.ok.inj hk₁
    obtain ⟨q', hrem, heq⟩ := tailqRemove_inv hq'
    obtain rfl : q = q' := congrArg Kernel.envSchedList heq
    have h₁ : Wait e ((k.withQueue .remove cur q).setEnv cur fun env =>
        { env with ipcRecving := 1, ipcDstva := dstva, status := .notRunnable }) n :=
      h.unlinked hq hst hce hrem (Or.inl rfl) rfl fun y hy =>
        congrArg Env.pri (Kernel.setEnv_of_ne _ _ _ hy)
    have hcur₁ : ((k.withQueue .remove cur q).setEnv cur fun env =>
        { env with ipcRecving := 1, ipcDstva := dstva, status := .notRunnable }).curenv ≠ some e := hne
    generalize (k.withQueue .remove cur q).setEnv cur _ = k₁ at hinv h₁ hcur₁ hsched
    have hinv' : QueueInv { k₁ with tf := { k₁.tf with regs := Function.update k₁.tf.regs 10 0 } } :=
      hinv.congr (fun _ => rfl) rfl rfl rfl rfl
    have h₂ : Wait e { k₁ with tf := { k₁.tf with regs := Function.update k₁.tf.regs 10 0 } } n := h₁
    obtain ⟨m, rfl, hm⟩ := h₂.schedule hinv' hcur₁ hsched hne'
    exact hm.mono (Nat.le_succ m)

theorem Wait.sysIpcTrySend (h : Wait e k n) (hq : QueueInv k) {envid value srcva perm : Nat}
    (hsafe : ∀ x, (srcva = 0 ∨ isIllegalVa srcva = false) → envid2env k cur envid false = .ok x →
      (k.envs x).ipcRecving ≠ 0 → (k.envs x).status ≠ .runnable)
    (hrun : sysIpcTrySend k cur envid value srcva perm = .ok (r, k')) : Wait e k' n := by
  by_cases hbad : srcva ≠ 0 ∧ isIllegalVa srcva
  · unfold Mos.Kern.sysIpcTrySend at hrun
    rw [if_pos hbad] at hrun
    cases hrun
    exact h
  · have hlegal : srcva = 0 ∨ isIllegalVa srcva = false := by
      by_contra hno
      simp only [not_or, Bool.not_eq_false] at hno
      exact hbad hno
    rcases sysIpcTrySend_cases hrun with rfl | ⟨x, k₁, hx, hrecv, hdel, hend⟩
    · exact h
    · obtain ⟨q, hins, hk₁⟩ := tailqInsertTail_inv hdel
      have h₁ : Wait e k₁ n := by
        rw [hk₁]
        refine h.linked hq (hsafe x hlegal hx hrecv) hins rfl rfl fun y hy => ?_
        exact congrArg Env.pri (Function.update_of_ne hy ..)
      rcases hend with rfl | ⟨pp, p, r', pm', -, -, -, -, -, rfl⟩
      · exact h₁
      · exact h₁

theorem Wait.sysEnvDestroy (h : Wait e k n) (hq : QueueInv k) {envid : Nat}
    (hsafe : ∀ x, envid2env k cur envid true = .ok x → (k.envs x).status = .runnable)
    (hne : k.curenv ≠ some e) (hrun : sysEnvDestroy k cur envid = .ok (r, k'))
    (he : (k'.envs e).status = .runnable) (hne' : k'.curenv ≠ some e) : Wait e k' n := by
  rcases sysEnvDestroy_cases hrun with ⟨rfl, -⟩ | ⟨x, k₁, hx, hfree, hend⟩
  · exact h
  · have hst := hsafe x hx
    obtain ⟨hinv, hcur₁, -⟩ := (hq.envFree_keeps hst).post _ hfree
    obtain ⟨pm, -, hrem⟩ := bind_eq_ok.mp hfree
    obtain ⟨q, hq', hk₁⟩ := tailqRemove_inv hrem
    have hx₁ : (k₁.envs x).status = .free := by
      rw [hk₁]
      show (Function.update k.envs x { k.envs x with status := .free } x).status = .free
      rw [Function.update_self]
    have hpri : ∀ y, y ≠ x → (k₁.envs y).pri = (k.envs y).pri := by
      intro y hy
      rw [hk₁]
      exact congrArg Env.pri (Function.update_of_ne hy ..)
    have hcount : k₁.schedCount = k.schedCount := by
      rw [hk₁]
      rfl
    have hsched : k.envSchedList.remove x = some k₁.envSchedList := by
      rw [hk₁]
      exact hq'
    rcases hend with ⟨hother, rfl⟩ | ⟨hself, hsched'⟩
    · have hxe : x ≠ e := by
        rintro rfl
        rw [hx₁] at he
        cases he
      exact h.unlinked hq hst hxe hsched (Or.inl hcur₁) hcount hpri
    · have hself' : k.curenv = some x := hcur₁ ▸ hself
      have hxe : x ≠ e := fun h => hne (hself'.trans (congrArg some h))
      have h₁ : Wait e { k₁ with curenv := none } n :=
        h.unlinked hq hst hxe hsched (Or.inr ⟨hself', rfl⟩) hcount hpri
      obtain ⟨m, rfl, hm⟩ := h₁.schedule hinv (by simp) hsched' hne'
      exact hm.mono (Nat.le_succ m)

/-- A system call that does not run `e`. -/
theorem Wait.exec (h : Wait e k n) (hq : QueueInv k) (hcur : k.curenv = some cur) (tf : Trapframe)
    {s : Syscall} (hsafe : QueueSafe k (.syscall tf s)) (hne : k.curenv ≠ some e)
    (hrun : s.exec k cur = .ok (r, k')) (he : (k'.envs e).status = .runnable)
    (hne' : k'.curenv ≠ some e) : Wait e k' n := by
  cases s with
  | putchar _ | getenvid | cgetc _ =>
    cases hrun
    exact h
  | printCons s num =>
    change sysPrintCons k cur s num = _ at hrun
    unfold sysPrintCons at hrun
    split_ifs at hrun
    · cases hrun
      exact h
    · obtain ⟨⟨bs, k₁⟩, hload, hdone⟩ := bind_eq_ok.mp hrun
      cases hdone
      exact h.same hq (.of_pageWork ((kernelLoads_keeps k cur s num).post _ hload))
  | yield =>
    obtain ⟨k₁, hsched, hdone⟩ := bind_eq_ok.mp hrun
    cases hdone
    obtain ⟨m, rfl, hm⟩ := h.schedule hq hne hsched hne'
    exact hm.mono (Nat.le_succ m)
  | envDestroy envid => exact h.sysEnvDestroy hq (fun x => hsafe cur x hcur) hne hrun he hne'
  | setTlbModEntry envid func =>
    change sysSetTlbModEntry k cur envid func = _ at hrun
    unfold sysSetTlbModEntry at hrun
    split at hrun
    · cases hrun
      exact h
    · cases hrun
      exact h.same hq (SameWait.setEnv k _ rfl)
  | memAlloc envid va perm =>
    rcases sysMemAlloc_cases hrun with rfl | ⟨_, _, _, _, _, -, -, -, -, -, rfl⟩
    · exact h
    · exact h.same hq ⟨rfl, rfl, rfl, fun _ _ => rfl⟩
  | memMap srcid srcva dstid dstva perm =>
    rcases sysMemMap_cases hrun with rfl | ⟨_, _, _, _, _, _, -, -, -, -, -, -, -, rfl⟩
    · exact h
    · exact h.same hq ⟨rfl, rfl, rfl, fun _ _ => rfl⟩
  | memUnmap envid va =>
    rcases sysMemUnmap_cases hrun with rfl | ⟨_, _, -, -, -, -, rfl⟩
    · exact h
    · exact h.same hq ⟨rfl, rfl, rfl, fun _ _ => rfl⟩
  | exofork => exact h.same hq (sysExofork_sameWait hq hrun)
  | setEnvStatus envid status => exact h.sysSetEnvStatus hq hcur hrun he
  | setTrapframe envid va =>
    rcases sysSetTrapframe_cases hrun with rfl | ⟨x, bs, k₁, tf', -, hload, hend⟩
    · exact h
    · have hsame : SameWait k k₁ := .of_pageWork ((kernelLoads_keeps k cur va _).post _ hload)
      rcases hend with rfl | rfl
      · exact h.same hq ⟨hsame.sched, hsame.curenv, hsame.count, hsame.pri⟩
      · have hset := SameWait.setEnv k₁ x (f := fun env => { env with tf := tf' }) rfl
        refine h.same hq ⟨hsame.sched, hsame.curenv, hsame.count, fun y hy => ?_⟩
        have hst : (k₁.envs y).status = .runnable := by
          rw [(QueueInv.SameQueue.of_pageWork ((kernelLoads_keeps k cur va _).post _ hload)).status]
          exact hy
        exact (hset.pri y hst).trans (hsame.pri y hy)
  | panic => cases hrun
  | ipcTrySend envid value srcva perm =>
    exact h.sysIpcTrySend hq (fun x => hsafe cur x hcur) hrun
  | ipcRecv dstva => exact h.sysIpcRecv hq hcur (hsafe cur hcur) hne hrun hne'
  | devReq dev req =>
    obtain ⟨disk, rfl⟩ := sysDevReq_cases hrun
    exact h.same hq ⟨rfl, rfl, rfl, fun _ _ => rfl⟩

end

-- ---------------------------------------------------------------------------
-- Steps and runs
-- ---------------------------------------------------------------------------

/-- The steps that ask the scheduler whatever they find. -/
def KernOp.Asks : KernOp → Prop
  | .tick _ | .syscall _ .yield => True
  | _ => False

def KernOp.Creates : KernOp → Prop
  | .create .. => True
  | _ => False

/-- **Step lemma.** A step that does not run the waiting env `e` lets it wait no
longer; one that asks the scheduler brings its turn nearer. -/
theorem Wait.step {n : Nat} (h : Wait e k n) (hq : QueueInv k) {op : KernOp} (hsafe : QueueSafe k op)
    (hop : ¬ op.Creates) (hne : k.curenv ≠ some e) (hrun : op.run k = .ok k')
    (he : (k'.envs e).status = .runnable) (hne' : k'.curenv ≠ some e) :
    Wait e k' n ∧ (op.Asks → ∃ m, n = m + 1 ∧ Wait e k' m) := by
  cases op with
  | create binary priority => exact absurd trivial hop
  | device disk =>
    cases hrun
    exact ⟨h, False.elim⟩
  | tick tf =>
    have hq₁ : QueueInv { k with tf := tf } := hq.congr (fun _ => rfl) rfl rfl rfl rfl
    have h₁ : Wait e { k with tf := tf } n := h
    obtain ⟨m, rfl, hm⟩ := h₁.schedule hq₁ hne hrun hne'
    exact ⟨hm.mono (Nat.le_succ m), fun _ => ⟨m, rfl, hm⟩⟩
  | fault tf =>
    obtain ⟨cur, k₁, cpu, hcur, hmiss, rfl⟩ := run_fault hrun
    have hsame : SameWait { k with tf := tf } k₁ := .of_pageWork ((doTlbMiss_keeps _ cur).post _ hmiss)
    exact ⟨h.same hq ⟨hsame.sched, hsame.curenv, hsame.count, hsame.pri⟩, False.elim⟩
  | store va b =>
    obtain ⟨cur, -, rfl⟩ := run_store hrun
    exact ⟨h.same hq (.of_pageWork (userStore_pageWork k va b)), False.elim⟩
  | syscall tf s =>
    obtain ⟨cur, tf₁, r, k₁, tf₂, cpu, hcur, hexec, rfl⟩ := run_syscall hrun
    have hq₁ : QueueInv { k with tf := tf₁ } := hq.congr (fun _ => rfl) rfl rfl rfl rfl
    have h₁ : Wait e { k with tf := tf₁ } n := h
    have hsafe₁ : QueueSafe { k with tf := tf₁ } (.syscall tf s) := by
      cases s <;> exact hsafe
    have hend : Wait e k₁ n := h₁.exec hq₁ hcur tf hsafe₁ hne hexec he hne'
    refine ⟨hend, ?_⟩
    intro hasks
    cases s with
    | yield =>
      obtain ⟨k₂, hsched, hdone⟩ := bind_eq_ok.mp hexec
      cases hdone
      obtain ⟨m, rfl, hm⟩ := h₁.schedule hq₁ hne hsched hne'
      exact ⟨m, rfl, hm⟩
    | _ => exact hasks.elim

/-- The runs from `k` that create no env and in which `e` stays runnable and is
not run; `n` steps of the run ask the scheduler. -/
inductive Waits (e : Nat) (k : Kernel) : Nat → Kernel → Prop where
  | refl : Waits e k 0 k
  | step {n : Nat} {k₁ k₂ : Kernel} {op : KernOp} : Waits e k n k₁ → QueueSafe k₁ op → ¬ op.Creates →
      ¬ op.Asks → op.run k₁ = .ok k₂ → (k₂.envs e).status = .runnable → k₂.curenv ≠ some e →
      Waits e k n k₂
  | ask {n : Nat} {k₁ k₂ : Kernel} {op : KernOp} : Waits e k n k₁ → QueueSafe k₁ op → op.Asks →
      op.run k₁ = .ok k₂ → (k₂.envs e).status = .runnable → k₂.curenv ≠ some e → Waits e k (n + 1) k₂

theorem KernOp.Asks.not_creates {op : KernOp} (h : op.Asks) : ¬ op.Creates := by
  cases op with
  | create binary priority => exact h.elim
  | _ => exact id

/-- **Run lemma.** -/
theorem Waits.wait {n m : Nat} (h : Waits e k n k') (hq : QueueInv k) (hw : Wait e k m)
    (hne : k.curenv ≠ some e) :
    n ≤ m ∧ Wait e k' (m - n) ∧ QueueInv k' ∧ k'.curenv ≠ some e := by
  induction h with
  | refl => exact ⟨Nat.zero_le m, hw, hq, hne⟩
  | step _ hsafe hop _ hrun he hne' ih =>
    obtain ⟨hle, hw₁, hq₁, hne₁⟩ := ih
    exact ⟨hle, (hw₁.step hq₁ hsafe hop hne₁ hrun he hne').1, (hq₁.step _ hsafe).post _ hrun, hne'⟩
  | @ask j _ _ _ _ hsafe hasks hrun he hne' ih =>
    obtain ⟨hle, hw₁, hq₁, hne₁⟩ := ih
    obtain ⟨p, hp, hw₂⟩ := (hw₁.step hq₁ hsafe hasks.not_creates hne₁ hrun he hne').2 hasks
    obtain rfl : p = m - (j + 1) := by omega
    exact ⟨by omega, hw₂, (hq₁.step _ hsafe).post _ hrun, hne'⟩

/-- With a runnable env in the queue, `schedule` stops only if `virtio_disk_intr` does. -/
theorem schedule_total (hq : QueueInv k) (hl : k.envSchedList.Rep l) (he : e ∈ l) {disk : Vring}
    (hdisk : virtioDiskIntr k.disk = .ok disk) (yield : Bool) : ∃ k', schedule k yield = .ok k' := by
  unfold Mos.Kern.schedule
  rw [hdisk, ok_bind]
  have hq₁ : QueueInv { k with disk := disk } := hq.congr (fun _ => rfl) rfl rfl rfl rfl
  have hl₁ : ({ k with disk := disk } : Kernel).envSchedList.Rep l := hl
  generalize { k with disk := disk } = k₁ at hq₁ hl₁
  simp only
  cases hkeep : keepRunning k₁ yield with
  | some c =>
    obtain ⟨-, -, hst⟩ := keepRunning_some hkeep
    obtain ⟨k', hk', -⟩ :=
      envRun_turn (k := { k₁ with schedCount := countDown k₁.schedCount }) (e := c) hst
    exact ⟨k', hk'⟩
  | none =>
    obtain ⟨k₂, l₂, hreq, hl₂, hmove⟩ := requeue_rep hq₁ hl₁
    have he₂ : e ∈ l₂ := by
      obtain ⟨-, rfl⟩ | ⟨c, -, -, rfl⟩ := hmove
      · exact he
      · rw [List.mem_append, List.mem_singleton, hl.nodup.mem_erase_iff]
        by_cases hec : e = c
        · exact Or.inr hec
        · exact Or.inl ⟨hec, he⟩
    obtain ⟨f, r, rfl⟩ := List.exists_cons_of_ne_nil (List.ne_nil_of_mem he₂)
    have hst : (k₂.envs f).status = .runnable :=
      ((hq₁.requeue_keeps.post _ hreq).runnable hl₂).mp List.mem_cons_self
    rw [hreq, ok_bind, hl₂.first_eq]
    obtain ⟨k', hk', -⟩ :=
      envRun_turn (k := { k₂ with schedCount := countDown (slices (k₂.envs f)) }) (e := f) hst
    exact ⟨k', hk'⟩

/-- **A runnable env gets its turn.** From boot on, while an env waits in the queue
and no env is created, the scheduler is asked at most `waitTicks` times: what is left
of the slice that runs, and one slice for each env ahead. The next tick goes through,
unless `virtio_disk_intr` stops, and when the count is used up it runs the env. -/
theorem wait_bounded {k₀ : Kernel} {n : Nat} (b : BootState) (hboot : b.boot = .ok k₀)
    (hreach : KernReach QueueSafe k₀ k) (hl : k.envSchedList.Rep l) (he : e ∈ l)
    (hne : k.curenv ≠ some e) (hrun : Waits e k n k') :
    n ≤ waitTicks k e l ∧ ∀ tf disk, virtioDiskIntr k'.disk = .ok disk →
      ∃ k'', (KernOp.tick tf).run k' = .ok k'' ∧ (k''.curenv = some e ∨ n < waitTicks k e l) := by
  have hq := hreach.queueInv (envInit_queueInv hboot)
  obtain ⟨hle, hw, hq', hne'⟩ := hrun.wait hq ⟨l, hl, he, Nat.le_refl _⟩ hne
  refine ⟨hle, fun tf disk hdisk => ?_⟩
  have hq₁ : QueueInv { k' with tf := tf } := hq'.congr (fun _ => rfl) rfl rfl rfl rfl
  obtain ⟨l', hl', he', -⟩ := id hw
  obtain ⟨k'', hk''⟩ := schedule_total (k := { k' with tf := tf }) hq₁ hl' he' hdisk false
  refine ⟨k'', hk'', ?_⟩
  by_cases hc : k''.curenv = some e
  · exact Or.inl hc
  · have hw₁ : Wait e { k' with tf := tf } (waitTicks k e l - n) := hw
    obtain ⟨m, hm, -⟩ := hw₁.schedule hq₁ hne' hk'' hc
    exact Or.inr (by omega)

/-- `c` forks a child and makes it runnable. -/
theorem InOrder.spawn {b : BootState} {k₀ : Kernel} {role₀ : Nat → Role} {s : List Nat} {n c : Nat}
    (h : InOrder b k₀ role₀ k l s (n + 1)) (hb : Booted b k₀ role₀) (hs : s.length < NASID)
    (hreach : KernReach QueueSafe k₀ k) (hcur : k.curenv = some c)
    (hcount : k.mkenvidCount + 1 < 2 ^ 21) :
    ∃ x k', KernReach QueueSafe k₀ k' ∧ InOrder b k₀ role₀ k' (l ++ [x]) (x :: s) n ∧
      k'.curenv = some c ∧ k'.mkenvidCount = k.mkenvidCount + 1 ∧ x ∉ l := by
  obtain ⟨x, k₁, hfork, -, h₁, hnew, hborn⟩ := h.fork hb hs hcur zeroTrapframe
  have hxl : x ∉ l := fun hx => hnew (h.live_of_mem hx)
  have hxc : c ≠ x := by
    rintro rfl
    obtain ⟨role, hk, -⟩ := h.ok
    exact hnew ((h.live c).mp (hk.cur c hcur).1)
  have hid : (k₁.envs x).id ≠ 0 := by
    rw [hborn.id, mkenvid_eq k (h₁.table.liveLt x ((h₁.live x).mpr List.mem_cons_self))]
    omega
  have hparent : (k₁.envs x).parentId = (k₁.envs c).id := by
    rw [hborn.parent, hborn.other c hxc]
  obtain ⟨k₂, hwake, h₂, hone⟩ := h₁.wake hb (hborn.curenv.trans hcur) rfl hid hparent
    List.mem_cons_self hxl zeroTrapframe
  have hreach₂ : KernReach QueueSafe k₀ k₂ := by
    refine .step (.step hreach ?_ hfork) ?_ hwake <;> trivial
  refine ⟨x, k₂, hreach₂, h₂, ?_, ?_, hxl⟩
  · rw [hone.curenv, hborn.curenv, hcur]
  · rw [hone.count, hborn.count]
    omega

/-- An env forks two children and yields to the first; the second waits on. -/
theorem wait_bounded_children :
    ∃ k₀ k k' l e, smallBoot.boot = .ok k₀ ∧ Waits e k 1 k' ∧ 1 ≤ waitTicks k e l ∧
      ∀ tf disk, virtioDiskIntr k'.disk = .ok disk →
        ∃ k'', (KernOp.tick tf).run k' = .ok k'' ∧ (k''.curenv = some e ∨ 1 < waitTicks k e l) := by
  obtain ⟨k₀, role₀, k₁, k₂, a, hboot, hb, hcreate, htick, -, -, h₂, hcur, hcount, -⟩ :=
    smallBoot_first
  have hreach₂ : KernReach QueueSafe k₀ k₂ := by
    refine .step (.step .refl ?_ hcreate) ?_ htick <;> trivial
  have hroom : 1 < NASID ∧ 2 < NASID := by decide
  obtain ⟨x, k₃, hreach₃, h₃, hcur₃, hcount₃, hx⟩ := h₂.spawn hb hroom.1 hreach₂ hcur (by omega)
  obtain ⟨e, k, hreach, h, hcur₄, -, he⟩ := h₃.spawn hb hroom.2 hreach₃ hcur₃ (by omega)
  obtain ⟨hea, hex⟩ : e ≠ a ∧ e ≠ x := by simpa using he
  have hturn : ([a] ++ [x] ++ [e]).erase a ++ [a] = x :: [e, a] := by simp
  obtain ⟨k', hyield, h', hcur', -⟩ := h.yield hcur₄ (by simp) hturn zeroTrapframe
  have hne : k.curenv ≠ some e := by
    rw [hcur₄]
    exact fun hc => hea (Option.some.inj hc).symm
  have hne' : k'.curenv ≠ some e := by
    rw [hcur']
    exact fun hc => hex (Option.some.inj hc).symm
  have hrun : Waits e k 1 k' := by
    refine .ask .refl ?_ ?_ hyield ((h'.runnable e).mp (by simp)) hne' <;> trivial
  obtain ⟨hle, htick'⟩ := wait_bounded smallBoot hboot hreach h.queue (by simp) hne hrun
  exact ⟨k₀, k, k', _, e, hboot, hrun, hle, htick'⟩

end Mos.Kern
