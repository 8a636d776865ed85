import Mos.Kern.StepCases

/-!
# MOS on RISC-V — the table of envs

What a step does to the slots of `envs`, the free list, the ASIDs and the
counter behind the ids (`TableStep`): nothing, one `env_alloc` that succeeds or
fails for want of an ASID, or one `env_free`. `KernOp.tableStep` shows it for
every step of the kernel; the laws about ids, ASIDs and recycled slots follow
from it alone.
-/

namespace Mos.Kern

open Mos.Lib

variable {k k₁ k₂ k' : Kernel}

-- ---------------------------------------------------------------------------
-- Ids
-- ---------------------------------------------------------------------------

theorem ENVX_eq (id : Nat) : ENVX id = id % 2 ^ 10 := Nat.and_two_pow_sub_one_eq_mod id 10

/-- The count sits above the slot, with one bit between them. -/
theorem mkenvid_eq (k : Kernel) {e : Nat} (he : e < NENV) :
    (mkenvid k e).1 = (k.mkenvidCount + 1) % 2 ^ 21 * 2 ^ 11 + e := by
  have he' : e < 2 ^ 11 := lt_trans he (by decide)
  have hshift : (((k.mkenvidCount + 1) % 2 ^ 32) <<< (1 + LOG2NENV)) % 2 ^ 32 =
      (k.mkenvidCount + 1) % 2 ^ 21 * 2 ^ 11 := by
    rw [show 1 + LOG2NENV = 11 from rfl, Nat.shiftLeft_eq]
    omega
  unfold mkenvid
  simp only
  rw [hshift, field_or_flags he']

theorem ENVX_mkenvid (k : Kernel) {e : Nat} (he : e < NENV) : ENVX (mkenvid k e).1 = e := by
  have he' : e < 2 ^ 10 := he
  rw [ENVX_eq, mkenvid_eq k he]
  omega

-- ---------------------------------------------------------------------------
-- The kinds of steps
-- ---------------------------------------------------------------------------

/-- Id, ASID and parent. -/
def Env.ident (env : Env) : Nat × Nat × Nat := (env.id, env.asid, env.parentId)

/-- What can happen to the table in a step: `env_alloc` fails, or it returns a
slot, or `env_free` takes one back. -/
inductive TableEvent where
  | none
  | refused
  | born (e : Nat)
  | died (e : Nat)
  deriving DecidableEq, Repr

inductive TableStep (k k' : Kernel) : TableEvent → Prop where
  | same {ev : TableEvent} (quiet : ev = .none ∨ ev = .refused)
      (ident : ∀ x, (k'.envs x).ident = (k.envs x).ident) (live : ∀ x, k'.Live x ↔ k.Live x)
      (free : k'.envFreeList = k.envFreeList) (bits : k'.asidBitmap = k.asidBitmap)
      (count : k'.mkenvidCount = k.mkenvidCount) : TableStep k k' ev
  | lost {e : Nat} {rest : List Nat} (hl : k.envFreeList = e :: rest)
      (ident : ∀ x, x ≠ e → (k'.envs x).ident = (k.envs x).ident)
      (live : ∀ x, k'.Live x ↔ k.Live x)
      (free : k'.envFreeList = k.envFreeList) (bits : k'.asidBitmap = k.asidBitmap)
      (count : k'.mkenvidCount = (k.mkenvidCount + 1) % 2 ^ 32) : TableStep k k' .refused
  | alloc {e asid parentId : Nat} {rest : List Nat} (hl : k.envFreeList = e :: rest)
      (hlt : asid < NASID) (hclear : ¬ Bitmap.isSet k.asidBitmap asid)
      (new : (k'.envs e).ident = ((mkenvid k e).1, asid, parentId)) (born : k'.Live e)
      (ident : ∀ x, x ≠ e → (k'.envs x).ident = (k.envs x).ident)
      (live : ∀ x, x ≠ e → (k'.Live x ↔ k.Live x)) (free : k'.envFreeList = rest)
      (bits : k'.asidBitmap = Bitmap.set k.asidBitmap asid)
      (count : k'.mkenvidCount = (k.mkenvidCount + 1) % 2 ^ 32) : TableStep k k' (.born e)
  | free {e : Nat} (alive : k.Live e) (dead : ¬ k'.Live e)
      (ident : ∀ x, (k'.envs x).ident = (k.envs x).ident)
      (live : ∀ x, x ≠ e → (k'.Live x ↔ k.Live x)) (free : k'.envFreeList = e :: k.envFreeList)
      (bits : k'.asidBitmap = Bitmap.clear k.asidBitmap (k.envs e).asid)
      (count : k'.mkenvidCount = k.mkenvidCount) : TableStep k k' (.died e)

/-- The table is as before, and no env began to wait for a message. -/
structure SameTable (k k' : Kernel) : Prop where
  ident : ∀ x, (k'.envs x).ident = (k.envs x).ident
  live : ∀ x, k'.Live x ↔ k.Live x
  free : k'.envFreeList = k.envFreeList
  bits : k'.asidBitmap = k.asidBitmap
  count : k'.mkenvidCount = k.mkenvidCount
  recving : ∀ x, (k.envs x).ipcRecving = 0 → (k'.envs x).ipcRecving = 0

namespace SameTable

theorem refl (k : Kernel) : SameTable k k :=
  ⟨fun _ => rfl, fun _ => Iff.rfl, rfl, rfl, rfl, fun _ h => h⟩

theorem trans (h : SameTable k k₁) (h' : SameTable k₁ k₂) : SameTable k k₂ where
  ident x := (h'.ident x).trans (h.ident x)
  live x := (h'.live x).trans (h.live x)
  free := h'.free.trans h.free
  bits := h'.bits.trans h.bits
  count := h'.count.trans h.count
  recving x hx := h'.recving x (h.recving x hx)

/-- Only the envs, the free list, the ASIDs and the counter matter. -/
theorem of_eq (henvs : k'.envs = k.envs) (hfree : k'.envFreeList = k.envFreeList)
    (hbits : k'.asidBitmap = k.asidBitmap) (hcount : k'.mkenvidCount = k.mkenvidCount) :
    SameTable k k' := by
  refine ⟨fun x => by rw [henvs], fun x => ?_, hfree, hbits, hcount, fun x => by rw [henvs]; exact id⟩
  unfold Kernel.Live
  rw [henvs]

theorem of_pageWork (h : PageWork k k') : SameTable k k' where
  ident x := h.envField Env.ident (fun _ => rfl) x
  live x := by
    unfold Kernel.Live
    rw [h.envField Env.status (fun _ => rfl) x]
  free := h.field Kernel.envFreeList fun _ => rfl
  bits := h.field Kernel.asidBitmap fun _ => rfl
  count := h.field Kernel.mkenvidCount fun _ => rfl
  recving x hx := by
    rw [h.envField Env.ipcRecving (fun _ => rfl) x]
    exact hx

/-- One env gets a new entry under its old name. -/
theorem update {e : Nat} {env : Env} (h : k'.envs = Function.update k.envs e env)
    (hident : env.ident = (k.envs e).ident)
    (hlive : env.status = .free ↔ (k.envs e).status = .free)
    (hrecv : (k.envs e).ipcRecving = 0 → env.ipcRecving = 0)
    (hfree : k'.envFreeList = k.envFreeList) (hbits : k'.asidBitmap = k.asidBitmap)
    (hcount : k'.mkenvidCount = k.mkenvidCount) : SameTable k k' := by
  have hcases : ∀ x, (x = e ∧ k'.envs x = env) ∨ k'.envs x = k.envs x := by
    intro x
    rw [h]
    by_cases hx : x = e
    · rw [hx, Function.update_self]
      exact Or.inl ⟨rfl, rfl⟩
    · rw [Function.update_of_ne hx]
      exact Or.inr rfl
  refine ⟨fun x => ?_, fun x => ?_, hfree, hbits, hcount, fun x hx => ?_⟩
  · rcases hcases x with ⟨rfl, hx⟩ | hx
    · rw [hx, hident]
    · rw [hx]
  · unfold Kernel.Live
    rcases hcases x with ⟨rfl, hx⟩ | hx
    · rw [hx]
      exact not_congr hlive
    · rw [hx]
  · rcases hcases x with ⟨rfl, hx'⟩ | hx'
    · rw [hx']
      exact hrecv hx
    · rw [hx']
      exact hx

theorem setEnv (k : Kernel) (e : Nat) {f : Env → Env}
    (hident : (f (k.envs e)).ident = (k.envs e).ident)
    (hlive : (f (k.envs e)).status = .free ↔ (k.envs e).status = .free)
    (hrecv : (k.envs e).ipcRecving = 0 → (f (k.envs e)).ipcRecving = 0) : SameTable k (k.setEnv e f) :=
  update rfl hident hlive hrecv rfl rfl rfl

end SameTable

theorem SameTable.step (h : SameTable k k') : TableStep k k' .none :=
  .same (Or.inl rfl) h.ident h.live h.free h.bits h.count

/-- What follows a step and leaves the table alone belongs to the step. -/
theorem TableStep.andThen {ev : TableEvent} (h : TableStep k k₁ ev) (h' : SameTable k₁ k') :
    TableStep k k' ev := by
  cases h with
  | same quiet ident live free bits count =>
    exact .same quiet (fun x => (h'.ident x).trans (ident x)) (fun x => (h'.live x).trans (live x))
      (h'.free.trans free) (h'.bits.trans bits) (h'.count.trans count)
  | lost hl ident live free bits count =>
    exact .lost hl (fun x hx => (h'.ident x).trans (ident x hx)) (fun x => (h'.live x).trans (live x))
      (h'.free.trans free) (h'.bits.trans bits) (h'.count.trans count)
  | alloc hl hlt hclear new born ident live free bits count =>
    exact .alloc hl hlt hclear ((h'.ident _).trans new) ((h'.live _).mpr born)
      (fun x hx => (h'.ident x).trans (ident x hx)) (fun x hx => (h'.live x).trans (live x hx))
      (h'.free.trans free) (h'.bits.trans bits) (h'.count.trans count)
  | free alive dead ident live free bits count =>
    exact .free alive (fun hl => dead ((h'.live _).mp hl)) (fun x => (h'.ident x).trans (ident x))
      (fun x hx => (h'.live x).trans (live x hx)) (h'.free.trans free) (h'.bits.trans bits)
      (h'.count.trans count)

/-- The registers a trap stores do not matter. -/
theorem TableStep.of_setTf {tf : Trapframe} {ev : TableEvent} (h : TableStep { k with tf := tf } k' ev) :
    TableStep k k' ev := by
  cases h with
  | same quiet ident live free bits count => exact .same quiet ident live free bits count
  | lost hl ident live free bits count => exact .lost hl ident live free bits count
  | alloc hl hlt hclear new born ident live free bits count =>
    exact .alloc hl hlt hclear new born ident live free bits count
  | free alive dead ident live free bits count => exact .free alive dead ident live free bits count

/-- A step of the table in which nobody but `w` begins to wait, and the env that
runs afterwards is live. -/
structure TableMove (w : Option Nat) (ev : TableEvent) (k k' : Kernel) : Prop where
  step : TableStep k k' ev
  recving : ∀ x, w ≠ some x → (k.envs x).ipcRecving = 0 → (k'.envs x).ipcRecving = 0
  cur : ∀ c, k'.curenv = some c → k'.Live c

theorem SameTable.move (h : SameTable k k') (hcur : ∀ c, k'.curenv = some c → k.Live c)
    (w : Option Nat) : TableMove w .none k k' :=
  ⟨h.step, fun x _ => h.recving x, fun c hc => (h.live c).mpr (hcur c hc)⟩

theorem TableMove.andThen {w : Option Nat} {ev : TableEvent} (h : TableMove w ev k k₁) (h' : SameTable k₁ k')
    (hcur : ∀ c, k'.curenv = some c → k₁.Live c) : TableMove w ev k k' :=
  ⟨h.step.andThen h', fun x hx h0 => h'.recving x (h.recving x hx h0),
    fun c hc => (h'.live c).mpr (hcur c hc)⟩

-- ---------------------------------------------------------------------------
-- The scheduler, env_alloc and env_free
-- ---------------------------------------------------------------------------

theorem schedule_table {yield : Bool} (h : schedule k yield = .ok k') :
    SameTable k k' ∧ ∀ c, k'.curenv = some c → k.Live c := by
  obtain ⟨disk, count, q, log, c, hrun⟩ := schedule_envRun h
  obtain ⟨hst, hcur, -, henv, envs, pgdir, cpu, hk'⟩ := envRun_env hrun
  refine ⟨⟨fun x => ?_, fun x => ?_, by rw [hk'], by rw [hk'], by rw [hk'], fun x hx => ?_⟩, ?_⟩
  · obtain ⟨tf, n, he⟩ := henv x
    rw [he]
    rfl
  · obtain ⟨tf, n, he⟩ := henv x
    unfold Kernel.Live
    rw [he]
  · obtain ⟨tf, n, he⟩ := henv x
    rw [he]
    exact hx
  · intro c' hc'
    rw [hcur, Option.some.injEq] at hc'
    unfold Kernel.Live
    rw [← hc', hst]
    simp

/-- A failed `env_alloc`. -/
theorem envAlloc_error {parentId : Nat} {m : Int} (h : envAlloc k parentId = (.error m, k'))
    (hcur : ∀ c, k.curenv = some c → k.Live c) : TableMove none .refused k k' := by
  cases envAlloc_outcome h with
  | full hl =>
    exact ⟨.same (Or.inr rfl) (fun _ => rfl) (fun _ => Iff.rfl) rfl rfl rfl, fun _ _ hx => hx, hcur⟩
  | @noAsid e rest hl hfull =>
    have hlive : ∀ x, (envPrepare k e).Live x ↔ k.Live x := by
      intro x
      unfold Kernel.Live
      rw [envPrepare_eq]
      show (Function.update k.envs e (preparedEnv k e) x).status ≠ _ ↔ _
      by_cases hx : x = e
      · rw [hx, Function.update_self]
        exact Iff.rfl
      · rw [Function.update_of_ne hx]
    refine ⟨.lost hl ?_ hlive ?_ ?_ ?_, ?_, ?_⟩
    · intro x hx
      rw [envPrepare_eq]
      exact congrArg Env.ident (Function.update_of_ne hx ..)
    · rw [envPrepare_eq]
    · rw [envPrepare_eq]
    · rw [envPrepare_eq]
    · intro x _ hx
      rw [envPrepare_eq]
      show (Function.update k.envs e (preparedEnv k e) x).ipcRecving = 0
      by_cases hxe : x = e
      · rw [hxe, Function.update_self]
        exact hxe ▸ hx
      · rw [Function.update_of_ne hxe]
        exact hx
    · intro c hc
      rw [envPrepare_eq] at hc
      exact (hlive c).mpr (hcur c hc)

/-- A successful `env_alloc`, once its caller has given the env a status. -/
theorem envAlloc_ok {parentId e : Nat} (h : envAlloc k parentId = (.ok e, k₁)) {f : Env → Env}
    (hst : (f (k₁.envs e)).status ≠ .free) (hident : (f (k₁.envs e)).ident = (k₁.envs e).ident)
    (hrecv : (f (k₁.envs e)).ipcRecving = (k₁.envs e).ipcRecving)
    (hcur : ∀ c, k.curenv = some c → k.Live c) : TableMove none (.born e) k (k₁.setEnv e f) := by
  obtain ⟨rest, asid, hl, hlt, hclear, hk₁⟩ := envAlloc_given h
  have hself : k₁.envs e = givenEnv k e asid parentId := by
    rw [hk₁]
    exact Function.update_self ..
  have hother : ∀ x, x ≠ e → (k₁.setEnv e f).envs x = k.envs x := by
    intro x hx
    rw [Kernel.setEnv_of_ne _ _ _ hx, hk₁]
    exact Function.update_of_ne hx ..
  have hborn : (k₁.setEnv e f).Live e := by
    unfold Kernel.Live
    rw [Kernel.setEnv_self]
    exact hst
  have hnew : ((k₁.setEnv e f).envs e).ident = ((mkenvid k e).1, asid, parentId) := by
    rw [Kernel.setEnv_self, hident, hself]
    rfl
  refine ⟨.alloc hl hlt hclear hnew hborn ?_ ?_ (by rw [hk₁]; rfl) (by rw [hk₁]; rfl)
    (by rw [hk₁]; rfl), ?_, ?_⟩
  · intro x hx
    rw [hother x hx]
  · intro x hx
    unfold Kernel.Live
    rw [hother x hx]
  · intro x _ hx
    by_cases hxe : x = e
    · rw [hxe, Kernel.setEnv_self, hrecv, hself]
      exact hxe ▸ hx
    · rw [hother x hxe]
      exact hx
  · intro c hc
    by_cases hce : c = e
    · rw [hce]
      exact hborn
    · unfold Kernel.Live
      rw [hother c hce]
      refine hcur c ?_
      rw [← hc, Kernel.setEnv_curenv, hk₁]

/-- `env_free`; `curenv` is left to its caller. -/
theorem envFree_table {e : Nat} (he : k.Live e) (h : envFree k e = .ok k') :
    TableStep k k' (.died e) ∧ (∀ x, (k'.envs x).ipcRecving = (k.envs x).ipcRecving) ∧
      (∀ x, x ≠ e → (k'.Live x ↔ k.Live x)) ∧ k'.curenv = k.curenv := by
  obtain ⟨s, q, log, -, hk'⟩ := envFree_eq h
  have hself : k'.envs e = { k.envs e with status := .free } := by
    rw [hk']
    exact Function.update_self ..
  have hother : ∀ x, x ≠ e → k'.envs x = k.envs x := by
    intro x hx
    rw [hk']
    exact Function.update_of_ne hx ..
  have hlive : ∀ x, x ≠ e → (k'.Live x ↔ k.Live x) := by
    intro x hx
    unfold Kernel.Live
    rw [hother x hx]
  have hdead : ¬ k'.Live e := by
    intro hl
    exact hl (congrArg Env.status hself)
  have hfields : ∀ x, (k'.envs x).ident = (k.envs x).ident ∧
      (k'.envs x).ipcRecving = (k.envs x).ipcRecving := by
    intro x
    by_cases hx : x = e
    · rw [hx, hself]
      exact ⟨rfl, rfl⟩
    · rw [hother x hx]
      exact ⟨rfl, rfl⟩
  exact ⟨.free he hdead (fun x => (hfields x).1) hlive (by rw [hk']) (by rw [hk']) (by rw [hk']),
    fun x => (hfields x).2, hlive, by rw [hk']⟩

-- ---------------------------------------------------------------------------
-- System calls
-- ---------------------------------------------------------------------------

theorem envid2env_live {cur envid e : Nat} {checkperm : Bool} (hcur : k.Live cur)
    (he : envid2env k cur envid checkperm = .ok e) : k.Live e := by
  rcases envid2env_cases he with ⟨-, rfl⟩ | ⟨-, -, hlive, -⟩
  · exact hcur
  · exact hlive

/-- What a call of `env_alloc` does to the table. -/
def allocEvent : Except Int Nat → TableEvent
  | .ok e => .born e
  | .error _ => .refused

/-- What `sys_env_destroy` does to the table, for the env it was asked for. -/
def destroyEvent : Except Int Nat → TableEvent
  | .ok e => .died e
  | .error _ => .none

theorem sysEnvDestroy_move {cur envid : Nat} {r : Option Int} (hk : k.curenv = some cur)
    (hcur : k.Live cur) (h : sysEnvDestroy k cur envid = .ok (r, k')) :
    TableMove none (destroyEvent (envid2env k cur envid true)) k k' := by
  have hlive : ∀ c, k.curenv = some c → k.Live c := by
    intro c hc
    rw [hk, Option.some.injEq] at hc
    exact hc ▸ hcur
  rcases sysEnvDestroy_cases h with ⟨rfl, m, he⟩ | ⟨e, k₁, he, hfree, hend⟩
  · rw [he]
    exact (SameTable.refl _).move hlive none
  · rw [he]
    obtain ⟨hstep, hrecv, hother, hcur₁⟩ := envFree_table (envid2env_live hcur he) hfree
    rcases hend with ⟨hne, rfl⟩ | ⟨-, hsched⟩
    · refine ⟨hstep, fun x _ hx => (hrecv x).trans hx, ?_⟩
      intro c hc
      have hce : c ≠ e := by
        rintro rfl
        exact hne hc
      exact (hother c hce).mpr (hlive c (hcur₁ ▸ hc))
    · obtain ⟨hsame, hlive'⟩ := schedule_table hsched
      have h₀ : SameTable k₁ { k₁ with curenv := none } := .of_eq rfl rfl rfl rfl
      have h₁ := h₀.trans hsame
      refine ⟨hstep.andThen h₁, fun x _ hx => h₁.recving x ((hrecv x).trans hx), ?_⟩
      intro c hc
      exact (hsame.live c).mpr (hlive' c hc)

theorem sysExofork_move {cur : Nat} {r : Option Int} (hcur : ∀ c, k.curenv = some c → k.Live c)
    (h : sysExofork k cur = .ok (r, k')) :
    TableMove none (allocEvent (envAlloc k (k.envs cur).id).1) k k' := by
  rcases sysExofork_cases h with ⟨m, ha, -⟩ | ⟨e, k₁, tf, ha, -, rfl⟩
  · rw [ha]
    exact envAlloc_error ha hcur
  · rw [ha]
    exact envAlloc_ok ha (by simp) rfl rfl hcur

theorem loadIcode_same {e : Nat} {binary : Option Elf} (h : loadIcode k e binary = .ok k') :
    SameTable k k' ∧ k'.curenv = k.curenv := by
  obtain ⟨elf, pm, -, -, rfl⟩ := loadIcode_cases h
  have h₁ : SameTable k { k with pm := pm } := .of_eq rfl rfl rfl rfl
  exact ⟨h₁.trans (SameTable.setEnv _ e rfl Iff.rfl id), rfl⟩

theorem envCreate_move {binary : Option Elf} {priority e : Nat}
    (hcur : ∀ c, k.curenv = some c → k.Live c) (h : envCreate k binary priority = .ok (e, k')) :
    TableMove none (allocEvent (envAlloc k 0).1) k k' := by
  obtain ⟨k₁, k₂, ha, hload, rfl⟩ := envCreate_cases h
  rw [ha]
  have h₁ := envAlloc_ok (f := fun env => { env with pri := priority, status := .runnable }) ha
    (by simp) rfl rfl hcur
  obtain ⟨h₂, hc⟩ := loadIcode_same hload
  have h₃ : SameTable k₂ (tailqInsertHead k₂ e) := .of_eq rfl rfl rfl rfl
  exact h₁.andThen (h₂.trans h₃) fun c hc' => h₁.cur c (hc ▸ hc')

theorem sysIpcRecv_move {cur dstva : Nat} {r : Option Int} (hcur : k.curenv = some cur)
    (hlive : k.Live cur) (h : sysIpcRecv k cur dstva = .ok (r, k')) :
    TableMove (some cur) .none k k' := by
  rcases sysIpcRecv_cases h with rfl | ⟨q, log, tf, -, -, hsched⟩
  · refine (SameTable.refl _).move ?_ _
    intro c hc
    rw [hcur, Option.some.injEq] at hc
    exact hc ▸ hlive
  · obtain ⟨hsame, hlive'⟩ := schedule_table hsched
    -- the waiting env is live, and it is the one that may begin to wait
    have hself : (Function.update k.envs cur (waitingEnv k cur dstva)) cur = waitingEnv k cur dstva :=
      Function.update_self ..
    have hident : ∀ x, (Function.update k.envs cur (waitingEnv k cur dstva) x).ident =
        (k.envs x).ident := by
      intro x
      by_cases hx : x = cur
      · rw [hx, hself]
        rfl
      · rw [Function.update_of_ne hx]
    have hst : ∀ x, (Function.update k.envs cur (waitingEnv k cur dstva) x).status ≠ .free ↔
        k.Live x := by
      intro x
      by_cases hx : x = cur
      · rw [hx, hself]
        exact ⟨fun _ => hlive, fun _ hc => by cases hc⟩
      · rw [Function.update_of_ne hx]
        exact Iff.rfl
    refine ⟨.same (Or.inl rfl) (fun x => (hsame.ident x).trans (hident x)) (fun x => (hsame.live x).trans (hst x))
      hsame.free hsame.bits hsame.count, ?_, ?_⟩
    · intro x hx h0
      refine hsame.recving x ?_
      have hne : x ≠ cur := fun hc => hx (by rw [hc])
      show (Function.update k.envs cur (waitingEnv k cur dstva) x).ipcRecving = 0
      rw [Function.update_of_ne hne]
      exact h0
    · intro c hc
      exact (hsame.live c).mpr (hlive' c hc)

theorem sysIpcTrySend_same {cur envid value srcva perm : Nat} {r : Option Int} (hlive : k.Live cur)
    (h : sysIpcTrySend k cur envid value srcva perm = .ok (r, k')) :
    SameTable k k' ∧ k'.curenv = k.curenv := by
  rcases sysIpcTrySend_cases h with rfl | ⟨e, k₁, he, -, hdel, hend⟩
  · exact ⟨SameTable.refl _, rfl⟩
  · have hel := envid2env_live hlive he
    obtain ⟨q, log, rfl⟩ := deliver_eq hdel
    have h₁ : SameTable k { k with
        envs := Function.update k.envs e (deliveredEnv k cur e value perm)
        envSchedList := q
        queueLog := log } :=
      SameTable.update rfl rfl ⟨fun hc => (by cases hc), fun hc => absurd hc hel⟩ (fun _ => rfl) rfl rfl
        rfl
    rcases hend with rfl | ⟨pp, p, r', pm', -, -, -, -, -, rfl⟩
    · exact ⟨h₁, rfl⟩
    · exact ⟨h₁.trans (SameTable.of_eq rfl rfl rfl rfl), rfl⟩

/-- The env that begins to wait in a step, if any. -/
def KernOp.waiter (k : Kernel) : KernOp → Option Nat
  | .syscall _ (.ipcRecv _) => k.curenv
  | _ => none

/-- What happens to the table in a step. -/
def KernOp.event (k : Kernel) : KernOp → TableEvent
  | .create _ _ => allocEvent (envAlloc k 0).1
  | .syscall _ .exofork =>
    match k.curenv with
    | some cur => allocEvent (envAlloc k (k.envs cur).id).1
    | none => .none
  | .syscall _ (.envDestroy envid) =>
    match k.curenv with
    | some cur => destroyEvent (envid2env k cur envid true)
    | none => .none
  | _ => .none

/-- Whether `env_alloc` succeeds depends on the free slots and ASIDs. -/
theorem envAlloc_slot (hfree : k'.envFreeList = k.envFreeList) (hbits : k'.asidBitmap = k.asidBitmap)
    (p p' : Nat) : (envAlloc k' p').1 = (envAlloc k p).1 := by
  obtain ⟨r, k₁, h⟩ : ∃ r k₁, envAlloc k p = (r, k₁) := ⟨_, _, rfl⟩
  obtain ⟨r', k₁', h'⟩ : ∃ r' k₁', envAlloc k' p' = (r', k₁') := ⟨_, _, rfl⟩
  rw [h, h']
  show r' = r
  have hcons : ∀ {e rest}, k.envFreeList = e :: rest → k'.envFreeList ≠ [] := by
    intro e rest hl hnil
    rw [hfree, hl] at hnil
    cases hnil
  cases envAlloc_outcome h with
  | full hl =>
    cases envAlloc_outcome h' with
    | full hl' => rfl
    | noAsid hl' hfull' => exact absurd (hfree.symm.trans hl') (by rw [hl]; simp)
    | ok hl' hlt' hclear' => exact absurd (hfree.symm.trans hl') (by rw [hl]; simp)
  | noAsid hl hfull =>
    cases envAlloc_outcome h' with
    | full hl' => exact absurd hl' (hcons hl)
    | noAsid hl' hfull' => rfl
    | ok hl' hlt' hclear' =>
      rw [hbits] at hclear'
      exact absurd (hfull _ hlt') hclear'
  | ok hl hlt hclear =>
    cases envAlloc_outcome h' with
    | full hl' => exact absurd hl' (hcons hl)
    | noAsid hl' hfull' =>
      rw [hbits] at hfull'
      exact absurd (hfull' _ hlt) hclear
    | ok hl' hlt' hclear' =>
      rw [hfree, hl] at hl'
      cases hl'
      rfl

theorem exec_move {cur : Nat} {s : Syscall} {r : Option Int} (tf : Trapframe)
    (hcur : k.curenv = some cur) (hlive : k.Live cur) (h : s.exec k cur = .ok (r, k')) :
    TableMove (KernOp.waiter k (.syscall tf s)) (KernOp.event k (.syscall tf s)) k k' := by
  have hcl : ∀ c, k.curenv = some c → k.Live c := by
    intro c hc
    rw [hcur, Option.some.injEq] at hc
    exact hc ▸ hlive
  have hsame : ∀ {k' : Kernel}, SameTable k k' → k'.curenv = k.curenv → TableMove none .none k k' :=
    fun hs hc => hs.move (fun c h => hcl c (hc ▸ h)) none
  cases s with
  | putchar left | getenvid | cgetc ch =>
    cases h
    exact hsame (SameTable.refl _) rfl
  | printCons s num =>
    change sysPrintCons k cur s num = _ at h
    unfold sysPrintCons at h
    split_ifs at h
    · cases h
      exact hsame (SameTable.refl _) rfl
    · obtain ⟨⟨bs, k₁⟩, hload, hdone⟩ := bind_eq_ok.mp h
      cases hdone
      have hw := (kernelLoads_keeps k cur s num).post _ hload
      exact hsame (.of_pageWork hw) (hw.field Kernel.curenv fun _ => rfl)
  | yield =>
    obtain ⟨k₁, hsched, hdone⟩ := bind_eq_ok.mp h
    cases hdone
    obtain ⟨hs, hl⟩ := schedule_table hsched
    exact hs.move hl none
  | envDestroy envid =>
    have hm := sysEnvDestroy_move hcur hlive h
    show TableMove none (match k.curenv with
      | some cur => destroyEvent (envid2env k cur envid true)
      | none => .none) k k'
    rw [hcur]
    exact hm
  | setTlbModEntry envid func =>
    change sysSetTlbModEntry k cur envid func = _ at h
    unfold sysSetTlbModEntry at h
    split at h
    · cases h
      exact hsame (SameTable.refl _) rfl
    · cases h
      exact hsame (SameTable.setEnv k _ rfl Iff.rfl id) rfl
  | memAlloc envid va perm =>
    rcases sysMemAlloc_cases h with rfl | ⟨e, pp, pm, r', pm', -, -, -, -, -, rfl⟩
    · exact hsame (SameTable.refl _) rfl
    · exact hsame (SameTable.of_eq rfl rfl rfl rfl) rfl
  | memMap srcid srcva dstid dstva perm =>
    rcases sysMemMap_cases h with rfl | ⟨src, dst, pp, p, r', pm', -, -, -, -, -, -, -, rfl⟩
    · exact hsame (SameTable.refl _) rfl
    · exact hsame (SameTable.of_eq rfl rfl rfl rfl) rfl
  | memUnmap envid va =>
    rcases sysMemUnmap_cases h with rfl | ⟨e, pm', -, -, -, -, rfl⟩
    · exact hsame (SameTable.refl _) rfl
    · exact hsame (SameTable.of_eq rfl rfl rfl rfl) rfl
  | exofork =>
    have hm := sysExofork_move hcl h
    show TableMove none (match k.curenv with
      | some cur => allocEvent (envAlloc k (k.envs cur).id).1
      | none => .none) k k'
    rw [hcur]
    exact hm
  | setEnvStatus envid status =>
    rcases sysSetEnvStatus_cases h with rfl | ⟨e, st, q, log, he, hst, -, rfl⟩
    · exact hsame (SameTable.refl _) rfl
    · have hel := envid2env_live hlive he
      refine hsame (SameTable.update rfl rfl ?_ id rfl rfl rfl) rfl
      exact ⟨fun hc => absurd hc hst, fun hc => absurd hc hel⟩
  | setTrapframe envid va =>
    rcases sysSetTrapframe_cases h with rfl | ⟨e, bs, k₁, tf, he, hload, hend⟩
    · exact hsame (SameTable.refl _) rfl
    · have hw := (kernelLoads_keeps k cur va TRAPFRAME_SIZE).post _ hload
      have hc : k₁.curenv = k.curenv := hw.field Kernel.curenv fun _ => rfl
      rcases hend with rfl | rfl
      · exact hsame ((SameTable.of_pageWork hw).trans (SameTable.of_eq rfl rfl rfl rfl)) hc
      · exact hsame ((SameTable.of_pageWork hw).trans
          (SameTable.setEnv k₁ e rfl Iff.rfl id)) hc
  | panic => cases h
  | ipcTrySend envid value srcva perm =>
    obtain ⟨hs, hc⟩ := sysIpcTrySend_same hlive h
    exact hsame hs hc
  | ipcRecv dstva =>
    have hm := sysIpcRecv_move hcur hlive h
    rw [← hcur] at hm
    exact hm
  | devReq dev req =>
    obtain ⟨disk, rfl⟩ := sysDevReq_cases h
    exact hsame (SameTable.of_eq rfl rfl rfl rfl) rfl

/-- **Step lemma.** What a step does to the table. -/
theorem KernOp.tableStep {op : KernOp} (hcur : ∀ c, k.curenv = some c → k.Live c)
    (h : op.run k = .ok k') : TableMove (op.waiter k) (op.event k) k k' := by
  cases op with
  | create binary priority =>
    obtain ⟨e, hcreate⟩ := run_create h
    exact envCreate_move hcur hcreate
  | device disk =>
    cases h
    have hs : SameTable k { k with disk := disk } := .of_eq rfl rfl rfl rfl
    exact hs.move hcur none
  | tick tf =>
    obtain ⟨hs, hl⟩ := schedule_table h
    have h₀ : SameTable k { k with tf := tf } := .of_eq rfl rfl rfl rfl
    exact (h₀.trans hs).move hl none
  | store va x =>
    obtain ⟨cur, -, rfl⟩ := run_store h
    have hw := userStore_pageWork k va x
    refine (SameTable.of_pageWork hw).move ?_ none
    intro c hc
    rw [hw.field Kernel.curenv fun _ => rfl] at hc
    exact hcur c hc
  | fault tf =>
    obtain ⟨cur, k₁, cpu, -, hmiss, rfl⟩ := run_fault h
    have hw := (doTlbMiss_keeps _ cur).post _ hmiss
    have h₀ : SameTable k { k with tf := tf } := .of_eq rfl rfl rfl rfl
    have hs : SameTable k { k₁ with cpu := cpu } :=
      (h₀.trans (.of_pageWork hw)).trans (.of_eq rfl rfl rfl rfl)
    refine hs.move ?_ none
    intro c hc
    have hc' : k₁.curenv = k.curenv := hw.field Kernel.curenv fun _ => rfl
    exact hcur c (hc' ▸ hc)
  | syscall tf s =>
    obtain ⟨cur, tf₁, r, k₁, tf₂, cpu, hk, hexec, rfl⟩ := run_syscall h
    have hm := exec_move (k := { k with tf := tf₁ }) tf hk (hcur cur hk) hexec
    have hw : KernOp.waiter { k with tf := tf₁ } (.syscall tf s) = KernOp.waiter k (.syscall tf s) := by
      cases s <;> rfl
    have hg : KernOp.event { k with tf := tf₁ } (.syscall tf s) = KernOp.event k (.syscall tf s) := by
      cases s with
      | exofork =>
        have hslot : ∀ c, (envAlloc { k with tf := tf₁ } (k.envs c).id).1 =
            (envAlloc k (k.envs c).id).1 := fun c =>
          @envAlloc_slot k { k with tf := tf₁ } rfl rfl _ _
        show (match k.curenv with
          | some c => allocEvent (envAlloc { k with tf := tf₁ } (k.envs c).id).1
          | none => .none) = _
        simp only [hslot]
        rfl
      | _ => rfl
    rw [hw, hg] at hm
    refine ⟨(hm.step.of_setTf).andThen (SameTable.of_eq rfl rfl rfl rfl), hm.recving, hm.cur⟩

-- ---------------------------------------------------------------------------
-- The invariant of the table
-- ---------------------------------------------------------------------------

/-- Slots, ids and ASIDs agree. -/
structure TableInv (k : Kernel) : Prop where
  freeNodup : k.envFreeList.Nodup
  freeIff : ∀ e, e ∈ k.envFreeList ↔ e < NENV ∧ ¬ k.Live e
  liveLt : ∀ e, k.Live e → e < NENV
  slot : ∀ e, k.Live e → ENVX (k.envs e).id = e
  asidSet : ∀ i < NASID, Bitmap.isSet k.asidBitmap i ↔ ∃ e, k.Live e ∧ (k.envs e).asid = i
  asidLt : ∀ e, k.Live e → (k.envs e).asid < NASID
  asidInj : ∀ e e', k.Live e → k.Live e' → (k.envs e).asid = (k.envs e').asid → e = e'
  cur : ∀ c, k.curenv = some c → k.Live c

namespace TableInv

theorem id_of_ident {env env' : Env} (h : env.ident = env'.ident) : env.id = env'.id :=
  congrArg Prod.fst h

theorem asid_of_ident {env env' : Env} (h : env.ident = env'.ident) : env.asid = env'.asid :=
  congrArg (fun x => x.2.1) h

/-- The table does not change, but for dead slots. -/
theorem same (h : TableInv k) (ident : ∀ x, k.Live x → (k'.envs x).ident = (k.envs x).ident)
    (live : ∀ x, k'.Live x ↔ k.Live x) (free : k'.envFreeList = k.envFreeList)
    (bits : k'.asidBitmap = k.asidBitmap) (hcur : ∀ c, k'.curenv = some c → k'.Live c) :
    TableInv k' where
  freeNodup := free ▸ h.freeNodup
  freeIff e := by
    rw [free, live]
    exact h.freeIff e
  liveLt e he := h.liveLt e ((live e).mp he)
  slot e he := by
    have he' := (live e).mp he
    rw [id_of_ident (ident e he')]
    exact h.slot e he'
  asidSet i hi := by
    rw [bits, h.asidSet i hi]
    constructor
    · rintro ⟨e, he, hasid⟩
      exact ⟨e, (live e).mpr he, (asid_of_ident (ident e he)).trans hasid⟩
    · rintro ⟨e, he, hasid⟩
      have he' := (live e).mp he
      exact ⟨e, he', (asid_of_ident (ident e he')).symm.trans hasid⟩
  asidLt e he := by
    have he' := (live e).mp he
    rw [asid_of_ident (ident e he')]
    exact h.asidLt e he'
  asidInj e e' he he' hee := by
    have hel := (live e).mp he
    have hel' := (live e').mp he'
    rw [asid_of_ident (ident e hel), asid_of_ident (ident e' hel')] at hee
    exact h.asidInj e e' hel hel' hee
  cur := hcur

/-- A slot and an ASID that nobody had go to a new env. -/
theorem born (h : TableInv k) {e asid parentId : Nat} {rest : List Nat} (hl : k.envFreeList = e :: rest)
    (hlt : asid < NASID) (hclear : ¬ Bitmap.isSet k.asidBitmap asid)
    (new : (k'.envs e).ident = ((mkenvid k e).1, asid, parentId)) (hborn : k'.Live e)
    (ident : ∀ x, x ≠ e → (k'.envs x).ident = (k.envs x).ident)
    (live : ∀ x, x ≠ e → (k'.Live x ↔ k.Live x)) (free : k'.envFreeList = rest)
    (bits : k'.asidBitmap = Bitmap.set k.asidBitmap asid)
    (hcur : ∀ c, k'.curenv = some c → k'.Live c) : TableInv k' := by
  have hnodup := h.freeNodup
  rw [hl, List.nodup_cons] at hnodup
  obtain ⟨helt, hdead⟩ := (h.freeIff e).mp (by simp [hl])
  have hid : (k'.envs e).id = (mkenvid k e).1 := congrArg Prod.fst new
  have hasid : (k'.envs e).asid = asid := congrArg (fun x => x.2.1) new
  -- a live env is the new one, or an old one with its ASID, which is not the new one
  have hcases : ∀ x, k'.Live x → (x = e ∧ (k'.envs x).asid = asid) ∨
      (x ≠ e ∧ k.Live x ∧ (k'.envs x).asid = (k.envs x).asid ∧ (k.envs x).asid ≠ asid) := by
    intro x hx
    by_cases hxe : x = e
    · rw [hxe]
      exact Or.inl ⟨rfl, hasid⟩
    · have hx' := (live x hxe).mp hx
      refine Or.inr ⟨hxe, hx', asid_of_ident (ident x hxe), ?_⟩
      intro heq
      exact hclear ((h.asidSet asid hlt).mpr ⟨x, hx', heq⟩)
  refine ⟨by rw [free]; exact hnodup.2, ?_, ?_, ?_, ?_, ?_, ?_, hcur⟩
  · intro x
    rw [free]
    by_cases hx : x = e
    · rw [hx]
      exact ⟨fun hm => absurd hm hnodup.1, fun hm => absurd hborn hm.2⟩
    · rw [live x hx, ← h.freeIff x, hl, List.mem_cons]
      exact ⟨Or.inr, fun hm => hm.resolve_left hx⟩
  · intro x hx
    rcases hcases x hx with ⟨rfl, -⟩ | ⟨-, hx', -⟩
    · exact helt
    · exact h.liveLt x hx'
  · intro x hx
    rcases hcases x hx with ⟨rfl, -⟩ | ⟨hxe, hx', -⟩
    · rw [hid, ENVX_mkenvid k helt]
    · rw [id_of_ident (ident x hxe)]
      exact h.slot x hx'
  · intro i hi
    rw [bits, Bitmap.isSet_set]
    constructor
    · rintro (hset | rfl)
      · obtain ⟨x, hx, hxi⟩ := (h.asidSet i hi).mp hset
        have hxe : x ≠ e := by
          rintro rfl
          exact hdead hx
        exact ⟨x, (live x hxe).mpr hx, (asid_of_ident (ident x hxe)).trans hxi⟩
      · exact ⟨e, hborn, hasid⟩
    · rintro ⟨x, hx, hxi⟩
      rcases hcases x hx with ⟨-, ha⟩ | ⟨-, hx', ha, -⟩
      · exact Or.inr (hxi.symm.trans ha)
      · exact Or.inl ((h.asidSet i hi).mpr ⟨x, hx', ha.symm.trans hxi⟩)
  · intro x hx
    rcases hcases x hx with ⟨-, ha⟩ | ⟨-, hx', ha, -⟩
    · rw [ha]
      exact hlt
    · rw [ha]
      exact h.asidLt x hx'
  · intro x x' hx hx' hxx
    rcases hcases x hx with ⟨rfl, ha⟩ | ⟨-, hxl, ha, hne⟩ <;>
      rcases hcases x' hx' with ⟨rfl, ha'⟩ | ⟨-, hxl', ha', hne'⟩
    · rfl
    · rw [ha, ha'] at hxx
      exact absurd hxx.symm hne'
    · rw [ha, ha'] at hxx
      exact absurd hxx hne
    · rw [ha, ha'] at hxx
      exact h.asidInj x x' hxl hxl' hxx

/-- A slot and its ASID are free again. -/
theorem died (h : TableInv k) {e : Nat} (he : k.Live e) (hdead : ¬ k'.Live e)
    (ident : ∀ x, (k'.envs x).ident = (k.envs x).ident)
    (live : ∀ x, x ≠ e → (k'.Live x ↔ k.Live x)) (free : k'.envFreeList = e :: k.envFreeList)
    (bits : k'.asidBitmap = Bitmap.clear k.asidBitmap (k.envs e).asid)
    (hcur : ∀ c, k'.curenv = some c → k'.Live c) : TableInv k' := by
  have hlive : ∀ x, k'.Live x ↔ k.Live x ∧ x ≠ e := by
    intro x
    by_cases hx : x = e
    · rw [hx]
      exact ⟨fun hl => absurd hl hdead, fun hl => absurd rfl hl.2⟩
    · rw [live x hx]
      exact ⟨fun hl => ⟨hl, hx⟩, fun hl => hl.1⟩
  have hasid : ∀ x, (k'.envs x).asid = (k.envs x).asid := fun x => asid_of_ident (ident x)
  refine ⟨?_, ?_, fun x hx => h.liveLt x ((hlive x).mp hx).1, ?_, ?_, ?_, ?_, hcur⟩
  · rw [free, List.nodup_cons]
    exact ⟨fun hm => ((h.freeIff e).mp hm).2 he, h.freeNodup⟩
  · intro x
    rw [free, List.mem_cons, h.freeIff, hlive]
    constructor
    · rintro (rfl | ⟨hx, hd⟩)
      · exact ⟨h.liveLt x he, fun hl => hl.2 rfl⟩
      · exact ⟨hx, fun hl => hd hl.1⟩
    · rintro ⟨hx, hd⟩
      by_cases hxe : x = e
      · exact Or.inl hxe
      · exact Or.inr ⟨hx, fun hl => hd ⟨hl, hxe⟩⟩
  · intro x hx
    rw [id_of_ident (ident x)]
    exact h.slot x ((hlive x).mp hx).1
  · intro i hi
    rw [bits, Bitmap.isSet_clear, h.asidSet i hi]
    constructor
    · rintro ⟨⟨x, hx, hxi⟩, hne⟩
      refine ⟨x, (hlive x).mpr ⟨hx, ?_⟩, (hasid x).trans hxi⟩
      rintro rfl
      exact hne hxi.symm
    · rintro ⟨x, hx, hxi⟩
      obtain ⟨hx, hxe⟩ := (hlive x).mp hx
      rw [hasid] at hxi
      refine ⟨⟨x, hx, hxi⟩, ?_⟩
      intro hie
      exact hxe (h.asidInj x e hx he (hxi.trans hie))
  · intro x hx
    rw [hasid]
    exact h.asidLt x ((hlive x).mp hx).1
  · intro x x' hx hx' hxx
    rw [hasid, hasid] at hxx
    exact h.asidInj x x' ((hlive x).mp hx).1 ((hlive x').mp hx').1 hxx

theorem step (h : TableInv k) {op : KernOp} (hrun : op.run k = .ok k') : TableInv k' := by
  obtain ⟨hstep, -, hcur⟩ := KernOp.tableStep h.cur hrun
  generalize op.event k = ev at hstep
  cases hstep with
  | same quiet ident live free bits count => exact h.same (fun x _ => ident x) live free bits hcur
  | @lost e rest hl ident live free bits count =>
    refine h.same (fun x hx => ident x ?_) live free bits hcur
    rintro rfl
    exact ((h.freeIff x).mp (by simp [hl])).2 hx
  | alloc hl hlt hclear new hborn ident live free bits count =>
    exact h.born hl hlt hclear new hborn ident live free bits hcur
  | free alive dead ident live free bits count => exact h.died alive dead ident live free bits hcur

/-- A step that neither creates nor destroys leaves every env its name. -/
theorem ident_eq (h : TableInv k) {op : KernOp} (hrun : op.run k = .ok k') (hev : op.event k = .none)
    (x : Nat) : (k'.envs x).ident = (k.envs x).ident := by
  have hstep := (KernOp.tableStep h.cur hrun).step
  rw [hev] at hstep
  cases hstep with
  | same quiet ident => exact ident x

end TableInv

theorem firstKernel_tableInv (pm : Pmap) (p : Nat) (disk : Vring) (kernelPgdir : Nat → Nat) :
    TableInv (firstKernel pm p disk kernelPgdir) := by
  have hdead : ∀ e, ¬ (firstKernel pm p disk kernelPgdir).Live e := fun e he => he rfl
  have hfree : (firstKernel pm p disk kernelPgdir).envFreeList = List.range NENV := by
    rw [firstKernel]
  have hbits : ∀ i, ¬ Bitmap.isSet (firstKernel pm p disk kernelPgdir).asidBitmap i := by
    intro i hset
    rw [Bitmap.isSet_iff] at hset
    simp [firstKernel] at hset
  refine ⟨by rw [hfree]; exact List.nodup_range, ?_, fun e he => absurd he (hdead e),
    fun e he => absurd he (hdead e), ?_, fun e he => absurd he (hdead e),
    fun e _ he => absurd he (hdead e), fun c hc => by cases hc⟩
  · intro e
    rw [hfree, List.mem_range]
    exact ⟨fun he => ⟨he, hdead e⟩, fun he => he.1⟩
  · intro i _
    exact ⟨fun hset => absurd hset (hbits i), fun ⟨e, he, _⟩ => absurd he (hdead e)⟩

/-- **Run lemma.** -/
theorem KernReach.tableInv {P : Kernel → KernOp → Prop} {k₀ k : Kernel} (h₀ : TableInv k₀)
    (h : KernReach P k₀ k) : TableInv k := by
  induction h with
  | refl => exact h₀
  | step _ _ hrun ih => exact ih.step hrun

end Mos.Kern
