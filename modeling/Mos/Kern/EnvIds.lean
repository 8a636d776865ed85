import Mos.Kern.Progress

/-!
# MOS on RISC-V — ids and recycled slots

An id is a count that never goes back, shifted above the slot. `mkenvid` keeps
the count in 32 bits and the id has 21 of them left, of which the highest is the
sign of what `sys_exofork` returns.

* `envid_unique` — as long as fewer than `2 ^ 20 - 1` ids were made before each
  `env_alloc`, the new id is positive, names its slot and was never given
  before, and the id of a dead env is refused for ever.
* `envid_negative` — after `2 ^ 20 - 1` forks the next id is negative.
* `envTable_consistent` — slots, ids, ASIDs and directories agree, and
  `envid2env` finds exactly the live envs.
-/

namespace Mos.Kern

open Mos.Lib

variable {b : BootState} {k₀ k k' : Kernel} {role₀ : Nat → Role} {l s : List Nat} {n : Nat}
  {P : Kernel → KernOp → Prop} {op : KernOp} {ids₀ ids ids' : List Nat}

-- ---------------------------------------------------------------------------
-- Ids
-- ---------------------------------------------------------------------------

/-- The id `env_alloc` gives in the step from `k` to `k'`, if any. -/
def KernOp.givenIds (k k' : Kernel) (op : KernOp) : List Nat :=
  match op.event k with
  | .born e => [(k'.envs e).id]
  | _ => []

/-- A run from `k₀` whose steps all meet `P`; the ids given on the way are put
before `ids₀`, the last first. -/
inductive IdRun (P : Kernel → KernOp → Prop) (k₀ : Kernel) (ids₀ : List Nat) :
    Kernel → List Nat → Prop where
  | refl : IdRun P k₀ ids₀ k₀ ids₀
  | step {k k' : Kernel} {ids : List Nat} {op : KernOp} : IdRun P k₀ ids₀ k ids → P k op →
      op.run k = .ok k' → IdRun P k₀ ids₀ k' (op.givenIds k k' ++ ids)

/-- Before a call of `env_alloc`, fewer than `2 ^ 20 - 1` ids have been made. -/
def CountFits (k : Kernel) : KernOp → Prop
  | .create _ _ => k.mkenvidCount + 1 < 2 ^ 20
  | .syscall _ .exofork => k.mkenvidCount + 1 < 2 ^ 20
  | _ => True

theorem CountFits.bound (h : CountFits k op) (hev : op.event k = .refused ∨ ∃ e, op.event k = .born e) :
    k.mkenvidCount + 1 < 2 ^ 20 := by
  have hquiet : ¬ (TableEvent.none = .refused ∨ ∃ e, TableEvent.none = .born e) := by
    rintro (hc | ⟨e, hc⟩) <;> cases hc
  cases op with
  | create binary priority => exact h
  | syscall tf c =>
    cases c with
    | exofork => exact h
    | envDestroy envid =>
      unfold KernOp.event destroyEvent at hev
      simp only at hev
      rcases hev with hev | ⟨e, hev⟩ <;> (repeat' split at hev) <;> cases hev
    | _ => exact absurd hev hquiet
  | _ => exact absurd hev hquiet

/-- What the ids given so far say about the state: each was made from a count
that is not above the present one, and the live envs have some of them. -/
structure IdInv (k : Kernel) (ids : List Nat) : Prop where
  table : TableInv k
  count : k.mkenvidCount < 2 ^ 20
  made : ∀ id ∈ ids, 0 < id / 2 ^ 11 ∧ id / 2 ^ 11 ≤ k.mkenvidCount
  live : ∀ e, k.Live e → (k.envs e).id ∈ ids

namespace IdInv

/-- The id of a new env is none of those given before. -/
theorem new_id (h : IdInv k ids) {e : Nat} (he : e < NENV) (hfit : k.mkenvidCount + 1 < 2 ^ 20) :
    (mkenvid k e).1 / 2 ^ 11 = k.mkenvidCount + 1 ∧ (mkenvid k e).1 < 2 ^ 31 ∧
      (mkenvid k e).1 ∉ ids := by
  have he' : e < 2 ^ 10 := he
  have hdiv : (mkenvid k e).1 / 2 ^ 11 = k.mkenvidCount + 1 := by
    rw [mkenvid_eq k he]
    omega
  refine ⟨hdiv, ?_, ?_⟩
  · rw [mkenvid_eq k he]
    omega
  · intro hm
    have := h.made _ hm
    omega

/-- No env is new. -/
theorem keep (h : IdInv k ids) (htable : TableInv k') (hle : k.mkenvidCount ≤ k'.mkenvidCount)
    (hlt : k'.mkenvidCount < 2 ^ 20)
    (hlive : ∀ e, k'.Live e → k.Live e ∧ (k'.envs e).id = (k.envs e).id) : IdInv k' ids := by
  refine ⟨htable, hlt, fun id hid => ?_, fun e he => ?_⟩
  · obtain ⟨hpos, hmade⟩ := h.made id hid
    exact ⟨hpos, hmade.trans hle⟩
  · obtain ⟨hel, hid⟩ := hlive e he
    rw [hid]
    exact h.live e hel

/-- The env that `env_alloc` returned. -/
theorem born_id (h : IdInv k ids) (hfit : CountFits k op) (hrun : op.run k = .ok k') {e : Nat}
    (hev : op.event k = .born e) :
    e < NENV ∧ k.mkenvidCount + 1 < 2 ^ 20 ∧ (k'.envs e).id = (mkenvid k e).1 := by
  have hstep := (KernOp.tableStep h.table.cur hrun).step
  have hbound := hfit.bound (Or.inr ⟨e, hev⟩)
  rw [hev] at hstep
  cases hstep with
  | same quiet => rcases quiet with hc | hc <;> cases hc
  | alloc hl hlt hclear new =>
    refine ⟨((h.table.freeIff e).mp ?_).1, hbound, congrArg Prod.fst new⟩
    rw [hl]
    exact List.mem_cons_self

/-- **Step lemma.** A live env has a new id, or it was live under the same one. -/
theorem step (h : IdInv k ids) (hfit : CountFits k op) (hrun : op.run k = .ok k') :
    IdInv k' (op.givenIds k k' ++ ids) ∧
      ∀ e, k'.Live e → (k'.envs e).id ∈ op.givenIds k k' ∨
        (k.Live e ∧ (k'.envs e).id = (k.envs e).id) := by
  have htable := h.table.step hrun
  have hstep := (KernOp.tableStep h.table.cur hrun).step
  unfold KernOp.givenIds
  generalize hev : op.event k = ev at hstep
  cases hstep with
  | same quiet ident live free bits count =>
    have hlive : ∀ e, k'.Live e → k.Live e ∧ (k'.envs e).id = (k.envs e).id :=
      fun e he => ⟨(live e).mp he, TableInv.id_of_ident (ident e)⟩
    have hkeep := h.keep htable count.ge (count ▸ h.count) hlive
    rcases quiet with rfl | rfl
    · exact ⟨hkeep, fun e he => Or.inr (hlive e he)⟩
    · exact ⟨hkeep, fun e he => Or.inr (hlive e he)⟩
  | @lost e rest hl ident live free bits count =>
    have hbound := hfit.bound (Or.inl hev)
    have hdead : ¬ k.Live e := ((h.table.freeIff e).mp (by rw [hl]; exact List.mem_cons_self)).2
    have hlive : ∀ x, k'.Live x → k.Live x ∧ (k'.envs x).id = (k.envs x).id := by
      intro x hx
      have hx' := (live x).mp hx
      exact ⟨hx', TableInv.id_of_ident (ident x fun hxe => hdead (hxe ▸ hx'))⟩
    refine ⟨h.keep htable ?_ ?_ hlive, fun x hx => Or.inr (hlive x hx)⟩
    · rw [count]
      omega
    · rw [count]
      omega
  | @alloc e asid parentId rest hl hlt hclear new born ident live free bits count =>
    have hbound := hfit.bound (Or.inr ⟨e, hev⟩)
    have helt : e < NENV := ((h.table.freeIff e).mp (by rw [hl]; exact List.mem_cons_self)).1
    have hid : (k'.envs e).id = (mkenvid k e).1 := congrArg Prod.fst new
    have hcount : k'.mkenvidCount = k.mkenvidCount + 1 := by
      rw [count]
      omega
    have hlive : ∀ x, k'.Live x → (k'.envs x).id ∈ [(k'.envs e).id] ∨
        (k.Live x ∧ (k'.envs x).id = (k.envs x).id) := by
      intro x hx
      by_cases hxe : x = e
      · rw [hxe]
        exact Or.inl List.mem_cons_self
      · exact Or.inr ⟨(live x hxe).mp hx, TableInv.id_of_ident (ident x hxe)⟩
    refine ⟨⟨htable, by omega, ?_, ?_⟩, hlive⟩
    · intro id hm
      rw [List.mem_append, List.mem_singleton] at hm
      rcases hm with rfl | hm
      · rw [hid, (h.new_id helt hbound).1, hcount]
        exact ⟨Nat.succ_pos _, le_refl _⟩
      · obtain ⟨hpos, hmade⟩ := h.made id hm
        exact ⟨hpos, by omega⟩
    · intro x hx
      rw [List.mem_append]
      rcases hlive x hx with hm | ⟨hxl, hm⟩
      · exact Or.inl hm
      · exact Or.inr (hm ▸ h.live x hxl)
  | @free e alive dead ident live free bits count =>
    have hlive : ∀ x, k'.Live x → k.Live x ∧ (k'.envs x).id = (k.envs x).id := by
      intro x hx
      have hxe : x ≠ e := fun hxe => dead (hxe ▸ hx)
      exact ⟨(live x hxe).mp hx, TableInv.id_of_ident (ident x)⟩
    exact ⟨h.keep htable count.ge (count ▸ h.count) hlive, fun x hx => Or.inr (hlive x hx)⟩

end IdInv

/-- **Run lemma.** -/
theorem IdRun.idInv (h₀ : IdInv k₀ ids₀) (h : IdRun CountFits k₀ ids₀ k ids) : IdInv k ids := by
  induction h with
  | refl => exact h₀
  | step _ hfit hrun ih => exact (ih.step hfit hrun).1

/-- An id that was given and that no live env has. -/
def DeadId (k : Kernel) (ids : List Nat) (id : Nat) : Prop :=
  id ∈ ids ∧ ∀ e, k.Live e → (k.envs e).id ≠ id

theorem IdInv.givenIds_new (h : IdInv k ids) (hfit : CountFits k op) (hrun : op.run k = .ok k') :
    ∀ id ∈ op.givenIds k k', id ∉ ids := by
  intro id hid
  unfold KernOp.givenIds at hid
  split at hid
  · rename_i e hev
    obtain ⟨helt, hbound, heq⟩ := h.born_id hfit hrun hev
    rw [List.mem_singleton.mp hid, heq]
    exact (h.new_id helt hbound).2.2
  · exact absurd hid List.not_mem_nil

/-- A dead id is never given again. -/
theorem IdRun.deadId (h₀ : IdInv k ids) {id : Nat} (hdead : DeadId k ids id)
    (h : IdRun CountFits k ids k' ids') : DeadId k' ids' id := by
  induction h with
  | refl => exact hdead
  | @step k₁ k₂ ids₁ op hrun₁ hfit hrun ih =>
    have hinv := hrun₁.idInv h₀
    obtain ⟨hinv', hlive⟩ := hinv.step hfit hrun
    refine ⟨List.mem_append_right _ ih.1, fun e he heq => ?_⟩
    rcases hlive e he with hm | ⟨hel, hid⟩
    · exact hinv.givenIds_new hfit hrun _ hm (heq ▸ ih.1)
    · exact ih.2 e hel (hid.symm.trans heq)

/-- `envid2env` refuses an id that no live env has. -/
theorem envid2env_dead {cur id : Nat} (h0 : id ≠ 0) (hdead : ∀ e, k.Live e → (k.envs e).id ≠ id)
    (checkperm : Bool) : envid2env k cur id checkperm = .error (-E_BAD_ENV) := by
  unfold envid2env
  rw [if_neg h0]
  show (if (k.envs (ENVX id)).status = .free ∨ (k.envs (ENVX id)).id ≠ id then _ else _) = _
  rw [if_pos]
  by_cases hfree : (k.envs (ENVX id)).status = .free
  · exact Or.inl hfree
  · exact Or.inr (hdead _ hfree)

theorem boot_idInv (hboot : b.boot = .ok k₀) : IdInv k₀ [] := by
  obtain ⟨pm, p, hk⟩ := envInit_firstKernel hboot
  rw [hk]
  exact ⟨firstKernel_tableInv pm p b.disk b.kernelPgdir, by show 0 < 2 ^ 20; decide,
    fun _ hid => absurd hid List.not_mem_nil, fun e he => absurd rfl he⟩

theorem toInt_nonneg {id : Nat} (h : id < 2 ^ 31) : 0 ≤ toInt id := by
  unfold toInt
  rw [Int.bmod_eq_of_le] <;> omega

/-- **Ids are unique.** In a run from boot in which fewer than `2 ^ 20 - 1` ids
were made before each call of `env_alloc`, the id of a new env is not zero, not
negative as an `int`, names the slot and is none of those given before; and once
no live env has an id that was given, `envid2env` refuses it for ever after. -/
theorem envid_unique (b : BootState) (hboot : b.boot = .ok k₀) (hrun : IdRun CountFits k₀ [] k ids) :
    (∀ op k' e, CountFits k op → op.run k = .ok k' → op.event k = .born e →
      (k'.envs e).id ≠ 0 ∧ 0 ≤ toInt (k'.envs e).id ∧ ENVX (k'.envs e).id = e ∧
        (k'.envs e).id ∉ ids) ∧
    ∀ id, DeadId k ids id → ∀ k' ids', IdRun CountFits k ids k' ids' → ∀ cur checkperm,
      envid2env k' cur id checkperm = .error (-E_BAD_ENV) := by
  have hinv := hrun.idInv (boot_idInv hboot)
  constructor
  · intro op k' e hfit hstep hev
    obtain ⟨helt, hbound, hid⟩ := hinv.born_id hfit hstep hev
    obtain ⟨hdiv, hlt, hnew⟩ := hinv.new_id helt hbound
    rw [hid]
    refine ⟨?_, toInt_nonneg hlt, ENVX_mkenvid k helt, hnew⟩
    intro h0
    rw [h0] at hdiv
    omega
  · intro id hdead k' ids' hrun' cur checkperm
    obtain ⟨hpos, -⟩ := hinv.made id hdead.1
    have h0 : id ≠ 0 := by
      rintro rfl
      exact absurd hpos (by decide)
    exact envid2env_dead h0 (hrun'.deadId hinv hdead).2 checkperm

-- ---------------------------------------------------------------------------
-- A parent that forks over and over
-- ---------------------------------------------------------------------------

/-- The running env `a` forks, wakes the child and destroys it. -/
theorem InOrder.forkRound {a : Nat} (h : InOrder b k₀ role₀ k [a] [a] (n + 1))
    (hb : Booted b k₀ role₀) (hcur : k.curenv = some a) (hcount : k.mkenvidCount + 1 < 2 ^ 21) :
    ∃ e k₁ k₂ k₃, (KernOp.syscall zeroTrapframe .exofork).run k = .ok k₁ ∧
      (KernOp.syscall zeroTrapframe (.setEnvStatus (k₁.envs e).id 1)).run k₁ = .ok k₂ ∧
      (KernOp.syscall zeroTrapframe (.envDestroy (k₂.envs e).id)).run k₂ = .ok k₃ ∧
      (KernOp.syscall zeroTrapframe .exofork).event k = .born e ∧
      InOrder b k₀ role₀ k₃ [a] [a] 1 ∧ k₃.curenv = some a ∧
      k₃.mkenvidCount = k.mkenvidCount + 1 ∧ e ≠ a ∧ ENVX (k₁.envs e).id = e := by
  obtain ⟨e, k₁, hfork, hev, h₁, hchild₁, hborn⟩ := h.forkChild hb hcur hcount
  obtain ⟨k₂, hwake, h₂, hchild₂, hone⟩ := h₁.wakeChild hb (hborn.curenv.trans hcur) hchild₁
  have hcur₂ : k₂.curenv = some a := hone.curenv.trans (hborn.curenv.trans hcur)
  obtain ⟨k₃, hdestroy, h₃, -, -, hcount₃, hcur₃⟩ := h₂.destroyChild hb hcur₂ hchild₂
  refine ⟨e, k₁, k₂, k₃, hfork, hwake, hdestroy, hev, h₃, hcur₃, ?_, hchild₁.ne,
    h₁.table.slot e ((h₁.live e).mpr List.mem_cons_self)⟩
  rw [hcount₃, hone.count, hborn.count]
  omega

/-- After `m` rounds the count is `m` higher. -/
theorem InOrder.forkRounds {a : Nat} (hb : Booted b k₀ role₀)
    (hrun : IdRun (fun _ _ => True) k₀ ids₀ k ids) (h : InOrder b k₀ role₀ k [a] [a] (n + 1))
    (hcur : k.curenv = some a) (m : Nat) (hm : k.mkenvidCount + m < 2 ^ 21) :
    ∃ k' ids' n', IdRun (fun _ _ => True) k₀ ids₀ k' ids' ∧
      InOrder b k₀ role₀ k' [a] [a] (n' + 1) ∧ k'.curenv = some a ∧
      k'.mkenvidCount = k.mkenvidCount + m := by
  induction m with
  | zero => exact ⟨k, ids, n, hrun, h, hcur, rfl⟩
  | succ m ih =>
    obtain ⟨k₁, ids₁, n₁, hrun₁, h₁, hcur₁, hcount₁⟩ := ih (by omega)
    obtain ⟨e, k₂, k₃, k₄, hfork, hwake, hdestroy, -, h₄, hcur₄, hcount₄, -, -⟩ :=
      h₁.forkRound hb hcur₁ (by omega)
    refine ⟨k₄, _, 0, ((hrun₁.step trivial hfork).step trivial hwake).step trivial hdestroy, h₄,
      hcur₄, ?_⟩
    rw [hcount₄, hcount₁]
    rfl

/-- **A negative id.** An env that forks and destroys its child `2 ^ 20 - 2` times
gets from its next fork an id that is negative as an `int`. -/
theorem envid_negative :
    ∃ k₀ k ids k' e, smallBoot.boot = .ok k₀ ∧ IdRun (fun _ _ => True) k₀ [] k ids ∧
      (KernOp.syscall zeroTrapframe .exofork).run k = .ok k' ∧
      (KernOp.syscall zeroTrapframe .exofork).event k = .born e ∧ toInt (k'.envs e).id < 0 := by
  obtain ⟨k₀, role₀, k₁, k₂, a, hboot, hb, hcreate, htick, -, -, h₂, hcur, hcount, -⟩ :=
    smallBoot_first
  have hrun₂ : IdRun (fun _ _ => True) k₀ [] k₂ _ :=
    (IdRun.refl.step trivial hcreate).step trivial htick
  obtain ⟨k, ids, n, hrun, h, hcur', hcount'⟩ :=
    InOrder.forkRounds hb hrun₂ h₂ hcur (2 ^ 20 - 2) (by omega)
  obtain ⟨e, k', hfork, hev, h', -, hborn⟩ := h.forkChild hb hcur' (by omega)
  refine ⟨k₀, k, ids, k', e, hboot, hrun, hfork, hev, ?_⟩
  have helt : e < 2 ^ 10 := h'.table.liveLt e ((h'.live e).mpr List.mem_cons_self)
  have hid : (k'.envs e).id = 2 ^ 31 + e := by
    rw [hborn.id, mkenvid_eq k helt, hcount', hcount]
    omega
  rw [hid]
  unfold toInt
  rw [Int.bmod_def]
  omega

/-- The id of a child that was destroyed is refused. -/
theorem envid_unique_destroyed :
    ∃ k₀ k ids id, smallBoot.boot = .ok k₀ ∧ IdRun CountFits k₀ [] k ids ∧ id ∈ ids ∧
      ∀ cur, envid2env k cur id false = .error (-E_BAD_ENV) := by
  obtain ⟨k₀, role₀, k₁, k₂, a, hboot, hb, hcreate, htick, -, -, h₂, hcur, hcount, -⟩ :=
    smallBoot_first
  obtain ⟨e, k₃, k₄, k₅, hfork, hwake, hdestroy, hev, h₅, -, -, hea, hslot⟩ :=
    h₂.forkRound hb hcur (by omega)
  have hfirst : CountFits k₀ (.create (some ⟨UTEXT, []⟩) 1) := by
    obtain ⟨pm, p, hk⟩ := envInit_firstKernel hboot
    rw [hk]
    show 0 + 1 < 2 ^ 20
    decide
  have hfits : CountFits k₂ (.syscall zeroTrapframe .exofork) := by
    show k₂.mkenvidCount + 1 < 2 ^ 20
    omega
  have hrun₃ : IdRun CountFits k₀ [] k₃ _ :=
    ((IdRun.refl.step hfirst hcreate).step (show CountFits k₁ (.tick _) from trivial) htick).step
      hfits hfork
  have hrun : IdRun CountFits k₀ [] k₅ _ :=
    (hrun₃.step (show CountFits k₃ (.syscall _ (.setEnvStatus _ _)) from trivial) hwake).step
      (show CountFits k₄ (.syscall _ (.envDestroy _)) from trivial) hdestroy
  have hmem : (k₃.envs e).id ∈ KernOp.givenIds k₂ k₃ (.syscall zeroTrapframe .exofork) := by
    unfold KernOp.givenIds
    rw [hev]
    exact List.mem_cons_self
  have hdead : ∀ x, k₅.Live x → (k₅.envs x).id ≠ (k₃.envs e).id := by
    intro x hx heq
    have hxa : x = a := List.mem_singleton.mp ((h₅.live x).mp hx)
    have hxs := h₅.table.slot x hx
    rw [heq, hslot] at hxs
    exact hea (hxs.trans hxa)
  refine ⟨k₀, k₅, _, (k₃.envs e).id, hboot, hrun, ?_, fun cur => ?_⟩
  · exact List.mem_append_right _ (List.mem_append_right _ (List.mem_append_left _ hmem))
  · refine (envid_unique smallBoot hboot hrun).2 _ ⟨?_, hdead⟩ k₅ _ .refl cur false
    exact List.mem_append_right _ (List.mem_append_right _ (List.mem_append_left _ hmem))

-- ---------------------------------------------------------------------------
-- Slots, ids, ASIDs and directories
-- ---------------------------------------------------------------------------

/-- The operations on envs, with a page for each new directory, and what changes
who runs. -/
def EnvOp (k : Kernel) : KernOp → Prop
  | .create binary _ => UserElf binary ∧ EnvRoom k
  | .syscall _ .exofork => EnvRoom k
  | .syscall _ (.envDestroy _) => True
  | .syscall _ (.setEnvStatus _ _) => True
  | .syscall _ .yield => True
  | .tick _ => True
  | _ => False

theorem EnvOp.safe (h : EnvOp k op) : MapSafe k op ∧ ¬ op.Shares := by
  cases op with
  | create binary priority => exact ⟨h, id⟩
  | tick tf => exact ⟨trivial, id⟩
  | syscall tf c =>
    cases c with
    | exofork => exact ⟨h, id⟩
    | envDestroy envid => exact ⟨trivial, id⟩
    | setEnvStatus envid status => exact ⟨trivial, id⟩
    | yield => exact ⟨trivial, id⟩
    | _ => exact absurd h id
  | _ => exact absurd h id

theorem KernReach.kernelOk_envOp (hb : Booted b k₀ role₀) (h : KernReach EnvOp k₀ k) :
    KernelOk b k₀ role₀ k := by
  induction h with
  | refl => exact hb.kernelOk
  | step _ hop hrun ih =>
    obtain ⟨hsafe, hshare⟩ := hop.safe
    exact (ih.step hb hsafe hrun).ok fun hs => absurd hs hshare

/-- The lookup by index is a search among the live envs. -/
theorem TableInv.envid2env_iff (h : TableInv k) {cur id e : Nat} {checkperm : Bool} (h0 : id ≠ 0) :
    envid2env k cur id checkperm = .ok e ↔
      k.Live e ∧ (k.envs e).id = id ∧
        (checkperm = true → e = cur ∨ (k.envs e).parentId = (k.envs cur).id) := by
  constructor
  · intro hfound
    rcases envid2env_cases hfound with ⟨hz, -⟩ | ⟨-, -, hlive, hid, hperm⟩
    · exact absurd hz h0
    · exact ⟨hlive, hid, hperm⟩
  · rintro ⟨hlive, hid, hperm⟩
    exact envid2env_ok hid h0 (hid ▸ h.slot e hlive) hlive hperm

/-- **The table of envs is consistent.** In every state of every run of operations
on envs, the free list holds the free slots, each once; live envs differ in id,
ASID and directory; the bits set in `asid_bitmap` are the ASIDs of the live envs;
and `envid2env` finds, for an id that is not zero, the live env that has it, if
the caller may have it. -/
theorem envTable_consistent (b : BootState) (hroom : usedFrames b.freemem + 3 ≤ npage)
    (hboot : b.boot = .ok k₀) (hrun : KernReach EnvOp k₀ k) :
    (k.envFreeList.Nodup ∧ ∀ e, e ∈ k.envFreeList ↔ e < NENV ∧ (k.envs e).status = .free) ∧
    (∀ e e', k.Live e → k.Live e' → e ≠ e' → (k.envs e).id ≠ (k.envs e').id ∧
      (k.envs e).asid ≠ (k.envs e').asid ∧ (k.envs e).pgdir ≠ (k.envs e').pgdir) ∧
    (∀ i < NASID, Bitmap.isSet k.asidBitmap i ↔ ∃ e, k.Live e ∧ (k.envs e).asid = i) ∧
    ∀ cur id checkperm, k.curenv = some cur → id ≠ 0 →
      (∀ e, envid2env k cur id checkperm = .ok e ↔ k.Live e ∧ (k.envs e).id = id ∧
        (checkperm = true → e = cur ∨ (k.envs e).parentId = (k.envs cur).id)) ∧
      ∀ r, envid2env k cur id checkperm = .error r → r = -E_BAD_ENV := by
  obtain ⟨k₁, role₀, hboot₁, hb⟩ := boot_ok b hroom
  obtain rfl : k₁ = k₀ := Except.ok.inj (hboot₁.symm.trans hboot)
  have htable := hrun.tableInv (boot_idInv hboot).table
  obtain ⟨role, hinv, -⟩ := hrun.kernelOk_envOp hb
  refine ⟨⟨htable.freeNodup, fun e => ?_⟩, ?_, htable.asidSet, ?_⟩
  · rw [htable.freeIff]
    unfold Kernel.Live
    rw [not_not]
  · intro e e' he he' hne
    refine ⟨fun hid => hne ?_, fun hasid => hne (htable.asidInj e e' he he' hasid),
      fun hdir => hne (hinv.dirInj e e' he he' hdir)⟩
    have hslot := htable.slot e he
    rw [hid] at hslot
    exact hslot.symm.trans (htable.slot e' he')
  · intro cur id checkperm _ h0
    refine ⟨fun e => htable.envid2env_iff h0, fun r hr => ?_⟩
    unfold envid2env at hr
    rw [if_neg h0] at hr
    change (if _ then _ else if _ then _ else _) = _ at hr
    split_ifs at hr <;> exact (Except.error.inj hr).symm

/-- Two envs, a parent and its child, after a fork. -/
theorem envTable_consistent_fork :
    ∃ k₀ k a e, smallBoot.boot = .ok k₀ ∧ KernReach EnvOp k₀ k ∧ k.curenv = some a ∧ k.Live a ∧
      k.Live e ∧ (k.envs a).pgdir ≠ (k.envs e).pgdir ∧
      ∃ id, id ≠ 0 ∧ envid2env k a id true = .ok e := by
  obtain ⟨k₀, role₀, k₁, k₂, a, hboot, hb, hcreate, htick, h₀, h₁, h₂, hcur, hcount, -⟩ :=
    smallBoot_first
  obtain ⟨e, k₃, hfork, -, h₃, hchild, hborn⟩ := h₂.forkChild hb hcur (by omega)
  have hreach : KernReach EnvOp k₀ k₃ := by
    refine .step (.step (.step .refl ?_ hcreate) ?_ htick) ?_ hfork
    · refine ⟨fun elf helf ph hph => ?_, h₀.envRoom⟩
      cases helf
      exact absurd hph List.not_mem_nil
    · trivial
    · exact h₂.envRoom
  have hlive : k₃.Live e := (h₃.live e).mpr List.mem_cons_self
  have hlive' : k₃.Live a := (h₃.live a).mpr (List.mem_cons_of_mem e List.mem_cons_self)
  obtain ⟨-, hdiff, -, hfind⟩ := envTable_consistent smallBoot (by decide) hboot hreach
  have hcur₃ : k₃.curenv = some a := hborn.curenv.trans hcur
  have hmine : k₃.Live e ∧ (k₃.envs e).id = (k₃.envs e).id ∧
      (true = true → e = a ∨ (k₃.envs e).parentId = (k₃.envs a).id) :=
    ⟨hlive, rfl, fun _ => Or.inr hchild.parent⟩
  exact ⟨k₀, k₃, a, e, hboot, hreach, hcur₃, hlive', hlive,
    (hdiff a e hlive' hlive (Ne.symm hchild.ne)).2.2, (k₃.envs e).id, hchild.id,
    ((hfind a _ true hcur₃ hchild.id).1 e).mpr hmine⟩

end Mos.Kern
