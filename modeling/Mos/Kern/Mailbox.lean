import Mos.Kern.PageSend

/-!
# MOS on RISC-V — messages arrive once, in order

An env has one slot for a message. `MailSys` is the kernel with the messages that
were sent to each env and those the env has read: an env reads its slot after
`sys_ipc_recv` let it go on, and before it calls `sys_ipc_recv` again.

* `MailInv` — a waiting env is not runnable, and every message that was sent was
  read, except at most one, which is in the slot.
* `mail_exactlyOnce` — that holds along every run in which no env is made or
  destroyed, none gets a status but from a message, and a page that is sent arrives.
* `unread_linked` — an env with a message it has not read is in the run queue.
-/

namespace Mos.Kern

open Mos.Lib

-- ---------------------------------------------------------------------------
-- The kernel and its messages
-- ---------------------------------------------------------------------------

/-- What a send that returns 0 delivers: the env, the value and the id of the sender. -/
def KernOp.mail (k : Kernel) : KernOp → Option (Nat × Nat × Nat)
  | .syscall tf (.ipcTrySend envid value srcva perm) =>
    match k.curenv with
    | none => none
    | some cur =>
      match envid2env k cur envid false with
      | .error _ => none
      | .ok e =>
        match doSyscall { k with tf := tf } cur (.ipcTrySend envid value srcva perm) with
        | .error _ => none
        | .ok (r, _) => if r = some 0 then some (e, value, (k.envs cur).id) else none
  | _ => none

/-- The env that `sys_ipc_recv` stops. -/
def KernOp.stops (k : Kernel) : KernOp → Option Nat
  | .syscall _ (.ipcRecv dstva) => if dstva ≠ 0 ∧ isIllegalVa dstva then none else k.curenv
  | _ => none

/-- `due e` says that `e` was stopped and has not read its message since. -/
structure MailSys where
  k : Kernel
  due : Nat → Bool
  sent : Nat → List (Nat × Nat)
  got : Nat → List (Nat × Nat)

inductive MailAct where
  | kern (op : KernOp)
  | read                    -- the running env reads the message it was stopped for

namespace MailSys

variable (s : MailSys)

/-- A step of the kernel. -/
def kern (op : KernOp) (k' : Kernel) : MailSys where
  k := k'
  due :=
    match op.stops s.k with
    | none => s.due
    | some e => Function.update s.due e true
  sent :=
    match op.mail s.k with
    | none => s.sent
    | some (e, m) => Function.update s.sent e (s.sent e ++ [m])
  got := s.got

theorem kern_due {op : KernOp} (h : op.stops s.k = none) (k' : Kernel) :
    (s.kern op k').due = s.due := by
  simp only [kern, h]

theorem kern_due_stop {op : KernOp} {e : Nat} (h : op.stops s.k = some e) (k' : Kernel) :
    (s.kern op k').due = Function.update s.due e true := by
  simp only [kern, h]

theorem kern_sent {op : KernOp} (h : op.mail s.k = none) (k' : Kernel) :
    (s.kern op k').sent = s.sent := by
  simp only [kern, h]

theorem kern_sent_mail {op : KernOp} {e : Nat} {m : Nat × Nat} (h : op.mail s.k = some (e, m))
    (k' : Kernel) : (s.kern op k').sent = Function.update s.sent e (s.sent e ++ [m]) := by
  simp only [kern, h]

/-- `env_ipc_value` and `env_ipc_from` are read. -/
def read (e : Nat) : MailSys :=
  { s with
    due := Function.update s.due e false
    got := Function.update s.got e (s.got e ++ [((s.k.envs e).ipcValue, (s.k.envs e).ipcFrom)]) }

/-- A step; none if it is not one that can be taken. -/
def step : MailAct → Option MailSys
  | .kern op =>
    match op.run s.k with
    | .error _ => none
    | .ok k' => if (op.stops s.k).any s.due then none else some (s.kern op k')
  | .read =>
    match s.k.curenv with
    | none => none
    | some e => if s.due e = true then some (s.read e) else none

/-- The message in the slot of `e`, if it is one that `e` has not read. -/
def unread (e : Nat) : List (Nat × Nat) :=
  if s.due e = true ∧ (s.k.envs e).ipcRecving = 0 then
    [((s.k.envs e).ipcValue, (s.k.envs e).ipcFrom)]
  else []

end MailSys

/-- No env is made or destroyed, none gets a status but from a message, and the page
of a message is there and can be mapped. -/
def MailSafe (k : Kernel) : KernOp → Prop
  | .create .. => False
  | .syscall _ .exofork => False
  | .syscall _ (.envDestroy _) => False
  | .syscall _ (.setEnvStatus ..) => False
  | .syscall _ (.ipcTrySend envid _ srcva perm) => ∀ cur e, k.curenv = some cur →
      srcva ≠ 0 → isIllegalVa srcva = false → envid2env k cur envid false = .ok e →
      (k.envs e).ipcRecving ≠ 0 →
      ∃ pp p pm, pageLookup k.pm (k.envs cur).pgdir srcva = .ok (some (pp, p)) ∧
        pageInsert k.pm (k.envs e).pgdir (k.envs e).asid pp (k.envs e).ipcDstva (sentPerm perm) =
          .ok (0, pm)
  | _ => True


-- ---------------------------------------------------------------------------
-- What a step does to the slots
-- ---------------------------------------------------------------------------

variable {k k' : Kernel} {op : KernOp}

/-- The fields of an env that a message changes. -/
def Env.slot (env : Env) : EnvStatus × Nat × Nat × Nat :=
  (env.status, env.ipcRecving, env.ipcValue, env.ipcFrom)

/-- A step without a message: the slots stay, and who runs is runnable. -/
structure SameMail (k k' : Kernel) : Prop where
  slot : ∀ e, (k'.envs e).slot = (k.envs e).slot
  cur : k'.curenv = k.curenv ∨ ∃ c, k'.curenv = some c ∧ (k.envs c).status = .runnable

namespace SameMail

theorem of_eq (henvs : k'.envs = k.envs) (hcur : k'.curenv = k.curenv) : SameMail k k' where
  slot e := by rw [henvs]
  cur := Or.inl hcur

theorem of_pageWork (h : PageWork k k') : SameMail k k' where
  slot := h.envField Env.slot fun _ => rfl
  cur := Or.inl (h.field Kernel.curenv fun _ => rfl)

theorem setEnv (k : Kernel) (e : Nat) {f : Env → Env} (hf : (f (k.envs e)).slot = (k.envs e).slot) :
    SameMail k (k.setEnv e f) where
  slot x := by
    by_cases hx : x = e
    · subst hx
      rw [Kernel.setEnv_self]
      exact hf
    · rw [Kernel.setEnv_of_ne k e f hx]
  cur := Or.inl rfl

theorem andThen {k₁ : Kernel} (h : SameMail k k₁) (hslot : ∀ e, (k'.envs e).slot = (k₁.envs e).slot)
    (hcur : k'.curenv = k₁.curenv) : SameMail k k' where
  slot e := (hslot e).trans (h.slot e)
  cur := by
    rw [hcur]
    exact h.cur

/-- The scheduler resumes a runnable env. -/
theorem schedule {yield : Bool} (h : schedule k yield = .ok k') : SameMail k k' := by
  obtain ⟨disk, count, q, log, c, hrun⟩ := schedule_envRun h
  obtain ⟨hst, hcur, -, henv, -⟩ := envRun_env hrun
  refine ⟨fun e => ?_, Or.inr ⟨c, hcur, hst⟩⟩
  obtain ⟨tf, runs, he⟩ := henv e
  rw [he]
  rfl

end SameMail

/-- The calls that neither send nor wait. -/
theorem exec_sameMail {cur : Nat} {s : Syscall} {r : Option Int} (tf : Trapframe)
    (hsafe : MailSafe k (.syscall tf s)) (hsend : ∀ a b c d, s ≠ .ipcTrySend a b c d)
    (hrecv : ∀ a, s ≠ .ipcRecv a) (h : s.exec k cur = .ok (r, k')) : SameMail k k' := by
  cases s with
  | putchar left | getenvid | cgetc ch =>
    cases h
    exact .of_eq rfl rfl
  | printCons s num =>
    change sysPrintCons k cur s num = _ at h
    unfold sysPrintCons at h
    split_ifs at h
    · cases h
      exact .of_eq rfl rfl
    · obtain ⟨⟨bs, k₁⟩, hload, hdone⟩ := bind_eq_ok.mp h
      cases hdone
      exact .of_pageWork ((kernelLoads_keeps k cur s num).post _ hload)
  | yield =>
    obtain ⟨k₁, hsched, hdone⟩ := bind_eq_ok.mp h
    cases hdone
    exact .schedule hsched
  | setTlbModEntry envid func =>
    change sysSetTlbModEntry k cur envid func = _ at h
    unfold sysSetTlbModEntry at h
    split at h
    · cases h
      exact .of_eq rfl rfl
    · cases h
      exact .setEnv k _ rfl
  | memAlloc envid va perm =>
    rcases sysMemAlloc_cases h with rfl | ⟨e, pp, pm, r', pm', -, -, -, -, -, rfl⟩
    · exact .of_eq rfl rfl
    · exact .of_eq rfl rfl
  | memMap srcid srcva dstid dstva perm =>
    rcases sysMemMap_cases h with rfl | ⟨src, dst, pp, p, r', pm', -, -, -, -, -, -, -, rfl⟩
    · exact .of_eq rfl rfl
    · exact .of_eq rfl rfl
  | memUnmap envid va =>
    rcases sysMemUnmap_cases h with rfl | ⟨e, pm', -, -, -, -, rfl⟩
    · exact .of_eq rfl rfl
    · exact .of_eq rfl rfl
  | setTrapframe envid va =>
    rcases sysSetTrapframe_cases h with rfl | ⟨e, bs, k₁, tf, he, hload, hend⟩
    · exact .of_eq rfl rfl
    · have hw := SameMail.of_pageWork ((kernelLoads_keeps k cur va TRAPFRAME_SIZE).post _ hload)
      rcases hend with rfl | rfl
      · exact hw.andThen (fun _ => rfl) rfl
      · exact hw.andThen (SameMail.setEnv k₁ e rfl).slot rfl
  | devReq dev req =>
    obtain ⟨disk, rfl⟩ := sysDevReq_cases h
    exact .of_eq rfl rfl
  | envDestroy envid => exact hsafe.elim
  | exofork => exact hsafe.elim
  | setEnvStatus envid status => exact hsafe.elim
  | panic => cases h
  | ipcTrySend envid value srcva perm => exact absurd rfl (hsend envid value srcva perm)
  | ipcRecv dstva => exact absurd rfl (hrecv dstva)

/-- `sys_ipc_recv` fails, or stops the env that calls it. -/
theorem ipcRecv_stops {cur dstva : Nat} {r : Option Int} (tf : Trapframe) (hcur : k.curenv = some cur)
    (h : sysIpcRecv k cur dstva = .ok (r, k')) :
    (KernOp.stops k (.syscall tf (.ipcRecv dstva)) = none ∧ k' = k) ∨
      (KernOp.stops k (.syscall tf (.ipcRecv dstva)) = some cur ∧
        (∀ e, (k'.envs e).slot = (Function.update k.envs cur (waitingEnv k cur dstva) e).slot) ∧
        ∃ c, k'.curenv = some c ∧ c ≠ cur ∧ (k.envs c).status = .runnable) := by
  unfold sysIpcRecv at h
  unfold KernOp.stops
  by_cases hva : dstva ≠ 0 ∧ isIllegalVa dstva
  · rw [if_pos hva] at h
    cases h
    exact Or.inl ⟨if_pos hva, rfl⟩
  · rw [if_neg hva] at h
    obtain ⟨k₁, hq, h⟩ := bind_eq_ok.mp h
    obtain ⟨k₂, hsched, hdone⟩ := bind_eq_ok.mp h
    cases hdone
    obtain ⟨q, rfl⟩ := tailqRemove_eq hq
    have hsame := SameMail.schedule hsched
    obtain ⟨disk, count, q', log, c, hrun⟩ := schedule_envRun hsched
    obtain ⟨hst, hcur', -⟩ := envRun_env hrun
    have hne : c ≠ cur := by
      rintro rfl
      change (Function.update k.envs c (waitingEnv k c dstva) c).status = _ at hst
      rw [Function.update_self] at hst
      cases hst
    refine Or.inr ⟨(if_neg hva).trans hcur, hsame.slot, c, hcur', hne, ?_⟩
    change (Function.update k.envs cur (waitingEnv k cur dstva) c).status = _ at hst
    rw [Function.update_of_ne hne] at hst
    exact hst

/-- `sys_ipc_try_send` fails and changes nothing, or its message is delivered. -/
theorem ipcTrySend_delivers {cur envid value srcva perm : Nat} {r : Option Int} (tf : Trapframe)
    (hsafe : MailSafe k (.syscall tf (.ipcTrySend envid value srcva perm))) (hcur : k.curenv = some cur)
    (h : sysIpcTrySend k cur envid value srcva perm = .ok (r, k')) :
    (k' = k ∧ ((∃ m, envid2env k cur envid false = .error m) ∨ r ≠ some 0)) ∨
      (r = some 0 ∧ k'.curenv = k.curenv ∧ ∃ e, envid2env k cur envid false = .ok e ∧
        (k.envs e).ipcRecving ≠ 0 ∧
        k'.envs = Function.update k.envs e (deliveredEnv k cur e value perm)) := by
  unfold sysIpcTrySend at h
  by_cases hva : srcva ≠ 0 ∧ isIllegalVa srcva
  · rw [if_pos hva] at h
    cases h
    exact Or.inl ⟨rfl, Or.inr (by decide)⟩
  · rw [if_neg hva] at h
    cases he : envid2env k cur envid false with
    | error m =>
      simp only [he] at h
      cases h
      exact Or.inl ⟨rfl, Or.inl ⟨m, rfl⟩⟩
    | ok e =>
      simp only [he] at h
      by_cases hrecv : (k.envs e).ipcRecving = 0
      · rw [if_pos hrecv] at h
        cases h
        exact Or.inl ⟨rfl, Or.inr (by decide)⟩
      · rw [if_neg hrecv] at h
        obtain ⟨k₁, hdel, h⟩ := bind_eq_ok.mp h
        obtain ⟨q, log, rfl⟩ := deliver_eq hdel
        refine Or.inr ?_
        by_cases hsrc : srcva ≠ 0
        · rw [if_pos hsrc] at h
          -- the page is there, and `page_insert` succeeds
          have hlegal : isIllegalVa srcva = false := by
            by_contra hc
            exact hva ⟨hsrc, by simpa using hc⟩
          obtain ⟨pp, p, pm, hlook, hins⟩ := hsafe cur e hcur hsrc hlegal he hrecv
          rw [deliveredEnv_space, hlook, ok_bind] at h
          simp only [Function.update_self] at h
          obtain ⟨⟨r', pm'⟩, hins', h⟩ := bind_eq_ok.mp h
          have hr : r' = 0 := congrArg Prod.fst (Except.ok.inj (hins'.symm.trans hins))
          cases h
          exact ⟨by rw [hr], rfl, e, rfl, hrecv, rfl⟩
        · rw [if_neg hsrc] at h
          cases h
          exact ⟨rfl, rfl, e, rfl, hrecv, rfl⟩

/-- ... and `KernOp.mail` tells which. -/
theorem run_send {tf : Trapframe} {envid value srcva perm : Nat}
    (hsafe : MailSafe k (.syscall tf (.ipcTrySend envid value srcva perm)))
    (h : (KernOp.syscall tf (.ipcTrySend envid value srcva perm)).run k = .ok k') :
    k'.curenv = k.curenv ∧
      ((KernOp.mail k (.syscall tf (.ipcTrySend envid value srcva perm)) = none ∧ k'.envs = k.envs) ∨
        ∃ cur e, k.curenv = some cur ∧ envid2env k cur envid false = .ok e ∧
          (k.envs e).ipcRecving ≠ 0 ∧
          KernOp.mail k (.syscall tf (.ipcTrySend envid value srcva perm)) =
            some (e, value, (k.envs cur).id) ∧
          k'.envs = Function.update k.envs e (deliveredEnv k cur e value perm)) := by
  obtain ⟨cur, hcur, h⟩ := KernOp.trap_of_run (.syscall tf _) trivial h
  obtain ⟨⟨r, k₂⟩, hsys, hdone⟩ := bind_eq_ok.mp h
  have hmail : KernOp.mail k (.syscall tf (.ipcTrySend envid value srcva perm)) =
      match envid2env k cur envid false with
      | .error _ => none
      | .ok e => if r = some 0 then some (e, value, (k.envs cur).id) else none := by
    change doSyscall { k with tf := tf } cur (.ipcTrySend envid value srcva perm) = _ at hsys
    simp only [hcur] at hsys
    unfold KernOp.mail
    simp only [hcur, hsys]
  obtain ⟨⟨r₁, k₁⟩, hexec, hret⟩ := bind_eq_ok.mp hsys
  have hk' : r₁ = r ∧ k'.envs = k₁.envs ∧ k'.curenv = k₁.curenv := by
    cases r₁ with
    | none =>
      cases hret
      cases hdone
      exact ⟨rfl, rfl, rfl⟩
    | some x =>
      cases hret
      cases hdone
      exact ⟨rfl, rfl, rfl⟩
  obtain ⟨rfl, henvs, hc⟩ := hk'
  rcases ipcTrySend_delivers
      (k := { k with tf := { tf with sepc := (tf.sepc + 4) % 2 ^ 32 } }) tf hsafe hcur hexec with
    ⟨rfl, hno⟩ | ⟨rfl, hc₁, e, he, hrecv, hupd⟩
  · refine ⟨hc, Or.inl ⟨?_, henvs⟩⟩
    rw [hmail]
    rcases hno with ⟨m, hm⟩ | hr
    · change envid2env k cur envid false = _ at hm
      rw [hm]
    · cases envid2env k cur envid false with
      | error m => rfl
      | ok e => exact if_neg hr
  · change envid2env k cur envid false = _ at he
    refine ⟨hc.trans hc₁, Or.inr ⟨cur, e, hcur, he, hrecv, ?_, henvs.trans hupd⟩⟩
    rw [hmail, he]
    exact if_pos rfl

-- ---------------------------------------------------------------------------
-- The invariant
-- ---------------------------------------------------------------------------

theorem slot_status {env env' : Env} (h : env'.slot = env.slot) : env'.status = env.status :=
  congrArg Prod.fst h

theorem slot_recving {env env' : Env} (h : env'.slot = env.slot) : env'.ipcRecving = env.ipcRecving :=
  congrArg (fun x => x.2.1) h

theorem slot_message {env env' : Env} (h : env'.slot = env.slot) :
    (env'.ipcValue, env'.ipcFrom) = (env.ipcValue, env.ipcFrom) :=
  congrArg (fun x => x.2.2) h

namespace MailSys

variable {s s' : MailSys}

/-- Every env is runnable and waits for nothing; nothing was sent. -/
structure Start (s : MailSys) : Prop where
  ready : ∀ e, s.k.Live e → (s.k.envs e).status = .runnable ∧ (s.k.envs e).ipcRecving = 0
  cur : ∀ c, s.k.curenv = some c → s.k.Live c
  due : ∀ e, s.due e = false
  sent : ∀ e, s.sent e = []
  got : ∀ e, s.got e = []

/-- The steps that are taken. -/
def Safe (s : MailSys) : MailAct → Prop
  | .kern op => MailSafe s.k op
  | .read => True

inductive Reach (s₀ : MailSys) : MailSys → Prop where
  | refl : Reach s₀ s₀
  | step {s s' : MailSys} {a : MailAct} : Reach s₀ s → s.Safe a → s.step a = some s' → Reach s₀ s'

/-- If `e` waits, it was stopped and is not runnable; it has read every message that was
sent to it, but for the one in its slot. -/
structure SlotInv (s : MailSys) (e : Nat) : Prop where
  idle : (s.k.envs e).status = .runnable → (s.k.envs e).ipcRecving = 0
  wait : s.k.Live e → (s.k.envs e).status ≠ .runnable →
    s.due e = true ∧ (s.k.envs e).ipcRecving ≠ 0
  due : s.due e = true → s.k.Live e
  mail : s.sent e = s.got e ++ s.unread e

structure MailInv (s : MailSys) : Prop where
  cur : ∀ c, s.k.curenv = some c → (s.k.envs c).status = .runnable
  slot : ∀ e, s.SlotInv e

theorem live_of_runnable {e : Nat} (h : (s.k.envs e).status = .runnable) : s.k.Live e := by
  unfold Kernel.Live
  rw [h]
  exact fun hc => by cases hc

theorem Start.inv (h : s.Start) : s.MailInv where
  cur c hc := (h.ready c (h.cur c hc)).1
  slot e := by
    have hdue : s.due e ≠ true := by
      rw [h.due e]
      exact Bool.false_ne_true
    refine ⟨fun hrun => (h.ready e (live_of_runnable hrun)).2, fun hlive hne => ?_, fun hd => ?_, ?_⟩
    · exact absurd (h.ready e hlive).1 hne
    · exact absurd hd hdue
    · rw [h.sent, h.got, unread, if_neg fun hc => hdue hc.1]
      rfl

/-- The invariant of an env looks at its fields and at its messages only. -/
theorem SlotInv.congr {e : Nat} (h : s.SlotInv e) (hslot : (s'.k.envs e).slot = (s.k.envs e).slot)
    (hdue : s'.due e = s.due e) (hsent : s'.sent e = s.sent e) (hgot : s'.got e = s.got e) :
    s'.SlotInv e := by
  have hst := slot_status hslot
  have hrecv := slot_recving hslot
  have hunread : s'.unread e = s.unread e := by
    unfold unread
    rw [hdue, hrecv, slot_message hslot]
  refine ⟨?_, ?_, ?_, ?_⟩
  · rw [hst, hrecv]
    exact h.idle
  · unfold Kernel.Live
    rw [hst, hrecv, hdue]
    exact h.wait
  · unfold Kernel.Live
    rw [hst, hdue]
    exact h.due
  · rw [hsent, hgot, hunread]
    exact h.mail

/-- The two kinds of steps. -/
theorem step_cases {a : MailAct} (h : s.step a = some s') :
    (∃ e, a = .read ∧ s.k.curenv = some e ∧ s.due e = true ∧ s' = s.read e) ∨
      ∃ op k', a = .kern op ∧ op.run s.k = .ok k' ∧ (∀ e, op.stops s.k = some e → s.due e = false) ∧
        s' = s.kern op k' := by
  cases a with
  | read =>
    unfold step at h
    cases hcur : s.k.curenv with
    | none =>
      rw [hcur] at h
      cases h
    | some e =>
      rw [hcur] at h
      simp only [Option.ite_none_right_eq_some, Option.some.injEq] at h
      exact Or.inl ⟨e, rfl, rfl, h.1, h.2.symm⟩
  | kern op =>
    unfold step at h
    cases hrun : op.run s.k with
    | error m =>
      simp only [hrun] at h
      cases h
    | ok k' =>
      simp only [hrun, Option.ite_none_left_eq_some, Option.some.injEq] at h
      refine Or.inr ⟨op, k', rfl, hrun, fun e he => ?_, h.2.symm⟩
      have hread := h.1
      rw [he, Option.any_some, Bool.not_eq_true] at hread
      exact hread

namespace MailInv

variable {k' : Kernel} {op : KernOp}

/-- A step without a message. -/
theorem same (h : s.MailInv) (hs : SameMail s.k k') (hstop : op.stops s.k = none)
    (hmail : op.mail s.k = none) : (s.kern op k').MailInv where
  cur c hc := by
    show (k'.envs c).status = _
    rw [slot_status (hs.slot c)]
    rcases hs.cur with hcur | ⟨c', hcur, hrun⟩
    · exact h.cur c (hcur ▸ hc)
    · change k'.curenv = some c at hc
      rw [hcur, Option.some.injEq] at hc
      rw [← hc]
      exact hrun
  slot e := by
    refine (h.slot e).congr (hs.slot e) ?_ ?_ rfl
    · rw [s.kern_due hstop]
    · rw [s.kern_sent hmail]

/-- `sys_ipc_recv` of an env that has read its message. -/
theorem stop (h : s.MailInv) {cur dstva : Nat} (hstop : op.stops s.k = some cur)
    (hmail : op.mail s.k = none) (hread : s.due cur = false)
    (hslot : ∀ e, (k'.envs e).slot =
      (Function.update s.k.envs cur (waitingEnv s.k cur dstva) e).slot)
    (hrun : ∃ c, k'.curenv = some c ∧ c ≠ cur ∧ (s.k.envs c).status = .runnable) :
    (s.kern op k').MailInv := by
  have hdue := s.kern_due_stop hstop k'
  have hsent := s.kern_sent hmail k'
  have hother : ∀ e, e ≠ cur → (k'.envs e).slot = (s.k.envs e).slot := fun e he => by
    rw [hslot, Function.update_of_ne he]
  constructor
  · intro c hc
    obtain ⟨c', hcur', hne, hrun⟩ := hrun
    change k'.curenv = some c at hc
    rw [hcur', Option.some.injEq] at hc
    subst hc
    show (k'.envs c').status = _
    rw [slot_status (hother c' hne)]
    exact hrun
  · intro e
    by_cases hec : e = cur
    · subst hec
      have hself : (k'.envs e).slot = (waitingEnv s.k e dstva).slot := by
        rw [hslot, Function.update_self]
      have hst : (k'.envs e).status = .notRunnable := slot_status hself
      have hrecv : (k'.envs e).ipcRecving = 1 := slot_recving hself
      -- nothing was unread, and nothing is: the env waits
      have hbefore : s.unread e = [] := if_neg fun hc => by
        rw [hread] at hc
        cases hc.1
      have hafter : (s.kern op k').unread e = [] := if_neg fun hc => by
        have hz : (k'.envs e).ipcRecving = 0 := hc.2
        rw [hrecv] at hz
        cases hz
      refine ⟨fun hc => ?_, fun _ _ => ⟨?_, ?_⟩, fun _ => ?_, ?_⟩
      · exact absurd (hst.symm.trans hc) (by decide)
      · rw [hdue, Function.update_self]
      · show (k'.envs e).ipcRecving ≠ 0
        rw [hrecv]
        exact Nat.one_ne_zero
      · show (k'.envs e).status ≠ .free
        rw [hst]
        exact fun hc => by cases hc
      · rw [hafter, hsent, (h.slot e).mail, hbefore]
        rfl
    · refine (h.slot e).congr (hother e hec) ?_ (by rw [hsent]) rfl
      rw [hdue, Function.update_of_ne hec]

/-- A message that arrives. -/
theorem deliver (h : s.MailInv) {cur e value perm : Nat} (hlive : s.k.Live e)
    (hrecv : (s.k.envs e).ipcRecving ≠ 0) (hstop : op.stops s.k = none)
    (hmail : op.mail s.k = some (e, value, (s.k.envs cur).id)) (hcur : k'.curenv = s.k.curenv)
    (henvs : k'.envs = Function.update s.k.envs e (deliveredEnv s.k cur e value perm)) :
    (s.kern op k').MailInv := by
  have hdue := s.kern_due hstop k'
  have hsent := s.kern_sent_mail hmail k'
  have hnot : (s.k.envs e).status ≠ .runnable := fun hc => hrecv ((h.slot e).idle hc)
  have hother : ∀ x, x ≠ e → k'.envs x = s.k.envs x := fun x hx => by
    rw [henvs, Function.update_of_ne hx]
  constructor
  · intro c hc
    have hrun := h.cur c (hcur.symm.trans hc)
    show (k'.envs c).status = _
    rw [hother c fun hce => hnot (hce ▸ hrun)]
    exact hrun
  · intro x
    by_cases hx : x = e
    · subst hx
      have hself : (s.kern op k').k.envs x = deliveredEnv s.k cur x value perm := by
        show k'.envs x = _
        rw [henvs, Function.update_self]
      obtain ⟨hd, -⟩ := (h.slot x).wait hlive hnot
      -- the slot was empty, and now holds the message
      have hbefore : s.unread x = [] := if_neg fun hc => hrecv hc.2
      have hafter : (s.kern op k').unread x = [(value, (s.k.envs cur).id)] := by
        unfold unread
        rw [hdue, hself]
        exact if_pos ⟨hd, rfl⟩
      refine ⟨fun _ => ?_, fun _ hc => ?_, fun _ => ?_, ?_⟩
      · rw [hself]
        rfl
      · rw [hself] at hc
        exact absurd rfl hc
      · unfold Kernel.Live
        rw [hself]
        exact fun hc => by cases hc
      · rw [hafter, hsent, Function.update_self, (h.slot x).mail, hbefore, List.append_nil]
        rfl
    · refine (h.slot x).congr (congrArg Env.slot (hother x hx)) (by rw [hdue]) ?_ rfl
      rw [hsent, Function.update_of_ne hx]

/-- The running env reads its message. -/
theorem read (h : s.MailInv) {e : Nat} (hcur : s.k.curenv = some e) (hdue : s.due e = true) :
    (s.read e).MailInv := by
  have hrun := h.cur e hcur
  refine ⟨h.cur, fun x => ?_⟩
  by_cases hx : x = e
  · subst hx
    have hself : (s.read x).due x = false := Function.update_self ..
    have hbefore : s.unread x = [((s.k.envs x).ipcValue, (s.k.envs x).ipcFrom)] :=
      if_pos ⟨hdue, (h.slot x).idle hrun⟩
    have hafter : (s.read x).unread x = [] := if_neg fun hc => by
      rw [hself] at hc
      cases hc.1
    refine ⟨(h.slot x).idle, fun _ hne => absurd hrun hne, fun _ => live_of_runnable hrun, ?_⟩
    show s.sent x = Function.update s.got x _ x ++ (s.read x).unread x
    rw [hafter, Function.update_self, List.append_nil, (h.slot x).mail, hbefore]
  · exact (h.slot x).congr rfl (Function.update_of_ne hx ..) rfl (Function.update_of_ne hx ..)

/-- A step of the kernel. -/
theorem kern (h : s.MailInv) (hsafe : MailSafe s.k op) (hrun : op.run s.k = .ok k')
    (hread : ∀ e, op.stops s.k = some e → s.due e = false) : (s.kern op k').MailInv := by
  cases op with
  | create binary priority => exact hsafe.elim
  | device disk =>
    cases hrun
    exact h.same (.of_eq rfl rfl) rfl rfl
  | tick tf =>
    have hs : SameMail { s.k with tf := tf } k' := .schedule hrun
    exact h.same ⟨hs.slot, hs.cur⟩ rfl rfl
  | store va b =>
    obtain ⟨cur, -, rfl⟩ := run_store hrun
    exact h.same (.of_pageWork (userStore_pageWork s.k va b)) rfl rfl
  | fault tf =>
    obtain ⟨cur, k₁, cpu, -, hmiss, rfl⟩ := run_fault hrun
    have hs := SameMail.of_pageWork ((doTlbMiss_keeps _ cur).post _ hmiss)
    exact h.same ⟨hs.slot, hs.cur⟩ rfl rfl
  | syscall tf c =>
    by_cases hsend : ∃ a b c' d, c = .ipcTrySend a b c' d
    · obtain ⟨envid, value, srcva, perm, rfl⟩ := hsend
      obtain ⟨hcur, ⟨hmail, henvs⟩ | ⟨cur, e, hc, he, hrecv, hmail, henvs⟩⟩ := run_send hsafe hrun
      · exact h.same (.of_eq henvs hcur) rfl hmail
      · have hlive : s.k.Live e := by
          rcases envid2env_cases he with ⟨-, rfl⟩ | ⟨-, -, hlive, -⟩
          · exact live_of_runnable (h.cur e hc)
          · exact hlive
        exact h.deliver hlive hrecv rfl hmail hcur henvs
    · obtain ⟨cur, tf₁, r, k₁, tf₂, cpu, hcur, hexec, rfl⟩ := run_syscall hrun
      have hmail : KernOp.mail s.k (.syscall tf c) = none := by
        unfold KernOp.mail
        split
        · rename_i heq
          cases heq
          exact absurd ⟨_, _, _, _, rfl⟩ hsend
        · rfl
      by_cases hrecv : ∃ a, c = .ipcRecv a
      · obtain ⟨dstva, rfl⟩ := hrecv
        rcases ipcRecv_stops (k := { s.k with tf := tf₁ }) tf hcur hexec with ⟨hstop, rfl⟩ | ⟨hstop, hslot, hrun⟩
        · exact h.same (.of_eq rfl rfl) hstop hmail
        · exact h.stop hstop hmail (hread cur hstop) hslot hrun
      · have hs := exec_sameMail (k := { s.k with tf := tf₁ }) tf (by cases c <;> exact hsafe)
          (fun a b c' d hc => hsend ⟨a, b, c', d, hc⟩) (fun a hc => hrecv ⟨a, hc⟩) hexec
        refine h.same ⟨hs.slot, hs.cur⟩ ?_ hmail
        unfold KernOp.stops
        split
        · rename_i heq
          cases heq
          exact absurd ⟨_, rfl⟩ hrecv
        · rfl

/-- **Step lemma.** -/
theorem step (h : s.MailInv) {a : MailAct} (hsafe : s.Safe a) (hstep : s.step a = some s') :
    s'.MailInv := by
  rcases step_cases hstep with ⟨e, -, hcur, hdue, rfl⟩ | ⟨op, k', rfl, hrun, hread, rfl⟩
  · exact h.read hcur hdue
  · exact h.kern hsafe hrun hread

end MailInv

/-- **Run lemma.** -/
theorem Reach.inv {s₀ : MailSys} (h₀ : s₀.Start) (h : s₀.Reach s) : s.MailInv := by
  induction h with
  | refl => exact h₀.inv
  | step _ hsafe hstep ih => exact ih.step hsafe hstep

/-- Every message to `e` was read once, in order, except at most one: it is in the slot,
and `e` is runnable. When `e` goes on after `sys_ipc_recv`, that message is there. -/
structure ExactlyOnce (s : MailSys) (e : Nat) : Prop where
  inOrder : s.sent e = s.got e ++ s.unread e
  atMostOne : (s.unread e).length ≤ 1
  runnable : s.unread e ≠ [] → (s.k.envs e).status = .runnable
  there : s.k.curenv = some e → s.due e = true →
    s.unread e = [((s.k.envs e).ipcValue, (s.k.envs e).ipcFrom)]

theorem MailInv.exactlyOnce (h : s.MailInv) (e : Nat) : s.ExactlyOnce e where
  inOrder := (h.slot e).mail
  atMostOne := by
    unfold unread
    split_ifs
    · exact Nat.le_refl 1
    · exact Nat.zero_le 1
  runnable hne := by
    by_contra hrun
    refine hne (if_neg fun hc => ?_)
    exact ((h.slot e).wait ((h.slot e).due hc.1) hrun).2 hc.2
  there hcur hdue := if_pos ⟨hdue, (h.slot e).idle (h.cur e hcur)⟩

/-- The steps find the run queue as they expect it. -/
theorem MailInv.queueSafe {op : KernOp} (h : s.MailInv) (hsafe : MailSafe s.k op) :
    QueueSafe s.k op := by
  cases op with
  | syscall tf c =>
    cases c with
    | envDestroy envid => exact hsafe.elim
    | ipcRecv dstva => exact fun cur hcur _ => h.cur cur hcur
    | ipcTrySend envid value srcva perm =>
      exact fun cur e _ _ _ hrecv hrun => hrecv ((h.slot e).idle hrun)
    | _ => trivial
  | _ => trivial

theorem Reach.queueInv {s₀ : MailSys} (h₀ : s₀.Start) (hq : QueueInv s₀.k) (h : s₀.Reach s) :
    QueueInv s.k := by
  induction h with
  | refl => exact hq
  | @step s s' a hreach hsafe hstep ih =>
    rcases step_cases hstep with ⟨e, -, -, -, rfl⟩ | ⟨op, k', rfl, hrun, -, rfl⟩
    · exact ih
    · exact (ih.step op ((hreach.inv h₀).queueSafe hsafe)).post _ hrun

/-- An env with a message it has not read is in the run queue. -/
theorem unread_linked {s₀ : MailSys} (h₀ : s₀.Start) (hq : QueueInv s₀.k) (h : s₀.Reach s) {e : Nat}
    (hne : s.unread e ≠ []) : ∃ l, s.k.envSchedList.Rep l ∧ e ∈ l := by
  obtain ⟨l, hrep, hmem⟩ := (h.queueInv h₀ hq).queued.rep
  exact ⟨l, hrep, (hmem e).mpr (((h.inv h₀).exactlyOnce e).runnable hne)⟩

end MailSys

/-- **Exactly once, in order.** Let any envs be runnable and wait for nothing. In every
state of every run without deaths and births, whatever the order of its steps, each env
has read exactly the messages of the sends to it that returned 0, in their order, except
the one it has not read yet. -/
theorem mail_exactlyOnce {s₀ s : MailSys} (h₀ : s₀.Start) (hrun : s₀.Reach s) (e : Nat) :
    s.ExactlyOnce e :=
  (hrun.inv h₀).exactlyOnce e

-- ---------------------------------------------------------------------------
-- Two envs
-- ---------------------------------------------------------------------------

/-- A woken env is live and linked at the tail. -/
theorem InOrder.delivered {b : BootState} {k₀ : Kernel} {role₀ : Nat → Role} {l t : List Nat} {n e : Nat}
    (h : InOrder b k₀ role₀ k l t n) (he : e ∈ t) {q : TailQueue Nat} (hq : q.Rep (l ++ [e]))
    (log : List (QueueUse × TailQueue Nat × Nat)) (cur value perm : Nat) :
    InOrder b k₀ role₀ { k with
      envs := Function.update k.envs e (deliveredEnv k cur e value perm)
      envSchedList := q
      queueLog := log } (l ++ [e]) t n := by
  have hlive := (h.live e).mpr he
  have hstatus : ∀ x, (Function.update k.envs e (deliveredEnv k cur e value perm) x).status =
      if x = e then .runnable else (k.envs x).status := by
    intro x
    by_cases hx : x = e
    · rw [hx, Function.update_self, if_pos rfl]
      rfl
    · rw [Function.update_of_ne hx, if_neg hx]
  have hsame : ∀ x, (Function.update k.envs e (deliveredEnv k cur e value perm) x).status ≠ .free ↔
      k.Live x := by
    intro x
    rw [hstatus]
    split_ifs with hx
    · rw [hx]
      exact ⟨fun _ => hlive, fun _ hc => by cases hc⟩
    · rfl
  refine ⟨?_, ?_, hq, ?_, fun x => (hsame x).trans (h.live x), h.room, h.idle⟩
  · have hdst : (k.envs e).ipcDstva < UTOP := by
      obtain ⟨role, hinv, -⟩ := h.ok
      exact hinv.dst e
    have hok := h.ok.setEnv e (f := fun env => { env with
        ipcValue := value
        ipcFrom := (k.envs cur).id
        ipcPerm := PTE_U ||| PTE_V ||| readable perm
        ipcRecving := 0
        status := .runnable }) ⟨nofun, fun hf => absurd hf hlive⟩ rfl rfl hdst
    refine hok.congr ?_ ?_ ?_ ?_ ?_ ?_ ?_ <;> rfl
  · refine h.table.same ?_ hsame rfl rfl fun x hx => (hsame x).mpr (h.table.cur x hx)
    intro x _
    show (Function.update k.envs e (deliveredEnv k cur e value perm) x).ident = _
    by_cases hx : x = e
    · rw [hx, Function.update_self]
      rfl
    · rw [Function.update_of_ne hx]
  · intro x
    rw [List.mem_append, List.mem_singleton, h.runnable]
    show _ ↔ (Function.update k.envs e (deliveredEnv k cur e value perm) x).status = .runnable
    rw [hstatus]
    split_ifs with hx
    · exact ⟨fun _ => rfl, fun _ => Or.inr hx⟩
    · exact ⟨fun hr => hr.resolve_right hx, Or.inl⟩

/-- A message without a page wakes the env that waits for it. -/
theorem InOrder.wakeBySend {b : BootState} {k₀ : Kernel} {role₀ : Nat → Role} {l t : List Nat}
    {n c e envid : Nat} (h : InOrder b k₀ role₀ k l t n) (hcur : k.curenv = some c)
    (hnamed : envid2env k c envid false = .ok e) (hwait : (k.envs e).ipcRecving ≠ 0) (he : e ∈ t)
    (hnot : e ∉ l) (tf : Trapframe) (value : Nat) :
    ∃ k', (KernOp.syscall tf (.ipcTrySend envid value 0 0)).run k = .ok k' ∧
      InOrder b k₀ role₀ k' (l ++ [e]) t n ∧ k'.curenv = some c ∧
      KernOp.mail k (.syscall tf (.ipcTrySend envid value 0 0)) = some (e, value, (k.envs c).id) := by
  obtain ⟨q, hq, hrep⟩ := h.queue.insertTail hnot
  have hexec : Syscall.exec { k with tf := { tf with sepc := (tf.sepc + 4) % 2 ^ 32 } } c
      (.ipcTrySend envid value 0 0) = .ok (some 0, { k with
        envs := Function.update k.envs e (deliveredEnv k c e value 0)
        envSchedList := q
        queueLog := (.insert, k.envSchedList, e) :: k.queueLog
        tf := { tf with sepc := (tf.sepc + 4) % 2 ^ 32 } }) := by
    have hnamed' : envid2env { k with tf := { tf with sepc := (tf.sepc + 4) % 2 ^ 32 } } c envid false =
      .ok e := hnamed
    show sysIpcTrySend _ c envid value 0 0 = _
    unfold sysIpcTrySend
    rw [if_neg fun hc => hc.1 rfl]
    simp only [hnamed']
    rw [if_neg hwait]
    refine bind_eq_ok.mpr ⟨_, ?_, rfl⟩
    unfold deliver tailqInsertTail
    simp only [Kernel.setEnv_envSchedList, hq]
    rfl
  obtain ⟨tf₂, cpu, hrun⟩ := run_syscall_ok tf hcur hexec
  have hord := (h.delivered he hrep ((.insert, k.envSchedList, e) :: k.queueLog) c value 0).setRegs tf₂ cpu
  refine ⟨_, hrun, hord, hcur, ?_⟩
  obtain ⟨-, ⟨-, henvs⟩ | ⟨c', e', hc', he', -, hmail, -⟩⟩ :=
    run_send (fun _ _ _ hsrc => absurd rfl hsrc) hrun
  · -- the slot of `e` has changed
    have hself := congrArg Env.ipcRecving (congrFun henvs e)
    simp only [Function.update_self] at hself
    exact absurd hself.symm hwait
  · rw [hcur, Option.some.injEq] at hc'
    subst hc'
    rw [hnamed, Except.ok.injEq] at he'
    rw [hmail, he']

namespace MailSys

theorem Reach.kern {s₀ s : MailSys} (h : s₀.Reach s) (hsafe : MailSafe s.k op) (hrun : op.run s.k = .ok k')
    (hread : (op.stops s.k).any s.due = false) : s₀.Reach (s.kern op k') := by
  refine .step (a := .kern op) h hsafe ?_
  unfold MailSys.step
  simp only [hrun]
  rw [if_neg (by rw [hread]; exact Bool.false_ne_true)]

end MailSys

/-- An env waits, gets a message, goes on and reads it. -/
theorem mail_exactlyOnce_two :
    ∃ (s₀ s : MailSys) (a : Nat) (m : Nat × Nat), s₀.Start ∧ s₀.Reach s ∧ s.sent a = [m] ∧
      s.got a = [m] ∧ s.ExactlyOnce a := by
  obtain ⟨k₀, role₀, k, a, e, h, hidle⟩ := smallBoot_pair
  have herase : [e, a].erase e ++ [e] = a :: [e] := by
    rw [List.erase_cons_head]
    rfl
  -- the first env waits
  obtain ⟨k₁, hyield₁, h₁, hcur₁, hres₁⟩ := h.order.yield h.cur List.mem_cons_self herase zeroTrapframe
  obtain ⟨k₂, hrecv, h₂, hcur₂, hres₂⟩ :=
    h₁.recv hcur₁ List.mem_cons_self (show [a, e].erase a = e :: [] from List.erase_cons_head ..)
      zeroTrapframe
  have hwaiter : ∀ {α : Type} (g : Env → α),
      (∀ env tf runs, g { env with tf := tf, runs := runs } = g env) →
      g (k₂.envs a) = g (waitingEnv k₁ a 0) := fun g hg => by
    rw [hres₂.field g hg]
    show g (Function.update k₁.envs a (waitingEnv k₁ a 0) a) = _
    rw [Function.update_self]
  have hwait : (k₂.envs a).ipcRecving = 1 := hwaiter Env.ipcRecving fun _ _ _ => rfl
  have hid : (k₂.envs a).id ≠ 0 := by
    rw [hwaiter Env.id fun _ _ _ => rfl]
    show (k₁.envs a).id ≠ 0
    rw [hres₁.field Env.id fun _ _ _ => rfl]
    exact h.first
  have hlive : k₂.Live a := (h₂.live a).mpr (List.mem_cons_of_mem e List.mem_cons_self)
  -- the second one sends, and gives way
  obtain ⟨k₃, hsend, h₃, hcur₃, hmail⟩ := h₂.wakeBySend hcur₂
    (envid2env_ok rfl hid (h₂.table.slot a hlive) hlive fun hc => by cases hc)
    (by rw [hwait]; exact Nat.one_ne_zero) (List.mem_cons_of_mem e List.mem_cons_self)
    (fun hm => h.ne (List.mem_singleton.mp hm)) zeroTrapframe 7
  obtain ⟨k₄, hyield₄, -, hcur₄, -⟩ := h₃.yield hcur₃ List.mem_cons_self herase zeroTrapframe
  let s₀ : MailSys := ⟨k, fun _ => false, fun _ => [], fun _ => []⟩
  let s₁ := s₀.kern (.syscall zeroTrapframe .yield) k₁
  let s₂ := s₁.kern (.syscall zeroTrapframe (.ipcRecv 0)) k₂
  let s₃ := s₂.kern (.syscall zeroTrapframe (.ipcTrySend (k₂.envs a).id 7 0 0)) k₃
  let s₄ := s₃.kern (.syscall zeroTrapframe .yield) k₄
  have hstart : s₀.Start := by
    refine ⟨fun x hx => ⟨?_, hidle x⟩, h.order.table.cur, fun _ => rfl, fun _ => rfl, fun _ => rfl⟩
    exact (h.order.runnable x).mp ((h.order.live x).mp hx)
  have hstop : KernOp.stops s₁.k (.syscall zeroTrapframe (.ipcRecv 0)) = some a := by
    show (if (0 : Nat) ≠ 0 ∧ isIllegalVa 0 = true then none else s₁.k.curenv) = some a
    rw [if_neg fun hc => hc.1 rfl]
    exact hcur₁
  have hdue : s₄.due a = true := by
    rw [s₃.kern_due rfl, s₂.kern_due rfl, s₁.kern_due_stop hstop, Function.update_self]
  have hsent : s₄.sent a = [(7, (k₂.envs e).id)] := by
    rw [s₃.kern_sent rfl, s₂.kern_sent_mail hmail, Function.update_self, s₁.kern_sent rfl, s₀.kern_sent rfl]
    rfl
  have hsafe₁ : MailSafe s₀.k (.syscall zeroTrapframe .yield) := trivial
  have hsafe₂ : MailSafe s₁.k (.syscall zeroTrapframe (.ipcRecv 0)) := trivial
  have hsafe₄ : MailSafe s₃.k (.syscall zeroTrapframe .yield) := trivial
  have hreach₁ : s₀.Reach s₁ := MailSys.Reach.refl.kern hsafe₁ hyield₁ rfl
  have hreach₂ : s₀.Reach s₂ := hreach₁.kern hsafe₂ hrecv (by rw [hstop]; rfl)
  have hreach₃ : s₀.Reach s₃ :=
    hreach₂.kern (fun _ _ _ hsrc => absurd rfl hsrc) hsend rfl
  have hreach₄ : s₀.Reach s₄ := hreach₃.kern hsafe₄ hyield₄ rfl
  -- the first one goes on and reads
  have hread : s₄.step .read = some (s₄.read a) := by
    show (match k₄.curenv with
      | none => none
      | some e => if s₄.due e = true then some (s₄.read e) else none) = _
    rw [hcur₄]
    exact if_pos hdue
  have hdone := mail_exactlyOnce hstart (hreach₄.step (a := .read) trivial hread) a
  refine ⟨s₀, s₄.read a, a, _, hstart, hreach₄.step (a := .read) trivial hread, hsent, ?_, hdone⟩
  have hempty : (s₄.read a).unread a = [] := if_neg fun hc => by
    have hd : Function.update s₄.due a false a = true := hc.1
    rw [Function.update_self] at hd
    cases hd
  have hin := hdone.inOrder
  rw [hempty, List.append_nil] at hin
  exact hin.symm.trans hsent

end Mos.Kern
