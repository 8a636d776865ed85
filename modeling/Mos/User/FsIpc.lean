import Mos.Fs.Serv
import Mos.Kern.Syscall

/-!
# MOS on RISC-V — requests to the file server

`fsipc` of `user/lib/fsipc.c` in any number of envs, the loop of `serve` in the
second env, and other code of any env in between: what they send and receive with
`sys_ipc_try_send` and `sys_ipc_recv`, in any order. An env is named by its id. A
send to an id that no env has fails without an effect, and so does `sys_yield`;
they are no steps here. An env that waits runs again when a message came.

`letter` is history, what the last message to an env was: the request of the `n`-th
call of `fsipc` in an env, a reply of the server to it, or a message of other code.

`fsipc` waits for a message from anyone. `fsipc_paired` shows that it gets the
reply to its own request as long as nobody but the server sends to an env that
waits in `fsipc`, and the page of a reply is there and can be mapped; and
`fsipc_stranger` that it takes the message of a third env for the reply.
-/

namespace Mos.User

open Mos.Fs Mos.Kern

/-- `envs[1].env_id`, of the second env that was created. -/
def FSENV : Nat := 0x1001

def REQVA : Nat := 0x0ffff000
def FILEVA : Nat := 0x60000000

-- ---------------------------------------------------------------------------
-- The system calls
-- ---------------------------------------------------------------------------

/-- Call `n` of `fsipc` in env `client`. -/
structure Ticket where
  client : Nat
  n : Nat
  deriving DecidableEq, Repr

/-- What a message was, with the frame it brought. -/
inductive Letter where
  | other
  | request (ticket : Ticket)
  | reply (ticket : Option Ticket) (value : Int) (page : Option Nat)
  deriving DecidableEq, Repr

/-- The request a message makes to the server. -/
def Letter.ticket : Letter → Option Ticket
  | .request ticket => some ticket
  | _ => none

/-- The fields of `struct Env` for messages, and the frames mapped in the env. -/
structure IpcEnv where
  recving : Bool
  value : Int
  ipcFrom : Nat
  perm : Nat
  dstva : Nat
  pages : Nat → Option Nat           -- by page number
  letter : Letter

/-- The frame mapped at `va`. -/
def IpcEnv.page (e : IpcEnv) (va : Nat) : Option Nat := e.pages (VPN va)

def IpcEnv.setPage (e : IpcEnv) (va : Nat) (f : Option Nat) : IpcEnv :=
  { e with pages := Function.update e.pages (VPN va) f }

/-- Steps 4 and 5 of `sys_ipc_try_send`: env `cur` wakes `e`. -/
def IpcEnv.deliver (e : IpcEnv) (cur : Nat) (value : Int) (perm : Nat) (letter : Letter) : IpcEnv :=
  { e with
    recving := false
    value := value
    ipcFrom := cur
    perm := PTE_U ||| PTE_V ||| readable perm
    letter := letter }

/-- `sys_ipc_try_send` from `cur` to `e`; `mem` says whether there is memory for a
page table that is missing. -/
def sysIpcTrySend (envs : Nat → IpcEnv) (cur e : Nat) (value : Int) (srcva perm : Nat) (mem : Bool)
    (letter : Letter) : Int × (Nat → IpcEnv) :=
  if srcva ≠ 0 ∧ isIllegalVa srcva then (-E_INVAL, envs)
  else if (envs e).recving = false then (-E_IPC_NOT_RECV, envs)
  else
    let woken := (envs e).deliver cur value perm letter
    if srcva = 0 then (0, Function.update envs e woken)
    else
      match (envs cur).page srcva with
      | none => (-E_INVAL, Function.update envs e woken)
      | some f =>
        if mem then (0, Function.update envs e (woken.setPage woken.dstva (some f)))
        else (-E_NO_MEM, Function.update envs e woken)

/-- `sys_ipc_recv`; the env waits if the result is 0. -/
def sysIpcRecv (envs : Nat → IpcEnv) (cur dstva : Nat) : Int × (Nat → IpcEnv) :=
  if dstva ≠ 0 ∧ isIllegalVa dstva then (-E_INVAL, envs)
  else (0, Function.update envs cur { envs cur with recving := true, dstva := dstva })

-- ---------------------------------------------------------------------------
-- fsipc and serve
-- ---------------------------------------------------------------------------

/-- The arguments of `fsipc`; `perm` is only where it puts the permission. -/
structure FsCall where
  type : Int
  fsreq : Nat
  dstva : Nat

/-- Where an env is in `fsipc`. -/
inductive ClientPc where
  | user                       -- in other code
  | send (call : FsCall)       -- the loop of `ipc_send`
  | recv (call : FsCall)       -- `ipc_send` returned
  | wait (call : FsCall)       -- `syscall_ipc_recv` was called
  | stopped                    -- an assertion failed

/-- Where the server is. `todo` are the calls of `ipc_send` a handler still makes; then
it returns, or `fails`. -/
inductive ServPc where
  | recv
  | wait
  | reply (ticket : Option Ticket) (todo : List Reply) (fails : Bool)
  | stopped

structure FsIpc where
  envs : Nat → IpcEnv
  pc : Nat → ClientPc
  asked : Nat → Nat            -- requests of `fsipc` that went out
  servPc : ServPc
  serv : ServState

end Mos.User

namespace Mos.Fs

open Mos.Kern

/-- The `FSREQ` code of a request. -/
def Request.code : Request → Int
  | .open .. => 1
  | .map .. => 2
  | .setSize .. => 3
  | .close .. => 4
  | .dirty .. => 5
  | .remove .. => 6
  | .sync => 7

/-- `srcva` and `perm` of the `ipc_send` for a reply. -/
def SentPage.srcva : SentPage → Nat
  | .none => 0
  | .ff slot => User.FILEVA + slot * BY2PG
  | .block b => diskaddr b

def SentPage.perm : SentPage → Nat
  | .none => 0
  | _ => PTE_W ||| PTE_LIBRARY

/-- The reply of a handler that does not return: that `open_alloc` failed. -/
def sentBefore (whom : Nat) (req : Request) (s : ServState) : List Reply :=
  match req with
  | .open _ _ =>
    match openAlloc s with
    | .ok ((r, _), _) => if r < 0 then [⟨whom, r, .none⟩] else []
    | .error _ => []
  | _ => []

theorem sentBefore_whom {whom : Nat} {req : Request} {s : ServState} :
    ∀ r ∈ sentBefore whom req s, r.whom = whom := by
  intro r hr
  unfold sentBefore at hr
  split at hr
  · split at hr
    · split_ifs at hr
      · rw [List.mem_singleton.mp hr]
      · cases hr
    · cases hr
  · cases hr

end Mos.Fs

namespace Mos.User

open Mos.Fs Mos.Kern Mos.Lib

inductive FsAct where
  | call (e : Nat) (call : FsCall)                            -- `e` calls `fsipc`
  | send (e : Nat) (mem : Bool)                               -- a round of its `ipc_send`
  | recv (e : Nat)
  | ret (e : Nat)
  | userSend (e dst : Nat) (value : Int) (srcva perm : Nat) (mem : Bool)
  | userRecv (e dstva : Nat)
  | servRecv
  | servTake (req : Request) (pages : Nat → Option Nat)       -- the handler, up to its replies
  | servReply (mem : Bool)                                    -- a round of its `ipc_send`
  | servUnmap

namespace FsIpc

variable (s : FsIpc)

/-- `e` is no server, and does not wait. -/
def Runs (e : Nat) : Prop := e ≠ FSENV ∧ (s.envs e).recving = false

instance (e : Nat) : Decidable (s.Runs e) := inferInstanceAs (Decidable (_ ∧ _))

def setPc (e : Nat) (pc : ClientPc) : FsIpc := { s with pc := Function.update s.pc e pc }

/-- The call of `ipc_send` in `fsipc`. -/
def send (e : Nat) (call : FsCall) (mem : Bool) : FsIpc :=
  let ticket : Ticket := ⟨e, s.asked e + 1⟩
  let (r, envs) := sysIpcTrySend s.envs e FSENV call.type call.fsreq PTE_W mem (.request ticket)
  if r = -E_IPC_NOT_RECV then s
  else if r = 0 then
    { s with
      envs := envs
      asked := Function.update s.asked e ticket.n
      pc := Function.update s.pc e (.recv call) }
  else { s with envs := envs, pc := Function.update s.pc e .stopped }

/-- The call of `syscall_ipc_recv` in `fsipc`. -/
def recv (e : Nat) (call : FsCall) : FsIpc :=
  let (r, envs) := sysIpcRecv s.envs e call.dstva
  if r = 0 then { s with envs := envs, pc := Function.update s.pc e (.wait call) }
  else { s with pc := Function.update s.pc e .stopped }

/-- The server has a message: an invalid one is dropped, and a handler computes its
replies to a request. It leaves `pages` mapped in the server. -/
def take (req : Request) (pages : Nat → Option Nat) : Option FsIpc :=
  let e := s.envs FSENV
  if testFlag e.perm PTE_V = false then some { s with servPc := .recv }
  else if e.value < 1 ∨ 7 < e.value then some { s with servPc := .reply none [] false }
  else if req.code = e.value then
    let envs := Function.update s.envs FSENV { e with pages := pages }
    let serv : ServState := { s.serv with sent := [] }
    match serve e.ipcFrom req serv with
    | .ok (_, serv) =>
      let servPc := .reply e.letter.ticket serv.sent.reverse false
      some { s with envs := envs, servPc := servPc, serv := serv }
    | .error _ =>
      some { s with envs := envs, servPc := .reply e.letter.ticket (sentBefore e.ipcFrom req serv) true }
  else none

/-- A call of `ipc_send` by a handler. -/
def reply (ticket : Option Ticket) (r : Reply) (todo : List Reply) (fails mem : Bool) : FsIpc :=
  let page := if r.page.srcva = 0 then none else (s.envs FSENV).page r.page.srcva
  let (v, envs) := sysIpcTrySend s.envs FSENV r.whom r.value r.page.srcva r.page.perm mem
    (.reply ticket r.value page)
  if v = -E_IPC_NOT_RECV then s
  else if v = 0 then { s with envs := envs, servPc := .reply ticket todo fails }
  else { s with envs := envs, servPc := .stopped }

/-- A step; none if it is not one that can be taken. -/
def step (s : FsIpc) : FsAct → Option FsIpc
  | .call e call =>
    match s.pc e with
    | .user => if s.Runs e then some (s.setPc e (.send call)) else none
    | _ => none
  | .send e mem =>
    match s.pc e with
    | .send call => if s.Runs e then some (s.send e call mem) else none
    | _ => none
  | .recv e =>
    match s.pc e with
    | .recv call => if s.Runs e then some (s.recv e call) else none
    | _ => none
  | .ret e =>
    match s.pc e with
    | .wait _ => if s.Runs e then some (s.setPc e .user) else none
    | _ => none
  | .userSend e dst value srcva perm mem =>
    match s.pc e with
    | .user =>
      if s.Runs e then some { s with envs := (sysIpcTrySend s.envs e dst value srcva perm mem .other).2 }
      else none
    | _ => none
  | .userRecv e dstva =>
    match s.pc e with
    | .user => if s.Runs e then some { s with envs := (sysIpcRecv s.envs e dstva).2 } else none
    | _ => none
  | .servRecv =>
    match s.servPc with
    | .recv => some { s with envs := (sysIpcRecv s.envs FSENV REQVA).2, servPc := .wait }
    | _ => none
  | .servTake req pages =>
    match s.servPc with
    | .wait => if (s.envs FSENV).recving then none else s.take req pages
    | _ => none
  | .servReply mem =>
    match s.servPc with
    | .reply ticket (r :: todo) fails => some (s.reply ticket r todo fails mem)
    | _ => none
  | .servUnmap =>
    match s.servPc with
    | .reply _ [] false =>
      let envs := Function.update s.envs FSENV ((s.envs FSENV).setPage REQVA none)
      some { s with envs := envs, servPc := .recv }
    | _ => none

end FsIpc

-- ---------------------------------------------------------------------------
-- Runs
-- ---------------------------------------------------------------------------

/-- The message to `env` is a reply of the server to the request `ticket`, and its page,
if it brought one, is at `dstva`. -/
def Answered (env : IpcEnv) (ticket : Ticket) (dstva : Nat) : Prop :=
  ∃ page, env.letter = .reply (some ticket) env.value page ∧ ∀ f, page = some f → env.page dstva = some f

namespace FsIpc

/-- A call of `fsipc` that has a message returns the reply to its own request. -/
def Paired (s : FsIpc) : Prop :=
  ∀ e call, s.pc e = .wait call → (s.envs e).recving = false →
    Answered (s.envs e) ⟨e, s.asked e⟩ call.dstva

/-- Nobody but the server sends to an env that waits in `fsipc`; and the page of a reply
is mapped in the server, and there is memory to map it in the client. -/
def Good (s : FsIpc) : FsAct → Prop
  | .userSend _ dst .. => (s.envs dst).recving = true → ∀ call, s.pc dst ≠ .wait call
  | .servReply mem => ∀ ticket r todo fails, s.servPc = .reply ticket (r :: todo) fails → r.page ≠ .none →
      mem = true ∧ ∃ f, (s.envs FSENV).page r.page.srcva = some f
  | _ => True

/-- Before anything was sent. -/
structure Start (s : FsIpc) : Prop where
  idle : ∀ e, (s.envs e).recving = false
  user : ∀ e, s.pc e = .user
  serv : s.servPc = .recv

end FsIpc

/-- The states of runs in which each step is as `P` says. -/
inductive FsReach (P : FsIpc → FsAct → Prop) (s₀ : FsIpc) : FsIpc → Prop where
  | refl : FsReach P s₀ s₀
  | step {s s' : FsIpc} {a : FsAct} (h : FsReach P s₀ s) (hgood : P s a) (hstep : s.step a = some s') :
      FsReach P s₀ s'

-- ---------------------------------------------------------------------------
-- What a system call does
-- ---------------------------------------------------------------------------

section

variable {envs envs' : Nat → IpcEnv} {cur e srcva perm dstva : Nat} {value r : Int} {mem : Bool}
  {letter : Letter}

/-- Env `e` waited and has a message now. -/
structure Woken (envs envs' : Nat → IpcEnv) (cur e : Nat) (value : Int) (letter : Letter) (env : IpcEnv) :
    Prop where
  waited : (envs e).recving = true
  envs : envs' = Function.update envs e env
  recving : env.recving = false
  value : env.value = value
  ipcFrom : env.ipcFrom = cur
  letter : env.letter = letter

/-- A send is refused and changes nothing, or it wakes `e`, and the page at `srcva` is
mapped where `e` wants it; or the page is missing, or the memory to map it. -/
theorem sysIpcTrySend_cases (h : sysIpcTrySend envs cur e value srcva perm mem letter = (r, envs')) :
    (r ≠ 0 ∧ envs' = envs) ∨ (r ≠ -E_IPC_NOT_RECV ∧ ∃ env, Woken envs envs' cur e value letter env ∧
      ((r = 0 ∧ (srcva ≠ 0 → ∃ f, (envs cur).page srcva = some f ∧ env.page (envs e).dstva = some f)) ∨
        (r ≠ 0 ∧ srcva ≠ 0 ∧ ((envs cur).page srcva = none ∨ mem = false)))) := by
  unfold sysIpcTrySend at h
  by_cases hill : srcva ≠ 0 ∧ isIllegalVa srcva = true
  · rw [if_pos hill] at h
    cases h
    exact Or.inl ⟨by decide, rfl⟩
  · rw [if_neg hill] at h
    by_cases hrecv : (envs e).recving = false
    · rw [if_pos hrecv] at h
      cases h
      exact Or.inl ⟨by decide, rfl⟩
    · rw [if_neg hrecv] at h
      rw [Bool.not_eq_false] at hrecv
      by_cases hsrc : srcva = 0
      · simp only [if_pos hsrc] at h
        cases h
        exact Or.inr ⟨by decide, _, ⟨hrecv, rfl, rfl, rfl, rfl, rfl⟩, Or.inl ⟨rfl, fun hne => absurd hsrc hne⟩⟩
      · simp only [if_neg hsrc] at h
        cases hpage : (envs cur).page srcva with
        | none =>
          simp only [hpage] at h
          cases h
          exact Or.inr ⟨by decide, _, ⟨hrecv, rfl, rfl, rfl, rfl, rfl⟩,
            Or.inr ⟨by decide, hsrc, Or.inl rfl⟩⟩
        | some f =>
          simp only [hpage] at h
          cases mem with
          | false =>
            cases h
            exact Or.inr ⟨by decide, _, ⟨hrecv, rfl, rfl, rfl, rfl, rfl⟩,
              Or.inr ⟨by decide, hsrc, Or.inr rfl⟩⟩
          | true =>
            cases h
            refine Or.inr ⟨by decide, _, ⟨hrecv, rfl, rfl, rfl, rfl, rfl⟩,
              Or.inl ⟨rfl, fun _ => ⟨f, rfl, ?_⟩⟩⟩
            exact Function.update_self ..

theorem sysIpcRecv_ok (h : dstva = 0 ∨ isIllegalVa dstva = false) :
    sysIpcRecv envs cur dstva =
      (0, Function.update envs cur { envs cur with recving := true, dstva := dstva }) := by
  unfold sysIpcRecv
  rw [if_neg]
  rintro ⟨hne, hill⟩
  rcases h with h | h
  · exact hne h
  · rw [h] at hill
    cases hill

theorem sysIpcRecv_cases (h : sysIpcRecv envs cur dstva = (r, envs')) :
    (r ≠ 0 ∧ envs' = envs) ∨
      (r = 0 ∧ envs' = Function.update envs cur { envs cur with recving := true, dstva := dstva }) := by
  unfold sysIpcRecv at h
  split_ifs at h
  · cases h
    exact Or.inl ⟨by decide, rfl⟩
  · cases h
    exact Or.inr ⟨rfl, rfl⟩

end

-- ---------------------------------------------------------------------------
-- The invariant
-- ---------------------------------------------------------------------------

variable {s s' : FsIpc}

namespace FsIpc

/-- The request of `e` went out, and `fsipc` has not returned. -/
def InCall (s : FsIpc) (e : Nat) : Prop := ∃ call, s.pc e = .recv call ∨ s.pc e = .wait call

/-- A message to the server from an env in `fsipc` is its request; what the server
still replies to such an env answers this request. -/
structure Inv (s : FsIpc) : Prop where
  serving : (s.envs FSENV).recving = true → s.servPc = .wait
  noClient : s.pc FSENV = .user
  dstva : ∀ e call, s.pc e = .wait call → (s.envs e).recving = true → (s.envs e).dstva = call.dstva
  pending : ∀ e, s.InCall e → s.servPc = .wait → (s.envs FSENV).recving = false →
    (s.envs FSENV).ipcFrom = e → (s.envs FSENV).letter.ticket = some ⟨e, s.asked e⟩
  job : ∀ e, s.InCall e → ∀ ticket todo fails, s.servPc = .reply ticket todo fails →
    ∀ r ∈ todo, r.whom = e → ticket = some ⟨e, s.asked e⟩
  paired : s.Paired

theorem Start.inv (h : Start s) : Inv s where
  serving hrecv := by
    rw [h.idle] at hrecv
    cases hrecv
  noClient := h.user FSENV
  dstva e call hpc := by
    rw [h.user] at hpc
    cases hpc
  pending e _ hwait := by
    rw [h.serv] at hwait
    cases hwait
  job e _ ticket todo fails hjob := by
    rw [h.serv] at hjob
    cases hjob
  paired e call hpc := by
    rw [h.user] at hpc
    cases hpc

namespace Inv

theorem inCall_ne (h : Inv s) {e : Nat} (he : s.InCall e) : e ≠ FSENV := by
  rintro rfl
  obtain ⟨call, hpc | hpc⟩ := he
  · rw [h.noClient] at hpc
    cases hpc
  · rw [h.noClient] at hpc
    cases hpc

/-- Env `e` moves to a place outside the calls that wait for a reply. -/
theorem setPc (h : Inv s) {e : Nat} (he : e ≠ FSENV) {pc : ClientPc}
    (hpc : ∀ call, pc ≠ .recv call ∧ pc ≠ .wait call) : Inv (s.setPc e pc) := by
  have hself : (s.setPc e pc).pc e = pc := Function.update_self ..
  have hother : ∀ x, x ≠ e → (s.setPc e pc).pc x = s.pc x := fun x hx => Function.update_of_ne hx ..
  have hkeep : ∀ x call, (s.setPc e pc).pc x = .wait call → s.pc x = .wait call := by
    intro x call hx
    by_cases hxe : x = e
    · rw [hxe, hself] at hx
      exact absurd hx (hpc call).2
    · rw [hother x hxe] at hx
      exact hx
  have hin : ∀ x, (s.setPc e pc).InCall x → s.InCall x := by
    rintro x ⟨call, hx⟩
    by_cases hxe : x = e
    · rw [hxe, hself] at hx
      exact absurd hx (not_or.mpr (hpc call))
    · rw [hother x hxe] at hx
      exact ⟨call, hx⟩
  exact
    { serving := h.serving
      noClient := (Function.update_of_ne (Ne.symm he) ..).trans h.noClient
      dstva := fun x call hx => h.dstva x call (hkeep x call hx)
      pending := fun x hx => h.pending x (hin x hx)
      job := fun x hx => h.job x (hin x hx)
      paired := fun x call hx => h.paired x call (hkeep x call hx) }

/-- A message wakes `dst`. To the server, it is the request of an env in `fsipc`, if it
comes from one; to an env that waits in `fsipc`, it is the reply. -/
theorem wake (h : Inv s) {dst : Nat} {env : IpcEnv} (hrecv : (s.envs dst).recving = true)
    (hwoken : env.recving = false)
    (hserv : dst = FSENV → ∀ e, s.InCall e → env.ipcFrom = e →
      env.letter.ticket = some ⟨e, s.asked e⟩)
    (hpair : ∀ call, s.pc dst = .wait call → Answered env ⟨dst, s.asked dst⟩ call.dstva) :
    Inv { s with envs := Function.update s.envs dst env } where
  serving hx := by
    by_cases hdst : FSENV = dst
    · subst hdst
      exact h.serving hrecv
    · simp only [Function.update_of_ne hdst] at hx
      exact h.serving hx
  noClient := h.noClient
  dstva e call hpc hx := by
    by_cases he : e = dst
    · subst he
      simp only [Function.update_self] at hx
      rw [hwoken] at hx
      cases hx
    · simp only [Function.update_of_ne he] at hx ⊢
      exact h.dstva e call hpc hx
  pending e he hwait hx hfrom := by
    by_cases hdst : FSENV = dst
    · subst hdst
      simp only [Function.update_self] at hfrom ⊢
      exact hserv rfl e he hfrom
    · simp only [Function.update_of_ne hdst] at hx hfrom ⊢
      exact h.pending e he hwait hx hfrom
  job := h.job
  paired e call hpc hx := by
    by_cases he : e = dst
    · subst he
      simp only [Function.update_self]
      exact hpair call hpc
    · simp only [Function.update_of_ne he] at hx ⊢
      exact h.paired e call hpc hx

/-- Env `e` begins to wait. -/
theorem listen (h : Inv s) {e dstva : Nat} {pc : ClientPc} (he : e ≠ FSENV)
    (hin : ∀ call, pc = .recv call ∨ pc = .wait call → s.InCall e)
    (hdst : ∀ call, pc = .wait call → dstva = call.dstva) :
    Inv { s with
      envs := Function.update s.envs e { s.envs e with recving := true, dstva := dstva }
      pc := Function.update s.pc e pc } where
  serving hx := by
    simp only [Function.update_of_ne (Ne.symm he)] at hx
    exact h.serving hx
  noClient := (Function.update_of_ne (Ne.symm he) ..).trans h.noClient
  dstva x call hpc hx := by
    by_cases hxe : x = e
    · subst hxe
      simp only [Function.update_self] at hpc ⊢
      exact hdst call hpc
    · simp only [Function.update_of_ne hxe] at hpc hx ⊢
      exact h.dstva x call hpc hx
  pending x hx hwait hrecv hfrom := by
    simp only [Function.update_of_ne (Ne.symm he)] at hrecv hfrom ⊢
    refine h.pending x ?_ hwait hrecv hfrom
    obtain ⟨call, hpc⟩ := hx
    by_cases hxe : x = e
    · subst hxe
      simp only [Function.update_self] at hpc
      exact hin call hpc
    · simp only [Function.update_of_ne hxe] at hpc
      exact ⟨call, hpc⟩
  job x hx := by
    refine h.job x ?_
    obtain ⟨call, hpc⟩ := hx
    by_cases hxe : x = e
    · subst hxe
      simp only [Function.update_self] at hpc
      exact hin call hpc
    · simp only [Function.update_of_ne hxe] at hpc
      exact ⟨call, hpc⟩
  paired x call hpc hx := by
    by_cases hxe : x = e
    · subst hxe
      simp only [Function.update_self] at hx
      cases hx
    · simp only [Function.update_of_ne hxe] at hpc hx ⊢
      exact h.paired x call hpc hx

/-- The server goes on to `pc`, with replies to the request it has. -/
theorem moveServ (h : Inv s) {pc : ServPc} (serv : ServState) (hrecv : (s.envs FSENV).recving = false)
    (hwait : pc ≠ .wait) (hjob : ∀ e, s.InCall e → ∀ ticket todo fails, pc = .reply ticket todo fails →
      ∀ r ∈ todo, r.whom = e → ticket = some ⟨e, s.asked e⟩) :
    Inv { s with servPc := pc, serv := serv } where
  serving hx := by
    rw [hrecv] at hx
    cases hx
  noClient := h.noClient
  dstva := h.dstva
  pending _ _ hx := absurd hx hwait
  job := hjob
  paired := h.paired

/-- The server changes what it has mapped. -/
theorem setServ (h : Inv s) {env : IpcEnv} (hnot : s.servPc ≠ .wait) (hrecv : env.recving = false) :
    Inv { s with envs := Function.update s.envs FSENV env } where
  serving hx := by
    simp only [Function.update_self] at hx
    rw [hrecv] at hx
    cases hx
  noClient := h.noClient
  dstva e call hpc hx := by
    have he : e ≠ FSENV := h.inCall_ne ⟨call, Or.inr hpc⟩
    simp only [Function.update_of_ne he] at hx ⊢
    exact h.dstva e call hpc hx
  pending _ _ hx := absurd hx hnot
  job := h.job
  paired e call hpc hx := by
    have he : e ≠ FSENV := h.inCall_ne ⟨call, Or.inr hpc⟩
    simp only [Function.update_of_ne he] at hx ⊢
    exact h.paired e call hpc hx

/-- The server begins to wait. -/
theorem servRecv (h : Inv s) :
    Inv { s with envs := (sysIpcRecv s.envs FSENV REQVA).2, servPc := .wait } := by
  have hrecv : (sysIpcRecv s.envs FSENV REQVA).2 =
      Function.update s.envs FSENV { s.envs FSENV with recving := true, dstva := REQVA } := by
    rw [sysIpcRecv_ok (Or.inr (by decide))]
  rw [hrecv]
  exact
    { serving := fun _ => rfl
      noClient := h.noClient
      dstva := fun e call hwait hx => by
        have he : e ≠ FSENV := h.inCall_ne ⟨call, Or.inr hwait⟩
        simp only [Function.update_of_ne he] at hx ⊢
        exact h.dstva e call hwait hx
      pending := fun e _ _ hx => by
        simp only [Function.update_self] at hx
        cases hx
      job := nofun
      paired := fun e call hwait hx => by
        have he : e ≠ FSENV := h.inCall_ne ⟨call, Or.inr hwait⟩
        simp only [Function.update_of_ne he] at hx ⊢
        exact h.paired e call hwait hx }

theorem recving (h : Inv s) (hnot : s.servPc ≠ .wait) : (s.envs FSENV).recving = false := by
  cases hx : (s.envs FSENV).recving with
  | false => rfl
  | true => exact absurd (h.serving hx) hnot

-- The steps of an env

/-- A message of other code. -/
theorem userSend (h : Inv s) {e dst srcva perm : Nat} {value : Int} {mem : Bool} (hpc : s.pc e = .user)
    (hgood : (s.envs dst).recving = true → ∀ call, s.pc dst ≠ .wait call) :
    Inv { s with envs := (sysIpcTrySend s.envs e dst value srcva perm mem .other).2 } := by
  obtain ⟨r, envs, hsend⟩ : ∃ r envs, sysIpcTrySend s.envs e dst value srcva perm mem .other = (r, envs) :=
    ⟨_, _, rfl⟩
  rw [hsend]
  rcases sysIpcTrySend_cases hsend with ⟨-, rfl⟩ | ⟨-, env, hw, -⟩
  · exact h
  · rw [hw.envs]
    refine h.wake hw.waited hw.recving ?_ fun call hwait => absurd hwait (hgood hw.waited call)
    rintro - x ⟨call, hx⟩ hfrom
    rw [hw.ipcFrom] at hfrom
    subst hfrom
    rw [hpc] at hx
    rcases hx with hx | hx <;> cases hx

/-- A request goes out, or is refused. -/
theorem send (h : Inv s) {e : Nat} {call : FsCall} {mem : Bool} (he : e ≠ FSENV) :
    Inv (s.send e call mem) := by
  unfold FsIpc.send
  obtain ⟨r, envs, hsend⟩ : ∃ r envs, sysIpcTrySend s.envs e FSENV call.type call.fsreq PTE_W mem
      (.request ⟨e, s.asked e + 1⟩) = (r, envs) := ⟨_, _, rfl⟩
  simp only [hsend]
  have hstop : Inv (s.setPc e .stopped) := h.setPc he fun _ => ⟨nofun, nofun⟩
  rcases sysIpcTrySend_cases hsend with ⟨hr, rfl⟩ | ⟨hr, env, hw, -⟩
  · split_ifs
    · exact h
    · exact hstop
  · rw [if_neg hr]
    have hwait : s.servPc = .wait := h.serving hw.waited
    split_ifs with h0
    · -- no request is pending, so this one may have the number that is next
      have hasked : Inv { s with
          asked := Function.update s.asked e (s.asked e + 1), pc := Function.update s.pc e (.recv call) } :=
        { serving := h.serving
          noClient := (Function.update_of_ne (Ne.symm he) ..).trans h.noClient
          dstva := fun x c hx => by
            by_cases hxe : x = e
            · subst hxe
              simp only [Function.update_self] at hx
              cases hx
            · simp only [Function.update_of_ne hxe] at hx
              exact h.dstva x c hx
          pending := fun _ _ _ hrecv => by
            rw [hw.waited] at hrecv
            cases hrecv
          job := fun _ _ _ _ _ hjob => by
            rw [hwait] at hjob
            cases hjob
          paired := fun x c hx => by
            by_cases hxe : x = e
            · subst hxe
              simp only [Function.update_self] at hx
              cases hx
            · simp only [Function.update_of_ne hxe] at hx ⊢
              exact h.paired x c hx }
      rw [hw.envs]
      refine hasked.wake hw.waited hw.recving ?_ fun c hc => ?_
      · intro _ x _ hfrom
        rw [hw.ipcFrom] at hfrom
        subst hfrom
        rw [hw.letter]
        simp only [Function.update_self]
        rfl
      · simp only [Function.update_of_ne (Ne.symm he)] at hc
        rw [h.noClient] at hc
        cases hc
    · rw [hw.envs]
      refine hstop.wake hw.waited hw.recving ?_ fun c hc => ?_
      · rintro - x ⟨c, hx⟩ hfrom
        rw [hw.ipcFrom] at hfrom
        subst hfrom
        have hself : (s.setPc e .stopped).pc e = .stopped := Function.update_self ..
        rw [hself] at hx
        rcases hx with hx | hx <;> cases hx
      · rw [hstop.noClient] at hc
        cases hc

theorem recv (h : Inv s) {e : Nat} {call : FsCall} (he : e ≠ FSENV) (hpc : s.pc e = .recv call) :
    Inv (s.recv e call) := by
  unfold FsIpc.recv
  obtain ⟨r, envs, hrecv⟩ : ∃ r envs, sysIpcRecv s.envs e call.dstva = (r, envs) := ⟨_, _, rfl⟩
  simp only [hrecv]
  rcases sysIpcRecv_cases hrecv with ⟨hr, -⟩ | ⟨hr, rfl⟩
  · rw [if_neg hr]
    exact h.setPc he fun _ => ⟨nofun, nofun⟩
  · rw [if_pos hr]
    refine h.listen he (fun _ _ => ⟨call, Or.inl hpc⟩) ?_
    intro c hc
    cases hc
    rfl

theorem userRecv (h : Inv s) {e dstva : Nat} (he : e ≠ FSENV) (hpc : s.pc e = .user) :
    Inv { s with envs := (sysIpcRecv s.envs e dstva).2 } := by
  obtain ⟨r, envs, hrecv⟩ : ∃ r envs, sysIpcRecv s.envs e dstva = (r, envs) := ⟨_, _, rfl⟩
  rw [hrecv]
  rcases sysIpcRecv_cases hrecv with ⟨-, rfl⟩ | ⟨-, rfl⟩
  · exact h
  · have hlisten : Inv { s with
        envs := Function.update s.envs e { s.envs e with recving := true, dstva := dstva }
        pc := Function.update s.pc e .user } := by
      refine h.listen he (fun call hx => ?_) nofun
      rcases hx with hx | hx <;> cases hx
    rw [← hpc, Function.update_eq_self] at hlisten
    exact hlisten

-- The steps of the server

theorem take (h : Inv s) {req : Request} {pages : Nat → Option Nat} (hpc : s.servPc = .wait)
    (hrecv : (s.envs FSENV).recving = false) (hstep : s.take req pages = some s') : Inv s' := by
  unfold FsIpc.take at hstep
  by_cases hperm : testFlag (s.envs FSENV).perm PTE_V = false
  · rw [if_pos hperm] at hstep
    cases hstep
    exact h.moveServ s.serv hrecv nofun nofun
  · rw [if_neg hperm] at hstep
    by_cases hunknown : (s.envs FSENV).value < 1 ∨ 7 < (s.envs FSENV).value
    · rw [if_pos hunknown] at hstep
      cases hstep
      refine h.moveServ s.serv hrecv nofun ?_
      rintro e - ticket todo fails hjob r hr
      cases hjob
      cases hr
    · rw [if_neg hunknown] at hstep
      by_cases hcode : req.code = (s.envs FSENV).value
      · rw [if_pos hcode] at hstep
        -- the replies go to the env that the message is from
        have hjob : ∀ (todo : List Reply) (fails : Bool), (∀ r ∈ todo, r.whom = (s.envs FSENV).ipcFrom) →
            ∀ serv, Inv { s with
              envs := Function.update s.envs FSENV { s.envs FSENV with pages := pages }
              servPc := .reply (s.envs FSENV).letter.ticket todo fails
              serv := serv } := by
          intro todo fails hwhom serv
          have hmove : Inv { s with
              servPc := .reply (s.envs FSENV).letter.ticket todo fails, serv := serv } := by
            refine h.moveServ serv hrecv nofun ?_
            intro e he ticket todo' fails' hreply r hr hre
            cases hreply
            exact h.pending e he hpc hrecv ((hwhom r hr).symm.trans hre)
          exact hmove.setServ nofun hrecv
        simp only at hstep
        cases hserve : serve (s.envs FSENV).ipcFrom req { s.serv with sent := [] } with
        | error stop =>
          simp only [hserve] at hstep
          cases hstep
          exact hjob _ true sentBefore_whom s.serv
        | ok p =>
          obtain ⟨_, serv⟩ := p
          simp only [hserve] at hstep
          cases hstep
          refine hjob _ false (fun r hr => ?_) serv
          exact serve_repliesTo _ req _ _ _ hserve nofun r (List.mem_reverse.mp hr)
      · rw [if_neg hcode] at hstep
        cases hstep

theorem reply (h : Inv s) {ticket : Option Ticket} {r : Reply} {todo : List Reply} {fails mem : Bool}
    (hpc : s.servPc = .reply ticket (r :: todo) fails)
    (hgood : r.page ≠ .none → mem = true ∧ ∃ f, (s.envs FSENV).page r.page.srcva = some f) :
    Inv (s.reply ticket r todo fails mem) := by
  have hrecv := h.recving (by rw [hpc]; exact nofun)
  unfold FsIpc.reply
  obtain ⟨page, hpage⟩ : ∃ page, page =
      if r.page.srcva = 0 then none else (s.envs FSENV).page r.page.srcva := ⟨_, rfl⟩
  obtain ⟨v, envs, hsend⟩ : ∃ v envs, sysIpcTrySend s.envs FSENV r.whom r.value r.page.srcva r.page.perm
      mem (.reply ticket r.value page) = (v, envs) := ⟨_, _, rfl⟩
  rw [← hpage]
  simp only [hsend]
  rcases sysIpcTrySend_cases hsend with ⟨hv, rfl⟩ | ⟨hv, env, hw, hmap⟩
  · split_ifs
    · exact h
    · exact h.moveServ s.serv hrecv nofun nofun
  · rw [if_neg hv]
    have hne : r.whom ≠ FSENV := by
      intro heq
      have hwaited := hw.waited
      rw [heq, hrecv] at hwaited
      cases hwaited
    have hwake : Inv { s with envs := envs } := by
      rw [hw.envs]
      refine h.wake hw.waited hw.recving (fun heq => absurd heq hne) fun call hwait => ?_
      obtain rfl := h.job r.whom ⟨call, Or.inr hwait⟩ ticket (r :: todo) fails hpc r List.mem_cons_self rfl
      refine ⟨page, by rw [hw.letter, hw.value], fun f hf => ?_⟩
      have hsrc : r.page.srcva ≠ 0 := by
        intro h0
        rw [hpage, if_pos h0] at hf
        cases hf
      rw [hpage, if_neg hsrc] at hf
      rcases hmap with ⟨-, hmap⟩ | ⟨-, -, hbad⟩
      · obtain ⟨g, hg, hat⟩ := hmap hsrc
        rw [hf] at hg
        cases hg
        rw [← h.dstva r.whom call hwait hw.waited]
        exact hat
      · obtain ⟨hmem, -⟩ := hgood (fun hnone => hsrc (by rw [hnone]; rfl))
        rcases hbad with hbad | hbad
        · rw [hf] at hbad
          cases hbad
        · rw [hmem] at hbad
          cases hbad
    have hrecv' : (envs FSENV).recving = false := by
      rw [hw.envs, Function.update_of_ne (Ne.symm hne)]
      exact hrecv
    split_ifs
    · refine hwake.moveServ s.serv hrecv' nofun ?_
      intro e he ticket' todo' fails' hreply r' hr' hre
      cases hreply
      exact h.job e he ticket (r :: todo) fails hpc r' (List.mem_cons_of_mem r hr') hre
    · exact hwake.moveServ s.serv hrecv' nofun nofun

/-- Every good step keeps the invariant. -/
theorem step (h : Inv s) {a : FsAct} (hgood : s.Good a) (hstep : s.step a = some s') : Inv s' := by
  cases a with
  | call e call =>
    simp only [FsIpc.step] at hstep
    split at hstep
    · split_ifs at hstep with hruns
      cases hstep
      exact h.setPc hruns.1 fun _ => ⟨nofun, nofun⟩
    · cases hstep
  | send e mem =>
    simp only [FsIpc.step] at hstep
    split at hstep
    · split_ifs at hstep with hruns
      cases hstep
      exact h.send hruns.1
    · cases hstep
  | recv e =>
    simp only [FsIpc.step] at hstep
    split at hstep
    · next call hpc =>
      split_ifs at hstep with hruns
      cases hstep
      exact h.recv hruns.1 hpc
    · cases hstep
  | ret e =>
    simp only [FsIpc.step] at hstep
    split at hstep
    · split_ifs at hstep with hruns
      cases hstep
      exact h.setPc hruns.1 fun _ => ⟨nofun, nofun⟩
    · cases hstep
  | userSend e dst value srcva perm mem =>
    simp only [FsIpc.step] at hstep
    split at hstep
    · next hpc =>
      split_ifs at hstep with hruns
      cases hstep
      exact h.userSend hpc hgood
    · cases hstep
  | userRecv e dstva =>
    simp only [FsIpc.step] at hstep
    split at hstep
    · next hpc =>
      split_ifs at hstep with hruns
      cases hstep
      exact h.userRecv hruns.1 hpc
    · cases hstep
  | servRecv =>
    simp only [FsIpc.step] at hstep
    split at hstep
    · cases hstep
      exact h.servRecv
    · cases hstep
  | servTake req pages =>
    simp only [FsIpc.step] at hstep
    split at hstep
    · next hpc =>
      split_ifs at hstep with hrecv
      exact h.take hpc (Bool.eq_false_iff.mpr hrecv) hstep
    · cases hstep
  | servReply mem =>
    simp only [FsIpc.step] at hstep
    split at hstep
    · next ticket r todo fails hpc =>
      cases hstep
      exact h.reply hpc (hgood ticket r todo fails hpc)
    · cases hstep
  | servUnmap =>
    simp only [FsIpc.step] at hstep
    split at hstep
    · next ticket hpc =>
      cases hstep
      have hrecv := h.recving (by rw [hpc]; exact nofun)
      have hmove : Inv { s with servPc := .recv } := h.moveServ s.serv hrecv nofun nofun
      exact hmove.setServ nofun hrecv
    · cases hstep

end Inv

end FsIpc

theorem FsReach.inv {s₀ : FsIpc} (h₀ : s₀.Start) (h : FsReach FsIpc.Good s₀ s) : s.Inv := by
  induction h with
  | refl => exact h₀.inv
  | step _ hgood hstep ih => exact ih.step hgood hstep

/-- **A reply to each request.** In every run in which nobody but the server sends to an
env that waits in `fsipc`, and the page of each reply can be mapped, `fsipc` returns
what the server replied to its own request, with the page of this reply at `dstva`. -/
theorem fsipc_paired {s₀ : FsIpc} (h₀ : s₀.Start) (h : FsReach FsIpc.Good s₀ s) : s.Paired :=
  (h.inv h₀).paired

-- ---------------------------------------------------------------------------
-- Two runs
-- ---------------------------------------------------------------------------

/-- A run of the steps in `acts`. -/
def FsIpc.run (s : FsIpc) (acts : List FsAct) : Option FsIpc := acts.foldlM FsIpc.step s

theorem FsReach.trans_run {P : FsIpc → FsAct → Prop} {s₀ : FsIpc} (h : FsReach P s₀ s)
    {acts : List FsAct} (hP : ∀ a ∈ acts, ∀ s, P s a) (hrun : s.run acts = some s') :
    FsReach P s₀ s' := by
  induction acts generalizing s with
  | nil =>
    cases hrun
    exact h
  | cons a acts ih =>
    unfold FsIpc.run at hrun
    rw [List.foldlM_cons] at hrun
    obtain ⟨s₁, hstep, hrest⟩ := Option.bind_eq_some_iff.mp hrun
    exact ih (h.step (hP a List.mem_cons_self s) hstep) (fun b hb => hP b (List.mem_cons_of_mem a hb)) hrest

/-- Every env has frame 5 mapped everywhere, and no file was opened yet. -/
def quietSys : FsIpc where
  envs _ := ⟨false, 0, 0, 0, 0, fun _ => some 5, .other⟩
  pc _ := .user
  asked _ := 0
  servPc := .recv
  serv := ⟨emptyCache rootDisk fun _ => true, fun i => ⟨0, BitVec.ofNat 32 i, 0, ⟨0, 0, 0, 0, []⟩, 0⟩, []⟩

theorem quietSys_start : quietSys.Start := ⟨fun _ => rfl, fun _ => rfl, rfl⟩

/-- Env 0x1802 closes a file. -/
def closeCall : FsCall := ⟨4, 0x500000, 0⟩

def closeActs : List FsAct := [.servRecv, .call 0x1802 closeCall, .send 0x1802 true, .recv 0x1802]

/-- The file is not open, and `fsipc` returns the error of the server. -/
theorem fsipc_paired_close :
    ∃ s s', quietSys.run (closeActs ++ [.servTake (.close 5000#32) fun _ => none]) = some s ∧
      s.step (.servReply true) = some s' ∧ s'.pc 0x1802 = .wait closeCall ∧
      (s'.envs 0x1802).recving = false ∧ (s'.envs 0x1802).value = -E_INVAL ∧ s'.Paired := by
  obtain ⟨s, s', hrun, hjob, hstep, hpc, hrecv, hvalue⟩ :
      ∃ s s', quietSys.run (closeActs ++ [.servTake (.close 5000#32) fun _ => none]) = some s ∧
        s.servPc = .reply (some ⟨0x1802, 1⟩) [⟨0x1802, -E_INVAL, .none⟩] false ∧
        s.step (.servReply true) = some s' ∧ s'.pc 0x1802 = .wait closeCall ∧
        (s'.envs 0x1802).recving = false ∧ (s'.envs 0x1802).value = -E_INVAL := by
    refine ⟨_, _, rfl, rfl, rfl, ?_, ?_, ?_⟩ <;> rfl
  have hreach : FsReach FsIpc.Good quietSys s := by
    refine FsReach.refl.trans_run (fun a ha s => ?_) hrun
    simp only [closeActs, List.cons_append, List.nil_append, List.mem_cons, List.not_mem_nil,
      or_false] at ha
    rcases ha with rfl | rfl | rfl | rfl | rfl <;> exact trivial
  have hgood : s.Good (.servReply true) := by
    intro ticket r todo fails hpc hne
    rw [hjob] at hpc
    cases hpc
    exact absurd rfl hne
  exact ⟨s, s', hrun, hstep, hpc, hrecv, hvalue,
    fsipc_paired quietSys_start (hreach.step hgood hstep)⟩

/-- Another env sends 42 while the request is on its way, and `fsipc` returns 42. -/
theorem fsipc_stranger :
    ∃ s, FsReach (fun _ _ => True) quietSys s ∧ s.pc 0x1802 = .wait closeCall ∧
      (s.envs 0x1802).recving = false ∧ (s.envs 0x1802).value = 42 ∧
      (s.envs 0x1802).letter = .other ∧ ¬ s.Paired := by
  obtain ⟨s, hrun, hpc, hrecv, hvalue, hletter⟩ :
      ∃ s, quietSys.run (closeActs ++ [.userSend 0x2003 0x1802 42 0 0 true]) = some s ∧
        s.pc 0x1802 = .wait closeCall ∧ (s.envs 0x1802).recving = false ∧
        (s.envs 0x1802).value = 42 ∧ (s.envs 0x1802).letter = .other := by
    refine ⟨_, rfl, ?_, ?_, ?_, ?_⟩ <;> rfl
  refine ⟨s, FsReach.refl.trans_run (fun _ _ _ => trivial) hrun, hpc, hrecv, hvalue, hletter, ?_⟩
  intro hpaired
  obtain ⟨page, hreply, -⟩ := hpaired 0x1802 closeCall hpc hrecv
  rw [hletter] at hreply
  cases hreply

end Mos.User
