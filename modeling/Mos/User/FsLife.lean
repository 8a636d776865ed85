import Mos.Fs.ServRun
import Mos.User.FsIpc

/-!
# MOS on RISC-V — the file server and the lives of its clients

The loop of `serve` among envs that send requests with any file id, offset, size and
path, in any order, stop receiving, exit or are destroyed at any time, share and drop
the `Fd` pages, and store to the pages that `FSREQ_MAP` gave out. A handler computes
its replies in one step. Each round of `ipc_send` is a step of its own, and anything
may happen before it. A message that is no request is dropped; it is no step here.

Main results:

* `FsLife.Inv.step` — the invariant of a step: the file system is laid out, a slot that a
  client has open holds a file, and what a reply brings is there;
* `server_survives` — the server goes on, unless the kernel has no page for it, and uses
  no null `o_file`, in every run in which a client is still there when it is replied to
  and its page can be mapped, a request is `Fine`, and clients leave directories alone;
* `server_killed` — a client that is destroyed before its reply takes the server with it:
  `ipc_send` asserts that the reply was taken.
-/

namespace Mos.User

open Mos.Fs Mos.Kern Mos.Lib

-- ---------------------------------------------------------------------------
-- The server and its clients
-- ---------------------------------------------------------------------------

/-- What `sys_ipc_try_send` looks at in the env of a client. -/
structure ClientEnv where
  alive : Bool                       -- `envid2env` finds it
  recving : Bool

/-- Where the server is. `todo` are the calls of `ipc_send` that a handler still makes;
then it returns, or stops the server. -/
inductive LifePc where
  | recv
  | reply (todo : List Reply) (stop : Option Stop)
  | stopped (stop : Stop)
  deriving DecidableEq

structure FsLife where
  tab : TabState
  envs : Nat → ClientEnv
  pc : LifePc
  lent : Nat → Option Bool           -- the blocks that were given out; is it a directory's?

inductive LifeAct where
  | request (whom : Nat) (req : Request)
  | reply (mem : Bool)                          -- a round of `ipc_send`
  | next                                        -- the handler is at its end
  | env (e : Nat) (env : ClientEnv)             -- an env is created, waits, exits, is destroyed
  | share (i : Nat)                             -- the `Fd` page of a slot
  | drop (i : Nat)
  | store (b : Nat) (i : Fin 1024) (w : BitVec 32)

/-- The page is mapped in the server. -/
def pageMapped (s : ServState) : SentPage → Bool
  | .none => false
  | .ff i => decide ((s.opentab i).ffRef ≠ 0)
  | .block b => (s.fs.cache b).isSome

/-- A reply that brings the page of a block gives the block out. -/
def lend (lent : Nat → Option Bool) (isDir : Bool) : SentPage → Nat → Option Bool
  | .block b => Function.update lent b (some isDir)
  | _ => lent

namespace FsLife

variable (s : FsLife)

/-- A handler, up to its replies. -/
def request (whom : Nat) (req : Request) : FsLife :=
  match serve whom req s.tab.serv.unsent with
  | .ok (_, serv) =>
    { s with
      tab := s.tab.served serv false
      pc := .reply serv.sent.reverse none
      lent := lend s.lent (lends s.tab.serv req) (lastPage serv.sent) }
  | .error stop => { s with pc := .reply (sentBefore whom req s.tab.serv.unsent) (some stop) }

/-- `sys_ipc_try_send` of a reply; `mem` says whether there is memory for a page table
that is missing. -/
def trySend (r : Reply) (mem : Bool) : Int :=
  if r.page.srcva ≠ 0 ∧ isIllegalVa r.page.srcva then -E_INVAL
  else if (s.envs r.whom).alive = false then -E_BAD_ENV
  else if (s.envs r.whom).recving = false then -E_IPC_NOT_RECV
  else if r.page.srcva = 0 then 0
  else if pageMapped s.tab.serv r.page = false then -E_INVAL
  else if mem then 0
  else -E_NO_MEM

/-- The client has the reply, and its page. -/
def received (r : Reply) (todo : List Reply) (stop : Option Stop) : FsLife :=
  let env : ClientEnv := { s.envs r.whom with recving := false }
  { s with
    tab := match r.page with
      | .ff i => s.tab.attach i
      | _ => s.tab
    envs := Function.update s.envs r.whom env
    pc := .reply todo stop }

/-- A round of the loop of `ipc_send`, and the assertion after it. -/
def reply (r : Reply) (todo : List Reply) (stop : Option Stop) (mem : Bool) : FsLife :=
  let v := s.trySend r mem
  if v = -E_IPC_NOT_RECV then s
  else if v = 0 then s.received r todo stop
  else { s with pc := .stopped .userAssert }

/-- The loop of `serve` goes on to `ipc_recv`. -/
def next : FsLife := { s with pc := if isIllegalVa REQVA then .stopped .userPanic else .recv }

def setFs (fs : FsState) : FsLife := { s with tab := { s.tab with serv := { s.tab.serv with fs := fs } } }

/-- A step; none if it is not one that can be taken. -/
def step (s : FsLife) : LifeAct → Option FsLife
  | .request whom req =>
    match s.pc with
    | .recv =>
      if (s.envs whom).alive = true ∧ (s.envs whom).recving = false then some (s.request whom req) else none
    | _ => none
  | .reply mem =>
    match s.pc with
    | .reply (r :: todo) stop => some (s.reply r todo stop mem)
    | _ => none
  | .next =>
    match s.pc with
    | .reply [] none => some s.next
    | .reply [] (some stop) => some { s with pc := .stopped stop }
    | _ => none
  | .env e env => some { s with envs := Function.update s.envs e env }
  | .share i => if 1 ≤ s.tab.clients i then some { s with tab := s.tab.attach i } else none
  | .drop i => if 1 ≤ s.tab.clients i then some { s with tab := s.tab.detach i } else none
  | .store b i w => if (s.lent b).isSome then some (s.setFs (s.tab.serv.fs.clientStore b i w)) else none

/-- A request is fine; a client is there when it is replied to, and the page of the reply
can be mapped; an `Fd` page has fewer than 65535 mappings; and clients store to the data of
regular files only. -/
def Good (s : FsLife) : LifeAct → Prop
  | .request _ req => Fine s.tab req
  | .reply mem => ∀ r todo stop, s.pc = .reply (r :: todo) stop →
      (s.envs r.whom).alive = true ∧ (r.page ≠ .none → mem = true)
  | .share i => s.tab.clients i + 2 < 65536
  | .store b _ _ => s.lent b = some false
  | _ => True

/-- After `serve_init` and `fs_init`, on a file system that is laid out. -/
structure Start (s : FsLife) : Prop where
  init : ∃ disk mem, fsInit (emptyCache disk mem) = .ok ((), s.tab.serv.fs)
  layout : ∃ use, Layout s.tab.serv.fs use
  tab : s.tab = .start s.tab.serv.fs
  pc : s.pc = .recv
  lent : ∀ b, s.lent b = none

end FsLife

/-- The states of runs in which each step is as `P` says. -/
inductive LifeReach (P : FsLife → LifeAct → Prop) (s₀ : FsLife) : FsLife → Prop where
  | refl : LifeReach P s₀ s₀
  | step {s s' : FsLife} {a : LifeAct} (h : LifeReach P s₀ s) (hgood : P s a) (hstep : s.step a = some s') :
      LifeReach P s₀ s'

-- ---------------------------------------------------------------------------
-- The invariant
-- ---------------------------------------------------------------------------

variable {s₀ s s' : FsLife} {use use' : Uses}

/-- A slot that was never taken, or one more reference than clients; what a client has
open is a file. -/
structure SlotOk (fs : FsState) (use : Uses) (i : Nat) (o : Open) (clients : Nat) : Prop where
  fresh : o.ffRef = 0 → clients = 0 ∧ o.fileid = BitVec.ofNat 32 i
  counted : o.ffRef ≠ 0 → o.ffRef = clients + 1
  fits : clients + 1 < 65536
  file : clients ≠ 0 → Linked fs use o.file

/-- The page that a reply brings is there. -/
def PageOk (st : TabState) (use : Uses) : SentPage → Prop
  | .none => True
  | .ff i => i < MAXOPEN ∧ (st.serv.opentab i).ffRef = 1 ∧ st.clients i = 0 ∧
      Linked st.serv.fs use (st.serv.opentab i).file
  | .block b => (st.serv.fs.cache b).isSome ∧ b < DISKMAX / BY2BLK

/-- The kernel has no page for the server. -/
def NoPage (fs : FsState) (stop : Stop) : Prop := stop = .kernelPanic ∧ ∃ n, fs.mem n = false

def PcOk (fs₀ : FsState) (st : TabState) (use : Uses) : LifePc → Prop
  | .recv => True
  | .reply todo stop => (∀ e, stop = some e → NoPage fs₀ e) ∧
      (todo = [] ∨ ∃ r, todo = [r] ∧ PageOk st use r.page)
  | .stopped stop => NoPage fs₀ stop

namespace FsLife

structure Inv (s₀ s : FsLife) (use : Uses) : Prop where
  layout : Layout s.tab.serv.fs use
  asked : Asked s₀.tab.serv.fs s.tab.serv.fs
  slots : ∀ i, SlotOk s.tab.serv.fs use i (s.tab.serv.opentab i) (s.tab.clients i)
  lent : ∀ b, s.lent b = some false → (s.tab.serv.fs.cache b).isSome ∧ Loose (use b)
  pc : PcOk s₀.tab.serv.fs s.tab use s.pc

end FsLife

theorem SlotOk.moves {fs fs' : FsState} {i clients : Nat} {o : Open} (h : SlotOk fs use i o clients)
    (hm : Moves fs use fs' use') : SlotOk fs' use' i o clients :=
  ⟨h.fresh, h.counted, h.fits, fun hne => hm.linked _ (h.file hne)⟩

/-- A slot that can be taken has no client. -/
theorem SlotOk.alone {fs : FsState} {i clients : Nat} {o : Open} (h : SlotOk fs use i o clients)
    (hfree : o.ffRef = 0 ∨ o.ffRef = 1) : clients = 0 := by
  rcases hfree with h0 | h1
  · exact (h.fresh h0).1
  · have hcount := h.counted (by omega)
    omega

/-- What changes a slot that no client has is no step of a client. -/
theorem PageOk.moves {st st' : TabState} {p : SentPage} (h : PageOk st use p)
    (hm : Moves st.serv.fs use st'.serv.fs use')
    (hidle : ∀ i, st.clients i = 0 → st'.serv.opentab i = st.serv.opentab i ∧ st'.clients i = 0) :
    PageOk st' use' p := by
  cases p with
  | none => trivial
  | ff i =>
    obtain ⟨hi, href, hclients, hfile⟩ := h
    obtain ⟨hslot, hclients'⟩ := hidle i hclients
    simp only [PageOk, hslot]
    exact ⟨hi, href, hclients', hm.linked _ hfile⟩
  | block b =>
    exact ⟨(hm.page b h.1).1, h.2⟩

theorem PcOk.moves {fs₀ : FsState} {st st' : TabState} {pc : LifePc} (h : PcOk fs₀ st use pc)
    (hm : Moves st.serv.fs use st'.serv.fs use')
    (hidle : ∀ i, st.clients i = 0 → st'.serv.opentab i = st.serv.opentab i ∧ st'.clients i = 0) :
    PcOk fs₀ st' use' pc := by
  cases pc with
  | recv => trivial
  | stopped stop => exact h
  | reply todo stop =>
    refine ⟨h.1, h.2.imp_right ?_⟩
    rintro ⟨r, hr, hpage⟩
    exact ⟨r, hr, hpage.moves hm hidle⟩

/-- What is accepted and not of a slot that was never taken, a client has open. -/
theorem FsLife.Inv.looksUp (h : FsLife.Inv s₀ s use) {fileid : BitVec 32} {o : Open}
    (ho : LooksUp s.tab.serv fileid o) (hnever : ¬ NeverTaken s.tab fileid) :
    Linked s.tab.serv.fs use o.file := by
  obtain ⟨rfl, href, hid⟩ := ho
  have hslot := h.slots (fileid.toNat % MAXOPEN)
  have hne : (s.tab.serv.opentab (fileid.toNat % MAXOPEN)).ffRef ≠ 0 := by
    intro h0
    refine hnever ⟨h0, ?_⟩
    have hfirst := (hslot.fresh h0).2
    rw [hid] at hfirst
    have hval := congrArg BitVec.toNat hfirst
    rw [BitVec.toNat_ofNat] at hval
    simp only [MAXOPEN] at hval ⊢
    omega
  have hcount := hslot.counted hne
  exact hslot.file (by omega)

-- ---------------------------------------------------------------------------
-- The steps of a client
-- ---------------------------------------------------------------------------

/-- One more mapping of the page of a slot that holds a file. -/
theorem slots_attach {st : TabState} {i : Nat}
    (h : ∀ j, SlotOk st.serv.fs use j (st.serv.opentab j) (st.clients j))
    (hne : (st.serv.opentab i).ffRef ≠ 0) (hfits : st.clients i + 2 < 65536)
    (hfile : Linked st.serv.fs use (st.serv.opentab i).file) (j : Nat) :
    SlotOk (st.attach i).serv.fs use j ((st.attach i).serv.opentab j) ((st.attach i).clients j) := by
  by_cases hj : j = i
  · subst hj
    have hcount := (h j).counted hne
    have href : ((st.serv.opentab j).ffRef + 1) % 65536 = st.clients j + 1 + 1 := by omega
    simp only [TabState.attach, ServState.setRef, Function.update_self]
    exact ⟨fun h0 => absurd (href.symm.trans h0) (by omega), fun _ => href, by omega, fun _ => hfile⟩
  · simp only [TabState.attach, ServState.setRef, Function.update_of_ne hj]
    exact h j

theorem slots_detach {st : TabState} {i : Nat}
    (h : ∀ j, SlotOk st.serv.fs use j (st.serv.opentab j) (st.clients j)) (hclient : 1 ≤ st.clients i)
    (j : Nat) :
    SlotOk (st.detach i).serv.fs use j ((st.detach i).serv.opentab j) ((st.detach i).clients j) := by
  by_cases hj : j = i
  · subst hj
    have hslot := h j
    have hne : (st.serv.opentab j).ffRef ≠ 0 := by
      intro h0
      have hzero := (hslot.fresh h0).1
      omega
    have hcount := hslot.counted hne
    have hfits := hslot.fits
    have href : ((st.serv.opentab j).ffRef + 65535) % 65536 = st.clients j - 1 + 1 := by omega
    simp only [TabState.detach, ServState.setRef, Function.update_self]
    exact ⟨fun h0 => absurd (href.symm.trans h0) (by omega), fun _ => href, by omega,
      fun _ => hslot.file (by omega)⟩
  · simp only [TabState.detach, ServState.setRef, Function.update_of_ne hj]
    exact h j

namespace FsLife.Inv

theorem share (h : Inv s₀ s use) {i : Nat} (hclient : 1 ≤ s.tab.clients i)
    (hfits : s.tab.clients i + 2 < 65536) : Inv s₀ { s with tab := s.tab.attach i } use where
  layout := h.layout
  asked := h.asked
  slots := by
    have hslot := h.slots i
    refine slots_attach h.slots (fun h0 => ?_) hfits (hslot.file (by omega))
    have hzero := (hslot.fresh h0).1
    omega
  lent := h.lent
  pc := by
    refine h.pc.moves (.refl _ _) fun j hj => ?_
    have hne : j ≠ i := by
      rintro rfl
      omega
    simp only [TabState.attach, ServState.setRef, Function.update_of_ne hne]
    exact ⟨trivial, hj⟩

theorem drop (h : Inv s₀ s use) {i : Nat} (hclient : 1 ≤ s.tab.clients i) :
    Inv s₀ { s with tab := s.tab.detach i } use where
  layout := h.layout
  asked := h.asked
  slots := slots_detach h.slots hclient
  lent := h.lent
  pc := by
    refine h.pc.moves (.refl _ _) fun j hj => ?_
    have hne : j ≠ i := by
      rintro rfl
      omega
    simp only [TabState.detach, ServState.setRef, Function.update_of_ne hne]
    exact ⟨trivial, hj⟩

/-- A client stores to the data of a file. -/
theorem store (h : Inv s₀ s use) {b : Nat} (hb : s.lent b = some false) (i : Fin 1024) (w : BitVec 32) :
    Inv s₀ (s.setFs (s.tab.serv.fs.clientStore b i w)) use := by
  obtain ⟨hcached, huse⟩ := h.lent b hb
  obtain ⟨hlayout, hmoves⟩ := h.layout.client hcached huse i w
  exact
    { layout := hlayout
      asked := h.asked.trans hmoves.asked
      slots := fun j => (h.slots j).moves hmoves
      lent := fun c hc => by
        obtain ⟨hc', hu⟩ := h.lent c hc
        obtain ⟨hmapped, hkeep⟩ := hmoves.page c hc'
        exact ⟨hmapped, hkeep.loose hu⟩
      pc := h.pc.moves hmoves fun j hj => ⟨rfl, hj⟩ }

-- ---------------------------------------------------------------------------
-- The steps of the server
-- ---------------------------------------------------------------------------

/-- The addresses of the pages that replies bring. -/
theorem srcva_legal {p : SentPage} (hpage : PageOk s.tab use p) (hp : p ≠ .none) :
    p.srcva ≠ 0 ∧ isIllegalVa p.srcva = false := by
  have hlegal : ∀ va, 0x10000000 ≤ va → va < 0x70000000 → va ≠ 0 ∧ isIllegalVa va = false := by
    intro va hlo hhi
    refine ⟨by omega, decide_eq_false ?_⟩
    rw [show UTEMP = 0x3fe000 by decide, show UTOP = 0x7f400000 by decide]
    omega
  cases p with
  | none => exact absurd rfl hp
  | ff i =>
    have hi := hpage.1
    simp only [MAXOPEN] at hi
    exact hlegal _ (by simp only [SentPage.srcva, FILEVA, BY2PG]; omega)
      (by simp only [SentPage.srcva, FILEVA, BY2PG]; omega)
  | block b =>
    have hb := hpage.2
    simp only [DISKMAX, BY2BLK, BY2PG] at hb
    exact hlegal _ (by simp only [SentPage.srcva, diskaddr, DISKMAP]; omega)
      (by simp only [SentPage.srcva, diskaddr, DISKMAP, BY2BLK, BY2PG]; omega)

/-- The kernel takes the reply, or the client does not wait yet. -/
theorem trySend {r : Reply} {mem : Bool} (hpage : PageOk s.tab use r.page)
    (halive : (s.envs r.whom).alive = true) (hmem : r.page ≠ .none → mem = true) :
    s.trySend r mem = -E_IPC_NOT_RECV ∨ s.trySend r mem = 0 := by
  unfold FsLife.trySend
  rw [halive]
  by_cases hp : r.page = .none
  · rw [hp]
    by_cases hrecv : (s.envs r.whom).recving = false
    · exact Or.inl (by rw [if_neg (fun hc => hc.1 rfl), if_neg nofun, if_pos hrecv])
    · exact Or.inr (by rw [if_neg (fun hc => hc.1 rfl), if_neg nofun, if_neg hrecv,
        if_pos (show SentPage.none.srcva = 0 from rfl)])
  · obtain ⟨hne, hlegal⟩ := srcva_legal hpage hp
    have hmapped : pageMapped s.tab.serv r.page = true := by
      cases hr : r.page with
      | none => exact absurd hr hp
      | ff i =>
        rw [hr] at hpage
        have hone : (s.tab.serv.opentab i).ffRef = 1 := hpage.2.1
        exact decide_eq_true (by rw [hone]; decide)
      | block b =>
        rw [hr] at hpage
        exact hpage.1
    rw [hlegal, hmapped, hmem hp]
    by_cases hrecv : (s.envs r.whom).recving = false
    · exact Or.inl (by rw [if_neg (fun hc => nomatch hc.2), if_neg nofun, if_pos hrecv])
    · exact Or.inr (by rw [if_neg (fun hc => nomatch hc.2), if_neg nofun, if_neg hrecv, if_neg hne, if_neg nofun,
        if_pos rfl])

/-- The client has the reply, and the server goes on. -/
theorem received (h : Inv s₀ s use) {r : Reply} {stop : Option Stop} (hpage : PageOk s.tab use r.page)
    (hstop : ∀ e, stop = some e → NoPage s₀.tab.serv.fs e) : Inv s₀ (s.received r [] stop) use := by
  have hfs : (s.received r [] stop).tab.serv.fs = s.tab.serv.fs := by
    unfold FsLife.received
    cases r.page with
    | none => rfl
    | ff i => rfl
    | block b => rfl
  refine ⟨by rw [hfs]; exact h.layout, by rw [hfs]; exact h.asked, ?_, by rw [hfs]; exact h.lent,
    hstop, Or.inl rfl⟩
  unfold FsLife.received
  cases hp : r.page with
  | none => exact h.slots
  | block b => exact h.slots
  | ff i =>
    rw [hp] at hpage
    obtain ⟨-, href, hclients, hfile⟩ := hpage
    exact slots_attach h.slots (by rw [href]; decide) (by rw [hclients]; decide) hfile

/-- `open_alloc` succeeds for a request that is fine. -/
theorem sentBefore_fine {st : TabState} {req : Request} (hfine : Fine st req) (whom : Nat) :
    sentBefore whom req st.serv.unsent = [] := by
  cases req with
  | «open» path omode =>
    obtain ⟨⟨i, hslot⟩, -⟩ := hfine
    have hslot' : OpenSlot st.serv.unsent i := ⟨hslot.lt, hslot.first, hslot.page, hslot.fileid⟩
    obtain ⟨r, o, s₁, hrun, -, ⟨hr, -⟩ | ⟨-, hnone⟩⟩ :=
      openScan_allocs MAXOPEN 0 rfl (fun l hl => absurd hl (Nat.not_lt_zero l))
    · have halloc : openAlloc st.serv.unsent = .ok ((r, o), s₁) := hrun
      unfold sentBefore
      simp only [halloc]
      exact if_neg (Int.not_lt.mpr hr)
    · exact absurd hslot' (hnone i)
  | map => rfl
  | setSize => rfl
  | close => rfl
  | dirty => rfl
  | remove => rfl
  | sync => rfl

/-- A request whose page no client has yet. -/
theorem served_false (st : TabState) (serv : ServState) :
    (st.served serv false).serv = serv ∧ (st.served serv false).clients = st.clients := by
  unfold TabState.served
  cases lastPage serv.sent with
  | none => exact ⟨rfl, rfl⟩
  | ff i => exact ⟨rfl, rfl⟩
  | block b => exact ⟨rfl, rfl⟩

/-- The slots after a request. -/
theorem outcome_slots (h : Inv s₀ s use) {serv : ServState} {isDir : Bool} {page : SentPage}
    (hm : Moves s.tab.serv.fs use serv.fs use') (hout : Outcome s.tab.serv.unsent serv use' isDir page)
    (j : Nat) : SlotOk serv.fs use' j (serv.opentab j) (s.tab.clients j) := by
  have hquiet : serv.opentab j = s.tab.serv.opentab j →
      SlotOk serv.fs use' j (serv.opentab j) (s.tab.clients j) := by
    intro htab
    rw [htab]
    exact (h.slots j).moves hm
  have htaken : ∀ i, Takes s.tab.serv.unsent serv i →
      SlotOk serv.fs use' j (serv.opentab j) (s.tab.clients j) := by
    intro i htakes
    by_cases hj : j = i
    · subst hj
      have halone : s.tab.clients j = 0 := (h.slots j).alone htakes.free
      rw [halone]
      exact ⟨fun h0 => absurd (htakes.ref.symm.trans h0) Nat.one_ne_zero, fun _ => htakes.ref, by decide,
        fun hne => absurd rfl hne⟩
    · exact hquiet (htakes.others j hj)
  cases hout with
  | none htab => exact hquiet (congrFun htab j)
  | block htab => exact hquiet (congrFun htab j)
  | took htakes => exact htaken _ htakes
  | gave htakes => exact htaken _ htakes

/-- The page that the reply to a request brings. -/
theorem outcome_page (h : Inv s₀ s use) {serv : ServState} {isDir : Bool} {page : SentPage}
    (hlayout : Layout serv.fs use')
    (hout : Outcome s.tab.serv.unsent serv use' isDir page) :
    PageOk (s.tab.served serv false) use' page := by
  obtain ⟨hserv, hclients⟩ := served_false s.tab serv
  unfold PageOk
  rw [hserv, hclients]
  cases hout with
  | none => trivial
  | block _ hb huse => exact ⟨hb, hlayout.lt huse⟩
  | took => trivial
  | gave htakes hfile => exact ⟨htakes.lt, htakes.ref, (h.slots _).alone htakes.free, hfile⟩

/-- A request that is fine. -/
theorem request (h : Inv s₀ s use) {whom : Nat} {req : Request} (hfine : Fine s.tab req) :
    ∃ use', Inv s₀ (s.request whom req) use' := by
  have hruns : Runs servContract (serve whom req) s.tab.serv.unsent use
      fun _ => Replied s.tab.serv.unsent whom (lends s.tab.serv req) :=
    serve_runs h.layout (fun fileid o ho hn => h.looksUp ho hn) hfine
  unfold FsLife.request
  cases hserve : serve whom req s.tab.serv.unsent with
  | error e =>
    obtain ⟨rfl, hno⟩ := hruns.error hserve
    refine ⟨use, h.layout, h.asked, h.slots, h.lent, fun e he => ?_, Or.inl (sentBefore_fine hfine whom)⟩
    cases he
    exact ⟨rfl, h.asked.back hno⟩
  | ok p =>
    obtain ⟨_, serv⟩ := p
    obtain ⟨use', hlayout, hmoves, v, page, hsent, hout⟩ := hruns.ok hserve
    have hmoves : Moves s.tab.serv.fs use serv.fs use' := hmoves
    have hpage : lastPage serv.sent = page := by rw [hsent]; rfl
    have htodo : serv.sent.reverse = [⟨whom, v, page⟩] := by rw [hsent]; rfl
    have hserv := served_false s.tab serv
    have hold : ∀ b, s.lent b = some false → (serv.fs.cache b).isSome ∧ Loose (use' b) := by
      intro b hb
      obtain ⟨hcached, hu⟩ := h.lent b hb
      obtain ⟨hcached', huse⟩ := hmoves.page b hcached
      exact ⟨hcached', huse.loose hu⟩
    refine ⟨use', ?_, ?_, fun j => ?_, fun b hb => ?_, nofun, Or.inr ⟨_, htodo, h.outcome_page hlayout hout⟩⟩
    · rw [hserv.1]
      exact hlayout
    · rw [hserv.1]
      exact h.asked.trans hmoves.asked
    · rw [hserv.1, hserv.2]
      exact h.outcome_slots hmoves hout j
    · rw [hserv.1]
      have hb : lend s.lent (lends s.tab.serv req) (lastPage serv.sent) b = some false := hb
      rw [hpage] at hb
      cases hout with
      | none => exact hold b hb
      | took => exact hold b hb
      | gave => exact hold b hb
      | @block d _ hd huse =>
        have hb : Function.update s.lent d (some (lends s.tab.serv req)) b = some false := hb
        by_cases hbd : b = d
        · rw [hbd, Function.update_self] at hb
          rw [Option.some.inj hb] at huse
          rw [hbd]
          exact ⟨hd, Or.inr huse⟩
        · rw [Function.update_of_ne hbd] at hb
          exact hold b hb

/-- Each step keeps the invariant. -/
theorem step (h : Inv s₀ s use) {a : LifeAct} (hgood : s.Good a) (hstep : s.step a = some s') :
    ∃ use', Inv s₀ s' use' := by
  cases a with
  | request whom req =>
    simp only [FsLife.step] at hstep
    split at hstep
    · split_ifs at hstep
      cases hstep
      exact h.request hgood
    · cases hstep
  | reply mem =>
    simp only [FsLife.step] at hstep
    split at hstep
    · rename_i r todo stop hpc
      obtain ⟨halive, hmem⟩ := hgood r todo stop hpc
      have hok := h.pc
      rw [hpc] at hok
      obtain ⟨hstop, hnil | ⟨r', htodo, hpage⟩⟩ := hok
      · cases hnil
      · obtain ⟨rfl, rfl⟩ := List.cons.inj htodo
        cases hstep
        unfold FsLife.reply
        rcases trySend hpage halive hmem with hv | hv
        · rw [hv]
          exact ⟨use, h⟩
        · rw [hv]
          exact ⟨use, h.received hpage hstop⟩
    · cases hstep
  | next =>
    simp only [FsLife.step] at hstep
    split at hstep
    · cases hstep
      refine ⟨use, h.layout, h.asked, h.slots, h.lent, ?_⟩
      unfold FsLife.next
      rw [show isIllegalVa REQVA = false by decide]
      trivial
    · rename_i stop hpc
      have hok := h.pc
      rw [hpc] at hok
      cases hstep
      exact ⟨use, h.layout, h.asked, h.slots, h.lent, hok.1 stop rfl⟩
    · cases hstep
  | env e env =>
    cases hstep
    exact ⟨use, h.layout, h.asked, h.slots, h.lent, h.pc⟩
  | share i =>
    simp only [FsLife.step] at hstep
    split_ifs at hstep with hclient
    cases hstep
    exact ⟨use, h.share hclient hgood⟩
  | drop i =>
    simp only [FsLife.step] at hstep
    split_ifs at hstep with hclient
    cases hstep
    exact ⟨use, h.drop hclient⟩
  | store b i w =>
    simp only [FsLife.step] at hstep
    split_ifs at hstep
    cases hstep
    exact ⟨use, h.store hgood i w⟩

end FsLife.Inv

-- ---------------------------------------------------------------------------
-- Runs
-- ---------------------------------------------------------------------------

theorem FsLife.Start.inv (h : FsLife.Start s) : ∃ use, FsLife.Inv s s use := by
  obtain ⟨use, hlayout⟩ := h.layout
  refine ⟨use, hlayout, .refl _, fun i => ?_, fun b hb => ?_, ?_⟩
  · rw [h.tab]
    exact ⟨fun _ => ⟨rfl, rfl⟩, fun hne => absurd rfl hne, show 0 + 1 < 65536 by decide,
      fun hne => absurd rfl hne⟩
  · rw [h.lent] at hb
    cases hb
  · rw [h.pc]
    trivial

theorem LifeReach.inv (h₀ : FsLife.Start s₀) (h : LifeReach FsLife.Good s₀ s) :
    ∃ use, FsLife.Inv s₀ s use := by
  induction h with
  | refl => exact h₀.inv
  | step _ hgood hstep ih =>
    obtain ⟨use, hinv⟩ := ih
    exact hinv.step hgood hstep

/-- In every run in which each step is good, the server stops only when the kernel has no
page for it, and a file id that it accepts, but for that of a slot that was never taken, has
no null `o_file`. -/
theorem server_survives (h₀ : FsLife.Start s₀) (h : LifeReach FsLife.Good s₀ s) :
    (∀ stop, s.pc = .stopped stop → stop = .kernelPanic ∧ ∃ n, s₀.tab.serv.fs.mem n = false) ∧
      ∀ fileid o, LooksUp s.tab.serv fileid o → ¬ NeverTaken s.tab fileid → o.file ≠ 0 := by
  obtain ⟨use, hinv⟩ := h.inv h₀
  constructor
  · intro stop hstop
    have hpc := hinv.pc
    rw [hstop] at hpc
    exact hpc
  · intro fileid o ho hnever hzero
    obtain ⟨b, i, haddr, -⟩ := (hinv.looksUp ho hnever).fileAt
    rw [hzero] at haddr
    simp only [addr, diskaddr, DISKMAP] at haddr
    omega

/-- The server on the disk with an empty root directory; any env may send. -/
def FsLife.init (fs : FsState) : FsLife := ⟨.start fs, fun _ => ⟨true, false⟩, .recv, fun _ => none⟩

/-- A disk of five blocks, and no block of the root. -/
theorem FsLife.init_start_small {disk : Nat → Block} {mem : Nat → Bool} {fs : FsState}
    (hinit : fsInit (emptyCache disk mem) = .ok ((), fs)) (hn : fs.nblocks = 5)
    (hcached : (List.range 3).all (fun b => (fs.cache b).isSome) = true)
    (hroot : (List.range 12).all (fun k => fs.word 1 (2 + (W_DIRECT + k)) == 0) = true) :
    FsLife.Start (.init fs) := by
  obtain ⟨hready, hused⟩ := fsInit_ready hinit
  refine ⟨⟨_, _, hinit⟩, ⟨_, .empty_root (n := 3) ⟨hready, hused⟩ ?_ ?_ ?_ ?_ ?_ ?_⟩, rfl, rfl, fun _ => rfl⟩
  · show fs.nblocks ≤ _
    rw [hn]
    decide
  · show 3 ≤ fs.nblocks
    rw [hn]
    decide
  · exact fun b hb => List.all_eq_true.mp hcached b (List.mem_range.mpr hb)
  · decide
  · intro c hc
    have hc : c < fs.nblocks := hc
    simp only [BIT2BLK, BY2BLK, BY2PG]
    omega
  · intro k hlo hhi
    obtain ⟨m, rfl⟩ := Nat.exists_eq_add_of_le hlo
    simp only [W_DIRECT, W_DIR] at hhi
    exact eq_of_beq (List.all_eq_true.mp hroot m (List.mem_range.mpr (by omega)))

theorem FsLife.init_start {fs : FsState} (hinit : fsInit (emptyCache rootDisk fun _ => true) = .ok ((), fs)) :
    FsLife.Start (.init fs) := by
  obtain ⟨fs', hinit', hn, hcached, hroot⟩ :
      ∃ fs', fsInit (emptyCache rootDisk fun _ => true) = .ok ((), fs') ∧ fs'.nblocks = 5 ∧
        (List.range 3).all (fun b => (fs'.cache b).isSome) = true ∧
        (List.range 12).all (fun k => fs'.word 1 (2 + (W_DIRECT + k)) == 0) = true :=
    ⟨_, rfl, rfl, rfl, rfl⟩
  rw [hinit] at hinit'
  cases hinit'
  exact FsLife.init_start_small hinit hn hcached hroot

/-- A client opens the root directory. -/
theorem server_survives_open :
    ∃ fs s, fsInit (emptyCache rootDisk fun _ => true) = .ok ((), fs) ∧
      LifeReach FsLife.Good (.init fs) s ∧ s.pc = .recv ∧ s.tab.clients 0 = 1 ∧
      (∀ stop, s.pc = .stopped stop → stop = .kernelPanic ∧ ∃ n, fs.mem n = false) ∧
      ∀ fileid o, LooksUp s.tab.serv fileid o → ¬ NeverTaken s.tab fileid → o.file ≠ 0 := by
  obtain ⟨fs, s₁, s₂, s₃, s₄, hinit, hmem, h₁, h₂, hpc₂, halive, h₃, h₄, hpc₄, hclients⟩ :
      ∃ fs s₁ s₂ s₃ s₄, fsInit (emptyCache rootDisk fun _ => true) = .ok ((), fs) ∧ fs.mem 0 = true ∧
        (FsLife.init fs).step (.request 1 (.open [slash] 0)) = some s₁ ∧
        s₁.step (.env 1 ⟨true, true⟩) = some s₂ ∧ s₂.pc = .reply [⟨1, 0, .ff 0⟩] none ∧
        (s₂.envs 1).alive = true ∧ s₂.step (.reply true) = some s₃ ∧
        s₃.step .next = some s₄ ∧ s₄.pc = .recv ∧ s₄.tab.clients 0 = 1 :=
    ⟨_, _, _, _, _, rfl, rfl, rfl, rfl, rfl, rfl, rfl, rfl, rfl, rfl⟩
  have hslot : OpenSlot (FsLife.init fs).tab.serv 0 :=
    ⟨by decide, fun j hj => absurd hj (Nat.not_lt_zero j), Or.inr ⟨rfl, hmem⟩,
      show 0 ≤ (BitVec.ofNat 32 0 + BitVec.ofNat 32 MAXOPEN).toInt by decide⟩
  obtain ⟨hready, hused⟩ := fsInit_ready hinit
  have hfine : FsLife.Good (.init fs) (.request 1 (.open [slash] 0)) := ⟨⟨0, hslot⟩, Or.inl ⟨hready, hused⟩⟩
  have hreplied : FsLife.Good s₂ (.reply true) := by
    intro r todo stop hpc
    rw [hpc₂] at hpc
    cases hpc
    exact ⟨halive, fun _ => rfl⟩
  have henv : FsLife.Good s₁ (.env 1 ⟨true, true⟩) := trivial
  have hnext : FsLife.Good s₃ .next := trivial
  have hreach : LifeReach FsLife.Good (.init fs) s₄ :=
    .step (.step (.step (.step .refl hfine h₁) henv h₂) hreplied h₃) hnext h₄
  exact ⟨fs, s₄, hinit, hreach, hpc₄, hclients, server_survives (FsLife.init_start hinit) hreach⟩

/-- A client closes a file id that names no open file, and is destroyed before the server
replies: the assertion of `ipc_send` fails. And a client maps a page of file id 7, of a slot
that was never taken: the handler follows a null `o_file`, with all the memory it wants. -/
theorem server_killed :
    ∃ fs, fsInit (emptyCache rootDisk fun _ => true) = .ok ((), fs) ∧ FsLife.Start (.init fs) ∧
      (∃ s, LifeReach (fun _ _ => True) (.init fs) s ∧ s.pc = .stopped .userAssert) ∧
      (∃ o, LooksUp (FsLife.init fs).tab.serv 7#32 o ∧ o.file = 0) ∧ (∀ n, fs.mem n = true) ∧
      ∃ s, LifeReach (fun _ _ => True) (.init fs) s ∧ s.pc = .stopped .kernelPanic := by
  obtain ⟨fs, s₁, s₂, s₃, hinit, hmem, h₁, h₂, h₃, hpc₃⟩ :
      ∃ fs s₁ s₂ s₃, fsInit (emptyCache rootDisk fun _ => true) = .ok ((), fs) ∧ (∀ n, fs.mem n = true) ∧
        (FsLife.init fs).step (.request 1 (.close 5000#32)) = some s₁ ∧
        s₁.step (.env 1 ⟨false, false⟩) = some s₂ ∧ s₂.step (.reply true) = some s₃ ∧
        s₃.pc = .stopped .userAssert := ⟨_, _, _, _, rfl, fun _ => rfl, rfl, rfl, rfl, rfl⟩
  obtain ⟨s₄, s₅, h₄, h₅, hpc₅⟩ :
      ∃ s₄ s₅, (FsLife.init fs).step (.request 1 (.map 7#32 0)) = some s₄ ∧ s₄.step .next = some s₅ ∧
        s₅.pc = .stopped .kernelPanic := ⟨_, _, rfl, rfl, rfl⟩
  refine ⟨fs, hinit, FsLife.init_start hinit, ⟨s₃, ?_, hpc₃⟩, ⟨_, ⟨rfl, Nat.zero_ne_one, rfl⟩, rfl⟩, hmem, s₅, ?_,
    hpc₅⟩
  · exact .step (.step (.step .refl trivial h₁) trivial h₂) trivial h₃
  · exact .step (.step .refl trivial h₄) trivial h₅

end Mos.User
