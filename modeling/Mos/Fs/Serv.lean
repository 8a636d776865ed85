import Mos.Fs.CacheRun
import Mos.Fs.File

/-!
# MOS on RISC-V — the requests of the file server

`fs/serv.c`: the table of open files, a handler for each request, and one round
of `serve`. `ffRef` is what `pageref` finds at the `Fd` page of a slot: the
clients that open, share and close files change it. `sent` is history, the calls
of `ipc_send`, the last one first; a call returns when the client has received.

`serve_open` goes on after the reply that `open_alloc` failed. `serve_replies`
says when a request has exactly one reply: `open_alloc` gives a file id that is
not negative, and the file system returns from what the handler calls.
-/

namespace Mos.Fs

open Mos.Lib Mos.Kern

def MAXOPEN : Nat := 1024

/-- `devfile.dev_id`, the character `f`. -/
def devfileId : BitVec 32 := 102#32

/-- The page of a `struct Filefd`, as the server fills it. -/
structure Filefd where
  devId : BitVec 32
  offset : BitVec 32
  omode : BitVec 32
  fileid : BitVec 32
  file : List (BitVec 32)

structure Open where
  file : Nat                -- `o_file`, an address
  fileid : BitVec 32
  mode : BitVec 32
  ff : Filefd
  ffRef : Nat               -- `pageref(o_ff)`

/-- What a reply maps into the client. -/
inductive SentPage where
  | none
  | ff (slot : Nat)
  | block (b : Nat)
  deriving DecidableEq, Repr

structure Reply where
  whom : Nat
  value : Int
  page : SentPage
  deriving DecidableEq, Repr

structure ServState where
  fs : FsState
  opentab : Nat → Open
  sent : List Reply

abbrev ServM := StateT ServState (Except Stop)

/-- A call of `fs.c`. -/
def fsCall {α : Type} (x : FsM α) : ServM α := fun s => do
  let (a, fs) ← x s.fs
  return (a, { s with fs := fs })

def ipcSend (whom : Nat) (value : Int) (page : SentPage) : ServM Unit :=
  modify fun s => { s with sent := ⟨whom, value, page⟩ :: s.sent }

def setOpen (i : Nat) (f : Open → Open) : ServM Unit :=
  modify fun s => { s with opentab := Function.update s.opentab i (f (s.opentab i)) }

/-- The cases 0 and 1 of `open_alloc`: slot `i` gets a new file id and a cleared page. -/
def takeOpen (i : Nat) : ServM (Int × Option Nat) := do
  setOpen i fun o => { o with fileid := o.fileid + BitVec.ofNat 32 MAXOPEN, ff := ⟨0, 0, 0, 0, []⟩ }
  return (((← get).opentab i).fileid.toInt, some i)

/-- The loop of `open_alloc`, over `n` slots from slot `i` on: the result and `*o`,
if it was set. -/
def openScan : Nat → Nat → ServM (Int × Option Nat)
  | 0, _ => return (-E_MAX_OPEN, none)
  | n + 1, i => do
    let ref := ((← get).opentab i).ffRef
    if ref = 0 then
      if ← fsCall pageAnswer then
        setOpen i fun o => { o with ffRef := 1 }
        takeOpen i
      else return (-E_NO_MEM, none)
    else if ref = 1 then takeOpen i
    else openScan n (i + 1)

def openAlloc : ServM (Int × Option Nat) := openScan MAXOPEN 0

def openLookup (fileid : BitVec 32) : ServM (Except Int Open) := do
  let o := (← get).opentab (fileid.toNat % MAXOPEN)
  if o.ffRef = 1 ∨ o.fileid ≠ fileid then return .error (-E_INVAL) else return .ok o

/-- `ff->f_file = *f`. -/
def copyFile (f : Nat) : FsM (List (BitVec 32)) :=
  (List.range (BY2FILE / 4)).mapM fun k => loadAt (f + 4 * k)

-- ---------------------------------------------------------------------------
-- The handlers
-- ---------------------------------------------------------------------------

/-- `serve_open` after `open_alloc` returned `r`, with `o` in its variable: a
variable that was not set is used as it is. -/
def serveOpenFile (whom : Nat) (o : Option Nat) (path : List Nat) (omode : BitVec 32) : ServM Unit := do
  match ← fsCall (fileOpen path) with
  | .error r => ipcSend whom r .none
  | .ok f =>
    match o with
    | none => throw .wildPointer
    | some i =>
      setOpen i fun o => { o with file := f }
      let words ← fsCall (copyFile f)
      setOpen i fun o => { o with mode := omode, ff := ⟨devfileId, 0, omode, o.fileid, words⟩ }
      ipcSend whom 0 (.ff i)

def serveOpen (whom : Nat) (path : List Nat) (omode : BitVec 32) : ServM Unit := do
  let (r, o) ← openAlloc
  if r < 0 then ipcSend whom r .none
  serveOpenFile whom o path omode

def serveMap (whom : Nat) (fileid : BitVec 32) (offset : Nat) : ServM Unit := do
  match ← openLookup fileid with
  | .error r => ipcSend whom r .none
  | .ok o =>
    match ← fsCall (fileGetBlock o.file (offset / BY2BLK)) with
    | .error r => ipcSend whom r .none
    | .ok blk => ipcSend whom 0 (.block blk)

def serveSetSize (whom : Nat) (fileid : BitVec 32) (size : Nat) : ServM Unit := do
  match ← openLookup fileid with
  | .error r => ipcSend whom r .none
  | .ok o =>
    let r ← fsCall (fileSetSize o.file size)
    if r < 0 then ipcSend whom r .none else ipcSend whom 0 .none

def serveClose (whom : Nat) (fileid : BitVec 32) : ServM Unit := do
  match ← openLookup fileid with
  | .error r => ipcSend whom r .none
  | .ok o =>
    fsCall (fileClose o.file)
    ipcSend whom 0 .none

def serveRemove (whom : Nat) (path : List Nat) : ServM Unit := do
  let r ← fsCall (fileRemove path)
  ipcSend whom r .none

def serveDirty (whom : Nat) (fileid : BitVec 32) (offset : Nat) : ServM Unit := do
  match ← openLookup fileid with
  | .error r => ipcSend whom r .none
  | .ok o =>
    let r ← fsCall (fileDirty o.file offset)
    if r < 0 then ipcSend whom r .none else ipcSend whom 0 .none

def serveSync (whom : Nat) : ServM Unit := do
  fsCall fsSync
  ipcSend whom 0 .none

/-- A request with an argument page. -/
inductive Request where
  | open (path : List Nat) (omode : BitVec 32)
  | map (fileid : BitVec 32) (offset : Nat)
  | setSize (fileid : BitVec 32) (size : Nat)
  | close (fileid : BitVec 32)
  | dirty (fileid : BitVec 32) (offset : Nat)
  | remove (path : List Nat)
  | sync

/-- The body of the loop of `serve`, for a request of `whom`. -/
def serve (whom : Nat) : Request → ServM Unit
  | .open path omode => serveOpen whom path omode
  | .map fileid offset => serveMap whom fileid offset
  | .setSize fileid size => serveSetSize whom fileid size
  | .close fileid => serveClose whom fileid
  | .dirty fileid offset => serveDirty whom fileid offset
  | .remove path => serveRemove whom path
  | .sync => serveSync whom

-- ---------------------------------------------------------------------------
-- One reply
-- ---------------------------------------------------------------------------

variable {s s' : ServState} {whom : Nat} {α : Type}

/-- The call of `fs.c` comes back: the server is not stopped in it. -/
def Returns (x : FsM α) (fs : FsState) : Prop := ∃ a fs', x fs = .ok (a, fs')

/-- The slot that `open_alloc` takes: the first that no client has, with memory for
its page, and a next file id that is no negative `int`. -/
structure OpenSlot (s : ServState) (i : Nat) : Prop where
  lt : i < MAXOPEN
  first : ∀ j < i, (s.opentab j).ffRef ≠ 0 ∧ (s.opentab j).ffRef ≠ 1
  page : (s.opentab i).ffRef = 1 ∨ (s.opentab i).ffRef = 0 ∧ s.fs.mem 0 = true
  fileid : 0 ≤ ((s.opentab i).fileid + BitVec.ofNat 32 MAXOPEN).toInt

/-- The state of `fs.c` after `open_alloc` took slot `i`. -/
def openedFs (s : ServState) (i : Nat) : FsState :=
  if (s.opentab i).ffRef = 0 then s.fs.withMem fun n => s.fs.mem (n + 1) else s.fs

/-- The calls of `fs.c` for `FSREQ_OPEN`. -/
def openFile (path : List Nat) : FsM Unit := do
  match ← fileOpen path with
  | .error _ => return ()
  | .ok f =>
    let _ ← copyFile f
    return ()

/-- `open_lookup` finds slot `o`. -/
def LooksUp (s : ServState) (fileid : BitVec 32) (o : Open) : Prop :=
  o = s.opentab (fileid.toNat % MAXOPEN) ∧ o.ffRef ≠ 1 ∧ o.fileid = fileid

/-- A slot can be taken for `FSREQ_OPEN`, and what the handler calls comes back. -/
def Answers (s : ServState) : Request → Prop
  | .open path _ => ∃ i, OpenSlot s i ∧ Returns (openFile path) (openedFs s i)
  | .map fileid offset => ∀ o, LooksUp s fileid o → Returns (fileGetBlock o.file (offset / BY2BLK)) s.fs
  | .setSize fileid size => ∀ o, LooksUp s fileid o → Returns (fileSetSize o.file size) s.fs
  | .close fileid => ∀ o, LooksUp s fileid o → Returns (fileClose o.file) s.fs
  | .dirty fileid offset => ∀ o, LooksUp s fileid o → Returns (fileDirty o.file offset) s.fs
  | .remove path => Returns (fileRemove path) s.fs
  | .sync => Returns fsSync s.fs

/-- The handler comes back, with one reply to the client. -/
def Replies (s : ServState) (whom : Nat) (req : Request) : Prop :=
  ∃ s' value page, serve whom req s = .ok ((), s') ∧ s'.sent = ⟨whom, value, page⟩ :: s.sent

theorem fsCall_ok {x : FsM α} {a : α} {fs : FsState} (h : x s.fs = .ok (a, fs)) :
    fsCall x s = .ok (a, { s with fs := fs }) := by
  unfold fsCall
  rw [h]
  rfl

theorem fsCall_eq_ok {x : FsM α} {a : α} (h : fsCall x s = .ok (a, s')) :
    ∃ fs, x s.fs = .ok (a, fs) ∧ { s with fs := fs } = s' := by
  unfold fsCall at h
  obtain ⟨⟨a', fs⟩, hx, h⟩ := bind_eq_ok.mp h
  cases h
  exact ⟨fs, hx, rfl⟩

theorem fsCall_returns {x : FsM α} {a : α} (h : fsCall x s = .ok (a, s')) :
    Returns x s.fs ∧ s'.sent = s.sent ∧ s'.opentab = s.opentab := by
  unfold fsCall at h
  obtain ⟨⟨a', fs⟩, hx, h⟩ := bind_eq_ok.mp h
  cases h
  exact ⟨⟨_, _, hx⟩, rfl, rfl⟩

/-- A reply and nothing after it. -/
theorem ipcSend_sent (s : ServState) (whom : Nat) (value : Int) (page : SentPage) :
    ipcSend whom value page s = .ok ((), { s with sent := ⟨whom, value, page⟩ :: s.sent }) := rfl

/-- A call of `fs.c` and a reply with its result. -/
theorem call_then_reply {x : FsM α} {f : α → ServM Unit}
    (hf : ∀ a s, ∃ value page, f a s = .ok ((), { s with sent := ⟨whom, value, page⟩ :: s.sent })) :
    (∃ s' value page, (fsCall x >>= f) s = .ok ((), s') ∧ s'.sent = ⟨whom, value, page⟩ :: s.sent) ↔
      Returns x s.fs := by
  constructor
  · rintro ⟨s', value, page, hrun, -⟩
    obtain ⟨a, s₁, hx, -⟩ := run_bind_eq_ok.mp hrun
    exact (fsCall_returns hx).1
  · rintro ⟨a, fs, hx⟩
    obtain ⟨value, page, hfa⟩ := hf a { s with fs := fs }
    refine ⟨_, value, page, (run_bind (fsCall_ok hx) f).trans hfa, rfl⟩

theorem openLookup_eq (s : ServState) (fileid : BitVec 32) :
    (openLookup fileid s = .ok (.error (-E_INVAL), s) ∧ ∀ o, ¬ LooksUp s fileid o) ∨
      ∃ o, openLookup fileid s = .ok (.ok o, s) ∧ ∀ o', LooksUp s fileid o' ↔ o' = o := by
  unfold openLookup LooksUp
  rw [run_get]
  by_cases hc : (s.opentab (fileid.toNat % MAXOPEN)).ffRef = 1 ∨
      (s.opentab (fileid.toNat % MAXOPEN)).fileid ≠ fileid
  · refine Or.inl ⟨?_, ?_⟩
    · simp only [if_pos hc]
      rfl
    · rintro o ⟨rfl, hne, heq⟩
      exact hc.elim hne fun h => h heq
  · refine Or.inr ⟨s.opentab (fileid.toNat % MAXOPEN), ?_, ?_⟩
    · simp only [if_neg hc]
      rfl
    · intro o'
      rw [not_or, not_not] at hc
      exact ⟨fun h => h.1, fun h => ⟨h, h ▸ hc.1, h ▸ hc.2⟩⟩

/-- A handler that looks the file up first. -/
theorem lookup_replies {fileid : BitVec 32} {x : Open → FsM α} {f : α → ServM Unit}
    (hf : ∀ a s, ∃ value page, f a s = .ok ((), { s with sent := ⟨whom, value, page⟩ :: s.sent })) :
    (∃ s' value page, (openLookup fileid >>= fun r => match r with
        | .error r => ipcSend whom r .none
        | .ok o => fsCall (x o) >>= f) s = .ok ((), s') ∧
      s'.sent = ⟨whom, value, page⟩ :: s.sent) ↔ ∀ o, LooksUp s fileid o → Returns (x o) s.fs := by
  rcases openLookup_eq s fileid with ⟨hlook, hnone⟩ | ⟨o, hlook, hiff⟩
  · rw [run_bind hlook]
    exact ⟨fun _ o ho => absurd ho (hnone o), fun _ => ⟨_, -E_INVAL, .none, rfl, rfl⟩⟩
  · rw [run_bind hlook]
    simp only [hiff, forall_eq]
    exact call_then_reply hf

-- ---------------------------------------------------------------------------
-- FSREQ_OPEN
-- ---------------------------------------------------------------------------

/-- Only the first slot without a client can be taken. -/
theorem OpenSlot.eq_first {i j : Nat} (h : OpenSlot s j) (hfirst : ∀ l < i, (s.opentab l).ffRef ≠ 0 ∧
    (s.opentab l).ffRef ≠ 1) (hi : (s.opentab i).ffRef = 0 ∨ (s.opentab i).ffRef = 1) : j = i := by
  rcases Nat.lt_trichotomy j i with hlt | heq | hgt
  · obtain ⟨h0, h1⟩ := hfirst j hlt
    exact absurd h.page fun hc => hc.elim h1 fun hc => h0 hc.1
  · exact heq
  · obtain ⟨h0, h1⟩ := h.first i hgt
    exact absurd hi fun hc => hc.elim h0 h1

/-- `open_alloc` gives a slot and its next file id, or an error. -/
def OpenAllocs (s s₁ : ServState) (r : Int) (o : Option Nat) : Prop :=
  s₁.sent = s.sent ∧
    ((0 ≤ r ∧ ∃ i, o = some i ∧ OpenSlot s i ∧ s₁.fs = openedFs s i) ∨ (r < 0 ∧ ∀ i, ¬ OpenSlot s i))

/-- Slot `i` is the first without a client. -/
theorem OpenAllocs.take {s₁ : ServState} {i : Nat} (hi : i < MAXOPEN)
    (hfirst : ∀ l < i, (s.opentab l).ffRef ≠ 0 ∧ (s.opentab l).ffRef ≠ 1)
    (hpage : (s.opentab i).ffRef = 1 ∨ (s.opentab i).ffRef = 0 ∧ s.fs.mem 0 = true)
    (hsent : s₁.sent = s.sent) (hfs : s₁.fs = openedFs s i) :
    OpenAllocs s s₁ ((s.opentab i).fileid + BitVec.ofNat 32 MAXOPEN).toInt (some i) := by
  refine ⟨hsent, ?_⟩
  by_cases hid : 0 ≤ ((s.opentab i).fileid + BitVec.ofNat 32 MAXOPEN).toInt
  · exact Or.inl ⟨hid, i, rfl, ⟨hi, hfirst, hpage, hid⟩, hfs⟩
  · refine Or.inr ⟨Int.not_le.mp hid, fun j hj => hid ?_⟩
    rw [← hj.eq_first hfirst (hpage.elim Or.inr fun h => Or.inl h.1)]
    exact hj.fileid

/-- The state after `open_alloc` took slot `i`. -/
def ServState.taken (s : ServState) (i : Nat) : ServState :=
  let o : Open := { s.opentab i with
    fileid := (s.opentab i).fileid + BitVec.ofNat 32 MAXOPEN, ff := ⟨0, 0, 0, 0, []⟩ }
  { s with opentab := Function.update s.opentab i o }

/-- The state after a page was mapped for slot `i`. -/
def ServState.paged (s : ServState) (i : Nat) : ServState :=
  let o : Open := { s.opentab i with ffRef := 1 }
  { s with fs := openedFs s i, opentab := Function.update s.opentab i o }

theorem takeOpen_ok (i : Nat) (s : ServState) :
    takeOpen i s = .ok ((((s.opentab i).fileid + BitVec.ofNat 32 MAXOPEN).toInt, some i), s.taken i) := by
  have hid : ((s.taken i).opentab i).fileid = (s.opentab i).fileid + BitVec.ofNat 32 MAXOPEN := by
    simp only [ServState.taken, Function.update_self]
  rw [← hid]
  rfl

theorem openScan_allocs (n i : Nat) (hn : i + n = MAXOPEN)
    (hfirst : ∀ l < i, (s.opentab l).ffRef ≠ 0 ∧ (s.opentab l).ffRef ≠ 1) :
    ∃ r o s₁, openScan n i s = .ok ((r, o), s₁) ∧ OpenAllocs s s₁ r o := by
  induction n generalizing i with
  | zero =>
    refine ⟨-E_MAX_OPEN, none, s, rfl, rfl, Or.inr ⟨by decide, ?_⟩⟩
    intro j hj
    obtain ⟨h0, h1⟩ := hfirst j (by have := hj.lt; omega)
    exact absurd hj.page fun hc => hc.elim h1 fun hc => h0 hc.1
  | succ n ih =>
    have hi : i < MAXOPEN := by omega
    unfold openScan
    rw [run_get]
    by_cases h0 : (s.opentab i).ffRef = 0
    · have hask : fsCall pageAnswer s = .ok (s.fs.mem 0, { s with fs := openedFs s i }) := by
        unfold openedFs
        rw [if_pos h0]
        rfl
      simp only [if_pos h0]
      rw [run_bind hask]
      by_cases hmem : s.fs.mem 0 = true
      · rw [if_pos hmem]
        have hset : setOpen i (fun o => { o with ffRef := 1 }) { s with fs := openedFs s i } =
            .ok ((), s.paged i) := rfl
        rw [run_bind hset, takeOpen_ok]
        have hid : ((s.paged i).opentab i).fileid = (s.opentab i).fileid := by
          simp only [ServState.paged, Function.update_self]
        rw [hid]
        exact ⟨_, _, _, rfl, .take hi hfirst (Or.inr ⟨h0, hmem⟩) rfl rfl⟩
      · rw [if_neg hmem]
        refine ⟨-E_NO_MEM, none, _, rfl, rfl, Or.inr ⟨by decide, fun j hj => hmem ?_⟩⟩
        have := hj.page
        rw [hj.eq_first hfirst (Or.inl h0), h0] at this
        simpa using this
    · by_cases h1 : (s.opentab i).ffRef = 1
      · simp only [if_neg h0, if_pos h1]
        rw [takeOpen_ok]
        refine ⟨_, _, _, rfl, .take hi hfirst (Or.inl h1) rfl ?_⟩
        unfold openedFs
        rw [if_neg h0]
        rfl
      · simp only [if_neg h0, if_neg h1]
        refine ih (i + 1) (by omega) ?_
        intro l hl
        rcases Nat.lt_succ_iff_lt_or_eq.mp hl with hlt | rfl
        · exact hfirst l hlt
        · exact ⟨h0, h1⟩

/-- `serve_open` after `open_alloc`: one more reply, if it comes back. -/
theorem serveOpenFile_sent {o : Option Nat} {path : List Nat} {omode : BitVec 32}
    (h : serveOpenFile whom o path omode s = .ok ((), s')) :
    Returns (openFile path) s.fs ∧ ∃ value page, s'.sent = ⟨whom, value, page⟩ :: s.sent := by
  unfold serveOpenFile at h
  obtain ⟨r, s₁, hopen, h⟩ := run_bind_eq_ok.mp h
  obtain ⟨fs, hfile, rfl⟩ := fsCall_eq_ok hopen
  cases r with
  | error e =>
    cases h
    refine ⟨⟨(), fs, ?_⟩, e, .none, rfl⟩
    unfold openFile
    rw [run_bind hfile]
    rfl
  | ok f =>
    cases o with
    | none => cases h
    | some i =>
      obtain ⟨_, s₂, hset, h⟩ := run_bind_eq_ok.mp h
      cases hset
      obtain ⟨words, s₃, hcopy, h⟩ := run_bind_eq_ok.mp h
      obtain ⟨fs', hwords, rfl⟩ := fsCall_eq_ok hcopy
      cases h
      refine ⟨⟨(), fs', ?_⟩, 0, .ff i, rfl⟩
      unfold openFile
      rw [run_bind hfile]
      exact run_bind hwords _

/-- With a slot in `o`, `serve_open` comes back from what `fs.c` comes back from. -/
theorem serveOpenFile_returns {i : Nat} {path : List Nat} {omode : BitVec 32}
    (h : Returns (openFile path) s.fs) :
    ∃ s', serveOpenFile whom (some i) path omode s = .ok ((), s') := by
  obtain ⟨_, fs', h⟩ := h
  unfold openFile at h
  obtain ⟨r, fs, hfile, h⟩ := run_bind_eq_ok.mp h
  unfold serveOpenFile
  rw [run_bind (fsCall_ok hfile)]
  cases r with
  | error e => exact ⟨_, rfl⟩
  | ok f =>
    obtain ⟨words, fs₂, hcopy, -⟩ := run_bind_eq_ok.mp h
    obtain ⟨_, hset⟩ : ∃ s₁, setOpen i (fun o => { o with file := f }) { s with fs := fs } = .ok ((), s₁) ∧
        s₁.fs = fs := ⟨_, rfl, rfl⟩
    obtain ⟨hset, hfs⟩ := hset
    rw [← hfs] at hcopy
    refine ⟨_, (run_bind hset _).trans ((run_bind (fsCall_ok hcopy) _).trans rfl)⟩

theorem serveOpen_replies {path : List Nat} {omode : BitVec 32} :
    Replies s whom (.open path omode) ↔ Answers s (.open path omode) := by
  obtain ⟨r, o, s₁, halloc, hsent, hcases⟩ := openScan_allocs (s := s) MAXOPEN 0 (by decide) nofun
  have hserve : serve whom (.open path omode) s =
      ((do
        if r < 0 then ipcSend whom r .none
        serveOpenFile whom o path omode) : ServM Unit) s₁ :=
    run_bind (show openAlloc s = _ from halloc) _
  unfold Replies
  rw [hserve]
  rcases hcases with ⟨hr, i, rfl, hslot, hfs⟩ | ⟨hr, hnone⟩
  · rw [if_neg (Int.not_lt.mpr hr)]
    constructor
    · rintro ⟨s', value, page, hrun, -⟩
      have hret := (serveOpenFile_sent (show serveOpenFile whom (some i) path omode s₁ = _ from hrun)).1
      rw [hfs] at hret
      exact ⟨i, hslot, hret⟩
    · rintro ⟨j, hj, hret⟩
      obtain rfl : j = i := hj.eq_first hslot.first (hslot.page.elim Or.inr fun h => Or.inl h.1)
      rw [← hfs] at hret
      obtain ⟨s', hrun⟩ : ∃ s', serveOpenFile whom (some j) path omode s₁ = .ok ((), s') :=
        serveOpenFile_returns hret
      obtain ⟨-, value, page, hone⟩ := serveOpenFile_sent hrun
      exact ⟨s', value, page, hrun, by rw [hone, hsent]⟩
  · rw [if_pos hr]
    refine ⟨?_, fun ⟨i, hslot, _⟩ => absurd hslot (hnone i)⟩
    rintro ⟨s', value, page, hrun, hone⟩
    -- the first reply says that `open_alloc` failed, and `serve_open` goes on
    rw [run_bind (ipcSend_sent s₁ whom r .none)] at hrun
    obtain ⟨-, v, q, htwo⟩ := serveOpenFile_sent hrun
    rw [hone, hsent] at htwo
    have hlen := congrArg List.length htwo
    simp at hlen

-- ---------------------------------------------------------------------------
-- Every request
-- ---------------------------------------------------------------------------

/-- `serve` answers a request with exactly one reply if and only if a slot can be taken
for `FSREQ_OPEN`, and the file system comes back from what the handler calls. -/
theorem serve_replies (s : ServState) (whom : Nat) (req : Request) :
    Replies s whom req ↔ Answers s req := by
  have hreply : ∀ (r : Int) (s : ServState), ∃ value page,
      (if r < 0 then ipcSend whom r .none else ipcSend whom 0 .none) s =
        .ok ((), { s with sent := ⟨whom, value, page⟩ :: s.sent }) := by
    intro r s
    by_cases hr : r < 0
    · rw [if_pos hr]
      exact ⟨r, .none, rfl⟩
    · rw [if_neg hr]
      exact ⟨0, .none, rfl⟩
  cases req with
  | «open» path omode => exact serveOpen_replies
  | map fileid offset =>
    refine lookup_replies ?_
    rintro (r | blk) s
    · exact ⟨r, .none, rfl⟩
    · exact ⟨0, .block blk, rfl⟩
  | setSize fileid size => exact lookup_replies hreply
  | close fileid => exact lookup_replies fun _ _ => ⟨0, .none, rfl⟩
  | dirty fileid offset => exact lookup_replies hreply
  | remove path => exact call_then_reply fun r _ => ⟨r, .none, rfl⟩
  | sync => exact call_then_reply fun _ _ => ⟨0, .none, rfl⟩

/-- The small disk with an empty root directory. -/
def rootDisk (b : Nat) (i : Fin 1024) : BitVec 32 :=
  if b = 1 ∧ i = 35 then FTYPE_DIR else smallDisk b i

/-- Every slot was taken once and is open in a client. -/
def fullTable (i : Nat) : Open :=
  ⟨sRoot, BitVec.ofNat 32 (MAXOPEN + i), 0, ⟨devfileId, 0, 0, BitVec.ofNat 32 (MAXOPEN + i), []⟩, 2⟩

theorem openScan_full (h : ∀ i, (s.opentab i).ffRef = 2) (n i : Nat) :
    openScan n i s = .ok ((-E_MAX_OPEN, none), s) := by
  induction n generalizing i with
  | zero => rfl
  | succ n ih =>
    unfold openScan
    rw [run_get]
    simp only [h, OfNat.ofNat_ne_zero, OfNat.ofNat_ne_one, if_false]
    exact ih (i + 1)

theorem serveOpenFile_error {o : Option Nat} {path : List Nat} {omode : BitVec 32} {r : Int}
    {fs : FsState} (h : fileOpen path s.fs = .ok (.error r, fs)) :
    serveOpenFile whom o path omode s =
      .ok ((), { s with fs := fs, sent := ⟨whom, r, .none⟩ :: s.sent }) := by
  unfold serveOpenFile
  rw [run_bind (fsCall_ok h)]
  rfl

/-- The table is full and the file is not there: two replies. -/
theorem serveOpen_replies_twice :
    ∃ fs s', fsInit (emptyCache rootDisk fun _ => true) = .ok ((), fs) ∧
      serve 1 (.open [120] 0) ⟨fs, fullTable, []⟩ = .ok ((), s') ∧
      s'.sent = [⟨1, -E_NOT_FOUND, .none⟩, ⟨1, -E_MAX_OPEN, .none⟩] ∧
      ¬ Replies ⟨fs, fullTable, []⟩ 1 (.open [120] 0) := by
  obtain ⟨fs, fs', hinit, hopen⟩ : ∃ fs fs', fsInit (emptyCache rootDisk fun _ => true) = .ok ((), fs) ∧
      fileOpen [120] fs = .ok (.error (-E_NOT_FOUND), fs') := ⟨_, _, rfl, rfl⟩
  have hserve : serve 1 (.open [120] 0) ⟨fs, fullTable, []⟩ =
      .ok ((), ⟨fs', fullTable, [⟨1, -E_NOT_FOUND, .none⟩, ⟨1, -E_MAX_OPEN, .none⟩]⟩) := by
    refine (run_bind (openScan_full (fun _ => rfl) MAXOPEN 0) _).trans ?_
    simp only [if_pos (show -E_MAX_OPEN < 0 by decide)]
    rw [run_bind (ipcSend_sent _ 1 (-E_MAX_OPEN) .none)]
    exact serveOpenFile_error (s := ⟨fs, fullTable, [⟨1, -E_MAX_OPEN, .none⟩]⟩) hopen
  refine ⟨fs, _, hinit, hserve, rfl, ?_⟩
  rintro ⟨s', value, page, hrun, hone⟩
  cases hserve.symm.trans hrun
  cases hone

-- ---------------------------------------------------------------------------
-- Who gets the replies
-- ---------------------------------------------------------------------------

/-- `x` replies to nobody but `whom`. -/
def RepliesTo (whom : Nat) (x : ServM α) : Prop :=
  ∀ s a s', x s = .ok (a, s') → (∀ r ∈ s.sent, r.whom = whom) → ∀ r ∈ s'.sent, r.whom = whom

namespace RepliesTo

variable {β : Type}

theorem pure (a : α) : RepliesTo whom (Pure.pure a : ServM α) := by
  intro s a' s' h hs
  cases h
  exact hs

theorem bind {x : ServM α} {f : α → ServM β} (hx : RepliesTo whom x) (hf : ∀ a, RepliesTo whom (f a)) :
    RepliesTo whom (x >>= f) := by
  intro s b s' h hs
  obtain ⟨a, s₁, hrun, hrest⟩ := run_bind_eq_ok.mp h
  exact hf a s₁ b s' hrest (hx s a s₁ hrun hs)

theorem ite {c : Prop} [Decidable c] {x y : ServM α} (hx : RepliesTo whom x) (hy : RepliesTo whom y) :
    RepliesTo whom (if c then x else y) := by
  split_ifs
  · exact hx
  · exact hy

theorem get : RepliesTo whom (MonadState.get : ServM ServState) := by
  intro s a s' h hs
  cases h
  exact hs

theorem setOpen (i : Nat) (f : Open → Open) : RepliesTo whom (Fs.setOpen i f) := by
  intro s a s' h hs
  cases h
  exact hs

theorem fsCall (x : FsM α) : RepliesTo whom (Fs.fsCall x) := by
  intro s a s' h hs
  obtain ⟨fs, -, rfl⟩ := fsCall_eq_ok h
  exact hs

theorem ipcSend (value : Int) (page : SentPage) : RepliesTo whom (Fs.ipcSend whom value page) := by
  intro s a s' h hs r hr
  cases h
  rcases List.mem_cons.mp hr with rfl | hr
  · rfl
  · exact hs r hr

theorem openLookup (fileid : BitVec 32) : RepliesTo whom (Fs.openLookup fileid) :=
  get.bind fun _ => ite (pure _) (pure _)

theorem takeOpen (i : Nat) : RepliesTo whom (Fs.takeOpen i) :=
  (setOpen i _).bind fun _ => get.bind fun _ => pure _

theorem openScan (n i : Nat) : RepliesTo whom (Fs.openScan n i) := by
  induction n generalizing i with
  | zero => exact pure _
  | succ n ih =>
    unfold Fs.openScan
    refine get.bind fun _ => ite ?_ (ite (takeOpen i) (ih (i + 1)))
    exact (fsCall _).bind fun _ => ite ((setOpen i _).bind fun _ => takeOpen i) (pure _)

theorem serveOpenFile (o : Option Nat) (path : List Nat) (omode : BitVec 32) :
    RepliesTo whom (Fs.serveOpenFile whom o path omode) := by
  refine (fsCall _).bind fun r => ?_
  cases r with
  | error r => exact ipcSend r .none
  | ok f =>
    cases o with
    | none => exact nofun
    | some i =>
      exact (setOpen i _).bind fun _ => (fsCall _).bind fun _ => (setOpen i _).bind fun _ => ipcSend 0 _

/-- A handler that looks the file up first. -/
theorem lookup {fileid : BitVec 32} {f : Open → ServM Unit} (hf : ∀ o, RepliesTo whom (f o)) :
    RepliesTo whom (Fs.openLookup fileid >>= fun r => match r with
      | .error r => Fs.ipcSend whom r .none
      | .ok o => f o) := by
  refine (openLookup fileid).bind fun r => ?_
  cases r with
  | error r => exact ipcSend r .none
  | ok o => exact hf o

end RepliesTo

/-- `serve` replies to the env that sent the request. -/
theorem serve_repliesTo (whom : Nat) (req : Request) : RepliesTo whom (serve whom req) := by
  have hreply : ∀ r : Int, RepliesTo whom
      (if r < 0 then ipcSend whom r .none else ipcSend whom 0 .none) :=
    fun r => .ite (.ipcSend r .none) (.ipcSend 0 .none)
  cases req with
  | «open» path omode =>
    refine (RepliesTo.openScan MAXOPEN 0).bind fun ⟨r, o⟩ => ?_
    have hfile : RepliesTo whom (serveOpenFile whom o path omode) := .serveOpenFile o path omode
    exact .ite ((RepliesTo.ipcSend r .none).bind fun _ => hfile) hfile
  | map fileid offset =>
    refine .lookup fun o => (RepliesTo.fsCall _).bind fun r => ?_
    cases r with
    | error r => exact .ipcSend r .none
    | ok blk => exact .ipcSend 0 (.block blk)
  | setSize fileid size => exact .lookup fun o => (RepliesTo.fsCall _).bind hreply
  | close fileid => exact .lookup fun o => (RepliesTo.fsCall _).bind fun _ => .ipcSend 0 .none
  | dirty fileid offset => exact .lookup fun o => (RepliesTo.fsCall _).bind hreply
  | remove path => exact (RepliesTo.fsCall _).bind fun r => .ipcSend r .none
  | sync => exact (RepliesTo.fsCall _).bind fun _ => .ipcSend 0 .none

end Mos.Fs
