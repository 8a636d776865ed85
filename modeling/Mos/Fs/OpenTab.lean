import Mos.Fs.Serv

/-!
# MOS on RISC-V — the table of open files

A file id is `i`, `i + MAXOPEN`, `i + 2 * MAXOPEN`, … for slot `i`: `serve_init`
sets the first, and each `open_alloc` that takes the slot goes on to the next. The
server keeps no count of the clients that have a file open. It maps the `Fd` page
of a slot itself, once, and reads the reference count of the page; `clients` is
how many mappings of it the clients have, and `handed` what each successful
`serve_open` gave out of a slot, the last one first.

A client maps the page that a reply brings, or is refused it; it shares its
mappings (`fork`, `dup`) and drops them (`close`, `exit`), and sends requests with
any file id. The argument page of a request is not an `Fd` page.

Main results:

* `TabReach.inv` — the count of a slot that was taken is one more than its clients,
  and a slot with clients holds the id and the file given out last;
* `openLookup_sound_iff` — `open_lookup` accepts no id but the last one of a file
  that a client has open, unless the slot was never taken: the page of such a slot
  has no reference at all, which `open_lookup` does not ask for, and the id of
  `serve_init` passes, with a null `o_file`.
-/

namespace Mos.Fs

open Mos.Lib Mos.Kern

-- ---------------------------------------------------------------------------
-- The server and its clients
-- ---------------------------------------------------------------------------

/-- `opentab` after `serve_init`: no page is mapped at `FILEVA`. -/
def serveInit (i : Nat) : Open :=
  ⟨0, BitVec.ofNat 32 i, if i = 0 then 1 else 0, ⟨0, 0, 0, 0, []⟩, 0⟩

structure TabState where
  serv : ServState
  clients : Nat → Nat                        -- mappings of the `Fd` page of a slot, by clients
  handed : Nat → List (BitVec 32 × Nat)      -- ids and `File` pointers, the last first

/-- The server starts with what `fs_init` left in `fs`. -/
def TabState.start (fs : FsState) : TabState := ⟨⟨fs, serveInit, []⟩, fun _ => 0, fun _ => []⟩

/-- What the last reply brings. -/
def lastPage : List Reply → SentPage
  | [] => .none
  | r :: _ => r.page

/-- The `pp_ref` of the page of slot `i` becomes `n`, as a `u_short`. -/
def ServState.setRef (s : ServState) (i n : Nat) : ServState :=
  let o : Open := { s.opentab i with ffRef := n % 65536 }
  { s with opentab := Function.update s.opentab i o }

namespace TabState

variable (st : TabState)

/-- A client gets one more mapping of the page of slot `i`. -/
def attach (i : Nat) : TabState where
  serv := st.serv.setRef i ((st.serv.opentab i).ffRef + 1)
  clients := Function.update st.clients i (st.clients i + 1)
  handed := st.handed

/-- A client loses one. -/
def detach (i : Nat) : TabState where
  serv := st.serv.setRef i ((st.serv.opentab i).ffRef + 65535)
  clients := Function.update st.clients i (st.clients i - 1)
  handed := st.handed

/-- A `serve_open` that succeeded left the server at `s`: slot `i` is given out. -/
def hand (s : ServState) (i : Nat) : TabState where
  serv := s
  clients := st.clients
  handed := Function.update st.handed i (((s.opentab i).fileid, (s.opentab i).file) :: st.handed i)

/-- A request was served, and left the server at `s`. With `maps`, the client has
mapped the page of the reply. -/
def served (s : ServState) (maps : Bool) : TabState :=
  match lastPage s.sent with
  | .ff i => if maps then (st.hand s i).attach i else st.hand s i
  | _ => { st with serv := s }

end TabState

inductive TabStep (st : TabState) : TabState → Prop where
  | serve {whom : Nat} {req : Request} {s : ServState} (maps : Bool)
      (hrun : serve whom req st.serv = .ok ((), s)) : TabStep st (st.served s maps)
  | share {i : Nat} (h : 1 ≤ st.clients i) : TabStep st (st.attach i)
  | drop {i : Nat} (h : 1 ≤ st.clients i) : TabStep st (st.detach i)

/-- Neither a reference count nor a file id wraps at the next step. -/
structure Fits (st : TabState) : Prop where
  mappings : ∀ i, st.clients i + 1 < 65536
  ids : ∀ i < MAXOPEN, (st.serv.opentab i).fileid.toNat + MAXOPEN < 2 ^ 32

/-- The states of the runs in which nothing wraps. -/
inductive TabReach (fs : FsState) : TabState → Prop where
  | start : TabReach fs (.start fs)
  | step {st st' : TabState} (h : TabReach fs st) (hstep : TabStep st st') (hfits : Fits st') :
      TabReach fs st'

-- ---------------------------------------------------------------------------
-- `File` pointers
-- ---------------------------------------------------------------------------

/-- The address of a `struct File`: that of the root directory, or of one of the
`FILE2BLK` files in a block of the disk map. -/
def IsFile (f : Nat) : Prop :=
  f = sRoot ∨ ∃ b j, b < DISKMAX / BY2BLK ∧ j < FILE2BLK ∧ f = diskaddr b + j * BY2FILE

variable {fs fs' : FsState}

theorem locate_lt {va : Nat} {p : Nat × Fin 1024} (h : locate va = .ok p) : va < DISKMAP + DISKMAX := by
  unfold locate at h
  split_ifs at h with hlow hin
  exact hin.2.1

theorem loadAt_lt {va : Nat} {w : BitVec 32} (h : loadAt va fs = .ok (w, fs')) :
    va < DISKMAP + DISKMAX := by
  unfold loadAt at h
  obtain ⟨p, fs₁, hloc, -⟩ := run_bind_eq_ok.mp h
  obtain ⟨q, hq, -⟩ := bind_eq_ok.mp (show (locate va >>= fun q => Except.ok (q, fs)) = _ from hloc)
  exact locate_lt hq

/-- A name that was compared lies in the disk map. -/
theorem strcmpEq_lt {va : Nat} {name : List Nat} {r : Bool}
    (h : strcmpEq va 0 name fs = .ok (r, fs')) : va < DISKMAP + DISKMAX := by
  have hbyte : ∃ c fs₁, loadByte va 0 fs = .ok (c, fs₁) := by
    cases name with
    | nil =>
      obtain ⟨c, fs₁, hload, -⟩ := run_bind_eq_ok.mp h
      exact ⟨c, fs₁, hload⟩
    | cons c cs =>
      obtain ⟨c, fs₁, hload, -⟩ := run_bind_eq_ok.mp h
      exact ⟨c, fs₁, hload⟩
  obtain ⟨c, fs₁, hbyte⟩ := hbyte
  obtain ⟨w, fs₂, hload, -⟩ := run_bind_eq_ok.mp hbyte
  have hlt : va + 0 / 4 * 4 < DISKMAP + DISKMAX := loadAt_lt hload
  exact hlt

/-- The loop over a block finds one of its files, at an address that was read. -/
theorem findName_some {name : List Nat} {n f g : Nat} (h : findName name n f fs = .ok (some g, fs')) :
    g < DISKMAP + DISKMAX ∧ ∃ j < n, g = f + j * BY2FILE := by
  induction n generalizing f fs with
  | zero => cases h
  | succ n ih =>
    obtain ⟨r, fs₁, hcmp, h⟩ := run_bind_eq_ok.mp h
    cases r with
    | true =>
      cases h
      exact ⟨strcmpEq_lt hcmp, 0, Nat.succ_pos n, by omega⟩
    | false =>
      obtain ⟨hlt, j, hj, rfl⟩ := ih h
      exact ⟨hlt, j + 1, Nat.succ_lt_succ hj, by rw [Nat.succ_mul]; omega⟩

theorem dirLookupFrom_isFile {dir n i f : Nat} {name : List Nat}
    (h : dirLookupFrom dir name n i fs = .ok (.ok f, fs')) : IsFile f := by
  induction n generalizing i fs with
  | zero => cases h
  | succ n ih =>
    obtain ⟨r, fs₁, hblock, h⟩ := run_bind_eq_ok.mp h
    cases r with
    | error r => cases h
    | ok b =>
      obtain ⟨o, fs₂, hfind, h⟩ := run_bind_eq_ok.mp h
      cases o with
      | none => exact ih h
      | some g =>
        obtain ⟨_, fs₃, hstore, h⟩ := run_bind_eq_ok.mp h
        cases h
        obtain ⟨hlt, j, hj, rfl⟩ := findName_some hfind
        refine Or.inr ⟨b, j, ?_, hj, rfl⟩
        simp only [diskaddr, BY2BLK, BY2PG, DISKMAP, DISKMAX] at hlt ⊢
        omega

theorem walkFrom_isFile {n file f : Nat} {dir : Option Nat} {path : List Nat} {w : Walk}
    (hfile : IsFile file) (h : walkFrom n dir file path fs = .ok (w, fs')) (hw : w.file = some f) :
    IsFile f := by
  induction n generalizing dir file path fs with
  | zero =>
    cases h
    cases hw
    exact hfile
  | succ n ih =>
    unfold walkFrom at h
    by_cases hpath : path = []
    · rw [if_pos hpath] at h
      cases h
      cases hw
      exact hfile
    · rw [if_neg hpath] at h
      by_cases hname : MAXNAMELEN ≤ (path.takeWhile (· ≠ slash)).length
      · rw [if_pos hname] at h
        cases h
        cases hw
      · rw [if_neg hname] at h
        obtain ⟨type, fs₁, htype, h⟩ := run_bind_eq_ok.mp h
        by_cases hdir : type ≠ FTYPE_DIR
        · rw [if_pos hdir] at h
          cases h
          cases hw
        · rw [if_neg hdir] at h
          obtain ⟨r, fs₂, hlook, h⟩ := run_bind_eq_ok.mp h
          obtain ⟨size, fs₃, hsize, hlook⟩ := run_bind_eq_ok.mp hlook
          cases r with
          | error r =>
            simp only at h
            split_ifs at h with hr
            · cases h
              cases hw
            · cases h
              cases hw
          | ok g => exact ih (dirLookupFrom_isFile hlook) h

/-- `file_open` gives a `File` pointer. -/
theorem fileOpen_isFile {path : List Nat} {f : Nat} (h : fileOpen path fs = .ok (.ok f, fs')) :
    IsFile f := by
  unfold fileOpen at h
  obtain ⟨w, fs₁, hwalk, h⟩ := run_bind_eq_ok.mp h
  cases hw : w.file with
  | none =>
    rw [hw] at h
    cases h
  | some g =>
    rw [hw] at h
    cases h
    exact walkFrom_isFile (Or.inl rfl) hwalk hw

-- ---------------------------------------------------------------------------
-- What a request does to the table
-- ---------------------------------------------------------------------------

variable {s s' : ServState} {whom : Nat} {α : Type}

/-- Slot `i`, which no client has, goes on to its next file id. -/
structure Takes (s s' : ServState) (i : Nat) : Prop where
  lt : i < MAXOPEN
  free : (s.opentab i).ffRef = 0 ∨ (s.opentab i).ffRef = 1
  others : ∀ j, j ≠ i → s'.opentab j = s.opentab j
  ref : (s'.opentab i).ffRef = 1
  fileid : (s'.opentab i).fileid = (s.opentab i).fileid + BitVec.ofNat 32 MAXOPEN

/-- The table stays, and the reply brings no `Fd` page. -/
def Quiet (s s' : ServState) : Prop := s'.opentab = s.opentab ∧ ∀ i, lastPage s'.sent ≠ .ff i

theorem Takes.taken {i : Nat} (hi : i < MAXOPEN) (href : (s.opentab i).ffRef = 1) :
    Takes s (s.taken i) i where
  lt := hi
  free := Or.inr href
  others j hj := Function.update_of_ne hj ..
  ref := by
    simp only [ServState.taken, Function.update_self]
    exact href
  fileid := by simp only [ServState.taken, Function.update_self]

theorem Takes.paged {i : Nat} (hi : i < MAXOPEN) (href : (s.opentab i).ffRef = 0) :
    Takes s ((s.paged i).taken i) i where
  lt := hi
  free := Or.inl href
  others j hj := by
    simp only [ServState.taken, ServState.paged, Function.update_of_ne hj]
  ref := by simp only [ServState.taken, ServState.paged, Function.update_self]
  fileid := by simp only [ServState.taken, ServState.paged, Function.update_self]

/-- `open_alloc` takes the slot it returns, or none. -/
theorem openScan_takes {n i : Nat} {r : Int} {o : Option Nat} (hn : i + n ≤ MAXOPEN)
    (h : openScan n i s = .ok ((r, o), s')) :
    (o = none ∧ s'.opentab = s.opentab) ∨ ∃ j, o = some j ∧ Takes s s' j := by
  induction n generalizing i with
  | zero =>
    cases h
    exact Or.inl ⟨rfl, rfl⟩
  | succ n ih =>
    have hi : i < MAXOPEN := by omega
    unfold openScan at h
    rw [run_get] at h
    by_cases h0 : (s.opentab i).ffRef = 0
    · have hask : fsCall pageAnswer s = .ok (s.fs.mem 0, { s with fs := openedFs s i }) := by
        unfold openedFs
        rw [if_pos h0]
        rfl
      simp only [if_pos h0] at h
      rw [run_bind hask] at h
      by_cases hmem : s.fs.mem 0 = true
      · rw [if_pos hmem] at h
        have hset : setOpen i (fun o => { o with ffRef := 1 }) { s with fs := openedFs s i } =
            .ok ((), s.paged i) := rfl
        rw [run_bind hset, takeOpen_ok] at h
        obtain ⟨hret, rfl⟩ := Prod.mk.inj (Except.ok.inj h)
        exact Or.inr ⟨i, (Prod.mk.inj hret).2.symm, .paged hi h0⟩
      · rw [if_neg hmem] at h
        cases h
        exact Or.inl ⟨rfl, rfl⟩
    · by_cases h1 : (s.opentab i).ffRef = 1
      · simp only [if_neg h0, if_pos h1] at h
        rw [takeOpen_ok] at h
        obtain ⟨hret, rfl⟩ := Prod.mk.inj (Except.ok.inj h)
        exact Or.inr ⟨i, (Prod.mk.inj hret).2.symm, .taken hi h1⟩
      · simp only [if_neg h0, if_neg h1] at h
        exact ih (by omega) h

/-- `serve_open` after `open_alloc`: an error, or the file is in the slot and its page
goes out. -/
theorem serveOpenFile_tab {o : Option Nat} {path : List Nat} {omode : BitVec 32}
    (h : serveOpenFile whom o path omode s = .ok ((), s')) :
    (s'.opentab = s.opentab ∧ lastPage s'.sent = .none) ∨
      ∃ i f ff, o = some i ∧ IsFile f ∧ lastPage s'.sent = .ff i ∧
        s'.opentab = Function.update s.opentab i ⟨f, (s.opentab i).fileid, omode, ff, (s.opentab i).ffRef⟩ := by
  unfold serveOpenFile at h
  obtain ⟨r, s₁, hopen, h⟩ := run_bind_eq_ok.mp h
  obtain ⟨fs, hfile, rfl⟩ := fsCall_eq_ok hopen
  cases r with
  | error e =>
    cases h
    exact Or.inl ⟨rfl, rfl⟩
  | ok f =>
    cases o with
    | none => cases h
    | some i =>
      obtain ⟨_, s₂, hset, h⟩ := run_bind_eq_ok.mp h
      cases hset
      obtain ⟨words, s₃, hcopy, h⟩ := run_bind_eq_ok.mp h
      obtain ⟨fs', hwords, rfl⟩ := fsCall_eq_ok hcopy
      cases h
      refine Or.inr ⟨i, f, ⟨devfileId, 0, omode, (s.opentab i).fileid, words⟩, rfl,
        fileOpen_isFile hfile, rfl, ?_⟩
      simp only [Function.update_self, Function.update_idem]

theorem serveOpen_tab {path : List Nat} {omode : BitVec 32}
    (h : serveOpen whom path omode s = .ok ((), s')) :
    Quiet s s' ∨ ∃ i, Takes s s' i ∧
      (lastPage s'.sent = .none ∨ lastPage s'.sent = .ff i ∧ IsFile (s'.opentab i).file) := by
  obtain ⟨⟨r, o⟩, s₁, halloc, h⟩ := run_bind_eq_ok.mp h
  -- the reply that `open_alloc` failed leaves the table alone
  obtain ⟨s₂, htab₂, h⟩ : ∃ s₂ : ServState, s₂.opentab = s₁.opentab ∧
      serveOpenFile whom o path omode s₂ = .ok ((), s') := by
    by_cases hr : r < 0
    · simp only [if_pos hr] at h
      rw [run_bind (ipcSend_sent s₁ whom r .none)] at h
      exact ⟨{ s₁ with sent := ⟨whom, r, .none⟩ :: s₁.sent }, rfl, h⟩
    · simp only [if_neg hr] at h
      exact ⟨s₁, rfl, h⟩
  have hfile := serveOpenFile_tab h
  rw [htab₂] at hfile
  rcases openScan_takes (Nat.le_of_eq (Nat.zero_add MAXOPEN)) halloc with ⟨rfl, htab⟩ | ⟨i, rfl, htakes⟩
  · rcases hfile with ⟨htab', hpage⟩ | ⟨i, f, ff, hi, -⟩
    · refine Or.inl ⟨htab'.trans htab, fun i => ?_⟩
      rw [hpage]
      exact SentPage.noConfusion
    · cases hi
  · rcases hfile with ⟨htab', hpage⟩ | ⟨j, f, ff, hj, hf, hpage, htab'⟩
    · refine Or.inr ⟨i, ⟨htakes.lt, htakes.free, ?_, ?_, ?_⟩, Or.inl hpage⟩
      · rw [htab']
        exact htakes.others
      · rw [htab']
        exact htakes.ref
      · rw [htab']
        exact htakes.fileid
    · obtain rfl : i = j := Option.some.inj hj
      refine Or.inr ⟨i, ⟨htakes.lt, htakes.free, ?_, ?_, ?_⟩, Or.inr ⟨hpage, ?_⟩⟩
      · intro l hl
        rw [htab', Function.update_of_ne hl]
        exact htakes.others l hl
      · rw [htab', Function.update_self]
        exact htakes.ref
      · rw [htab', Function.update_self]
        exact htakes.fileid
      · rw [htab', Function.update_self]
        exact hf

theorem ipcSend_quiet {value : Int} {page : SentPage}
    (h : ipcSend whom value page s = .ok ((), s')) (hpage : ∀ i, page ≠ .ff i) : Quiet s s' := by
  cases h
  exact ⟨rfl, hpage⟩

/-- A call of `fs.c`, and what follows it. -/
theorem call_quiet {x : FsM α} {f : α → ServM Unit}
    (hf : ∀ a s s', f a s = .ok ((), s') → Quiet s s') (h : (fsCall x >>= f) s = .ok ((), s')) :
    Quiet s s' := by
  obtain ⟨a, s₁, hx, h⟩ := run_bind_eq_ok.mp h
  obtain ⟨fs, -, rfl⟩ := fsCall_eq_ok hx
  exact hf a { s with fs := fs } s' h

/-- A handler that looks the file up first. -/
theorem lookup_quiet {fileid : BitVec 32} {f : Open → ServM Unit}
    (hf : ∀ o s s', f o s = .ok ((), s') → Quiet s s')
    (h : (openLookup fileid >>= fun r => match r with
      | .error r => ipcSend whom r .none
      | .ok o => f o) s = .ok ((), s')) : Quiet s s' := by
  rcases openLookup_eq s fileid with ⟨hlook, -⟩ | ⟨o, hlook, -⟩
  · rw [run_bind hlook] at h
    exact ipcSend_quiet h fun _ => nofun
  · rw [run_bind hlook] at h
    exact hf o _ _ h

/-- Only `FSREQ_OPEN` takes a slot, and sends an `Fd` page. -/
theorem serve_tab {req : Request} (h : serve whom req s = .ok ((), s')) :
    Quiet s s' ∨ ∃ i, Takes s s' i ∧
      (lastPage s'.sent = .none ∨ lastPage s'.sent = .ff i ∧ IsFile (s'.opentab i).file) := by
  have hnone : ∀ (r : Int) (s s' : ServState), ipcSend whom r .none s = .ok ((), s') → Quiet s s' :=
    fun r s s' h => ipcSend_quiet h fun _ => nofun
  have hreply : ∀ (r : Int) (s s' : ServState),
      (if r < 0 then ipcSend whom r .none else ipcSend whom 0 .none) s = .ok ((), s') → Quiet s s' := by
    intro r s s' h
    split_ifs at h with hr
    · exact hnone r s s' h
    · exact hnone 0 s s' h
  cases req with
  | «open» path omode => exact serveOpen_tab h
  | map fileid offset =>
    refine Or.inl (lookup_quiet (fun o s s' h => call_quiet ?_ h) h)
    rintro (r | blk) s s' h
    · exact hnone r s s' h
    · exact ipcSend_quiet h fun _ => nofun
  | setSize fileid size => exact Or.inl (lookup_quiet (fun o s s' h => call_quiet hreply h) h)
  | close fileid => exact Or.inl (lookup_quiet (fun o s s' h => call_quiet (fun _ => hnone 0) h) h)
  | dirty fileid offset => exact Or.inl (lookup_quiet (fun o s s' h => call_quiet hreply h) h)
  | remove path => exact Or.inl (call_quiet hnone h)
  | sync => exact Or.inl (call_quiet (fun _ => hnone 0) h)

-- ---------------------------------------------------------------------------
-- The invariant
-- ---------------------------------------------------------------------------

variable {st st' : TabState}

/-- A reply with an `Fd` page gives a slot out. -/
theorem TabState.served_ff {i : Nat} (h : lastPage s.sent = .ff i) (maps : Bool) :
    st.served s maps = if maps then (st.hand s i).attach i else st.hand s i := by
  unfold TabState.served
  rw [h]

/-- Any other reply changes nothing for the clients. -/
theorem TabState.served_other (h : ∀ i, lastPage s.sent ≠ .ff i) (maps : Bool) :
    st.served s maps = { st with serv := s } := by
  unfold TabState.served
  cases hpage : lastPage s.sent with
  | none => rfl
  | ff i => exact absurd hpage (h i)
  | block b => rfl

/-- Slot `i` of the table, with its clients and what was given out of it. -/
structure SlotInv (i : Nat) (o : Open) (clients : Nat) (handed : List (BitVec 32 × Nat)) : Prop where
  fresh : o.ffRef = 0 → clients = 0 ∧ o.fileid = BitVec.ofNat 32 i ∧ handed = []
  counted : o.ffRef ≠ 0 → o.ffRef = clients + 1
  latest : clients ≠ 0 → ∃ rest, handed = (o.fileid, o.file) :: rest
  falling : handed.Pairwise fun p q => q.1 < p.1
  below : ∀ p ∈ handed, p.1 ≤ o.fileid
  files : ∀ p ∈ handed, IsFile p.2

namespace SlotInv

variable {i clients : Nat} {o o' : Open} {handed : List (BitVec 32 × Nat)}

theorem init (i : Nat) : SlotInv i (serveInit i) 0 [] where
  fresh _ := ⟨rfl, rfl, rfl⟩
  counted h := absurd rfl h
  latest h := absurd rfl h
  falling := List.Pairwise.nil
  below := nofun
  files := nofun

/-- A slot that `open_alloc` can take has no client. -/
theorem alone (h : SlotInv i o clients handed) (hfree : o.ffRef = 0 ∨ o.ffRef = 1) : clients = 0 := by
  rcases hfree with h0 | h1
  · exact (h.fresh h0).1
  · have hcount := h.counted (by omega)
    omega

/-- The next file id is above all that were given out. -/
theorem above (h : SlotInv i o clients handed) (hid : o'.fileid = o.fileid + BitVec.ofNat 32 MAXOPEN)
    (hwrap : o.fileid.toNat + MAXOPEN < 2 ^ 32) : ∀ p ∈ handed, p.1 < o'.fileid := by
  intro p hp
  have hle : p.1.toNat ≤ o.fileid.toNat := h.below p hp
  have hlt : p.1.toNat < (o.fileid + BitVec.ofNat 32 MAXOPEN).toNat := by
    rw [BitVec.toNat_add, BitVec.toNat_ofNat]
    simp only [MAXOPEN] at hwrap ⊢
    omega
  rw [hid]
  exact hlt

/-- The slot was taken, and nothing was given out. -/
theorem take (h : SlotInv i o clients handed) (hfree : o.ffRef = 0 ∨ o.ffRef = 1) (href : o'.ffRef = 1)
    (hid : o'.fileid = o.fileid + BitVec.ofNat 32 MAXOPEN)
    (hwrap : o.fileid.toNat + MAXOPEN < 2 ^ 32) : SlotInv i o' clients handed where
  fresh h0 := absurd (href.symm.trans h0) Nat.one_ne_zero
  counted _ := by rw [href, h.alone hfree]
  latest hne := absurd (h.alone hfree) hne
  falling := h.falling
  below p hp := BitVec.le_of_lt (h.above hid hwrap p hp)
  files := h.files

/-- The slot was taken, and its new id and file were given out. -/
theorem hand (h : SlotInv i o clients handed) (hfree : o.ffRef = 0 ∨ o.ffRef = 1) (href : o'.ffRef = 1)
    (hid : o'.fileid = o.fileid + BitVec.ofNat 32 MAXOPEN)
    (hwrap : o.fileid.toNat + MAXOPEN < 2 ^ 32) (hfile : IsFile o'.file) :
    SlotInv i o' clients ((o'.fileid, o'.file) :: handed) where
  fresh h0 := absurd (href.symm.trans h0) Nat.one_ne_zero
  counted _ := by rw [href, h.alone hfree]
  latest _ := ⟨handed, rfl⟩
  falling := List.pairwise_cons.mpr ⟨h.above hid hwrap, h.falling⟩
  below p hp := by
    rcases List.mem_cons.mp hp with rfl | hp
    · exact BitVec.le_refl _
    · exact BitVec.le_of_lt (h.above hid hwrap p hp)
  files p hp := by
    rcases List.mem_cons.mp hp with rfl | hp
    · exact hfile
    · exact h.files p hp

/-- One more client, of a slot that holds what was given out last. -/
theorem attach (h : SlotInv i o clients handed) (hlast : ∃ rest, handed = (o.fileid, o.file) :: rest)
    (hfits : clients + 2 < 65536) :
    SlotInv i { o with ffRef := (o.ffRef + 1) % 65536 } (clients + 1) handed := by
  have hne : o.ffRef ≠ 0 := by
    intro h0
    obtain ⟨rest, hrest⟩ := hlast
    have hnil := (h.fresh h0).2.2
    rw [hrest] at hnil
    cases hnil
  have hcount := h.counted hne
  have href : (o.ffRef + 1) % 65536 = clients + 2 := by omega
  refine ⟨fun h0 => ?_, fun _ => href, fun _ => hlast, h.falling, h.below, h.files⟩
  exact absurd (href.symm.trans h0) (by omega)

/-- One client less. -/
theorem detach (h : SlotInv i o clients handed) (hclient : 1 ≤ clients) (hfits : clients + 1 < 65536) :
    SlotInv i { o with ffRef := (o.ffRef + 65535) % 65536 } (clients - 1) handed := by
  have hne : o.ffRef ≠ 0 := by
    intro h0
    have hzero := (h.fresh h0).1
    omega
  have hcount := h.counted hne
  have href : (o.ffRef + 65535) % 65536 = clients - 1 + 1 := by omega
  refine ⟨fun h0 => ?_, fun _ => href, fun _ => h.latest (by omega), h.falling, h.below, h.files⟩
  exact absurd (href.symm.trans h0) (by omega)

end SlotInv

def TabInv (st : TabState) : Prop := ∀ i, SlotInv i (st.serv.opentab i) (st.clients i) (st.handed i)

namespace TabInv

theorem attach {i : Nat} (h : TabInv st)
    (hlast : ∃ rest, st.handed i = ((st.serv.opentab i).fileid, (st.serv.opentab i).file) :: rest)
    (hfits : Fits (st.attach i)) : TabInv (st.attach i) := by
  have hmap := hfits.mappings i
  simp only [TabState.attach, Function.update_self] at hmap
  intro j
  by_cases hj : j = i
  · subst hj
    simp only [TabState.attach, ServState.setRef, Function.update_self]
    exact (h j).attach hlast (by omega)
  · simp only [TabState.attach, ServState.setRef, Function.update_of_ne hj]
    exact h j

theorem detach {i : Nat} (h : TabInv st) (hclient : 1 ≤ st.clients i) (hfits : Fits st) :
    TabInv (st.detach i) := by
  intro j
  by_cases hj : j = i
  · subst hj
    simp only [TabState.detach, ServState.setRef, Function.update_self]
    exact (h j).detach hclient (hfits.mappings j)
  · simp only [TabState.detach, ServState.setRef, Function.update_of_ne hj]
    exact h j

/-- A slot was given out. -/
theorem hand {i : Nat} (h : TabInv st) (hfits : Fits st) (htakes : Takes st.serv s i)
    (hfile : IsFile (s.opentab i).file) : TabInv (st.hand s i) := by
  intro j
  by_cases hj : j = i
  · subst hj
    simp only [TabState.hand, Function.update_self]
    exact (h j).hand htakes.free htakes.ref htakes.fileid (hfits.ids j htakes.lt) hfile
  · simp only [TabState.hand, Function.update_of_ne hj]
    rw [htakes.others j hj]
    exact h j

theorem step (h : TabInv st) (hfits : Fits st) (hstep : TabStep st st') (hfits' : Fits st') :
    TabInv st' := by
  cases hstep with
  | share hclient => exact h.attach ((h _).latest (by omega)) hfits'
  | drop hclient => exact h.detach hclient hfits
  | @serve whom req s maps hrun =>
    rcases serve_tab hrun with ⟨htab, hpage⟩ | ⟨i, htakes, hpage | ⟨hpage, hfile⟩⟩
    · rw [TabState.served_other hpage]
      intro j
      show SlotInv j (s.opentab j) _ _
      rw [htab]
      exact h j
    · rw [TabState.served_other (by rw [hpage]; exact fun _ => SentPage.noConfusion)]
      intro j
      show SlotInv j (s.opentab j) _ _
      by_cases hj : j = i
      · subst hj
        exact (h j).take htakes.free htakes.ref htakes.fileid (hfits.ids j htakes.lt)
      · rw [htakes.others j hj]
        exact h j
    · rw [TabState.served_ff hpage] at hfits' ⊢
      have hhand := h.hand hfits htakes hfile
      split_ifs at hfits' ⊢ with hmaps
      · exact hhand.attach ⟨st.handed i, Function.update_self ..⟩ hfits'
      · exact hhand

end TabInv

theorem Fits.start (fs : FsState) : Fits (.start fs) where
  mappings _ := by
    show 0 + 1 < 65536
    omega
  ids i hi := by
    show (BitVec.ofNat 32 i).toNat + MAXOPEN < 2 ^ 32
    rw [BitVec.toNat_ofNat]
    simp only [MAXOPEN] at hi ⊢
    omega

theorem TabReach.fits (h : TabReach fs st) : Fits st := by
  cases h with
  | start => exact .start fs
  | step _ _ hfits => exact hfits

/-- The invariant holds in every state of a run. -/
theorem TabReach.inv (h : TabReach fs st) : TabInv st := by
  induction h with
  | start => exact SlotInv.init
  | step h hstep hfits ih => exact ih.step h.fits hstep hfits

-- ---------------------------------------------------------------------------
-- What open_lookup accepts
-- ---------------------------------------------------------------------------

/-- Slot `fileid % MAXOPEN` has no page yet, and `fileid` is the id of `serve_init`. -/
def NeverTaken (st : TabState) (fileid : BitVec 32) : Prop :=
  (st.serv.opentab (fileid.toNat % MAXOPEN)).ffRef = 0 ∧ fileid.toNat < MAXOPEN

/-- If `open_lookup` accepts `fileid`, it was given out last for its slot, with the file
found there, and not before, and a client has it open. -/
def Sound (st : TabState) (fileid : BitVec 32) : Prop :=
  ∀ o s, openLookup fileid st.serv = .ok (.ok o, s) →
    1 ≤ st.clients (fileid.toNat % MAXOPEN) ∧ IsFile o.file ∧
      ∃ rest, st.handed (fileid.toNat % MAXOPEN) = (fileid, o.file) :: rest ∧ ∀ p ∈ rest, p.1 ≠ fileid

theorem openLookup_ok {fileid : BitVec 32} {o : Open} {s₁ : ServState}
    (h : openLookup fileid s = .ok (.ok o, s₁)) : LooksUp s fileid o := by
  rcases openLookup_eq s fileid with ⟨hlook, -⟩ | ⟨o', hlook, hiff⟩
  · rw [hlook] at h
    cases h
  · rw [hlook] at h
    cases h
    exact (hiff _).mpr rfl

theorem openLookup_found {fileid : BitVec 32} {o : Open} (h : LooksUp s fileid o) :
    openLookup fileid s = .ok (.ok o, s) := by
  rcases openLookup_eq s fileid with ⟨-, hnone⟩ | ⟨o', hlook, hiff⟩
  · exact absurd h (hnone o)
  · rw [hlook, (hiff o).mp h]

/-- The id of a slot that was never taken passes. -/
theorem NeverTaken.found {fileid : BitVec 32} (h : TabInv st) (hnever : NeverTaken st fileid) :
    openLookup fileid st.serv = .ok (.ok (st.serv.opentab (fileid.toNat % MAXOPEN)), st.serv) := by
  obtain ⟨h0, hlt⟩ := hnever
  obtain ⟨-, hid, -⟩ := (h (fileid.toNat % MAXOPEN)).fresh h0
  refine openLookup_found ⟨rfl, by rw [h0]; exact Nat.zero_ne_one, ?_⟩
  rw [hid, Nat.mod_eq_of_lt hlt, BitVec.ofNat_toNat, BitVec.setWidth_eq]

/-- In every run without a wrap, `open_lookup` accepts no id but the last one given out
for its slot, of a file that a client still has open, unless the slot was never taken
and the id is the one of `serve_init`. -/
theorem openLookup_sound_iff (h : TabReach fs st) (fileid : BitVec 32) :
    Sound st fileid ↔ ¬ NeverTaken st fileid := by
  have hinv := h.inv
  have hslot := hinv (fileid.toNat % MAXOPEN)
  constructor
  · intro hsound hnever
    obtain ⟨hclient, -⟩ := hsound _ _ (hnever.found hinv)
    have hzero := (hslot.fresh hnever.1).1
    omega
  · intro hnever o s hlook
    obtain ⟨rfl, hne1, hid⟩ := openLookup_ok hlook
    have hne0 : (st.serv.opentab (fileid.toNat % MAXOPEN)).ffRef ≠ 0 := by
      intro h0
      refine hnever ⟨h0, ?_⟩
      have hmod := (hslot.fresh h0).2.1
      rw [hid] at hmod
      -- the slot still has the id of `serve_init`, its own number
      have hnat := congrArg BitVec.toNat hmod
      rw [BitVec.toNat_ofNat] at hnat
      simp only [MAXOPEN] at hnat ⊢
      omega
    have hcount := hslot.counted hne0
    have hclient : st.clients (fileid.toNat % MAXOPEN) ≠ 0 := by omega
    obtain ⟨rest, hrest⟩ := hslot.latest hclient
    rw [hid] at hrest
    have hfall := hslot.falling
    have hfiles := hslot.files
    rw [hrest] at hfall hfiles
    refine ⟨Nat.one_le_iff_ne_zero.mpr hclient, hfiles _ List.mem_cons_self, rest, hrest, ?_⟩
    intro p hp heq
    have hlt := (List.pairwise_cons.mp hfall).1 p hp
    rw [heq] at hlt
    exact absurd hlt (BitVec.lt_irrefl _)

/-- The first request wraps nothing. -/
theorem Fits.served_start {req : Request} (hrun : serve whom req (TabState.start fs).serv = .ok ((), s))
    (maps : Bool) : Fits ((TabState.start fs).served s maps) := by
  have hids : ∀ j < MAXOPEN, (s.opentab j).fileid.toNat + MAXOPEN < 2 ^ 32 := by
    rcases serve_tab hrun with ⟨htab, -⟩ | ⟨i, htakes, -⟩
    · rw [htab]
      exact (Fits.start fs).ids
    · intro j hj
      by_cases hji : j = i
      · subst hji
        rw [htakes.fileid]
        show (BitVec.ofNat 32 j + BitVec.ofNat 32 MAXOPEN).toNat + MAXOPEN < 2 ^ 32
        rw [BitVec.toNat_add, BitVec.toNat_ofNat, BitVec.toNat_ofNat]
        simp only [MAXOPEN] at hj ⊢
        omega
      · rw [htakes.others j hji]
        exact (Fits.start fs).ids j hj
  have hzero : ∀ i, (TabState.start fs).clients i + 1 < 65536 := (Fits.start fs).mappings
  unfold TabState.served
  cases lastPage s.sent with
  | none => exact ⟨hzero, hids⟩
  | block b => exact ⟨hzero, hids⟩
  | ff i =>
    cases maps with
    | false => exact ⟨hzero, hids⟩
    | true =>
      refine ⟨fun j => ?_, fun j hj => ?_⟩
      · show Function.update (fun _ => 0) i (0 + 1) j + 1 < 65536
        by_cases hji : j = i
        · rw [hji, Function.update_self]
          omega
        · rw [Function.update_of_ne hji]
          omega
      · have hid : (((((TabState.start fs).hand s i).attach i).serv).opentab j).fileid =
            (s.opentab j).fileid := by
          by_cases hji : j = i
          · subst hji
            simp only [TabState.attach, TabState.hand, ServState.setRef, Function.update_self]
          · simp only [TabState.attach, TabState.hand, ServState.setRef, Function.update_of_ne hji]
        exact (congrArg (fun w => w.toNat + MAXOPEN < 2 ^ 32) hid).mpr (hids j hj)

/-- A client opens the root directory, and its file id is accepted. -/
theorem openLookup_sound_root :
    ∃ fs s o, fsInit (emptyCache rootDisk fun _ => true) = .ok ((), fs) ∧
      serve 1 (.open [slash] 0) (TabState.start fs).serv = .ok ((), s) ∧
      openLookup 1024#32 ((TabState.start fs).served s true).serv =
        .ok (.ok o, ((TabState.start fs).served s true).serv) ∧ o.file = sRoot ∧
      (Sound ((TabState.start fs).served s true) 1024#32 ↔
        ¬ NeverTaken ((TabState.start fs).served s true) 1024#32) := by
  obtain ⟨fs, s, o, hinit, hserve, hlook, hfile⟩ :
      ∃ fs s o, fsInit (emptyCache rootDisk fun _ => true) = .ok ((), fs) ∧
        serve 1 (.open [slash] 0) (TabState.start fs).serv = .ok ((), s) ∧
        openLookup 1024#32 ((TabState.start fs).served s true).serv =
          .ok (.ok o, ((TabState.start fs).served s true).serv) ∧ o.file = sRoot :=
    ⟨_, _, _, rfl, rfl, rfl, rfl⟩
  have hreach : TabReach fs ((TabState.start fs).served s true) :=
    .step .start (.serve true hserve) (.served_start hserve true)
  exact ⟨fs, s, o, hinit, hserve, hlook, hfile, openLookup_sound_iff hreach 1024#32⟩

/-- Nothing was opened yet, and file id 7 is accepted, with a null `o_file`. -/
theorem openLookup_null :
    ∃ fs o, fsInit (emptyCache rootDisk fun _ => true) = .ok ((), fs) ∧ TabReach fs (.start fs) ∧
      (TabState.start fs).handed 7 = [] ∧ (TabState.start fs).clients 7 = 0 ∧
      openLookup 7#32 (TabState.start fs).serv = .ok (.ok o, (TabState.start fs).serv) ∧ o.file = 0 ∧
      ¬ Sound (.start fs) 7#32 ∧
      serve 1 (.map 7#32 0) (TabState.start fs).serv = .error .kernelPanic := by
  obtain ⟨fs, o, hinit, hlook, hfile, hmap⟩ :
      ∃ fs o, fsInit (emptyCache rootDisk fun _ => true) = .ok ((), fs) ∧
        openLookup 7#32 (TabState.start fs).serv = .ok (.ok o, (TabState.start fs).serv) ∧ o.file = 0 ∧
        serve 1 (.map 7#32 0) (TabState.start fs).serv = .error .kernelPanic := ⟨_, _, rfl, rfl, rfl, rfl⟩
  refine ⟨fs, o, hinit, .start, rfl, rfl, hlook, hfile, ?_, hmap⟩
  intro hsound
  obtain ⟨hclient, -⟩ := hsound o _ hlook
  exact Nat.not_succ_le_zero 0 hclient

end Mos.Fs
