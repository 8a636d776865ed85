import Mos.Fs.File
import Mos.Kern.BootAlloc
import Mos.Kern.Syscall
import Mos.Lib.ByteMem

/-!
# MOS on RISC-V — reading and writing open files

A process has the blocks of an open file in a window of its memory, 4 MiB for each
descriptor, next to the windows of the others and to the table of descriptors. `read` and
`write` are a test of the size, in 32-bit arithmetic, and a `memcpy`.

Main results:

* `fileIo_iff` — `read` and `write` do what they should exactly if no sum of offset and
  length comes back below the bound it is compared with;
* `fileIo_below` — a `write` below the window.
-/

namespace Mos.User

open Mos.Lib Mos.Kern
open Mos.Fs (Stop E_NO_DISK BY2BLK NINDIRECT MAXNAMELEN)

-- ---------------------------------------------------------------------------
-- memcpy
-- ---------------------------------------------------------------------------

/-- The memory and the two pointers of `memcpy`. -/
structure Copying where
  mem : ByteMem
  dst : Nat
  src : Nat

/-- An access to `k` bytes; the kernel panics where the process may have no memory. -/
def accessible (valid : Nat → Bool) (va k : Nat) : Bool := (List.range k).all fun i => valid (va + i)

/-- One round: `k` bytes, and both pointers move. -/
def Copying.move (valid : Nat → Bool) (k : Nat) (s : Copying) : Except Stop Copying :=
  if accessible valid s.dst k ∧ accessible valid s.src k then
    .ok ⟨copy s.mem s.dst s.src k, (s.dst + k) % 2 ^ 32, (s.src + k) % 2 ^ 32⟩
  else .error .kernelPanic

/-- `while (cond(dst))` of at most `fuel` rounds. -/
def Copying.whileMove (valid : Nat → Bool) (k : Nat) (cond : Nat → Bool) : Nat → Copying → Except Stop Copying
  | 0, s => .ok s
  | fuel + 1, s =>
    if cond s.dst then do
      let s ← s.move valid k
      s.whileMove valid k cond fuel
    else .ok s

/-- `memcpy`. No loop makes more than `2 ^ 32` rounds. -/
def memcpy (valid : Nat → Bool) (m : ByteMem) (dst src n : Nat) : Except Stop ByteMem := do
  let max := (dst + n) % 2 ^ 32
  let s : Copying := ⟨m, dst, src⟩
  if src % 4 ≠ dst % 4 then
    let s ← s.whileMove valid 1 (fun d => decide (d < max)) (2 ^ 32)
    return s.mem
  else
    let s ← s.whileMove valid 1 (fun d => decide (d % 4 ≠ 0 ∧ d < max)) (2 ^ 32)
    let s ← s.whileMove valid 4 (fun d => decide ((d + 4) % 2 ^ 32 ≤ max)) (2 ^ 32)
    let s ← s.whileMove valid 1 (fun d => decide (d < max)) (2 ^ 32)
    return s.mem

variable {valid : Nat → Bool} {m : ByteMem} {dst src n : Nat}

theorem accessible_of {va k : Nat} (h : ∀ i < k, valid (va + i) = true) : accessible valid va k = true := by
  unfold accessible
  rw [List.all_eq_true]
  exact fun i hi => h i (List.mem_range.mp hi)

/-- What a copy of `n` bytes needs: the process has the memory, and the ranges are apart. -/
structure Copyable (valid : Nat → Bool) (dst src n : Nat) : Prop where
  dstValid : ∀ i < n, valid (dst + i) = true
  srcValid : ∀ i < n, valid (src + i) = true
  apart : dst + n ≤ src ∨ src + n ≤ dst
  dstLow : dst + n ≤ 2 ^ 31
  srcLow : src + n ≤ 2 ^ 31

/-- A loop of `j` rounds that has copied the first `p` bytes of `n`. -/
theorem whileMove_run (h : Copyable valid dst src n) {k j fuel p : Nat} {cond : Nat → Bool}
    (hcond : ∀ i < j, cond (dst + p + k * i) = true) (hend : cond (dst + p + k * j) = false)
    (hfuel : j < fuel) (hp : p + k * j ≤ n) :
    Copying.whileMove valid k cond fuel ⟨copy m dst src p, dst + p, src + p⟩ =
      .ok ⟨copy m dst src (p + k * j), dst + (p + k * j), src + (p + k * j)⟩ := by
  induction j generalizing fuel p with
  | zero =>
    cases fuel with
    | zero => rfl
    | succ fuel =>
      have hstop : cond (dst + p) = false := hend
      unfold Copying.whileMove
      rw [if_neg (by rw [hstop]; exact nofun)]
      rfl
  | succ j ih =>
    cases fuel with
    | zero => exact absurd hfuel (Nat.not_lt_zero _)
    | succ fuel =>
      have hmul : k * (j + 1) = k + k * j := by rw [Nat.mul_succ, Nat.add_comm]
      have hgo : cond (dst + p) = true := hcond 0 (Nat.succ_pos j)
      have hlow := h.dstLow
      have hlow' := h.srcLow
      have hmove : Copying.move valid k ⟨copy m dst src p, dst + p, src + p⟩ =
          .ok ⟨copy m dst src (p + k), dst + (p + k), src + (p + k)⟩ := by
        have hdst : accessible valid (dst + p) k = true := accessible_of fun i hi => by
          rw [Nat.add_assoc]
          exact h.dstValid (p + i) (by omega)
        have hsrc : accessible valid (src + p) k = true := accessible_of fun i hi => by
          rw [Nat.add_assoc]
          exact h.srcValid (p + i) (by omega)
        have hcopy : copy (copy m dst src p) (dst + p) (src + p) k = copy m dst src (p + k) :=
          copy_copy (by have := h.apart; omega)
        unfold Copying.move
        rw [if_pos ⟨hdst, hsrc⟩, hcopy, Nat.mod_eq_of_lt (show dst + p + k < _ by omega),
          Nat.mod_eq_of_lt (show src + p + k < _ by omega), Nat.add_assoc, Nat.add_assoc]
      unfold Copying.whileMove
      rw [if_pos hgo, hmove]
      have hrest := ih (p := p + k) (fun i hi => ?_) ?_ (Nat.lt_of_succ_lt_succ hfuel) (by omega)
      · rw [hmul, ← Nat.add_assoc p k]
        exact hrest
      · have hi' := hcond (i + 1) (by omega)
        rw [show dst + p + k * (i + 1) = dst + (p + k) + k * i by rw [Nat.mul_succ]; omega] at hi'
        exact hi'
      · rw [show dst + p + k * (j + 1) = dst + (p + k) + k * j by rw [hmul]; omega] at hend
        exact hend

/-- `memcpy` between two ranges that are apart. -/
theorem memcpy_run (h : Copyable valid dst src n) : memcpy valid m dst src n = .ok (copy m dst src n) := by
  have hlow := h.dstLow
  have hmax : (dst + n) % 2 ^ 32 = dst + n := Nat.mod_eq_of_lt (by omega)
  have hstart : (⟨m, dst, src⟩ : Copying) = ⟨copy m dst src 0, dst + 0, src + 0⟩ := by
    rw [copy_zero]
    rfl
  unfold memcpy
  rw [hmax, hstart]
  by_cases halign : src % 4 ≠ dst % 4
  · rw [if_pos halign, whileMove_run h (j := n) (fun i hi => by simp only [decide_eq_true_eq]; omega)
      (by simp only [decide_eq_false_iff_not]; omega) (by omega) (by omega)]
    show Except.ok (copy m dst src (0 + 1 * n)) = _
    rw [Nat.one_mul, Nat.zero_add]
  · -- up to the first whole word, the words, and what is left
    let j := min n ((4 - dst % 4) % 4)
    let w := (n - j) / 4
    have hj : j ≤ n := Nat.min_le_left _ _
    have hw : j + 4 * w ≤ n := by omega
    rw [if_neg halign, whileMove_run h (j := j) (fun i hi => by simp only [decide_eq_true_eq]; omega)
      (by simp only [decide_eq_false_iff_not]; omega) (by omega) (by omega), Lib.ok_bind,
      show 0 + 1 * j = j by omega,
      whileMove_run h (j := w) (fun i hi => ?_) ?_ (by omega) hw, Lib.ok_bind,
      whileMove_run h (j := n - (j + 4 * w)) (fun i hi => by simp only [decide_eq_true_eq]; omega)
      (by simp only [decide_eq_false_iff_not]; omega) (by omega) (by omega), Lib.ok_bind]
    · show Except.ok (copy m dst src (j + 4 * w + 1 * (n - (j + 4 * w)))) = _
      rw [show j + 4 * w + 1 * (n - (j + 4 * w)) = n by omega]
    · rw [decide_eq_false_iff_not, Nat.mod_eq_of_lt (by omega)]
      omega
    · rw [decide_eq_true_eq, Nat.mod_eq_of_lt (by omega)]
      omega

-- ---------------------------------------------------------------------------
-- Descriptors
-- ---------------------------------------------------------------------------

def MAXFD : Int := 32
def FILEBASE : Nat := 0x60000000
def FDTABLE : Nat := FILEBASE - PDMAP
def MAXFILESIZE : Nat := NINDIRECT * BY2BLK

def O_RDONLY : Nat := 0x0000
def O_WRONLY : Nat := 0x0001
def O_RDWR : Nat := 0x0002
def O_ACCMODE : Nat := 0x0003

def INDEX2FD (i : Int) : Nat := toWord (FDTABLE + i * BY2PG)
def INDEX2DATA (i : Int) : Nat := toWord (FILEBASE + i * PDMAP)

def fd2num (fd : Nat) : Int := ((fd + (2 ^ 32 - FDTABLE)) % 2 ^ 32 / BY2PG : Nat)
def fd2data (fd : Nat) : Nat := INDEX2DATA (fd2num fd)

/-- The fields of a `struct Fd`, and of a `struct Filefd`. -/
def fdDevId (m : ByteMem) (fd : Nat) : Nat := loadWord m fd
def fdOffset (m : ByteMem) (fd : Nat) : Nat := loadWord m (fd + 4)
def fdOmode (m : ByteMem) (fd : Nat) : Nat := loadWord m (fd + 8)
def fFileid (m : ByteMem) (fd : Nat) : Nat := loadWord m (fd + 12)
def fSize (m : ByteMem) (fd : Nat) : Nat := loadWord m (fd + 16 + MAXNAMELEN)

def setFdOffset (m : ByteMem) (fd w : Nat) : ByteMem := storeWord m (fd + 4) w
def setFSize (m : ByteMem) (fd w : Nat) : ByteMem := storeWord m (fd + 16 + MAXNAMELEN) w

/-- `devtab`. -/
inductive Dev where
  | devfile
  | devcons
  | devpipe
  deriving DecidableEq, Repr

/-- `'f'`, `'c'` and `'p'`. -/
def Dev.devId : Dev → Nat
  | .devfile => 0x66
  | .devcons => 0x63
  | .devpipe => 0x70

def devLookup (devId : Nat) : Except Int Dev :=
  match [Dev.devfile, .devcons, .devpipe].find? (·.devId == devId) with
  | some dev => .ok dev
  | none => .error (-E_INVAL)

-- ---------------------------------------------------------------------------
-- A process and what it asks
-- ---------------------------------------------------------------------------

/-- A process: its memory by virtual address, and the file server's state. A page that is
not there yet reads as the zeros it will come with. -/
structure Proc (σ : Type) where
  mem : ByteMem
  server : σ

abbrev M (σ : Type) := StateT (Proc σ) (Except Stop)

/-- The answer to a map request: a page, unless `r` is negative. -/
structure MapReply where
  r : Int
  perm : Nat
  page : Nat → BitVec 8

/-- What surrounds the process. The windows are in the range in which the kernel finds a
page or makes one; `fsipcbuf` is in the program's image, below the table. -/
structure Os (σ : Type) where
  valid : Nat → Bool
  fdUsed : Nat → Bool          -- `vpd` and `vpt` have a page at this address
  fsipcbuf : Nat
  setSize : Nat → Nat → σ → Int × σ
  map : Nat → Nat → σ → MapReply × σ
  devRead : Dev → Nat → Nat → Nat → Nat → M σ Int      -- of the console and the pipes
  devWrite : Dev → Nat → Nat → Nat → Nat → M σ Int
  window : ∀ x, FILEBASE ≤ x → x < FILEBASE + 32 * PDMAP → valid x = true
  bufLow : fsipcbuf + BY2PG ≤ FDTABLE

variable {σ : Type} (os : Os σ)

def fdLookup (fdnum : Int) : Except Int Nat :=
  if MAXFD ≤ fdnum then .error (-E_INVAL)
  else
    let va := INDEX2FD fdnum
    if os.fdUsed va then .ok va else .error (-E_INVAL)

def fsipcSetSize (fileid size : Nat) : M σ Int := do
  let p ← get
  let (r, server) := os.setSize fileid size p.server
  set { p with mem := storeWord (storeWord p.mem os.fsipcbuf fileid) (os.fsipcbuf + 4) size, server }
  return r

/-- The page at `va`, replaced. -/
def setPage (m : ByteMem) (va : Nat) (page : Nat → BitVec 8) : ByteMem := fun x =>
  if va ≤ x ∧ x < va + BY2PG then page (x - va) else m x

def fsipcMap (fileid offset dstva : Nat) : M σ Int := do
  let p ← get
  let mem := storeWord (storeWord p.mem os.fsipcbuf fileid) (os.fsipcbuf + 4) offset
  let (reply, server) := os.map fileid offset p.server
  if reply.r < 0 then
    set { p with mem, server }
    return reply.r
  if reply.perm &&& (2 ^ 32 - 1 - (PTE_R ||| PTE_W ||| PTE_LIBRARY)) ≠ PTE_V ||| PTE_U then throw .userPanic
  set { p with mem := setPage mem dstva reply.page, server }
  return 0

/-- The loop of `ftruncate` that maps new pages, with what it does on an error. -/
def mapPages (fileid oldsize va : Nat) : List Nat → M σ Int
  | [] => return 0
  | i :: is => do
    let r ← fsipcMap os fileid i (va + i)
    if r < 0 then
      let _ ← fsipcSetSize os fileid oldsize
      return r
    mapPages fileid oldsize va is

/-- The loop of `ftruncate` that unmaps pages. -/
def unmapPages (va : Nat) : List Nat → M σ PUnit
  | [] => return
  | i :: is => do
    if isIllegalVa (va + i) then throw .userPanic
    modify fun p => { p with mem := setPage p.mem (va + i) fun _ => 0 }
    unmapPages va is

/-- `for (i = lo; i < hi; i += BY2PG)`, for two multiples of `BY2PG`. -/
def pagesFrom (lo hi : Nat) : List Nat := (List.range ((hi - lo) / BY2PG)).map fun k => lo + BY2PG * k

def ftruncate (fdnum : Int) (size : Nat) : M σ Int := do
  if MAXFILESIZE < size then return -E_NO_DISK
  match fdLookup os fdnum with
  | .error r => return r
  | .ok fd =>
    if fdDevId (← get).mem fd ≠ Dev.devfile.devId then return -E_INVAL
    let fileid := fFileid (← get).mem fd
    let oldsize := fSize (← get).mem fd
    modify fun p => { p with mem := setFSize p.mem fd size }
    let r ← fsipcSetSize os fileid size
    if r < 0 then return r
    let va := fd2data fd
    let r ← mapPages os fileid oldsize va (pagesFrom (ROUND oldsize BY2PG) (ROUND size BY2PG))
    if r < 0 then return r
    unmapPages va (pagesFrom (ROUND size BY2PG) (ROUND oldsize BY2PG))
    return 0

-- ---------------------------------------------------------------------------
-- read, write and seek
-- ---------------------------------------------------------------------------

/-- `memcpy`, on the memory of the process. -/
def memCopy (dst src n : Nat) : M σ PUnit := do
  let p ← get
  let mem ← memcpy os.valid p.mem dst src n
  set { p with mem }

def fileRead (fd buf n offset : Nat) : M σ Int := do
  let size := fSize (← get).mem fd
  if size < offset then return 0
  let n := if size < (offset + n) % 2 ^ 32 then size - offset else n
  memCopy os buf ((fd2data fd + offset) % 2 ^ 32) n
  return toInt n

def fileWrite (fd buf n offset : Nat) : M σ Int := do
  let tot := (offset + n) % 2 ^ 32
  if MAXFILESIZE < tot then return -E_NO_DISK
  if fSize (← get).mem fd < tot then
    let r ← ftruncate os (fd2num fd) tot
    if r < 0 then return r
  memCopy os ((fd2data fd + offset) % 2 ^ 32) buf n
  return toInt n

def Dev.read (dev : Dev) (fd buf n offset : Nat) : M σ Int :=
  match dev with
  | .devfile => fileRead os fd buf n offset
  | dev => os.devRead dev fd buf n offset

def Dev.write (dev : Dev) (fd buf n offset : Nat) : M σ Int :=
  match dev with
  | .devfile => fileWrite os fd buf n offset
  | dev => os.devWrite dev fd buf n offset

/-- `if (r > 0) fd->fd_offset += r;` -/
def advance (fd : Nat) (r : Int) : M σ Int := do
  if 0 < r then
    modify fun p => { p with mem := setFdOffset p.mem fd ((fdOffset p.mem fd + toWord r) % 2 ^ 32) }
  return r

def read (fdnum : Int) (buf n : Nat) : M σ Int := do
  match fdLookup os fdnum with
  | .error r => return r
  | .ok fd =>
    match devLookup (fdDevId (← get).mem fd) with
    | .error r => return r
    | .ok dev =>
      if fdOmode (← get).mem fd &&& O_ACCMODE = O_WRONLY then return -E_INVAL
      let r ← dev.read os fd buf n (fdOffset (← get).mem fd)
      advance fd r

def write (fdnum : Int) (buf n : Nat) : M σ Int := do
  match fdLookup os fdnum with
  | .error r => return r
  | .ok fd =>
    match devLookup (fdDevId (← get).mem fd) with
    | .error r => return r
    | .ok dev =>
      if fdOmode (← get).mem fd &&& O_ACCMODE = O_RDONLY then return -E_INVAL
      let r ← dev.write os fd buf n (fdOffset (← get).mem fd)
      advance fd r

def seek (fdnum : Int) (offset : Nat) : M σ Int := do
  match fdLookup os fdnum with
  | .error r => return r
  | .ok fd =>
    modify fun p => { p with mem := setFdOffset p.mem fd offset }
    return 0

-- ---------------------------------------------------------------------------
-- Addresses
-- ---------------------------------------------------------------------------

variable {os} {p p' : Proc σ} {i : Nat}

theorem INDEX2FD_of_lt (hi : i < 32) : INDEX2FD i = FDTABLE + i * BY2PG := by
  simp only [INDEX2FD, toWord, FDTABLE, FILEBASE, PDMAP, BY2PG]
  omega

theorem INDEX2DATA_of_lt (hi : i < 32) : INDEX2DATA i = FILEBASE + i * PDMAP := by
  simp only [INDEX2DATA, toWord, FILEBASE, PDMAP]
  omega

theorem fd2num_INDEX2FD (hi : i < 32) : fd2num (INDEX2FD i) = i := by
  rw [INDEX2FD_of_lt hi]
  simp only [fd2num, FDTABLE, FILEBASE, PDMAP, BY2PG]
  omega

theorem fd2data_INDEX2FD (hi : i < 32) : fd2data (INDEX2FD i) = INDEX2DATA i := by
  unfold fd2data
  rw [fd2num_INDEX2FD hi]

/-- The table is below the windows, which are apart, and all of them are below `UTOP`. -/
theorem table_bounds (hi : i < 32) : FDTABLE ≤ INDEX2FD i ∧ INDEX2FD i + BY2PG ≤ FILEBASE ∧
    FILEBASE ≤ INDEX2DATA i ∧ INDEX2DATA i + MAXFILESIZE ≤ FILEBASE + 32 * PDMAP := by
  rw [INDEX2FD_of_lt hi, INDEX2DATA_of_lt hi]
  simp only [FDTABLE, FILEBASE, PDMAP, BY2PG, MAXFILESIZE, NINDIRECT, BY2BLK]
  omega

theorem toInt_of_lt {n : Nat} (h : n < 2 ^ 31) : toInt n = n := by
  unfold toInt
  rw [Int.bmod_eq_of_le] <;> omega

theorem toInt_of_ge {n : Nat} (h : 2 ^ 31 ≤ n) (hn : n < 2 ^ 32) : toInt n = n - 2 ^ 32 := by
  unfold toInt
  rw [Int.bmod_def, if_neg (by omega)]
  omega

theorem fdOffset_lt (m : ByteMem) (fd : Nat) : fdOffset m fd < 2 ^ 32 := loadWord_lt m _

-- ---------------------------------------------------------------------------
-- What a program changes
-- ---------------------------------------------------------------------------

/-- The program `x` changes memory only at the addresses of `A`. -/
def Changes (A : Nat → Prop) {α : Type} (x : M σ α) : Prop :=
  ∀ p a p', x p = .ok (a, p') → ∀ v, ¬ A v → p'.mem v = p.mem v

theorem Changes.pure {A : Nat → Prop} {α : Type} (a : α) : Changes A (pure a : M σ α) := by
  intro p b p' h v _
  cases h
  rfl

theorem Changes.bind {A : Nat → Prop} {α β : Type} {x : M σ α} {f : α → M σ β} (hx : Changes A x)
    (hf : ∀ a, Changes A (f a)) : Changes A (x >>= f) := by
  intro p b p' h v hv
  obtain ⟨a, p₁, h₁, h₂⟩ := run_bind_eq_ok.mp h
  rw [hf a p₁ b p' h₂ v hv, hx p a p₁ h₁ v hv]

theorem Changes.mono {A B : Nat → Prop} {α : Type} {x : M σ α} (hx : Changes A x) (h : ∀ v, A v → B v) :
    Changes B x := fun p a p' hrun v hv => hx p a p' hrun v fun hA => hv (h v hA)

theorem Changes.ite {A : Nat → Prop} {α : Type} {c : Prop} [Decidable c] {x y : M σ α} (hx : Changes A x)
    (hy : Changes A y) : Changes A (if c then x else y) := by
  split
  · exact hx
  · exact hy

/-- The page of requests. -/
def Os.ipc (os : Os σ) (v : Nat) : Prop := os.fsipcbuf ≤ v ∧ v < os.fsipcbuf + BY2PG

theorem request_frame (m : ByteMem) {a b v : Nat} (h : ¬ os.ipc v) :
    storeWord (storeWord m os.fsipcbuf a) (os.fsipcbuf + 4) b v = m v := by
  unfold Os.ipc BY2PG at h
  rw [storeWord_of_notMem (by omega), storeWord_of_notMem (by omega)]

theorem fsipcSetSize_changes (fileid size : Nat) : Changes os.ipc (fsipcSetSize os fileid size) := by
  intro p r p' h v hv
  cases h
  exact request_frame p.mem hv

theorem fsipcMap_changes (fileid offset dstva : Nat) :
    Changes (fun v => os.ipc v ∨ dstva ≤ v ∧ v < dstva + BY2PG) (fsipcMap os fileid offset dstva) := by
  intro p r p' h v hv
  obtain ⟨hipc, hpage⟩ := not_or.mp hv
  change (if _ then _ else if _ then _ else _ : M σ Int) p = _ at h
  by_cases hr : (os.map fileid offset p.server).1.r < 0
  · rw [if_pos hr] at h
    cases h
    exact request_frame p.mem hipc
  · rw [if_neg hr] at h
    by_cases hperm : (os.map fileid offset p.server).1.perm &&& (2 ^ 32 - 1 - (PTE_R ||| PTE_W ||| PTE_LIBRARY)) ≠
      PTE_V ||| PTE_U
    · rw [if_pos hperm] at h
      cases h
    · rw [if_neg hperm] at h
      cases h
      show setPage _ dstva _ v = _
      unfold setPage
      rw [if_neg hpage]
      exact request_frame p.mem hipc

theorem mapPages_changes {fileid oldsize va : Nat} {A : Nat → Prop} (hipc : ∀ v, os.ipc v → A v) {is : List Nat}
    (his : ∀ j ∈ is, ∀ v, va + j ≤ v → v < va + j + BY2PG → A v) :
    Changes A (mapPages os fileid oldsize va is) := by
  induction is with
  | nil => exact Changes.pure 0
  | cons j is ih =>
    have hmap : Changes A (fsipcMap os fileid j (va + j)) :=
      (fsipcMap_changes fileid j (va + j)).mono fun v hv => by
        rcases hv with hv | ⟨hlo, hhi⟩
        · exact hipc v hv
        · exact his j (List.mem_cons_self ..) v hlo hhi
    have hset : Changes A (fsipcSetSize os fileid oldsize) := (fsipcSetSize_changes fileid oldsize).mono hipc
    refine hmap.bind fun r => Changes.ite (hset.bind fun _ => Changes.pure r) ?_
    exact ih fun k hk => his k (List.mem_cons_of_mem _ hk)

-- ---------------------------------------------------------------------------
-- Open files and buffers
-- ---------------------------------------------------------------------------

/-- Descriptor `i` is an open file, for reading and writing. -/
structure OpenRdwr (os : Os σ) (p : Proc σ) (i : Nat) : Prop where
  lt : i < 32
  used : os.fdUsed (INDEX2FD i) = true
  dev : fdDevId p.mem (INDEX2FD i) = Dev.devfile.devId
  mode : fdOmode p.mem (INDEX2FD i) &&& O_ACCMODE = O_RDWR
  size : fSize p.mem (INDEX2FD i) ≤ MAXFILESIZE

/-- `n` bytes of the caller's own memory: not of the window, the descriptor or the page of
requests. -/
structure Buffer (os : Os σ) (i buf n : Nat) : Prop where
  valid : ∀ k < n, os.valid (buf + k) = true
  low : buf + n ≤ UTOP
  window : ∀ k < n, ¬ (INDEX2DATA i ≤ buf + k ∧ buf + k < INDEX2DATA i + MAXFILESIZE)
  fd : ∀ k < n, ¬ (INDEX2FD i ≤ buf + k ∧ buf + k < INDEX2FD i + BY2PG)
  ipc : ∀ k < n, ¬ os.ipc (buf + k)

/-- A buffer does not meet a range that none of its bytes is in. -/
theorem apart_of_forall {a b c n w : Nat} (h : ∀ k < n, ¬ (a ≤ b + k ∧ b + k < a + w)) (hc : a ≤ c) (hcw : c + n ≤ a + w) :
    b + n ≤ c ∨ c + n ≤ b := by
  by_cases hn : n = 0
  · omega
  · by_cases hb : b < a
    · by_cases hba : b + n ≤ a
      · omega
      · have := h (a - b) (by omega)
        omega
    · have := h 0 (by omega)
      omega

/-- A buffer and the bytes of the window that a transfer concerns, either way. -/
theorem Buffer.copyable {buf n off : Nat} (h : Buffer os i buf n) (hi : i < 32) (hoff : off + n ≤ MAXFILESIZE) :
    Copyable os.valid buf (INDEX2DATA i + off) n ∧ Copyable os.valid (INDEX2DATA i + off) buf n := by
  obtain ⟨_, _, hlo, hhi⟩ := table_bounds hi
  have hlow := h.low
  have hutop : UTOP = 0x7f400000 := by decide
  have hpd : FILEBASE + 32 * PDMAP = 0x68000000 := by decide
  have hapart := apart_of_forall h.window (Nat.le_add_right _ off) (by omega)
  have hwindow : ∀ k < n, os.valid (INDEX2DATA i + off + k) = true := fun k hk => os.window _ (by omega) (by omega)
  exact ⟨⟨h.valid, hwindow, hapart, by omega, by omega⟩, ⟨hwindow, h.valid, hapart.symm, by omega, by omega⟩⟩

theorem memCopy_run {dst src n : Nat} (h : Copyable os.valid dst src n) :
    memCopy os dst src n p = .ok ((), { p with mem := copy p.mem dst src n }) := by
  unfold memCopy
  rw [run_get]
  exact run_bind (x := (memcpy os.valid p.mem dst src n : M σ ByteMem))
    (show (memcpy os.valid p.mem dst src n >>= fun m => pure (m, p) : Except Stop _) = _ by rw [memcpy_run h]; rfl) _

theorem fdLookup_open (h : OpenRdwr os p i) : fdLookup os i = .ok (INDEX2FD i) := by
  have hlt := h.lt
  unfold fdLookup MAXFD
  rw [if_neg (by omega)]
  show (if os.fdUsed (INDEX2FD i) = true then _ else _) = _
  rw [if_pos h.used]

theorem devLookup_open (h : OpenRdwr os p i) : devLookup (fdDevId p.mem (INDEX2FD i)) = .ok .devfile := by
  rw [h.dev]
  rfl

theorem seek_open (h : OpenRdwr os p i) (off : Nat) :
    seek os i off p = .ok (0, { p with mem := setFdOffset p.mem (INDEX2FD i) off }) := by
  unfold seek
  rw [fdLookup_open h]
  rfl

/-- `seek` changes the offset only. -/
theorem seek_keeps (h : OpenRdwr os p i) (off : Nat) :
    OpenRdwr os { p with mem := setFdOffset p.mem (INDEX2FD i) off } i := by
  have hother : ∀ a, a = INDEX2FD i ∨ a = INDEX2FD i + 8 ∨ a = INDEX2FD i + 16 + MAXNAMELEN →
      loadWord (setFdOffset p.mem (INDEX2FD i) off) a = loadWord p.mem a := by
    intro a ha
    unfold setFdOffset
    rw [loadWord_storeWord_of_ne (by unfold MAXNAMELEN at ha; omega)]
  refine ⟨h.lt, h.used, ?_, ?_, ?_⟩
  · exact (hother _ (.inl rfl)).trans h.dev
  · have hmode := h.mode
    unfold fdOmode at hmode ⊢
    rw [hother _ (.inr (.inl rfl))]
    exact hmode
  · have hsize := h.size
    unfold fSize at hsize ⊢
    rw [hother _ (.inr (.inr rfl))]
    exact hsize

theorem read_open (h : OpenRdwr os p i) (buf n : Nat) :
    read os i buf n p =
      (fileRead os (INDEX2FD i) buf n (fdOffset p.mem (INDEX2FD i)) >>= advance (INDEX2FD i)) p := by
  unfold read
  rw [fdLookup_open h]
  show (match devLookup (fdDevId p.mem (INDEX2FD i)) with | .error r => _ | .ok dev => _ : M σ Int) p = _
  rw [devLookup_open h]
  show (if fdOmode p.mem (INDEX2FD i) &&& O_ACCMODE = O_WRONLY then _ else _ : M σ Int) p = _
  rw [h.mode, if_neg (by decide)]
  rfl

theorem write_open (h : OpenRdwr os p i) (buf n : Nat) :
    write os i buf n p =
      (fileWrite os (INDEX2FD i) buf n (fdOffset p.mem (INDEX2FD i)) >>= advance (INDEX2FD i)) p := by
  unfold write
  rw [fdLookup_open h]
  show (match devLookup (fdDevId p.mem (INDEX2FD i)) with | .error r => _ | .ok dev => _ : M σ Int) p = _
  rw [devLookup_open h]
  show (if fdOmode p.mem (INDEX2FD i) &&& O_ACCMODE = O_RDONLY then _ else _ : M σ Int) p = _
  rw [h.mode, if_neg (by decide)]
  rfl

theorem fileRead_run {fd buf n off : Nat} : fileRead os fd buf n off p =
    if fSize p.mem fd < off then .ok (0, p)
    else (memCopy os buf ((fd2data fd + off) % 2 ^ 32)
      (if fSize p.mem fd < (off + n) % 2 ^ 32 then fSize p.mem fd - off else n) >>= fun _ =>
        pure (toInt (if fSize p.mem fd < (off + n) % 2 ^ 32 then fSize p.mem fd - off else n : Nat))) p := by
  unfold fileRead
  show (if fSize p.mem fd < off then _ else _ : M σ Int) p = _
  split <;> rfl

theorem advance_run {fd : Nat} {r : Int} : advance fd r p =
    .ok (r, if 0 < r then { p with mem := setFdOffset p.mem fd ((fdOffset p.mem fd + toWord r) % 2 ^ 32) } else p) := by
  unfold advance
  split <;> rfl

/-- A transfer of `c` bytes moves the offset by `c`. -/
theorem advance_count {fd c : Nat} (hc : c < 2 ^ 31) (hsum : fdOffset p.mem fd + c < 2 ^ 32) : advance fd (toInt c) p =
    .ok (c, { p with mem := setFdOffset p.mem fd (fdOffset p.mem fd + c) }) := by
  rw [advance_run, toInt_of_lt hc]
  by_cases hpos : 0 < c
  · rw [if_pos (by omega), show toWord c = c by unfold toWord; omega, Nat.mod_eq_of_lt hsum]
  · obtain rfl : c = 0 := by omega
    rw [if_neg (by omega)]
    show _ = Except.ok (_, (⟨storeWord p.mem (fd + 4) (loadWord p.mem (fd + 4)), p.server⟩ : Proc σ))
    rw [storeWord_loadWord]

-- ---------------------------------------------------------------------------
-- read
-- ---------------------------------------------------------------------------

/-- `read` gives 0 beyond the end of the file, and elsewhere copies what there is, up to
`n` bytes, says how many, and moves the offset. -/
def ReadsRight (os : Os σ) (p : Proc σ) (i buf n : Nat) : Prop :=
  let fd := INDEX2FD i
  let offset := fdOffset p.mem fd
  let c := min n (fSize p.mem fd - offset)
  if fSize p.mem fd < offset then read os i buf n p = .ok (0, p)
  else ∃ p', read os i buf n p = .ok (c, p') ∧ p'.server = p.server ∧
    (∀ k < c, p'.mem (buf + k) = p.mem (INDEX2DATA i + offset + k)) ∧
    fdOffset p'.mem fd = offset + c ∧
    ∀ v, ¬ (buf ≤ v ∧ v < buf + c) → ¬ (fd + 4 ≤ v ∧ v < fd + 8) → p'.mem v = p.mem v

/-- The sum of offset and length comes back at the size of the file or below it. -/
def ReadWraps (s offset n : Nat) : Prop := offset ≤ s ∧ 2 ^ 32 ≤ offset + n ∧ offset + n - 2 ^ 32 ≤ s

instance (s offset n : Nat) : Decidable (ReadWraps s offset n) := inferInstanceAs (Decidable (_ ∧ _ ∧ _))

theorem window_add (hi : i < 32) {off : Nat} (hoff : off ≤ MAXFILESIZE) :
    (INDEX2DATA i + off) % 2 ^ 32 = INDEX2DATA i + off := by
  obtain ⟨_, _, _, hhi⟩ := table_bounds hi
  have hpd : FILEBASE + 32 * PDMAP = 0x68000000 := by decide
  exact Nat.mod_eq_of_lt (by omega)

/-- The count that `read` computes, where the sum does not come back. -/
theorem readCount {s off n : Nat} (hs : s ≤ MAXFILESIZE) (hn : n < 2 ^ 32) (hoff : off ≤ s)
    (h : ¬ ReadWraps s off n) : (if s < (off + n) % 2 ^ 32 then s - off else n) = min n (s - off) := by
  have hmax : MAXFILESIZE = 2 ^ 22 := by decide
  unfold ReadWraps at h
  split <;> omega

theorem read_right (hopen : OpenRdwr os p i) {buf n : Nat} (hn : n < 2 ^ 32)
    (hbuf : Buffer os i buf (min n (fSize p.mem (INDEX2FD i) - fdOffset p.mem (INDEX2FD i))))
    (h : ¬ ReadWraps (fSize p.mem (INDEX2FD i)) (fdOffset p.mem (INDEX2FD i)) n) : ReadsRight os p i buf n := by
  have hsize := hopen.size
  have hmax : MAXFILESIZE = 2 ^ 22 := by decide
  unfold ReadsRight
  dsimp only
  rw [read_open hopen]
  by_cases hoff : fSize p.mem (INDEX2FD i) < fdOffset p.mem (INDEX2FD i)
  · rw [if_pos hoff, run_bind (fileRead_run.trans (if_pos hoff)), advance_run, if_neg (by decide)]
  · rw [if_neg hoff]
    have hcount := readCount hsize hn (Nat.not_lt.mp hoff) h
    generalize hc : min n (fSize p.mem (INDEX2FD i) - fdOffset p.mem (INDEX2FD i)) = c at hbuf hcount ⊢
    have hcopy := (hbuf.copyable hopen.lt (show fdOffset p.mem (INDEX2FD i) + c ≤ MAXFILESIZE by omega)).1
    obtain ⟨m, hm⟩ : ∃ m, m = copy p.mem buf (INDEX2DATA i + fdOffset p.mem (INDEX2FD i)) c := ⟨_, rfl⟩
    have hread : fileRead os (INDEX2FD i) buf n (fdOffset p.mem (INDEX2FD i)) p =
        .ok (toInt c, ⟨m, p.server⟩) := by
      rw [fileRead_run, if_neg hoff, hcount, fd2data_INDEX2FD hopen.lt, window_add hopen.lt (by omega),
        run_bind (memCopy_run hcopy), ← hm]
      rfl
    -- the copy does not reach the descriptor
    have hfd : ∀ v, INDEX2FD i ≤ v → v < INDEX2FD i + BY2PG → ¬ (buf ≤ v ∧ v < buf + c) := fun v hlo hhi hv =>
      hbuf.fd (v - buf) (by omega) (by omega)
    unfold BY2PG at hfd
    have hoffset : fdOffset m (INDEX2FD i) = fdOffset p.mem (INDEX2FD i) := by
      rw [hm]
      exact loadWord_congr fun v hlo hhi => copy_of_notMem (by have := hfd v (by omega) (by omega); omega)
    have hsum : fdOffset m (INDEX2FD i) + c < 2 ^ 32 := by omega
    rw [run_bind hread, advance_count (by omega) hsum]
    refine ⟨_, rfl, rfl, fun k hk => ?_, ?_, fun v hv hv' => ?_⟩
    · have hk' := hfd (buf + k)
      show storeWord m (INDEX2FD i + 4) _ (buf + k) = _
      rw [storeWord_of_notMem (by omega), hm, copy_byte _ _ _ hk]
    · show loadWord (storeWord m (INDEX2FD i + 4) _) (INDEX2FD i + 4) = _
      rw [loadWord_storeWord _ _ hsum, hoffset]
    · show storeWord m (INDEX2FD i + 4) _ v = _
      rw [storeWord_of_notMem (by omega), hm, copy_of_notMem (by omega)]

/-- Where the sum comes back, `read` says that it gave `n` bytes, which is a negative number. -/
theorem read_wrong (hopen : OpenRdwr os p i) {buf n : Nat} (hn : n < 2 ^ 32)
    (h : ReadWraps (fSize p.mem (INDEX2FD i)) (fdOffset p.mem (INDEX2FD i)) n) : ¬ ReadsRight os p i buf n := by
  have hsize := hopen.size
  have hmax : MAXFILESIZE = 2 ^ 22 := by decide
  obtain ⟨hoff, hlo, hhi⟩ := h
  unfold ReadsRight
  dsimp only
  rw [if_neg (by omega), read_open hopen]
  rintro ⟨p', hrun, -⟩
  obtain ⟨r, p₁, hread, hadvance⟩ := run_bind_eq_ok.mp hrun
  rw [fileRead_run, if_neg (by omega), if_neg (by omega)] at hread
  obtain ⟨u, p₂, _, hret⟩ := run_bind_eq_ok.mp hread
  have hr := (run_pure_eq_ok.mp hret).1
  rw [advance_run] at hadvance
  have hcount := (Prod.mk.inj (Except.ok.inj hadvance)).1
  rw [← hr, toInt_of_ge (by omega) hn] at hcount
  omega

-- ---------------------------------------------------------------------------
-- write
-- ---------------------------------------------------------------------------

/-- `write` refuses what does not fit into the largest file and changes nothing then.
Elsewhere the `n` bytes come into the window, the size and the offset follow, and of the
rest only the page of requests and the pages that `ftruncate` maps are not what they were. -/
def WritesRight (os : Os σ) (p : Proc σ) (i buf n : Nat) : Prop :=
  let fd := INDEX2FD i
  let offset := fdOffset p.mem fd
  let s := fSize p.mem fd
  if MAXFILESIZE < offset + n then write os i buf n p = .ok (-E_NO_DISK, p)
  else ∃ p', write os i buf n p = .ok (n, p') ∧
    (∀ k < n, p'.mem (INDEX2DATA i + offset + k) = p.mem (buf + k)) ∧
    fSize p'.mem fd = max s (offset + n) ∧ fdOffset p'.mem fd = offset + n ∧
    ∀ v, ¬ (INDEX2DATA i + offset ≤ v ∧ v < INDEX2DATA i + offset + n) →
      ¬ (INDEX2DATA i + ROUND s BY2PG ≤ v ∧ v < INDEX2DATA i + MAXFILESIZE) → ¬ os.ipc v →
      ¬ (fd + 4 ≤ v ∧ v < fd + 8) → ¬ (fd + 16 + MAXNAMELEN ≤ v ∧ v < fd + 16 + MAXNAMELEN + 4) →
      p'.mem v = p.mem v

/-- The sum of offset and length comes back at the largest size or below it; only a length
of `2 ^ 32 - E_NO_DISK` is an `int` that is the error, and stores nothing. -/
def WriteWraps (s offset n : Nat) : Prop :=
  2 ^ 32 ≤ offset + n ∧ offset + n - 2 ^ 32 ≤ MAXFILESIZE ∧ ¬ (n = 2 ^ 32 - 8 ∧ offset + n - 2 ^ 32 ≤ s)

instance (s offset n : Nat) : Decidable (WriteWraps s offset n) := inferInstanceAs (Decidable (_ ∧ _ ∧ ¬ (_ ∧ _)))

theorem fileWrite_over {fd buf n off : Nat} (h : MAXFILESIZE < (off + n) % 2 ^ 32) :
    fileWrite os fd buf n off p = .ok (-E_NO_DISK, p) := by
  unfold fileWrite
  dsimp only
  rw [if_pos h]
  rfl

theorem fileWrite_keep {fd buf n off : Nat} (h : (off + n) % 2 ^ 32 ≤ MAXFILESIZE)
    (hs : (off + n) % 2 ^ 32 ≤ fSize p.mem fd) :
    fileWrite os fd buf n off p =
      (memCopy os ((fd2data fd + off) % 2 ^ 32) buf n >>= fun _ => pure (toInt n)) p := by
  unfold fileWrite
  dsimp only
  rw [if_neg (Nat.not_lt.mpr h)]
  show (if fSize p.mem fd < (off + n) % 2 ^ 32 then _ else _ : M σ Int) p = _
  rw [if_neg (Nat.not_lt.mpr hs)]

theorem fileWrite_grow {fd buf n off : Nat} (h : (off + n) % 2 ^ 32 ≤ MAXFILESIZE)
    (hs : fSize p.mem fd < (off + n) % 2 ^ 32) :
    fileWrite os fd buf n off p =
      (ftruncate os (fd2num fd) ((off + n) % 2 ^ 32) >>= fun r => if r < 0 then pure r else
        memCopy os ((fd2data fd + off) % 2 ^ 32) buf n >>= fun _ => pure (toInt n)) p := by
  unfold fileWrite
  dsimp only
  rw [if_neg (Nat.not_lt.mpr h)]
  show (if fSize p.mem fd < (off + n) % 2 ^ 32 then _ else _ : M σ Int) p = _
  rw [if_pos hs]

theorem ROUND_size {s : Nat} (hs : s ≤ MAXFILESIZE) : s ≤ ROUND s BY2PG ∧ ROUND s BY2PG ≤ MAXFILESIZE := by
  have hmax : MAXFILESIZE = 2 ^ 22 := by decide
  exact ⟨(ROUND_bounds (k := 12) (by decide) (by omega)).1,
    ROUND_le_of_dvd (k := 12) (by decide) (by omega) (by rw [hmax]; decide) hs⟩

theorem mem_pagesFrom {lo hi j : Nat} (h : j ∈ pagesFrom lo hi) : lo ≤ j ∧ j + BY2PG ≤ hi := by
  unfold pagesFrom at h
  obtain ⟨k, hk, rfl⟩ := List.mem_map.mp h
  have hk' := List.mem_range.mp hk
  unfold BY2PG at hk' ⊢
  omega

/-- What `ftruncate` may change besides the size, when a file of `s` bytes grows. -/
def growthArea (os : Os σ) (i s v : Nat) : Prop :=
  os.ipc v ∨ INDEX2DATA i + ROUND s BY2PG ≤ v ∧ v < INDEX2DATA i + MAXFILESIZE

/-- A file grows: whether `ftruncate` fails or not, the descriptor has the new size, and what
the file had in its window is there. -/
theorem ftruncate_grow (hopen : OpenRdwr os p i) {tot : Nat} {r : Int} (hs : fSize p.mem (INDEX2FD i) < tot)
    (htot : tot ≤ MAXFILESIZE) (h : ftruncate os i tot p = .ok (r, p')) :
    fSize p'.mem (INDEX2FD i) = tot ∧
      ∀ v, ¬ growthArea os i (fSize p.mem (INDEX2FD i)) v →
        ¬ (INDEX2FD i + 16 + MAXNAMELEN ≤ v ∧ v < INDEX2FD i + 16 + MAXNAMELEN + 4) → p'.mem v = p.mem v := by
  obtain ⟨hlo, hhi, hwin, -⟩ := table_bounds hopen.lt
  have hbuf := os.bufLow
  have hmax : MAXFILESIZE = 2 ^ 22 := by decide
  obtain ⟨fileid, hfileid⟩ : ∃ w, w = fFileid p.mem (INDEX2FD i) := ⟨_, rfl⟩
  obtain ⟨s, hsize⟩ : ∃ s, s = fSize p.mem (INDEX2FD i) := ⟨_, rfl⟩
  have hround : ROUND s BY2PG ≤ ROUND tot BY2PG := by
    unfold BY2PG
    rw [show 4096 = 2 ^ 12 from rfl, ROUND_two_pow (by decide) (by omega), ROUND_two_pow (by decide) (by omega)]
    omega
  -- nothing is unmapped
  have hnone : pagesFrom (ROUND tot BY2PG) (ROUND s BY2PG) = [] := by
    unfold pagesFrom
    rw [Nat.sub_eq_zero_of_le hround]
    rfl
  have heq : ftruncate os i tot p =
      (fsipcSetSize os fileid tot >>= fun r => if r < 0 then pure r else
        mapPages os fileid s (INDEX2DATA i) (pagesFrom (ROUND s BY2PG) (ROUND tot BY2PG)) >>= fun r =>
          if r < 0 then pure r else pure 0)
        (⟨setFSize p.mem (INDEX2FD i) tot, p.server⟩ : Proc σ) := by
    unfold ftruncate
    rw [if_neg (by omega), fdLookup_open hopen]
    show (if fdDevId p.mem (INDEX2FD i) ≠ Dev.devfile.devId then _ else _ : M σ Int) p = _
    rw [if_neg (not_not.mpr hopen.dev), ← fd2data_INDEX2FD hopen.lt]
    rw [run_get, run_get, ← hfileid, ← hsize]
    have hset : (modify fun p => { p with mem := setFSize p.mem (INDEX2FD i) tot } : M σ PUnit) p =
      .ok ((), ⟨setFSize p.mem (INDEX2FD i) tot, p.server⟩) := rfl
    rw [run_bind hset, hnone]
    rfl
  have hchanges : Changes (growthArea os i s)
      (fsipcSetSize os fileid tot >>= fun r => if r < 0 then pure r else
        mapPages os fileid s (INDEX2DATA i) (pagesFrom (ROUND s BY2PG) (ROUND tot BY2PG)) >>= fun r =>
          if r < 0 then pure r else pure 0) := by
    refine ((fsipcSetSize_changes fileid tot).mono fun v hv => .inl hv).bind fun r => Changes.ite (Changes.pure r) ?_
    refine (mapPages_changes (fun v hv => .inl hv) fun j hj v hv hv' => .inr ?_).bind fun r =>
      Changes.ite (Changes.pure r) (Changes.pure 0)
    have hj' := mem_pagesFrom hj
    have := (ROUND_size htot).2
    omega
  rw [heq] at h
  have hkeep := hchanges _ _ _ h
  rw [← hsize]
  constructor
  · have hword : loadWord p'.mem (INDEX2FD i + 16 + MAXNAMELEN) =
        loadWord (setFSize p.mem (INDEX2FD i) tot) (INDEX2FD i + 16 + MAXNAMELEN) :=
      loadWord_congr fun v hv hv' => hkeep v fun hA => by
        unfold growthArea Os.ipc at hA
        unfold MAXNAMELEN at hv hv'
        unfold BY2PG at hA hhi hbuf
        omega
    exact hword.trans (loadWord_storeWord _ _ (by omega))
  · intro v hv hv'
    rw [hkeep v hv]
    exact storeWord_of_notMem (by omega)

theorem whileMove_stop {k fuel : Nat} {cond : Nat → Bool} {s : Copying} (h : cond s.dst = false) :
    s.whileMove valid k cond fuel = .ok s := by
  cases fuel with
  | zero => rfl
  | succ fuel =>
    unfold Copying.whileMove
    rw [if_neg (by rw [h]; exact nofun)]

/-- Where the end comes out below the start, nothing is copied. -/
theorem memcpy_none (h : (dst + n) % 2 ^ 32 ≤ dst) (h' : (dst + n) % 2 ^ 32 < (dst + 4) % 2 ^ 32) :
    memcpy valid m dst src n = .ok m := by
  have hbyte : decide (dst < (dst + n) % 2 ^ 32) = false := decide_eq_false (by omega)
  have halign : decide (dst % 4 ≠ 0 ∧ dst < (dst + n) % 2 ^ 32) = false := decide_eq_false (by omega)
  have hword : decide ((dst + 4) % 2 ^ 32 ≤ (dst + n) % 2 ^ 32) = false := decide_eq_false (by omega)
  unfold memcpy
  dsimp only
  split
  · rw [whileMove_stop hbyte]
    rfl
  · rw [whileMove_stop halign, Lib.ok_bind, whileMove_stop hword, Lib.ok_bind, whileMove_stop hbyte]
    rfl

/-- `write` with the length that is the error. -/
theorem memCopy_none {buf off : Nat} (hi : i < 32) (hlo : 8 ≤ off) (hhi : off ≤ MAXFILESIZE + 8) :
    memCopy os ((INDEX2DATA i + off) % 2 ^ 32) buf (2 ^ 32 - 8) p = .ok ((), p) := by
  obtain ⟨_, _, hwin, htop⟩ := table_bounds hi
  have hpd : FILEBASE + 32 * PDMAP = 0x68000000 := by decide
  have hfb : FILEBASE = 0x60000000 := rfl
  have hcopy : memcpy os.valid p.mem ((INDEX2DATA i + off) % 2 ^ 32) buf (2 ^ 32 - 8) = .ok p.mem :=
    memcpy_none (by omega) (by omega)
  unfold memCopy
  rw [run_get]
  exact run_bind (x := (memcpy os.valid p.mem _ buf (2 ^ 32 - 8) : M σ ByteMem))
    (show (memcpy os.valid p.mem _ buf (2 ^ 32 - 8) >>= fun m => pure (m, p) : Except Stop _) = _ by
      rw [hcopy]; rfl) _

/-- The state in which `write` copies: the file has its new size, the rest of the window and
what is outside is there. -/
theorem fileWrite_grown (hopen : OpenRdwr os p i) (buf : Nat) {n off : Nat} (hfit : off + n ≤ MAXFILESIZE)
    (hgrow : fSize p.mem (INDEX2FD i) < off + n → ∃ p', ftruncate os i (off + n) p = .ok (0, p')) :
    ∃ p₁ : Proc σ, fileWrite os (INDEX2FD i) buf n off p =
        (memCopy os (INDEX2DATA i + off) buf n >>= fun _ => pure (toInt n)) p₁ ∧
      fSize p₁.mem (INDEX2FD i) = max (fSize p.mem (INDEX2FD i)) (off + n) ∧
      ∀ v, ¬ growthArea os i (fSize p.mem (INDEX2FD i)) v →
        ¬ (INDEX2FD i + 16 + MAXNAMELEN ≤ v ∧ v < INDEX2FD i + 16 + MAXNAMELEN + 4) → p₁.mem v = p.mem v := by
  have hmax : MAXFILESIZE = 2 ^ 22 := by decide
  have htot : (off + n) % 2 ^ 32 = off + n := Nat.mod_eq_of_lt (by omega)
  have hwin := window_add hopen.lt (show off ≤ MAXFILESIZE by omega)
  by_cases hs : fSize p.mem (INDEX2FD i) < off + n
  · obtain ⟨p₁, h₁⟩ := hgrow hs
    obtain ⟨hsize, hkeep⟩ := ftruncate_grow hopen hs hfit h₁
    refine ⟨p₁, ?_, by omega, hkeep⟩
    rw [fileWrite_grow (by omega) (by omega), fd2data_INDEX2FD hopen.lt, hwin, htot, fd2num_INDEX2FD hopen.lt,
      run_bind h₁, if_neg (by decide)]
  · refine ⟨p, ?_, by omega, fun _ _ _ => rfl⟩
    rw [fileWrite_keep (by omega) (by omega), fd2data_INDEX2FD hopen.lt, hwin]

theorem write_right (hopen : OpenRdwr os p i) {buf n : Nat} (hn : n < 2 ^ 32)
    (hbuf : fdOffset p.mem (INDEX2FD i) + n ≤ MAXFILESIZE → Buffer os i buf n)
    (hgrow : fdOffset p.mem (INDEX2FD i) + n ≤ MAXFILESIZE →
      fSize p.mem (INDEX2FD i) < fdOffset p.mem (INDEX2FD i) + n →
      ∃ p', ftruncate os i (fdOffset p.mem (INDEX2FD i) + n) p = .ok (0, p'))
    (h : ¬ WriteWraps (fSize p.mem (INDEX2FD i)) (fdOffset p.mem (INDEX2FD i)) n) : WritesRight os p i buf n := by
  have hsize := hopen.size
  have hlt := fdOffset_lt p.mem (INDEX2FD i)
  have hmax : MAXFILESIZE = 2 ^ 22 := by decide
  unfold WriteWraps at h
  unfold WritesRight
  dsimp only
  rw [write_open hopen]
  generalize hoff : fdOffset p.mem (INDEX2FD i) = off at *
  by_cases hover : MAXFILESIZE < off + n
  · rw [if_pos hover]
    by_cases htot : MAXFILESIZE < (off + n) % 2 ^ 32
    · rw [run_bind (fileWrite_over htot), advance_run, if_neg (by decide)]
    · obtain rfl : n = 2 ^ 32 - 8 := by omega
      have hwrite : fileWrite os (INDEX2FD i) buf (2 ^ 32 - 8) off p = .ok (-E_NO_DISK, p) := by
        rw [fileWrite_keep (by omega) (by omega), fd2data_INDEX2FD hopen.lt,
          run_bind (memCopy_none hopen.lt (by omega) (by omega)), toInt_of_ge (by decide) (by decide)]
        rfl
      rw [run_bind hwrite, advance_run, if_neg (by decide)]
  · rw [if_neg hover]
    obtain ⟨_, hfdtop, hwinlow, _⟩ := table_bounds hopen.lt
    have hbuf := hbuf (by omega)
    obtain ⟨p₁, hwrite, hsize₁, hkeep⟩ := fileWrite_grown hopen buf (Nat.not_lt.mp hover) (hgrow (by omega))
    have hcopy := (hbuf.copyable hopen.lt (Nat.not_lt.mp hover)).2
    obtain ⟨m, hm⟩ : ∃ m, m = copy p₁.mem (INDEX2DATA i + off) buf n := ⟨_, rfl⟩
    have hwrite : fileWrite os (INDEX2FD i) buf n off p = .ok (toInt n, ⟨m, p₁.server⟩) := by
      rw [hwrite, run_bind (memCopy_run hcopy), ← hm]
      rfl
    have hipc := os.bufLow
    unfold growthArea Os.ipc MAXNAMELEN at hkeep
    unfold BY2PG at hfdtop hipc
    -- the copy does not reach the descriptor, and the growth only its size
    have hword : ∀ a, INDEX2FD i ≤ a → a + 4 ≤ INDEX2FD i + 4096 → loadWord m a = loadWord p₁.mem a := by
      intro a hlo hhi
      rw [hm]
      exact loadWord_copy (by omega)
    have hoffset : fdOffset m (INDEX2FD i) = off := by
      rw [← hoff]
      refine (hword _ (by omega) (by omega)).trans (loadWord_congr fun v hlo hhi => hkeep v ?_ ?_)
      · unfold BY2PG
        omega
      · omega
    rw [run_bind hwrite, advance_count (by omega) (by rw [hoffset]; omega)]
    refine ⟨_, rfl, fun k hk => ?_, ?_, ?_, fun v hbytes hgrown hreq hoff₁ hsize₂ => ?_⟩
    · have hwindow := hbuf.window k hk
      have hfd := hbuf.fd k hk
      unfold BY2PG at hfd
      show storeWord m (INDEX2FD i + 4) _ (INDEX2DATA i + off + k) = _
      rw [storeWord_of_notMem (by omega), hm, copy_byte _ _ _ hk]
      refine hkeep (buf + k) (not_or.mpr ⟨hbuf.ipc k hk, ?_⟩) (by omega)
      omega
    · show loadWord (storeWord m (INDEX2FD i + 4) _) (INDEX2FD i + 16 + 128) = _
      rw [loadWord_storeWord_of_ne (by omega), hword _ (by omega) (by omega)]
      exact hsize₁
    · show loadWord (storeWord m (INDEX2FD i + 4) _) (INDEX2FD i + 4) = _
      rw [loadWord_storeWord _ _ (by rw [hoffset]; omega), hoffset]
    · show storeWord m (INDEX2FD i + 4) _ v = _
      rw [storeWord_of_notMem (by omega), hm, copy_of_notMem (by omega)]
      exact hkeep v (not_or.mpr ⟨hreq, hgrown⟩) hsize₂

/-- Where the sum comes back, `write` does not refuse, or it has changed the size. -/
theorem write_wrong (hopen : OpenRdwr os p i) {buf n : Nat} (hn : n < 2 ^ 32)
    (h : WriteWraps (fSize p.mem (INDEX2FD i)) (fdOffset p.mem (INDEX2FD i)) n) : ¬ WritesRight os p i buf n := by
  have hlt := fdOffset_lt p.mem (INDEX2FD i)
  have hmax : MAXFILESIZE = 2 ^ 22 := by decide
  obtain ⟨hlo, hhi, hnot⟩ := h
  unfold WritesRight
  dsimp only
  rw [if_pos (by omega), write_open hopen]
  generalize hoff : fdOffset p.mem (INDEX2FD i) = off at *
  intro hrun
  -- the error is an error of `file_write`, and the state is the one before
  obtain ⟨r, p₁, hwrite, hadvance⟩ := run_bind_eq_ok.mp hrun
  rw [advance_run] at hadvance
  obtain ⟨rfl, hstate⟩ := Prod.mk.inj (Except.ok.inj hadvance)
  rw [if_neg (by decide)] at hstate
  obtain rfl := hstate
  have hcount : ∀ q q' : Proc σ, (pure (toInt n) : M σ Int) q = .ok (-E_NO_DISK, q') → n = 2 ^ 32 - 8 ∧ q = q' := by
    intro q q' hret
    obtain ⟨hr, hq⟩ := run_pure_eq_ok.mp hret
    refine ⟨?_, hq⟩
    have hE : E_NO_DISK = 8 := rfl
    by_cases hbig : n < 2 ^ 31
    · rw [toInt_of_lt hbig] at hr
      omega
    · rw [toInt_of_ge (by omega) hn] at hr
      omega
  by_cases hs : fSize p₁.mem (INDEX2FD i) < (off + n) % 2 ^ 32
  · rw [fileWrite_grow (by omega) hs, fd2num_INDEX2FD hopen.lt, fd2data_INDEX2FD hopen.lt] at hwrite
    obtain ⟨r, p₂, htrunc, hrest⟩ := run_bind_eq_ok.mp hwrite
    have hsize := (ftruncate_grow hopen hs (by omega) htrunc).1
    have hsame : p₂ = p₁ := by
      by_cases hr : r < 0
      · rw [if_pos hr] at hrest
        exact (run_pure_eq_ok.mp hrest).2
      · rw [if_neg hr] at hrest
        obtain ⟨_, p₃, hcopy, hret⟩ := run_bind_eq_ok.mp hrest
        obtain ⟨rfl, rfl⟩ := hcount p₃ p₁ hret
        rw [memCopy_none hopen.lt (by omega) (by omega)] at hcopy
        exact (Prod.mk.inj (Except.ok.inj hcopy)).2
    rw [hsame] at hsize
    omega
  · rw [fileWrite_keep (by omega) (Nat.not_lt.mp hs)] at hwrite
    obtain ⟨_, p₃, _, hret⟩ := run_bind_eq_ok.mp hwrite
    have := (hcount p₃ p₁ hret).1
    omega

/-- **Reading and writing files.** At every offset, which `seek` sets to what it is told,
`read` does what it should unless the sum of offset and length comes back at the size of
the file or below it, and `write` unless it comes back at the largest size or below it. -/
theorem fileIo_iff (hopen : OpenRdwr os p i) (buf : Nat) {n : Nat} (hn : n < 2 ^ 32)
    (hread : Buffer os i buf (min n (fSize p.mem (INDEX2FD i) - fdOffset p.mem (INDEX2FD i))))
    (hwrite : fdOffset p.mem (INDEX2FD i) + n ≤ MAXFILESIZE → Buffer os i buf n)
    (hgrow : fdOffset p.mem (INDEX2FD i) + n ≤ MAXFILESIZE →
      fSize p.mem (INDEX2FD i) < fdOffset p.mem (INDEX2FD i) + n →
      ∃ p', ftruncate os i (fdOffset p.mem (INDEX2FD i) + n) p = .ok (0, p')) :
    (∀ off < 2 ^ 32, ∃ p', seek os i off p = .ok (0, p') ∧ OpenRdwr os p' i ∧ fdOffset p'.mem (INDEX2FD i) = off) ∧
      (ReadsRight os p i buf n ↔ ¬ ReadWraps (fSize p.mem (INDEX2FD i)) (fdOffset p.mem (INDEX2FD i)) n) ∧
      (WritesRight os p i buf n ↔ ¬ WriteWraps (fSize p.mem (INDEX2FD i)) (fdOffset p.mem (INDEX2FD i)) n) := by
  refine ⟨fun off hoff => ⟨_, seek_open hopen off, seek_keeps hopen off, ?_⟩, ⟨?_, ?_⟩, ⟨?_, ?_⟩⟩
  · exact loadWord_storeWord p.mem _ hoff
  · exact fun hright hwrap => read_wrong hopen hn hwrap hright
  · exact read_right hopen hn hread
  · exact fun hright hwrap => write_wrong hopen hn hwrap hright
  · exact write_right hopen hn hwrite hgrow

-- ---------------------------------------------------------------------------
-- One process
-- ---------------------------------------------------------------------------

/-- A process whose server grants everything. -/
def oneFileOs : Os Unit where
  valid x := decide (UTEMP ≤ x ∧ x < USTACKTOP)
  fdUsed va := va == INDEX2FD 0
  fsipcbuf := 0x500000
  setSize _ _ s := (0, s)
  map _ _ s := (⟨0, PTE_V ||| PTE_U ||| PTE_R, fun _ => 0⟩, s)
  devRead _ _ _ _ _ := return 0
  devWrite _ _ _ _ _ := return 0
  window x hlo hhi := by
    have hpd : FILEBASE + 32 * PDMAP = 0x68000000 := by decide
    have hfb : FILEBASE = 0x60000000 := rfl
    have hlow : UTEMP = 0x3fe000 := by decide
    have htop : USTACKTOP = 0x7f3fe000 := by decide
    exact decide_eq_true ⟨by omega, by omega⟩
  bufLow := by decide

/-- Its memory: descriptor 0 is a file of 16 bytes, and there are four bytes to write. -/
def oneFile : Proc Unit where
  mem x :=
    if x = INDEX2FD 0 then 0x66 else if x = INDEX2FD 0 + 8 then 2
    else if x = INDEX2FD 0 + 16 + MAXNAMELEN then 16 else if 0x600000 ≤ x ∧ x < 0x600004 then 1 else 0
  server := ()

theorem oneFile_open : OpenRdwr oneFileOs oneFile 0 :=
  ⟨by decide, by decide, by decide, by decide, by decide⟩

theorem oneFile_buffer : Buffer oneFileOs 0 0x600000 4 :=
  ⟨by decide, by decide, by decide, by decide, by unfold Os.ipc; decide⟩

theorem fileIo_iff_oneFile :
    (∀ off < 2 ^ 32, ∃ p', seek oneFileOs (0 : Nat) off oneFile = .ok (0, p') ∧ OpenRdwr oneFileOs p' 0 ∧
        fdOffset p'.mem (INDEX2FD (0 : Nat)) = off) ∧
      (ReadsRight oneFileOs oneFile 0 0x600000 4 ↔
        ¬ ReadWraps (fSize oneFile.mem (INDEX2FD (0 : Nat))) (fdOffset oneFile.mem (INDEX2FD (0 : Nat))) 4) ∧
      (WritesRight oneFileOs oneFile 0 0x600000 4 ↔
        ¬ WriteWraps (fSize oneFile.mem (INDEX2FD (0 : Nat))) (fdOffset oneFile.mem (INDEX2FD (0 : Nat))) 4) :=
  fileIo_iff oneFile_open 0x600000 (by decide)
    ⟨by decide, by decide, by decide, by decide, by unfold Os.ipc; decide⟩ (fun _ => oneFile_buffer)
    (fun _ hs => absurd hs (by decide))

/-- A `write` of four bytes at offset `2 ^ 32 - 4` stores them below the window. -/
theorem fileIo_below : ∃ p₁ p₂ : Proc Unit, seek oneFileOs (0 : Nat) (2 ^ 32 - 4) oneFile = .ok (0, p₁) ∧
    OpenRdwr oneFileOs p₁ 0 ∧ Buffer oneFileOs 0 0x600000 4 ∧
    write oneFileOs (0 : Nat) 0x600000 4 p₁ = .ok (4, p₂) ∧ p₁.mem (FILEBASE - 1) = 0 ∧ p₂.mem (FILEBASE - 1) = 1 ∧
    ¬ WritesRight oneFileOs p₁ 0 0x600000 4 := by
  have hopen := seek_keeps oneFile_open (2 ^ 32 - 4)
  have hoff : fdOffset (setFdOffset oneFile.mem (INDEX2FD (0 : Nat)) (2 ^ 32 - 4)) (INDEX2FD (0 : Nat)) = 2 ^ 32 - 4 :=
    loadWord_storeWord _ _ (by decide)
  have hcopy : Copyable oneFileOs.valid ((fd2data (INDEX2FD (0 : Nat)) + (2 ^ 32 - 4)) % 2 ^ 32) 0x600000 4 :=
    ⟨by decide, by decide, .inr (by decide), by decide, by decide⟩
  obtain ⟨m, hm⟩ : ∃ m, m = copy (setFdOffset oneFile.mem (INDEX2FD (0 : Nat)) (2 ^ 32 - 4))
    ((fd2data (INDEX2FD (0 : Nat)) + (2 ^ 32 - 4)) % 2 ^ 32) 0x600000 4 := ⟨_, rfl⟩
  have hwrite : fileWrite oneFileOs (INDEX2FD (0 : Nat)) 0x600000 4 (2 ^ 32 - 4)
      ⟨setFdOffset oneFile.mem (INDEX2FD (0 : Nat)) (2 ^ 32 - 4), ()⟩ = .ok (toInt (4 : Nat), ⟨m, ()⟩) := by
    rw [fileWrite_keep (by decide) (by decide), run_bind (memCopy_run hcopy), ← hm]
    rfl
  refine ⟨_, ⟨setFdOffset m (INDEX2FD (0 : Nat)) ((fdOffset m (INDEX2FD (0 : Nat)) + toWord (4 : Nat)) % 2 ^ 32), ()⟩,
    seek_open oneFile_open (2 ^ 32 - 4), hopen, oneFile_buffer, ?_, ?_, ?_, ?_⟩
  · rw [write_open hopen, hoff, run_bind hwrite, advance_run, toInt_of_lt (by decide), if_pos (by decide)]
    rfl
  · decide
  · dsimp only [setFdOffset]
    rw [storeWord_of_notMem (by decide), hm]
    rfl
  · exact write_wrong hopen (by decide) (by decide)

end Mos.User
