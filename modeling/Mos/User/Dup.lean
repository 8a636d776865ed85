import Mos.User.OpenFile

/-!
# MOS on RISC-V — duplicating a descriptor

`dup` closes the new descriptor and maps the pages of the old one at its place. It closes a
descriptor as its device does, by the size that is recorded, and maps only the pages that
are there.

Main results:

* `close_spec`, `copyPages_spec` — which pages `close` takes, and which the loop brings;
* `dup_right_iff` — `dup` does what it should exactly if it is not asked to put an open
  descriptor at its own place, and closing takes all that the old descriptor does not
  replace, and nothing else.
-/

namespace Mos.User

open Mos.Lib Mos.Kern

/-- What the calls of `close` and `dup` find: the `Fd` pages by frame, the reply of the
server to the request to close, and whether the kernel has a page for a page table that is
missing, at the call for the `Fd` page and for page `k` of the window. -/
structure DupCalls where
  fd : Nat → FdPage
  closeReply : Int
  memFd : Bool
  mem : Nat → Bool

variable (c : DupCalls)

def DupCalls.fdPage (s : Space) (fd : Nat) : FdPage := c.fd (s.frameAt fd)

/-- The loop of `file_close` that unmaps the pages of the window at `va`. -/
def unmapWindow (va : Nat) : List Nat → Space → Int × Space
  | [], s => (0, s)
  | k :: ks, s =>
    let (r, s) := s.memUnmap ((va + BY2PG * k) % 2 ^ 32)
    if r < 0 then (r, s) else unmapWindow va ks s

/-- `file_close`. For a size so close to `2 ^ 32` the loop of `fsipc_dirty` does not end. -/
def fileClose (fd : Nat) (s : Space) : Option (Int × Space) :=
  let size := (c.fdPage s fd).size
  if 2 ^ 32 - BY2PG < size then none
  else if c.closeReply < 0 then some (c.closeReply, s)
  else some (unmapWindow (fd2data fd) (filePages size) s)

def consClose (_fd : Nat) (s : Space) : Option (Int × Space) := some (0, s)

def pipeClose (fd : Nat) (s : Space) : Option (Int × Space) :=
  some (0, ((s.memUnmap fd).2.memUnmap (fd2data fd)).2)

def Dev.close : Dev → Nat → Space → Option (Int × Space)
  | .devfile => fileClose c
  | .devcons => consClose
  | .devpipe => pipeClose

/-- `close`. -/
def fdClose (fdnum : Int) (s : Space) : Option (Int × Space) :=
  match s.view.fdLookup fdnum with
  | .error r => some (r, s)
  | .ok fd =>
    match devLookup (c.fdPage s fd).devId with
    | .error r => some (r, s)
    | .ok dev => (dev.close c fd s).map fun (r, s) => (r, (s.memUnmap fd).2)

/-- The loop of `dup`. -/
def copyPages (ova nva : Nat) : List Nat → Space → Int × Space
  | [], s => (0, s)
  | k :: ks, s =>
    let pte := s.view.vpt (VPN (ova + BY2PG * k))
    if testFlag pte PTE_V then
      let (r, s) := s.memMap (c.mem k) (ova + BY2PG * k) (nva + BY2PG * k) (pte &&& (PTE_W ||| PTE_LIBRARY))
      if r < 0 then (r, s) else copyPages ova nva ks s
    else copyPages ova nva ks s

/-- What `dup` does at `err`. -/
def dupErr (newfd nva : Nat) (s : Space) : Space :=
  (List.range 1024).foldl (fun s k => (s.memUnmap (nva + BY2PG * k)).2) (s.memUnmap newfd).2

/-- The rest of `dup`, after `close`. -/
def dupMap (oldfd : Nat) (newfdnum : Int) (s : Space) : Int × Space :=
  let newfd := INDEX2FD newfdnum
  let ova := fd2data oldfd
  let nva := fd2data newfd
  let (r, s) := s.memMap c.memFd oldfd newfd (s.view.vpt (VPN oldfd) &&& (PTE_W ||| PTE_LIBRARY))
  if r < 0 then (r, dupErr newfd nva s)
  else
    let (r, s) := if s.view.vpd (PDX ova) ≠ 0 then copyPages c ova nva (List.range 1024) s else (0, s)
    if r < 0 then (r, dupErr newfd nva s) else (newfdnum, s)

def dup (oldfdnum newfdnum : Int) (s : Space) : Option (Int × Space) :=
  match s.view.fdLookup oldfdnum with
  | .error r => some (r, s)
  | .ok oldfd => (fdClose c newfdnum s).map fun (_, s) => dupMap c oldfd newfdnum s

-- ---------------------------------------------------------------------------
-- What dup should do
-- ---------------------------------------------------------------------------

/-- The frame and the two flags that `dup` is to keep. -/
def Mapping.shown (m : Mapping) : Nat × Bool × Bool :=
  (m.frame, testFlag m.flags PTE_W, testFlag m.flags PTE_LIBRARY)

/-- `dup(old, new)` has come back with `r`, and has made `s'` out of `s`. -/
structure DupDone (old new : Nat) (s : Space) (r : Int) (s' : Space) : Prop where
  oldFd : (s'.entry (fdVpn old)).map Mapping.frame = (s.entry (fdVpn old)).map Mapping.frame
  oldData : ∀ i < 1024, (s'.entry (dataVpn old i)).map Mapping.frame = (s.entry (dataVpn old i)).map Mapping.frame
  reply : r = new ∨ r < 0
  newFd : r = new → (s'.entry (fdVpn new)).map Mapping.shown = (s.entry (fdVpn old)).map Mapping.shown
  newData : r = new → ∀ i < 1024,
    (s'.entry (dataVpn new i)).map Mapping.shown = (s.entry (dataVpn old i)).map Mapping.shown
  closed : r < 0 → s'.entry (fdVpn new) = none ∧ ∀ i < 1024, s'.entry (dataVpn new i) = none
  others : ∀ d < 32, d ≠ old → d ≠ new → s'.entry (fdVpn d) = s.entry (fdVpn d) ∧
    ∀ i < 1024, s'.entry (dataVpn d i) = s.entry (dataVpn d i)

def DupRight (old new : Nat) (s : Space) : Prop :=
  ∀ r s', dup c old new s = some (r, s') → DupDone old new s r s'

/-- `close(new)` does not end. -/
def CloseHangs (new : Nat) (s : Space) : Prop :=
  s.entry (fdVpn new) ≠ none ∧ (c.fdPage s (INDEX2FD new)).devId = Dev.devfile.devId ∧
    2 ^ 32 - BY2PG < (c.fdPage s (INDEX2FD new)).size

/-- The device unmaps page `v` when `new` is closed: what the size of a file covers, if the
server closes it, and the one page of a pipe. -/
def DevTakes (new : Nat) (s : Space) (v : Nat) : Dev → Prop
  | .devfile => 0 ≤ c.closeReply ∧ ∃ k, BY2PG * k < (c.fdPage s (INDEX2FD new)).size ∧
      INDEX2DATA new + BY2PG * k < UTOP ∧ v = dataVpn new k
  | .devcons => False
  | .devpipe => v = dataVpn new 0

/-- `close(new)` unmaps page `v`. -/
def CloseTakes (new : Nat) (s : Space) (v : Nat) : Prop :=
  s.entry (fdVpn new) ≠ none ∧
    ∃ dev, devLookup (c.fdPage s (INDEX2FD new)).devId = .ok dev ∧ (DevTakes c new s v dev ∨ v = fdVpn new)

/-- Closing `new` ends `new` only, and takes all that `old` has no page for. -/
structure DupSafe (old new : Nat) (s : Space) : Prop where
  apart : old = new → ¬ CloseTakes c new s (fdVpn new)
  only : ∀ d < 32, d ≠ new → ∀ i < 1024, CloseTakes c new s (dataVpn d i) → s.entry (dataVpn d i) = none
  all : ∀ i < 1024, s.entry (dataVpn new i) ≠ none → s.entry (dataVpn old i) = none →
    CloseTakes c new s (dataVpn new i)

variable {c} {old new d v : Nat} {s s' s'' : Space} {T T' : Nat → Prop}

-- ---------------------------------------------------------------------------
-- Taking pages away
-- ---------------------------------------------------------------------------

/-- From `s` to `s'`, the pages in `T` are unmapped, and no others. -/
structure Unmapped (T : Nat → Prop) (s s' : Space) : Prop where
  table : s'.table = s.table
  taken : ∀ v, T v → s'.entry v = none
  kept : ∀ v, ¬ T v → s'.entry v = s.entry v

theorem Unmapped.refl (s : Space) : Unmapped (fun _ => False) s s := ⟨rfl, nofun, fun _ _ => rfl⟩

theorem Unmapped.trans (h : Unmapped T s s') (h' : Unmapped T' s' s'') : Unmapped (fun v => T v ∨ T' v) s s'' where
  table := h'.table.trans h.table
  taken v hv := by
    by_cases hv' : T' v
    · exact h'.taken v hv'
    · rw [h'.kept v hv']
      exact h.taken v (hv.resolve_right hv')
  kept v hv := by
    rw [h'.kept v fun hv' => hv (Or.inr hv')]
    exact h.kept v fun hv' => hv (Or.inl hv')

theorem Unmapped.congr (h : Unmapped T s s') (hT : ∀ v, T v ↔ T' v) : Unmapped T' s s' where
  table := h.table
  taken v hv := h.taken v ((hT v).mpr hv)
  kept v hv := h.kept v fun hv' => hv ((hT v).mp hv')

theorem memUnmap_spec {va : Nat} (h : isIllegalVa va = false) :
    (s.memUnmap va).1 = 0 ∧ Unmapped (· = VPN va) s (s.memUnmap va).2 := by
  unfold Space.memUnmap
  rw [if_neg (by rw [h]; exact nofun)]
  exact ⟨rfl, rfl, fun v hv => by rw [hv]; exact Space.unmap_entry_self, fun v hv => Space.unmap_entry_of_ne hv⟩

/-- Page `k` above the window of `d`, and whether the system calls allow it. -/
theorem window_page (hd : d < 32) (k : Nat) : INDEX2DATA d + BY2PG * k = 4096 * dataVpn d k ∧
    (INDEX2DATA d + BY2PG * k < UTOP ↔ dataVpn d k < 0x7f400) ∧
    isIllegalVa (INDEX2DATA d + BY2PG * k) = decide (0x7f400 ≤ dataVpn d k) := by
  have hT : UTEMP = 0x3fe000 ∧ UTOP = 0x7f400000 := by decide
  have hva : INDEX2DATA d + BY2PG * k = 4096 * dataVpn d k := by
    rw [dataVpn_eq hd, INDEX2DATA_of_lt hd]
    simp only [FILEBASE, PDMAP, BY2PG]
    omega
  have hlow : 0x60000 ≤ dataVpn d k := by
    rw [dataVpn_eq hd]
    omega
  rw [hva]
  refine ⟨rfl, by omega, ?_⟩
  unfold isIllegalVa
  rw [decide_eq_decide]
  omega

theorem unmapWindow_cons {va k : Nat} {ks : List Nat} (h : va + BY2PG * k < 2 ^ 32) :
    unmapWindow va (k :: ks) s = if (s.memUnmap (va + BY2PG * k)).1 < 0 then s.memUnmap (va + BY2PG * k)
      else unmapWindow va ks (s.memUnmap (va + BY2PG * k)).2 := by
  conv_lhs => unfold unmapWindow
  rw [Nat.mod_eq_of_lt h]

/-- The loop of `file_close` takes the pages one by one, up to `UTOP`. -/
theorem unmapWindow_spec (hd : d < 32) (n a : Nat) (s : Space) (ha : dataVpn d a ≤ 0x7f400) :
    Unmapped (fun v => ∃ k, a ≤ k ∧ k < a + n ∧ dataVpn d k < 0x7f400 ∧ v = dataVpn d k) s
      (unmapWindow (INDEX2DATA d) (List.range' a n) s).2 := by
  induction n generalizing a s with
  | zero =>
    refine (Unmapped.refl s).congr fun v => iff_of_false nofun ?_
    rintro ⟨k, hk, hk', -⟩
    omega
  | succ n ih =>
    obtain ⟨hva, -, hlegal⟩ := window_page hd a
    have hnext : ∀ k, dataVpn d k = dataVpn d a + k - a := fun k => by
      rw [dataVpn_eq hd, dataVpn_eq hd]
      omega
    have hword : INDEX2DATA d + BY2PG * a < 2 ^ 32 := by omega
    rw [List.range'_succ, unmapWindow_cons hword]
    by_cases htop : 0x7f400 ≤ dataVpn d a
    · -- here the system call fails
      have hstop : s.memUnmap (INDEX2DATA d + BY2PG * a) = (-E_INVAL, s) := by
        unfold Space.memUnmap
        rw [if_pos (by rw [hlegal]; exact decide_eq_true htop)]
      have hneg : -E_INVAL < 0 := by decide
      simp only [hstop, if_pos hneg]
      refine (Unmapped.refl s).congr fun v => iff_of_false nofun ?_
      rintro ⟨k, hk, -, hk', -⟩
      rw [hnext k] at hk'
      omega
    · obtain ⟨hr, hun⟩ := memUnmap_spec (s := s) (by rw [hlegal]; exact decide_eq_false htop)
      simp only [hr, Int.lt_irrefl, if_false]
      refine (hun.trans (ih (a + 1) _ ?_)).congr fun v => ⟨?_, ?_⟩
      · rw [hnext (a + 1)]
        omega
      · rintro (rfl | ⟨k, hk, hk', hlt, rfl⟩)
        · exact ⟨a, le_rfl, by omega, by omega, rfl⟩
        · exact ⟨k, by omega, by omega, hlt, rfl⟩
      · rintro ⟨k, hk, hk', hlt, rfl⟩
        rcases Nat.eq_or_lt_of_le hk with rfl | hgt
        · exact Or.inl rfl
        · exact Or.inr ⟨k, hgt, by omega, hlt, rfl⟩

theorem devLookup_ok {w : Nat} {dev : Dev} (h : devLookup w = .ok dev) : w = dev.devId := by
  unfold devLookup at h
  cases hfind : [Dev.devfile, .devcons, .devpipe].find? (·.devId == w) with
  | none =>
    rw [hfind] at h
    cases h
  | some dev' =>
    rw [hfind] at h
    cases h
    have hid : (dev.devId == w) = true := (List.find?_eq_some_iff_append.mp hfind).1
    exact (beq_iff_eq.mp hid).symm

/-- What `file_close` takes away. -/
theorem fileClose_spec (hnew : new < 32) (hsize : (c.fdPage s (INDEX2FD new)).size ≤ 2 ^ 32 - BY2PG) :
    ∃ r s', fileClose c (INDEX2FD new) s = some (r, s') ∧
      Unmapped (fun v => DevTakes c new s v .devfile) s s' := by
  have hpg : BY2PG = 4096 := rfl
  unfold fileClose DevTakes
  simp only [if_neg (Nat.not_lt.mpr hsize), fd2data_INDEX2FD hnew]
  rcases Int.lt_or_le c.closeReply 0 with hneg | hpos
  · rw [if_pos hneg]
    exact ⟨_, _, rfl, (Unmapped.refl s).congr fun v => iff_of_false nofun fun h => absurd h.1 (by omega)⟩
  · rw [if_neg (Int.not_lt.mpr hpos)]
    have hbase : dataVpn new 0 ≤ 0x7f400 := by
      rw [dataVpn_eq hnew]
      omega
    have hrun := unmapWindow_spec hnew (((c.fdPage s (INDEX2FD new)).size + (BY2PG - 1)) / BY2PG) 0 s hbase
    rw [← List.range_eq_range'] at hrun
    refine ⟨_, _, rfl, hrun.congr fun v => ?_⟩
    generalize (c.fdPage s (INDEX2FD new)).size = size
    constructor
    · rintro ⟨k, -, hk, hlt, rfl⟩
      refine ⟨hpos, k, ?_, (window_page hnew k).2.1.mpr hlt, rfl⟩
      rw [hpg] at hk ⊢
      omega
    · rintro ⟨-, k, hk, hlt, rfl⟩
      refine ⟨k, Nat.zero_le k, ?_, (window_page hnew k).2.1.mp hlt, rfl⟩
      rw [hpg] at hk ⊢
      omega

/-- What the device takes away. -/
theorem devClose_spec (hnew : new < 32) (dev : Dev)
    (hsize : dev = .devfile → (c.fdPage s (INDEX2FD new)).size ≤ 2 ^ 32 - BY2PG) :
    ∃ r s', dev.close c (INDEX2FD new) s = some (r, s') ∧
      Unmapped (fun v => DevTakes c new s v dev ∨ v = fdVpn new) s (s'.memUnmap (INDEX2FD new)).2 := by
  have hfd : ∀ s, Unmapped (· = fdVpn new) s (s.memUnmap (INDEX2FD new)).2 := fun s =>
    (memUnmap_spec (fd_legal hnew)).2
  cases dev with
  | devfile =>
    obtain ⟨r, s', hrun, hun⟩ := fileClose_spec hnew (hsize rfl)
    exact ⟨r, s', hrun, hun.trans (hfd s')⟩
  | devcons => exact ⟨0, s, rfl, (Unmapped.refl s).trans (hfd s)⟩
  | devpipe =>
    have hlegal := data_legal hnew (show 0 < 1024 by decide)
    rw [Nat.mul_zero, Nat.add_zero] at hlegal
    have hdata : ∀ s, Unmapped (· = dataVpn new 0) s (s.memUnmap (fd2data (INDEX2FD new))).2 := fun s => by
      unfold dataVpn
      rw [fd2data_INDEX2FD hnew, Nat.mul_zero, Nat.add_zero]
      exact (memUnmap_spec hlegal).2
    refine ⟨0, _, rfl, (((hfd s).trans (hdata _)).trans (hfd _)).congr fun v => ?_⟩
    exact ⟨fun h => h.elim Or.symm Or.inr, fun h => Or.inl h.symm⟩

/-- What `close` takes away. -/
theorem close_spec (c : DupCalls) (hnew : new < 32) (s : Space) :
    CloseHangs c new s ∧ fdClose c new s = none ∨
      ¬ CloseHangs c new s ∧ ∃ r s', fdClose c new s = some (r, s') ∧ Unmapped (CloseTakes c new s) s s' := by
  have hM : MAXFD = 32 := rfl
  by_cases hopen : s.entry (fdVpn new) = none
  · refine Or.inr ⟨fun h => h.1 hopen, -E_INVAL, s, ?_, (Unmapped.refl s).congr fun v =>
      iff_of_false nofun fun h => h.1 hopen⟩
    unfold fdClose
    rw [fdLookup_of_unused fun hused => ?_]
    rw [Space.used_view, hopen] at hused
    cases hused.2
  have hlook : s.view.fdLookup new = .ok (INDEX2FD new) :=
    fdLookup_of_used (by omega) (by rw [Space.used_view]; exact Option.isSome_iff_ne_none.mpr hopen)
  cases hdev : devLookup (c.fdPage s (INDEX2FD new)).devId with
  | error r =>
    refine Or.inr ⟨fun h => ?_, r, s, ?_, (Unmapped.refl s).congr fun v => iff_of_false nofun fun h => ?_⟩
    · rw [h.2.1] at hdev
      cases hdev
    · unfold fdClose
      rw [hlook]
      simp only [hdev]
    · obtain ⟨dev, hdev', -⟩ := h.2
      rw [hdev] at hdev'
      cases hdev'
  | ok dev =>
    have hid := devLookup_ok hdev
    by_cases hhang : CloseHangs c new s
    · have hfile : dev = .devfile := by
        rw [hhang.2.1] at hdev
        cases hdev
        rfl
      refine Or.inl ⟨hhang, ?_⟩
      unfold fdClose
      rw [hlook]
      simp only [hdev, hfile, Dev.close, fileClose, if_pos hhang.2.2]
      rfl
    · obtain ⟨r, s', hrun, hun⟩ := devClose_spec (c := c) (s := s) hnew dev fun hfile => by
        rw [hfile] at hid
        exact Nat.not_lt.mp fun hlt => hhang ⟨hopen, hid, hlt⟩
      refine Or.inr ⟨hhang, r, _, ?_, hun.congr fun v => ?_⟩
      · unfold fdClose
        rw [hlook]
        simp only [hdev, hrun]
        rfl
      · constructor
        · exact fun h => ⟨hopen, dev, hdev, h⟩
        · rintro ⟨-, dev', hdev', h⟩
          rw [hdev] at hdev'
          cases hdev'
          exact h

-- ---------------------------------------------------------------------------
-- Bringing pages
-- ---------------------------------------------------------------------------

/-- What `dup` maps for an entry. -/
def Mapping.copied (m : Mapping) : Mapping :=
  ⟨m.frame, readable ((m.flags ||| PTE_V) &&& (PTE_W ||| PTE_LIBRARY) ||| PTE_U) ||| PTE_V⟩

/-- The two flags come through the mask, and nothing that is added changes them. -/
theorem copied_shown (m : Mapping) : m.copied.shown = m.shown := by
  have hflag : ∀ j, j = 2 ∨ j = 9 → testFlag (readable ((m.flags ||| PTE_V) &&& (PTE_W ||| PTE_LIBRARY) ||| PTE_U)
      ||| PTE_V) (2 ^ j) = testFlag m.flags (2 ^ j) := fun j hj => by
    have hV : PTE_V.testBit j = false := by rcases hj with rfl | rfl <;> decide
    have hU : PTE_U.testBit j = false := by rcases hj with rfl | rfl <;> decide
    have hR : PTE_R.testBit j = false := by rcases hj with rfl | rfl <;> decide
    have hmask : (PTE_W ||| PTE_LIBRARY).testBit j = true := by rcases hj with rfl | rfl <;> decide
    unfold readable
    rw [testFlag_two_pow, testFlag_two_pow]
    split_ifs
    · simp only [Nat.testBit_or, Nat.testBit_and, hV, hU, hR, hmask, Bool.or_false, Bool.and_true]
    · simp only [Nat.testBit_or, Nat.testBit_and, hV, hU, hmask, Bool.or_false, Bool.and_true]
  unfold Mapping.shown
  rw [show PTE_W = 2 ^ 2 from rfl, show PTE_LIBRARY = 2 ^ 9 from rfl]
  exact congrArg (m.frame, ·) (Prod.ext (hflag 2 (Or.inl rfl)) (hflag 9 (Or.inr rfl)))

theorem vpt_some {m : Mapping} (h : s.entry v = some m) : s.view.vpt v = m.flags ||| PTE_V := by
  unfold Space.view
  simp only [h]

theorem vpt_none (h : s.entry v = none) : s.view.vpt v = 0 := by
  unfold Space.view
  simp only [h]

theorem testFlag_valid (w : Nat) : testFlag (w ||| PTE_V) PTE_V = true := by
  rw [show PTE_V = 2 ^ 0 from rfl, testFlag_or, testFlag_two_pow (2 ^ 0)]
  exact Bool.or_true _

/-- A `syscall_mem_map` that `dup` makes. -/
theorem memMap_copied (mem : Bool) {srcva dstva : Nat} {m : Mapping} (hsrc : isIllegalVa srcva = false)
    (hdst : isIllegalVa dstva = false) (hm : s.entry (VPN srcva) = some m) :
    s.memMap mem srcva dstva (s.view.vpt (VPN srcva) &&& (PTE_W ||| PTE_LIBRARY)) =
      if s.table (VPN dstva / 1024) || mem then (0, s.map (VPN dstva) m.copied) else (-E_NO_MEM, s) := by
  unfold Space.memMap
  rw [hsrc, hdst, hm, vpt_some hm]
  rfl

theorem copyPages_succ (ova nva k : Nat) (ks : List Nat) (s : Space) :
    copyPages c ova nva (k :: ks) s =
      if testFlag (s.view.vpt (VPN (ova + BY2PG * k))) PTE_V then
        let x := s.memMap (c.mem k) (ova + BY2PG * k) (nva + BY2PG * k)
          (s.view.vpt (VPN (ova + BY2PG * k)) &&& (PTE_W ||| PTE_LIBRARY))
        if x.1 < 0 then x else copyPages c ova nva ks x.2
      else copyPages c ova nva ks s := by
  conv_lhs => unfold copyPages

/-- One round of the loop. -/
theorem copyPages_cons {k : Nat} {ks : List Nat} (hold : old < 32) (hnew : new < 32) (hk : k < 1024) :
    copyPages c (INDEX2DATA old) (INDEX2DATA new) (k :: ks) s =
      match s.entry (dataVpn old k) with
      | none => copyPages c (INDEX2DATA old) (INDEX2DATA new) ks s
      | some m =>
        if s.table (dataVpn new k / 1024) || c.mem k then
          copyPages c (INDEX2DATA old) (INDEX2DATA new) ks (s.map (dataVpn new k) m.copied)
        else (-E_NO_MEM, s) := by
  have hovpn : VPN (INDEX2DATA old + BY2PG * k) = dataVpn old k := rfl
  have hnvpn : VPN (INDEX2DATA new + BY2PG * k) = dataVpn new k := rfl
  rw [copyPages_succ, hovpn]
  cases hm : s.entry (dataVpn old k) with
  | none =>
    rw [vpt_none hm, testFlag_zero_left]
    exact if_neg nofun
  | some m =>
    have hneg : -E_NO_MEM < 0 := by decide
    have hmap := memMap_copied (c.mem k) (data_legal hold hk) (data_legal hnew hk) (hovpn ▸ hm)
    rw [hovpn, hnvpn] at hmap
    rw [hmap, vpt_some hm, testFlag_valid, if_pos rfl]
    split_ifs
    · rfl
    · exact if_pos hneg

theorem dataVpn_table (hd : d < 32) {k : Nat} (hk : k < 1024) : dataVpn d k / 1024 = 0x180 + d := by
  rw [dataVpn_eq hd]
  omega

theorem dataVpn_inj {d d' i i' : Nat} (hd : d < 32) (hd' : d' < 32) (hi : i < 1024) (hi' : i' < 1024)
    (h : dataVpn d i = dataVpn d' i') : d = d' ∧ i = i' := by
  rw [dataVpn_eq hd, dataVpn_eq hd'] at h
  omega

/-- What the loop brings: in the window of `new`, what the window of `old` has. -/
theorem copyPages_spec (c : DupCalls) (hold : old < 32) (hnew : new < 32) (ks : List Nat) (s : Space)
    (hks : ∀ k ∈ ks, k < 1024) (hnodup : ks.Nodup) :
    ∃ r s', copyPages c (INDEX2DATA old) (INDEX2DATA new) ks s = (r, s') ∧
      (∀ v, (∀ k < 1024, v ≠ dataVpn new k) → s'.entry v = s.entry v) ∧
      (r = 0 ∧ (∀ k ∈ ks, s'.entry (dataVpn new k) =
          match s.entry (dataVpn old k) with
          | some m => some m.copied
          | none => s.entry (dataVpn new k)) ∧
        (∀ k < 1024, k ∉ ks → s'.entry (dataVpn new k) = s.entry (dataVpn new k)) ∨
      r < 0 ∧ s.table (0x180 + new) = false ∧ old ≠ new) := by
  induction ks generalizing s with
  | nil => exact ⟨0, s, rfl, fun _ _ => rfl, Or.inl ⟨rfl, nofun, fun _ _ _ => rfl⟩⟩
  | cons k ks ih =>
    obtain ⟨hk, hks⟩ := List.forall_mem_cons.mp hks
    obtain ⟨hnot, hnodup⟩ := List.nodup_cons.mp hnodup
    rw [copyPages_cons hold hnew hk, dataVpn_table hnew hk]
    cases hm : s.entry (dataVpn old k) with
    | none =>
      obtain ⟨r, s', hrun, hother, hdone | hfail⟩ := ih s hks hnodup
      · refine ⟨r, s', hrun, hother, Or.inl ⟨hdone.1, ?_, fun j hj hj' => hdone.2.2 j hj ?_⟩⟩
        · refine List.forall_mem_cons.mpr ⟨?_, hdone.2.1⟩
          rw [hm]
          exact hdone.2.2 k hk hnot
        · exact fun h => hj' (List.mem_cons_of_mem _ h)
      · exact ⟨r, s', hrun, hother, Or.inr hfail⟩
    | some m =>
      by_cases hroom : (s.table (0x180 + new) || c.mem k) = true
      · simp only [if_pos hroom]
        have htable : (s.map (dataVpn new k) m.copied).table (0x180 + new) = true := by
          show (s.table (0x180 + new) || 0x180 + new == dataVpn new k / 1024) = true
          rw [dataVpn_table hnew hk, beq_self_eq_true, Bool.or_true]
        have hne : ∀ d < 32, ∀ j < 1024, j ≠ k → dataVpn d j ≠ dataVpn new k := fun d hd j hj hjk h =>
          hjk (dataVpn_inj hd hnew hj hk h).2
        obtain ⟨r, s', hrun, hother, ⟨hr, hdone, hrest⟩ | ⟨-, hfail, -⟩⟩ :=
          ih (s.map (dataVpn new k) m.copied) hks hnodup
        · refine ⟨r, s', hrun, fun v hv => ?_, Or.inl ⟨hr, List.forall_mem_cons.mpr ⟨?_, fun j hj => ?_⟩,
            fun j hj hj' => ?_⟩⟩
          · rw [hother v hv, Space.map_entry_of_ne (hv k hk)]
          · rw [hrest k hk hnot, Space.map_entry_self, hm]
          · have hjk : j ≠ k := fun h => hnot (h ▸ hj)
            rw [hdone j hj, Space.map_entry_of_ne (hne old hold j (hks j hj) hjk),
              Space.map_entry_of_ne (hne new hnew j (hks j hj) hjk)]
          · obtain ⟨hjk, hj'⟩ := not_or.mp (fun h => hj' (List.mem_cons.mpr h))
            rw [hrest j hj hj', Space.map_entry_of_ne (hne new hnew j hj hjk)]
        · rw [htable] at hfail
          cases hfail
      · simp only [if_neg hroom]
        rw [Bool.not_eq_true, Bool.or_eq_false_iff] at hroom
        refine ⟨-E_NO_MEM, s, rfl, fun _ _ => rfl, Or.inr ⟨by decide, hroom.1, fun heq => ?_⟩⟩
        have hin := s.inTable _ m hm
        rw [dataVpn_table hold hk, heq, hroom.1] at hin
        cases hin

/-- A page of descriptor `new`. -/
def OfFd (new v : Nat) : Prop := v = fdVpn new ∨ ∃ k < 1024, v = dataVpn new k

/-- At `err`, the new descriptor goes. -/
theorem dupErr_spec (hnew : new < 32) (s : Space) :
    Unmapped (OfFd new) s (dupErr (INDEX2FD new) (INDEX2DATA new) s) := by
  have hloop : ∀ n ≤ 1024, ∀ s, Unmapped (fun v => ∃ k < n, v = dataVpn new k) s
      ((List.range n).foldl (fun s k => (s.memUnmap (INDEX2DATA new + BY2PG * k)).2) s) := by
    intro n hn
    induction n with
    | zero => exact fun s => (Unmapped.refl s).congr fun v => iff_of_false nofun nofun
    | succ n ih =>
      intro s
      rw [List.range_succ, List.foldl_concat]
      refine ((ih (by omega) s).trans (memUnmap_spec (data_legal hnew (by omega))).2).congr fun v => ⟨?_, ?_⟩
      · rintro (⟨k, hk, rfl⟩ | rfl)
        · exact ⟨k, by omega, rfl⟩
        · exact ⟨n, by omega, rfl⟩
      · rintro ⟨k, hk, rfl⟩
        rcases Nat.lt_succ_iff_lt_or_eq.mp hk with hlt | rfl
        · exact Or.inl ⟨k, hlt, rfl⟩
        · exact Or.inr rfl
  exact (memUnmap_spec (fd_legal hnew)).2.trans (hloop 1024 le_rfl _)

-- ---------------------------------------------------------------------------
-- dup
-- ---------------------------------------------------------------------------

theorem dupMap_eq (oldfd : Nat) (n : Int) (s : Space) :
    dupMap c oldfd n s =
      let x := s.memMap c.memFd oldfd (INDEX2FD n) (s.view.vpt (VPN oldfd) &&& (PTE_W ||| PTE_LIBRARY))
      if x.1 < 0 then (x.1, dupErr (INDEX2FD n) (fd2data (INDEX2FD n)) x.2)
      else
        let y := if x.2.view.vpd (PDX (fd2data oldfd)) ≠ 0 then
            copyPages c (fd2data oldfd) (fd2data (INDEX2FD n)) (List.range 1024) x.2
          else (0, x.2)
        if y.1 < 0 then (y.1, dupErr (INDEX2FD n) (fd2data (INDEX2FD n)) y.2) else (n, y.2) := by
  conv_lhs => unfold dupMap

theorem fdVpn_ne_dataVpn (hd : d < 32) {d' : Nat} (hd' : d' < 32) (i : Nat) : fdVpn d ≠ dataVpn d' i := by
  rw [fdVpn_eq hd, dataVpn_eq hd']
  omega

theorem fdVpn_inj {d' : Nat} (hd : d < 32) (hd' : d' < 32) (h : fdVpn d = fdVpn d') : d = d' := by
  rw [fdVpn_eq hd, fdVpn_eq hd'] at h
  omega

/-- The loop of `dup`, with the test before it. -/
theorem dupLoop_spec (c : DupCalls) (hold : old < 32) (hnew : new < 32) (s : Space) :
    ∃ r s', (if s.view.vpd (PDX (INDEX2DATA old)) ≠ 0 then
          copyPages c (INDEX2DATA old) (INDEX2DATA new) (List.range 1024) s
        else (0, s)) = (r, s') ∧
      (∀ v, (∀ k < 1024, v ≠ dataVpn new k) → s'.entry v = s.entry v) ∧
      (r = 0 ∧ (∀ k < 1024, s'.entry (dataVpn new k) =
          match s.entry (dataVpn old k) with
          | some m => some m.copied
          | none => s.entry (dataVpn new k)) ∨
        r < 0 ∧ s.table (0x180 + new) = false ∧ old ≠ new) := by
  have hpd : s.view.vpd (PDX (INDEX2DATA old)) = if s.table (0x180 + old) then PTE_V else 0 := by
    show (if s.table (PDX (INDEX2DATA old)) then PTE_V else 0) = _
    rw [PDX_eq, INDEX2DATA_of_lt hold, show (FILEBASE + old * PDMAP) / 2 ^ 22 % 1024 = 0x180 + old by
      simp only [FILEBASE, PDMAP]
      omega]
  rw [hpd]
  cases htable : s.table (0x180 + old) with
  | true =>
    have hV : PTE_V ≠ 0 := by decide
    rw [if_pos rfl, if_pos hV]
    obtain ⟨r, s', hrun, hother, hdone | hfail⟩ := copyPages_spec c hold hnew (List.range 1024) s
      (fun k hk => List.mem_range.mp hk) List.nodup_range
    · exact ⟨r, s', hrun, hother, Or.inl ⟨hdone.1, fun k hk => hdone.2.1 k (List.mem_range.mpr hk)⟩⟩
    · exact ⟨r, s', hrun, hother, Or.inr hfail⟩
  | false =>
    -- without a page table, `old` has no pages
    refine ⟨0, s, rfl, fun _ _ => rfl, Or.inl ⟨rfl, fun k hk => ?_⟩⟩
    cases hm : s.entry (dataVpn old k) with
    | none => rfl
    | some m =>
      have hin := s.inTable _ m hm
      rw [dataVpn_table hold hk, htable] at hin
      cases hin

/-- What `dup` does after `close`. -/
theorem dupMap_spec (c : DupCalls) (hold : old < 32) (hnew : new < 32) (s : Space) :
    ∃ r s', dupMap c (INDEX2FD old) new s = (r, s') ∧
      (∀ v, ¬ OfFd new v → s'.entry v = s.entry v) ∧
      (r = new ∧ (∃ m, s.entry (fdVpn old) = some m ∧ s'.entry (fdVpn new) = some m.copied) ∧
          (∀ k < 1024, s'.entry (dataVpn new k) =
            match s.entry (dataVpn old k) with
            | some m => some m.copied
            | none => s.entry (dataVpn new k)) ∨
        r < 0 ∧ (s.entry (fdVpn old) = none ∨ s.table (0x180 + new) = false ∧ old ≠ new) ∧
          ∀ v, OfFd new v → s'.entry v = none) := by
  have hofd : VPN (INDEX2FD old) = fdVpn old := rfl
  have hnfd : VPN (INDEX2FD new) = fdVpn new := rfl
  rw [dupMap_eq, fd2data_INDEX2FD hold, fd2data_INDEX2FD hnew, hofd]
  cases hm : s.entry (fdVpn old) with
  | none =>
    have hmap : s.memMap c.memFd (INDEX2FD old) (INDEX2FD new)
        (s.view.vpt (fdVpn old) &&& (PTE_W ||| PTE_LIBRARY)) = (-E_INVAL, s) := by
      unfold Space.memMap
      rw [fd_legal hold, fd_legal hnew, hofd, hm]
      rfl
    have hneg : -E_INVAL < 0 := by decide
    have hun := dupErr_spec hnew s
    simp only [hmap, if_pos hneg]
    exact ⟨_, _, rfl, hun.kept, Or.inr ⟨hneg, Or.inl trivial, hun.taken⟩⟩
  | some m =>
    have hmap := memMap_copied c.memFd (fd_legal hold) (fd_legal hnew) (hofd ▸ hm)
    have htable : s.table (fdVpn new / 1024) = true := by
      have hin := s.inTable _ m hm
      rw [fdVpn_eq hold] at hin
      rw [fdVpn_eq hnew, show (0x5fc00 + new) / 1024 = (0x5fc00 + old) / 1024 by omega]
      exact hin
    rw [hofd, hnfd, htable, Bool.true_or, if_pos rfl] at hmap
    obtain ⟨r, s', hrun, hother, hend⟩ := dupLoop_spec c hold hnew (s.map (fdVpn new) m.copied)
    simp only [hmap, Int.lt_irrefl, if_false, hrun]
    have hentry : ∀ v, v ≠ fdVpn new → (s.map (fdVpn new) m.copied).entry v = s.entry v := fun v hv =>
      Space.map_entry_of_ne hv
    rcases hend with ⟨rfl, hdata⟩ | ⟨hneg, hnotable, hapart⟩
    · rw [if_neg (Int.lt_irrefl 0)]
      refine ⟨_, _, rfl, fun v hv => ?_, Or.inl ⟨rfl, ⟨m, rfl, ?_⟩, fun k hk => ?_⟩⟩
      · rw [hother v fun k hk h => hv (Or.inr ⟨k, hk, h⟩), hentry v fun h => hv (Or.inl h)]
      · rw [hother _ fun k hk => fdVpn_ne_dataVpn hnew hnew k, Space.map_entry_self]
      · rw [hdata k hk, hentry _ (fdVpn_ne_dataVpn hnew hold k).symm, hentry _ (fdVpn_ne_dataVpn hnew hnew k).symm]
    · have hun := dupErr_spec hnew s'
      rw [if_pos hneg]
      refine ⟨_, _, rfl, fun v hv => ?_, Or.inr ⟨hneg, Or.inr ?_, hun.taken⟩⟩
      · rw [hun.kept v hv, hother v fun k hk h => hv (Or.inr ⟨k, hk, h⟩), hentry v fun h => hv (Or.inl h)]
      · unfold Space.map at hnotable
        exact ⟨(Bool.or_eq_false_iff.mp hnotable).1, hapart⟩

/-- Of the `Fd` pages, `close` takes one only; with a page of the window it takes that too. -/
theorem CloseTakes.fd (hnew : new < 32) (hd : d < 32) (h : CloseTakes c new s (fdVpn d)) : d = new := by
  obtain ⟨-, dev, -, hdev | hfd⟩ := h
  · cases dev with
    | devfile =>
      obtain ⟨-, k, -, -, hk⟩ := hdev
      exact absurd hk (fdVpn_ne_dataVpn hd hnew k)
    | devcons => exact hdev.elim
    | devpipe => exact absurd hdev (fdVpn_ne_dataVpn hd hnew 0)
  · exact fdVpn_inj hd hnew hfd

theorem CloseTakes.also_fd (h : CloseTakes c new s v) : CloseTakes c new s (fdVpn new) := by
  obtain ⟨hopen, dev, hdev, -⟩ := h
  exact ⟨hopen, dev, hdev, Or.inr rfl⟩

/-- `dup` of an open descriptor, once `close` has come back. -/
theorem dupDone_iff (hold : old < 32) (hnew : new < 32) (hopen : s.entry (fdVpn old) ≠ none) {s₁ : Space}
    (hun : Unmapped (CloseTakes c new s) s s₁) {r : Int} (hrun : dupMap c (INDEX2FD old) new s₁ = (r, s')) :
    DupDone old new s r s' ↔ DupSafe c old new s := by
  obtain ⟨r', s'', hrun', hother, hend⟩ := dupMap_spec c hold hnew s₁
  rw [hrun] at hrun'
  cases hrun'
  have hnotFd : ∀ {d}, d < 32 → d ≠ new → ¬ OfFd new (fdVpn d) := fun {d} hd hne h => by
    rcases h with h | ⟨k, -, h⟩
    · exact hne (fdVpn_inj hd hnew h)
    · exact fdVpn_ne_dataVpn hd hnew k h
  have hnotData : ∀ {d i}, d < 32 → i < 1024 → d ≠ new → ¬ OfFd new (dataVpn d i) := fun {d i} hd hi hne h => by
    rcases h with h | ⟨k, hk, h⟩
    · exact fdVpn_ne_dataVpn hnew hd i h.symm
    · exact hne (dataVpn_inj hd hnew hi hk h).1
  -- an empty entry stays empty
  have hnone : ∀ {v}, s.entry v = none → s₁.entry v = none := fun {v} hv => by
    by_cases ht : CloseTakes c new s v
    · exact hun.taken v ht
    · rw [hun.kept v ht]
      exact hv
  constructor
  · intro hdone
    refine ⟨fun heq ht => ?_, fun d hd hne i hi ht => ?_, fun i hi hsome hfree => ?_⟩
    · subst heq
      have hgone := hun.taken _ ht
      rcases hend with ⟨-, ⟨m, hm, -⟩, -⟩ | ⟨-, -, hall⟩
      · rw [hgone] at hm
        cases hm
      · have hsame := hdone.oldFd
        rw [hall _ (Or.inl rfl)] at hsame
        exact hopen (Option.map_eq_none_iff.mp hsame.symm)
    · have hgone : s'.entry (dataVpn d i) = none := by
        rw [hother _ (hnotData hd hi hne)]
        exact hun.taken _ ht
      by_cases hdo : d = old
      · have hsame := hdone.oldData i hi
        rw [← hdo, hgone] at hsame
        exact Option.map_eq_none_iff.mp hsame.symm
      · rw [← (hdone.others d hd hdo hne).2 i hi]
        exact hgone
    · by_contra hnot
      have hstay := hun.kept _ hnot
      have hne : old ≠ new := fun heq => hsome (heq ▸ hfree)
      have hfd := hun.kept (fdVpn old) fun ht => hne (ht.fd hnew hold)
      obtain ⟨m, hm⟩ := Option.ne_none_iff_exists'.mp hsome
      rcases hend with ⟨hr, -, hdata⟩ | ⟨-, hwhy, -⟩
      · have hsame := hdone.newData hr i hi
        rw [hdata i hi, hnone hfree, hstay, hm, hfree] at hsame
        cases hsame
      · rcases hwhy with hclosed | ⟨htable, -⟩
        · rw [hfd] at hclosed
          exact hopen hclosed
        · have hin := s₁.inTable _ m (hstay.trans hm)
          rw [dataVpn_table hnew hi, htable] at hin
          cases hin
  · intro hsafe
    have holdFd : s₁.entry (fdVpn old) = s.entry (fdVpn old) := hun.kept _ fun ht =>
      hsafe.apart (ht.fd hnew hold) ht.also_fd
    have hkeepData : ∀ d < 32, (d = new → old = new) → ∀ i < 1024,
        s₁.entry (dataVpn d i) = s.entry (dataVpn d i) := fun d hd hdn i hi => by
      by_cases ht : CloseTakes c new s (dataVpn d i)
      · have hne : d ≠ new := fun h => hsafe.apart (hdn h) ht.also_fd
        rw [hsafe.only d hd hne i hi ht]
        exact hun.taken _ ht
      · exact hun.kept _ ht
    have holdData := hkeepData old hold id
    -- what the new descriptor refers to, if `dup` does not fail
    have hnewFd : r = new → (s'.entry (fdVpn new)).map Mapping.shown = (s.entry (fdVpn old)).map Mapping.shown := by
      intro hr
      rcases hend with ⟨-, ⟨m, hm, hm'⟩, -⟩ | ⟨hneg, -⟩
      · rw [hm', ← holdFd, hm]
        exact congrArg some (copied_shown m)
      · omega
    have hnewData : r = new → ∀ i < 1024,
        (s'.entry (dataVpn new i)).map Mapping.shown = (s.entry (dataVpn old i)).map Mapping.shown := by
      intro hr i hi
      rcases hend with ⟨-, -, hdata⟩ | ⟨hneg, -⟩
      · rw [hdata i hi, holdData i hi]
        cases hm : s.entry (dataVpn old i) with
        | some m => exact congrArg some (copied_shown m)
        | none =>
          have hgone : s₁.entry (dataVpn new i) = none := by
            by_cases hsome : s.entry (dataVpn new i) = none
            · exact hnone hsome
            · exact hun.taken _ (hsafe.all i hi hsome hm)
          show Option.map _ (s₁.entry (dataVpn new i)) = none
          rw [hgone]
          rfl
      · omega
    have hsucceeds : old = new → r = new := fun heq => by
      rcases hend with ⟨hr, -⟩ | ⟨-, hwhy, -⟩
      · exact hr
      · rcases hwhy with hclosed | ⟨-, hne⟩
        · rw [holdFd] at hclosed
          exact absurd hclosed hopen
        · exact absurd heq hne
    have hframe : ∀ {a b : Option Mapping}, a.map Mapping.shown = b.map Mapping.shown →
        a.map Mapping.frame = b.map Mapping.frame := fun {a b} h => by
      have h' := congrArg (Option.map Prod.fst) h
      rw [Option.map_map, Option.map_map] at h'
      exact h'
    refine ⟨?_, fun i hi => ?_, ?_, hnewFd, hnewData, fun hneg => ?_, fun d hd hdo hdn => ⟨?_, fun i hi => ?_⟩⟩
    · by_cases heq : old = new
      · subst heq
        exact hframe (hnewFd (hsucceeds rfl))
      · rw [hother _ (hnotFd hold heq), holdFd]
    · by_cases heq : old = new
      · subst heq
        exact hframe (hnewData (hsucceeds rfl) i hi)
      · rw [hother _ (hnotData hold hi heq), holdData i hi]
    · exact hend.imp (fun h => h.1) fun h => h.1
    · rcases hend with ⟨hr, -⟩ | ⟨-, -, hall⟩
      · omega
      · exact ⟨hall _ (Or.inl rfl), fun i hi => hall _ (Or.inr ⟨i, hi, rfl⟩)⟩
    · rw [hother _ (hnotFd hd hdn)]
      exact hun.kept _ fun ht => hdn (ht.fd hnew hd)
    · rw [hother _ (hnotData hd hi hdn)]
      exact hkeepData d hd (fun h => absurd h hdn) i hi

/-- **Duplicating a descriptor.** -/
theorem dup_right_iff (c : DupCalls) (s : Space) (hold : old < 32) (hnew : new < 32)
    (hopen : s.entry (fdVpn old) ≠ none) : DupRight c old new s ↔ CloseHangs c new s ∨ DupSafe c old new s := by
  have hM : MAXFD = 32 := rfl
  have hlook : s.view.fdLookup old = .ok (INDEX2FD old) :=
    fdLookup_of_used (by omega) (by rw [Space.used_view]; exact Option.isSome_iff_ne_none.mpr hopen)
  rcases close_spec c hnew s with ⟨hhang, hclose⟩ | ⟨hends, r₁, s₁, hclose, hun⟩
  · refine iff_of_true (fun r s' h => ?_) (Or.inl hhang)
    unfold dup at h
    rw [hlook, hclose] at h
    cases h
  · obtain ⟨r, s', hrun, -⟩ := dupMap_spec c hold hnew s₁
    have hdup : dup c old new s = some (r, s') := by
      unfold dup
      rw [hlook, hclose]
      exact congrArg some hrun
    have hdone := dupDone_iff hold hnew hopen hun hrun
    constructor
    · exact fun hright => Or.inr (hdone.mp (hright _ _ hdup))
    · intro hsafe r' s'' h
      rw [hdup] at h
      cases h
      exact hdone.mpr (hsafe.resolve_left hends)

/-- Descriptor 0 is the console, and there is no other. -/
def console : Space := Space.empty.map (fdVpn 0) ⟨7, PTE_LIBRARY ||| PTE_U ||| PTE_W ||| PTE_R ||| PTE_V⟩

def consoleCalls : DupCalls where
  fd _ := ⟨Dev.devcons.devId, 0, O_RDWR, 0, 0⟩
  closeReply := 0
  memFd := true
  mem _ := true

theorem dup_right_fresh : DupRight consoleCalls 0 1 console := by
  have hnone : console.entry (fdVpn 1) = none := by decide
  refine (dup_right_iff consoleCalls console (by decide) (by decide) (by decide)).mpr (Or.inr ?_)
  refine ⟨nofun, fun d _ _ i _ ht => absurd hnone ht.1, fun i _ hsome _ => absurd ?_ hsome⟩
  exact Space.map_entry_of_ne (fdVpn_ne_dataVpn (by decide) (by decide) i).symm

/-- `dup(0, 0)` closes descriptor 0, and then there is nothing to map. -/
theorem dup_same : ¬ DupRight consoleCalls 0 0 console ∧
    (dup consoleCalls 0 0 console).map Prod.fst = some (-E_INVAL) := by
  have hr : (dup consoleCalls 0 0 console).map Prod.fst = some (-E_INVAL) := by decide
  have hgone : (dup consoleCalls 0 0 console).map (fun x => x.2.entry (fdVpn 0)) = some none := by decide +kernel
  refine ⟨fun hright => ?_, hr⟩
  obtain ⟨⟨r, s'⟩, hdup, hs'⟩ := Option.map_eq_some_iff.mp hgone
  have hsame := (hright r s' hdup).oldFd
  rw [hs'] at hsame
  exact absurd hsame (by decide)

end Mos.User
