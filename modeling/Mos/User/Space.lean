import Mos.User.FdTable

/-!
# MOS on RISC-V — the pages of a process

What a process can do to its address space with system calls, page by page: an entry is a
frame with its flags, behind a page table that is there. Where a page table is missing, the
kernel needs a page for it.

The descriptors are pages of this space: an `Fd` page in the table, and 1024 data pages in
the window of the descriptor.

Main results:

* `Space.mapped_view` — the window of page tables shows the entries;
* `fdVpn_eq`, `dataVpn_eq` — the pages of the descriptors, which are apart.
-/

namespace Mos.User

open Mos.Lib Mos.Kern

/-- A page-table entry: the frame, and the flags below it. -/
structure Mapping where
  frame : Nat
  flags : Nat
  deriving DecidableEq, Repr

/-- The pages below `UTOP`, by number; a page table has 1024 of them. -/
structure Space where
  table : Nat → Bool
  entry : Nat → Option Mapping
  inTable : ∀ vpn m, entry vpn = some m → table (vpn / 1024) = true

namespace Space

variable (s : Space)

/-- A page is mapped; its page table is made if it is missing. -/
def map (vpn : Nat) (m : Mapping) : Space where
  table i := s.table i || i == vpn / 1024
  entry := Function.update s.entry vpn (some m)
  inTable := by
    intro v m' h
    by_cases hv : v = vpn
    · rw [hv, beq_self_eq_true, Bool.or_true]
    · rw [Function.update_of_ne hv] at h
      rw [s.inTable v m' h, Bool.true_or]

def unmap (vpn : Nat) : Space where
  table := s.table
  entry := Function.update s.entry vpn none
  inTable := by
    intro v m' h
    by_cases hv : v = vpn
    · rw [hv, Function.update_self] at h
      cases h
    · rw [Function.update_of_ne hv] at h
      exact s.inTable v m' h

/-- The frame behind an address; `0` where there is none. -/
def frameAt (va : Nat) : Nat := ((s.entry (VPN va)).map Mapping.frame).getD 0

/-- What the process reads in the window of page tables. -/
def view : PageView where
  vpd i := if s.table i then PTE_V else 0
  vpt vpn := match s.entry vpn with
    | some m => m.flags ||| PTE_V
    | none => 0

/-- `syscall_mem_alloc(0, va, perm)`; `page` is the page the kernel finds, if it has what
it needs. -/
def memAlloc (page : Option Nat) (va perm : Nat) : Int × Space :=
  if isIllegalVa va then (-E_INVAL, s)
  else
    match page with
    | none => (-E_NO_MEM, s)
    | some f => (0, s.map (VPN va) ⟨f, readable (perm ||| PTE_U) ||| PTE_V⟩)

/-- `syscall_mem_map(0, srcva, 0, dstva, perm)`; `mem` says whether there is a page for a
page table that is missing. -/
def memMap (mem : Bool) (srcva dstva perm : Nat) : Int × Space :=
  if isIllegalVa srcva then (-E_INVAL, s)
  else if isIllegalVa dstva then (-E_INVAL, s)
  else
    match s.entry (VPN srcva) with
    | none => (-E_INVAL, s)
    | some m =>
      if s.table (VPN dstva / 1024) || mem then
        (0, s.map (VPN dstva) ⟨m.frame, readable (perm ||| PTE_U) ||| PTE_V⟩)
      else (-E_NO_MEM, s)

/-- `syscall_mem_unmap(0, va)`. -/
def memUnmap (va : Nat) : Int × Space :=
  if isIllegalVa va then (-E_INVAL, s) else (0, s.unmap (VPN va))

end Space

/-- The page numbers of descriptor `d`: its `Fd` page, and page `i` of its window. -/
def fdVpn (d : Nat) : Nat := VPN (INDEX2FD d)
def dataVpn (d i : Nat) : Nat := VPN (INDEX2DATA d + BY2PG * i)

/-- What is in an `Fd` page, as a `struct Filefd`. -/
structure FdPage where
  devId : Nat
  offset : Nat
  omode : Nat
  fileid : Nat
  size : Nat
  deriving DecidableEq, Repr

-- ---------------------------------------------------------------------------
-- Lemmas
-- ---------------------------------------------------------------------------

variable {s : Space} {d i vpn va : Nat} {m : Mapping}

theorem Space.map_entry_self : (s.map vpn m).entry vpn = some m := Function.update_self ..

theorem Space.map_entry_of_ne {v : Nat} (h : v ≠ vpn) : (s.map vpn m).entry v = s.entry v :=
  Function.update_of_ne h ..

theorem Space.unmap_entry_self : (s.unmap vpn).entry vpn = none := Function.update_self ..

theorem Space.unmap_entry_of_ne {v : Nat} (h : v ≠ vpn) : (s.unmap vpn).entry v = s.entry v :=
  Function.update_of_ne h ..

theorem Space.map_table {j : Nat} (h : s.table j = true) : (s.map vpn m).table j = true := by
  show (s.table j || _) = true
  rw [h, Bool.true_or]

theorem PDX_eq_VPN (va : Nat) : PDX va = VPN va / 1024 % 1024 := by
  rw [PDX_eq, show VPN va = va / 4096 from PPN_eq va]
  omega

/-- The window of page tables shows the entries. -/
theorem Space.mapped_view (hva : va < 2 ^ 32) : s.view.mapped va = (s.entry (VPN va)).isSome := by
  have hpd : PDX va = VPN va / 1024 := by
    rw [PDX_eq_VPN, show VPN va = va / 4096 from PPN_eq va]
    omega
  have hV : ∀ w, testFlag (w ||| PTE_V) PTE_V = true := fun w => by
    rw [show PTE_V = 2 ^ 0 from rfl, testFlag_or, testFlag_two_pow (2 ^ 0)]
    simp
  unfold PageView.mapped Space.view
  simp only [hpd]
  cases he : s.entry (VPN va) with
  | none =>
    simp only [testFlag_zero_left, Bool.and_false]
    rfl
  | some m =>
    simp only [s.inTable _ _ he, hV]
    rfl

theorem fdVpn_eq (hd : d < 32) : fdVpn d = 0x5fc00 + d := by
  unfold fdVpn
  rw [INDEX2FD_of_lt hd, show VPN _ = _ from PPN_eq _]
  simp only [FDTABLE, FILEBASE, PDMAP, BY2PG]
  omega

theorem dataVpn_eq (hd : d < 32) (i : Nat) : dataVpn d i = 0x60000 + 1024 * d + i := by
  unfold dataVpn
  rw [INDEX2DATA_of_lt hd, show VPN _ = _ from PPN_eq _]
  simp only [FILEBASE, PDMAP, BY2PG]
  omega

/-- The descriptors are in the range the system calls allow. -/
theorem fd_legal (hd : d < 32) : isIllegalVa (INDEX2FD d) = false := by
  have hT : UTEMP = 0x3fe000 ∧ UTOP = 0x7f400000 := by decide
  unfold isIllegalVa
  rw [INDEX2FD_of_lt hd, decide_eq_false_iff_not]
  simp only [FDTABLE, FILEBASE, PDMAP, BY2PG]
  omega

theorem data_legal (hd : d < 32) (hi : i < 1024) : isIllegalVa (INDEX2DATA d + BY2PG * i) = false := by
  have hT : UTEMP = 0x3fe000 ∧ UTOP = 0x7f400000 := by decide
  unfold isIllegalVa
  rw [INDEX2DATA_of_lt hd, decide_eq_false_iff_not]
  simp only [FILEBASE, PDMAP, BY2PG]
  omega

/-- Which descriptors are in use. -/
theorem Space.used_view (s : Space) (d : Nat) : s.view.used (d : Int) = (s.entry (fdVpn d)).isSome :=
  Space.mapped_view (INDEX2FD_lt_two_pow _)

/-- What `fd_alloc` gives is not mapped. -/
theorem Space.fdAlloc_free {fd : Nat} (h : s.view.fdAlloc = .ok fd) :
    ∃ d : Nat, d < 31 ∧ fd = INDEX2FD d ∧ s.entry (fdVpn d) = none := by
  have hmax : (MAXFD - 1).toNat = 31 := rfl
  rcases fdAllocFrom_cases (v := s.view) (MAXFD - 1).toNat 0 with ⟨d, -, hd, hfree, -, heq⟩ | ⟨-, heq⟩
  · have heq : s.view.fdAlloc = .ok (INDEX2FD d) := heq
    have hfd : fd = INDEX2FD d := by
      rw [h] at heq
      exact Except.ok.inj heq
    rw [s.used_view, Option.isSome_eq_false_iff, Option.isNone_iff_eq_none] at hfree
    exact ⟨d, by omega, hfd, hfree⟩
  · have heq : s.view.fdAlloc = _ := heq
    rw [h] at heq
    cases heq

end Mos.User
