import Mos.Lib.Bits

/-!
# MOS on RISC-V — memory layout and the Sv32 word formats

The constants and macros of `include/mmu.h`, `include/error.h` and the address
helpers of `include/pmap.h`. A 32-bit value is a natural number; the places
where the C arithmetic wraps carry an explicit `% 2 ^ 32`. The kernel maps
physical memory one to one, so a kernel virtual address is a physical address,
and both are used here through the index of the frame they fall in.

Main facts: `PTE_ADDR_mkPte` (a page-table entry with flags below bit 10 names
exactly the frame it was built for) and `pa2idx_page2pa` (`pa2page` inverts
`page2pa` on the managed frames).
-/

namespace Mos.Kern

open Mos.Lib

-- ---------------------------------------------------------------------------
-- Constants of include/mmu.h
-- ---------------------------------------------------------------------------

def PMEMSIZE : Nat := 64 * 1024 * 1024
def BY2PG : Nat := 4096
def PDMAP : Nat := 4 * 1024 * 1024
def OPENSBISIZE : Nat := 0x200000
def KERNBASE : Nat := 0x80200000
def KSTACKTOP : Nat := 0x80600000
def ULIM : Nat := 0x80000000
def UVPT : Nat := ULIM - PDMAP
def UPAGES : Nat := UVPT - PDMAP
def UENVS : Nat := UPAGES - PDMAP
def UTOP : Nat := UENVS
def UXSTACKTOP : Nat := UTOP
def USTACKTOP : Nat := UTOP - 2 * BY2PG
def UTEXT : Nat := PDMAP
def UCOW : Nat := UTEXT - BY2PG
def UTEMP : Nat := UCOW - BY2PG

def PTE_V : Nat := 0x001
def PTE_R : Nat := 0x002
def PTE_W : Nat := 0x004
def PTE_X : Nat := 0x008
def PTE_U : Nat := 0x010
def PTE_G : Nat := 0x020
def PTE_A : Nat := 0x040
def PTE_D : Nat := 0x080
def PTE_COW : Nat := 0x100
def PTE_LIBRARY : Nat := 0x200

/-- `npage`, as `mips_detect_memory` computes it. -/
def npage : Nat := (PMEMSIZE - OPENSBISIZE) / BY2PG

-- ---------------------------------------------------------------------------
-- Error codes of include/error.h
-- ---------------------------------------------------------------------------

def E_BAD_ENV : Int := 2
def E_INVAL : Int := 3
def E_NO_MEM : Int := 4
def E_NO_SYS : Int := 5
def E_NO_FREE_ENV : Int := 6
def E_IPC_NOT_RECV : Int := 7
def E_NO_RING_DESC : Int := 14

-- ---------------------------------------------------------------------------
-- Macros
-- ---------------------------------------------------------------------------

def PDX (va : Nat) : Nat := (va >>> 22) &&& 0x03FF
def PTX (va : Nat) : Nat := (va >>> 12) &&& 0x03FF
def PPN (va : Nat) : Nat := va >>> 12
def VPN (va : Nat) : Nat := va >>> 12

/-- `PTE_ADDR`: the physical address in an entry (`(pte & ~0x3FF) << 2`). -/
def PTE_ADDR (pte : Nat) : Nat := ((pte &&& (2 ^ 32 - 2 ^ 10)) <<< 2) % 2 ^ 32

/-- `ADDR_PTE`: the entry field of a physical address. -/
def ADDR_PTE (addr : Nat) : Nat := (PPN addr <<< 10) % 2 ^ 32

/-- `pa - KERNBASE` in `u_long` arithmetic, as a frame index (`PA2IDX`). -/
def pa2idx (pa : Nat) : Nat := PPN ((pa + (2 ^ 32 - KERNBASE)) % 2 ^ 32)

/-- `page2pa`, for the page `pages + f`. -/
def page2pa (f : Nat) : Nat := ((f + PPN KERNBASE) <<< 12) % 2 ^ 32

/-- The word `page_insert` stores for frame `f` under `perm`. -/
def mkPte (f perm : Nat) : Nat := ADDR_PTE (page2pa f) ||| perm ||| PTE_V

/-- The word `pgdir_walk` stores for the page table in frame `t`. -/
def mkPde (t : Nat) : Nat := ADDR_PTE (page2pa t) ||| PTE_V

/-- The frame an entry points to. -/
def pteFrame (pte : Nat) : Nat := pa2idx (PTE_ADDR pte)

-- ---------------------------------------------------------------------------
-- Arithmetic of the macros
-- ---------------------------------------------------------------------------

theorem npage_eq : npage = 15872 := by decide

theorem PDX_eq (va : Nat) : PDX va = va / 2 ^ 22 % 1024 := by
  unfold PDX
  rw [show (0x03FF : Nat) = 2 ^ 10 - 1 from rfl, Nat.and_two_pow_sub_one_eq_mod,
    Nat.shiftRight_eq_div_pow]

theorem PTX_eq (va : Nat) : PTX va = va / 2 ^ 12 % 1024 := by
  unfold PTX
  rw [show (0x03FF : Nat) = 2 ^ 10 - 1 from rfl, Nat.and_two_pow_sub_one_eq_mod,
    Nat.shiftRight_eq_div_pow]

theorem PDX_lt (va : Nat) : PDX va < 1024 := by
  rw [PDX_eq]
  omega

theorem PTX_lt (va : Nat) : PTX va < 1024 := by
  rw [PTX_eq]
  omega

theorem PPN_eq (va : Nat) : PPN va = va / 4096 := by
  unfold PPN
  rw [Nat.shiftRight_eq_div_pow]

theorem PPN_KERNBASE : PPN KERNBASE = 0x80200 := by decide

theorem page2pa_eq {f : Nat} (hf : f < npage) : page2pa f = (f + 0x80200) * 4096 := by
  rw [npage_eq] at hf
  unfold page2pa
  rw [PPN_KERNBASE, Nat.shiftLeft_eq]
  omega

theorem page2pa_inj {f g : Nat} (hf : f < npage) (hg : g < npage)
    (h : page2pa f = page2pa g) : f = g := by
  rw [page2pa_eq hf, page2pa_eq hg] at h
  omega

theorem pa2idx_page2pa {f : Nat} (hf : f < npage) : pa2idx (page2pa f) = f := by
  rw [page2pa_eq hf]
  rw [npage_eq] at hf
  unfold pa2idx KERNBASE
  rw [PPN_eq]
  omega

theorem ADDR_PTE_page2pa {f : Nat} (hf : f < npage) :
    ADDR_PTE (page2pa f) = (f + 0x80200) * 2 ^ 10 := by
  rw [page2pa_eq hf]
  rw [npage_eq] at hf
  unfold ADDR_PTE
  rw [PPN_eq, Nat.shiftLeft_eq]
  omega

theorem PTE_ADDR_eq {w : Nat} (hw : w < 2 ^ 32) :
    PTE_ADDR w = w / 2 ^ 10 % 2 ^ 20 * 4096 := by
  unfold PTE_ADDR
  rw [land_high_mask (by decide) hw, Nat.shiftLeft_eq]
  omega

theorem PTE_ADDR_lt (w : Nat) : PTE_ADDR w < 2 ^ 32 := Nat.mod_lt _ (by decide)

/-- An entry whose low field fits in the ten flag bits names its frame. -/
theorem PTE_ADDR_flags {f fl : Nat} (hf : f < npage) (hfl : fl < 2 ^ 10) :
    PTE_ADDR (ADDR_PTE (page2pa f) ||| fl) = page2pa f := by
  rw [ADDR_PTE_page2pa hf, field_or_flags hfl, page2pa_eq hf]
  rw [npage_eq] at hf
  rw [PTE_ADDR_eq (by omega)]
  omega

theorem mkPte_eq (f perm : Nat) : mkPte f perm = ADDR_PTE (page2pa f) ||| (perm ||| PTE_V) := by
  unfold mkPte
  rw [Nat.or_assoc]

theorem PTE_ADDR_mkPte {f perm : Nat} (hf : f < npage) (hp : perm < 2 ^ 10) :
    PTE_ADDR (mkPte f perm) = page2pa f := by
  rw [mkPte_eq]
  exact PTE_ADDR_flags hf (Nat.or_lt_two_pow hp (by decide))

theorem PTE_ADDR_mkPde {t : Nat} (ht : t < npage) : PTE_ADDR (mkPde t) = page2pa t :=
  PTE_ADDR_flags ht (by decide)

theorem testFlag_V_mkPte (f perm : Nat) : testFlag (mkPte f perm) PTE_V = true := by
  unfold mkPte
  rw [show PTE_V = 2 ^ 0 from rfl, testFlag_or, testFlag_two_pow (2 ^ 0)]
  simp

theorem testFlag_V_mkPde (t : Nat) : testFlag (mkPde t) PTE_V = true := by
  unfold mkPde
  rw [show PTE_V = 2 ^ 0 from rfl, testFlag_or, testFlag_two_pow (2 ^ 0)]
  simp

theorem testBit_ADDR_PTE (addr : Nat) {k : Nat} (hk : k < 10) :
    (ADDR_PTE addr).testBit k = false := by
  unfold ADDR_PTE
  rw [Nat.testBit_mod_two_pow, Nat.testBit_shiftLeft]
  have : ¬ 10 ≤ k := by omega
  simp [this]

/-- The flags of an entry are those it was built with. -/
theorem testFlag_mkPte (f perm : Nat) {k : Nat} (hk : k < 10) (h0 : k ≠ 0) :
    testFlag (mkPte f perm) (2 ^ k) = testFlag perm (2 ^ k) := by
  have hV : testFlag (2 ^ 0) (2 ^ k) = false := by
    rw [testFlag_two_pow, Nat.testBit_two_pow]
    simp [Ne.symm h0]
  unfold mkPte
  rw [show PTE_V = 2 ^ 0 from rfl, testFlag_or, testFlag_or, hV, testFlag_two_pow (ADDR_PTE _),
    testBit_ADDR_PTE _ hk, Bool.false_or, Bool.or_false]

theorem testFlag_mkPde (t : Nat) {k : Nat} (hk : k < 10) (h0 : k ≠ 0) :
    testFlag (mkPde t) (2 ^ k) = false := by
  have hV : testFlag (2 ^ 0) (2 ^ k) = false := by
    rw [testFlag_two_pow, Nat.testBit_two_pow]
    simp [Ne.symm h0]
  unfold mkPde
  rw [show PTE_V = 2 ^ 0 from rfl, testFlag_or, hV, testFlag_two_pow, testBit_ADDR_PTE _ hk]
  rfl

theorem pteFrame_mkPde {t : Nat} (ht : t < npage) : pteFrame (mkPde t) = t := by
  unfold pteFrame
  rw [PTE_ADDR_mkPde ht, pa2idx_page2pa ht]

end Mos.Kern
